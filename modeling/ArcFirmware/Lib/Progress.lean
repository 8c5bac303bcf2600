import ArcFirmware.Lib.Port

/-!
# Programs that return

A program that polls returns only where its device lets it.  What the device
does is a condition `live` on the history; `Ends` is the weakest precondition for
returning while the condition holds, and a complete run, which nothing has
stopped, then has returned.
-/

set_option autoImplicit false

namespace ArcFirmware.Progress

open ArcFirmware.Port

variable {port word α β σ ρ : Type}

/-- Runs to the end: the outcome is `none` where the program has halted. -/
inductive Completes : PortProg port word α → List (Event port word) → Option α → Prop where
  | ret (value : α) : Completes (.ret value) [] (some value)
  | halt : Completes .halt [] none
  | input {source : port} {next : word → PortProg port word α} {answer : word}
      {trace : List (Event port word)} {outcome : Option α}
      (rest : Completes (next answer) trace outcome) :
      Completes (.input source next) (.read source answer :: trace) outcome
  | output {target : port} {value : word} {next : PortProg port word α}
      {trace : List (Event port word)} {outcome : Option α}
      (rest : Completes next trace outcome) :
      Completes (.output target value next) (.write target value :: trace) outcome

theorem Completes.runs {prog : PortProg port word α} {trace : List (Event port word)}
    {outcome : Option α} (complete : Completes prog trace outcome) : Runs prog trace outcome := by
  induction complete with
  | ret value => exact .ret value
  | halt => exact .stop _
  | input _ ih => exact .input ih
  | output _ ih => exact .output ih

theorem completes_of_runs {prog : PortProg port word α} {trace : List (Event port word)} {value : α}
    (run : Runs prog trace (some value)) : Completes prog trace (some value) := by
  generalize returned : some value = outcome at run
  induction run with
  | ret value => exact .ret value
  | stop prog => cases returned
  | input _ ih => exact .input (ih returned)
  | output _ ih => exact .output (ih returned)

theorem completes_bind {prog : PortProg port word α} {next : α → PortProg port word β}
    {trace : List (Event port word)} {outcome : Option β}
    (complete : Completes (prog >>= next) trace outcome) :
    (Completes prog trace none ∧ outcome = none) ∨ ∃ first second value, trace = first ++ second ∧
      Completes prog first (some value) ∧ Completes (next value) second outcome := by
  induction prog generalizing trace with
  | ret value => exact .inr ⟨[], trace, value, rfl, .ret value, complete⟩
  | halt =>
      cases complete
      exact .inl ⟨.halt, rfl⟩
  | input source rest ih =>
      cases complete with
      | input tail =>
          obtain ⟨head, same⟩ | ⟨first, second, value, rfl, head, last⟩ := ih _ tail
          · exact .inl ⟨.input head, same⟩
          · exact .inr ⟨_ :: first, second, value, rfl, .input head, last⟩
  | output target word rest ih =>
      cases complete with
      | output tail =>
          obtain ⟨head, same⟩ | ⟨first, second, value, rfl, head, last⟩ := ih tail
          · exact .inl ⟨.output head, same⟩
          · exact .inr ⟨_ :: first, second, value, rfl, .output head, last⟩

theorem wp_always (prog : PortProg port word α) (history : List (Event port word)) :
    wp prog (fun _ _ => True) (fun _ => True) history := by
  have runs := @wp_of_runs _ _ _ prog (fun _ => True) history fun _ _ _ => trivial
  exact wp_mono (fun _ _ _ _ => trivial) (fun _ _ => trivial) runs

/-- The program returns, and then so, unless the condition fails before it does. -/
def Ends (live : List (Event port word) → Prop) : PortProg port word α →
    (α → List (Event port word) → Prop) → List (Event port word) → Prop
  | .ret value, post, history => post value history
  | .halt, _, _ => False
  | .input source next, post, history => ∀ answer, live (history ++ [.read source answer]) →
      Ends live (next answer) post (history ++ [.read source answer])
  | .output target value next, post, history => live (history ++ [.write target value]) →
      Ends live next post (history ++ [.write target value])

section Rules

variable {live : List (Event port word) → Prop} {post other : α → List (Event port word) → Prop}
  {history : List (Event port word)}

@[simp] theorem ends_pure (value : α) : Ends live (pure value) post history ↔ post value history :=
  Iff.rfl

@[simp] theorem ends_input (source : port) {post : word → List (Event port word) → Prop} :
    Ends live (input source) post history ↔ ∀ answer, live (history ++ [.read source answer]) →
      post answer (history ++ [.read source answer]) :=
  Iff.rfl

@[simp] theorem ends_output (target : port) (value : word)
    {post : Unit → List (Event port word) → Prop} :
    Ends live (output target value) post history ↔ (live (history ++ [.write target value]) →
      post () (history ++ [.write target value])) :=
  Iff.rfl

theorem ends_mono {prog : PortProg port word α}
    (weaken : ∀ value history, post value history → other value history)
    (ends : Ends live prog post history) : Ends live prog other history := by
  induction prog generalizing history with
  | ret value => exact weaken value history ends
  | halt => exact ends
  | input source next ih => exact fun answer alive => ih answer (ends answer alive)
  | output target value next ih => exact fun alive => ih (ends alive)

theorem ends_bind {prog : PortProg port word α} {next : α → PortProg port word β}
    {post : β → List (Event port word) → Prop} :
    Ends live (prog >>= next) post history ↔
      Ends live prog (fun value => Ends live (next value) post) history := by
  induction prog generalizing history with
  | ret value => rfl
  | halt => rfl
  | input source rest ih =>
      constructor
      · intro ends answer alive
        exact (ih answer).mp (ends answer alive)
      · intro ends answer alive
        exact (ih answer).mpr (ends answer alive)
  | output target value rest ih =>
      constructor
      · intro ends alive
        exact ih.mp (ends alive)
      · intro ends alive
        exact ih.mpr (ends alive)

theorem ends_seq {prog : PortProg port word α} {next : α → PortProg port word β}
    {middle : α → List (Event port word) → Prop} {post : β → List (Event port word) → Prop}
    (head : Ends live prog middle history)
    (rest : ∀ value after, middle value after → Ends live (next value) post after) :
    Ends live (prog >>= next) post history :=
  ends_bind.mpr (ends_mono rest head)

theorem ends_within {kind : Event port word → Prop} {frame : List (Event port word) → Prop}
    (keeps : ∀ history event, frame history → kind event → live (history ++ [event]) →
      frame (history ++ [event])) {prog : PortProg port word α} (within : Within kind prog)
    (goesOn : NeverHalts prog) (start : frame history) :
    Ends live prog (fun _ => frame) history := by
  induction prog generalizing history with
  | ret value => exact start
  | halt => exact goesOn
  | input source next ih =>
      intro answer alive
      exact ih answer (within answer).2 (goesOn answer) (keeps _ _ start (within answer).1 alive)
  | output target value next ih =>
      intro alive
      exact ih within.2 goesOn (keeps _ _ start within.1 alive)

abbrev Advanced (invariant : Nat → σ → List (Event port word) → Prop)
    (post : ρ → List (Event port word) → Prop) (left : Nat) :
    Loop.Step σ ρ → List (Event port word) → Prop
  | .next after, history => ∃ fewer < left, invariant fewer after history
  | .done result, history => post result history

/-- A loop whose passes count down ends before its fuel. -/
theorem ends_loop {step : σ → PortProg port word (Loop.Step σ ρ)}
    {post : ρ → List (Event port word) → Prop}
    (invariant : Nat → σ → List (Event port word) → Prop)
    (pass : ∀ left state history, invariant left state history →
      Ends live (step state) (Advanced invariant post left) history)
    {fuel left : Nat} (enough : left < fuel) {state : σ} (start : invariant left state history) :
    Ends live (loop step fuel state) post history := by
  induction fuel generalizing left state history with
  | zero => exact absurd enough (Nat.not_lt_zero left)
  | succ fuel ih =>
      refine ends_seq (pass left state history start) fun outcome after advanced => ?_
      cases outcome with
      | next state =>
          obtain ⟨fewer, less, kept⟩ := advanced
          exact ih (Nat.lt_of_lt_of_le less (Nat.le_of_lt_succ enough)) kept
      | done result => exact advanced

/-- What the rules prove holds of every complete run on which the condition holds throughout. -/
theorem ends_sound {prog : PortProg port word α} (ends : Ends live prog post history)
    {trace : List (Event port word)} {outcome : Option α} (complete : Completes prog trace outcome)
    (lives : ∀ before, before <+: trace → live (history ++ before)) :
    ∃ value, outcome = some value ∧ post value (history ++ trace) := by
  induction complete generalizing history with
  | ret value => exact ⟨value, rfl, by rwa [List.append_nil]⟩
  | halt => exact ends.elim
  | @input source next answer trace outcome rest ih =>
      have here := lives [.read source answer] ⟨trace, rfl⟩
      have tail := ih (ends answer here) fun before begins => by
        rw [List.append_assoc]
        exact lives _ (List.cons_prefix_cons.mpr ⟨rfl, begins⟩)
      rwa [List.append_assoc] at tail
  | @output target value next trace outcome rest ih =>
      have here := lives [.write target value] ⟨trace, rfl⟩
      have tail := ih (ends here) fun before begins => by
        rw [List.append_assoc]
        exact lives _ (List.cons_prefix_cons.mpr ⟨rfl, begins⟩)
      rwa [List.append_assoc] at tail

end Rules

end ArcFirmware.Progress
