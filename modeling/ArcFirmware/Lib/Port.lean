import ArcFirmware.Lib.Loop
import Mathlib.Data.List.Basic

/-!
# Programs that talk to device registers

A driver reads and writes ports whose answers it does not control.  `PortProg`
is the tree of what it does next for every answer, `Runs` the traces it can
produce, stopped at any point, and `wp` the weakest precondition over the history
of the trace.  A postcondition speaks of the whole history at the return, the
`mid` condition of the history at every point of the run, also of a run that
polls for ever.
-/

set_option autoImplicit false

namespace ArcFirmware.Port

inductive Event (port word : Type) where
  | read (source : port) (answer : word)
  | write (target : port) (value : word)
  deriving DecidableEq, Repr

inductive PortProg (port word α : Type) where
  | ret (value : α)
  /-- A fault, or a loop whose fuel is spent: the run does not go on. -/
  | halt
  | input (source : port) (next : word → PortProg port word α)
  | output (target : port) (value : word) (next : PortProg port word α)

variable {port word α β σ ρ : Type}

def PortProg.bind : PortProg port word α → (α → PortProg port word β) → PortProg port word β
  | .ret value, next => next value
  | .halt, _ => .halt
  | .input source rest, next => .input source fun answer => (rest answer).bind next
  | .output target value rest, next => .output target value (rest.bind next)

instance : Monad (PortProg port word) where
  pure := .ret
  bind := .bind

theorem bind_assoc {γ : Type} (prog : PortProg port word α) (next : α → PortProg port word β)
    (last : β → PortProg port word γ) :
    prog >>= next >>= last = prog >>= fun value => next value >>= last := by
  induction prog with
  | ret value => rfl
  | halt => rfl
  | input source rest ih => exact congrArg (PortProg.input source) (funext fun answer => ih answer)
  | output target value rest ih => exact congrArg (PortProg.output target value) ih

def input (source : port) : PortProg port word word :=
  .input source .ret

def output (target : port) (value : word) : PortProg port word Unit :=
  .output target value (.ret ())

def loop (step : σ → PortProg port word (Loop.Step σ ρ)) : Nat → σ → PortProg port word ρ
  | 0, _ => .halt
  | fuel + 1, state => do
      match ← step state with
      | .next after => loop step fuel after
      | .done result => pure result

/-! ## Runs -/

/-- Traces of a program; the outcome is `none` where the run has not returned. -/
inductive Runs : PortProg port word α → List (Event port word) → Option α → Prop where
  | ret (value : α) : Runs (.ret value) [] (some value)
  | stop (prog : PortProg port word α) : Runs prog [] none
  | input {source : port} {next : word → PortProg port word α} {answer : word}
      {trace : List (Event port word)} {outcome : Option α}
      (rest : Runs (next answer) trace outcome) :
      Runs (.input source next) (.read source answer :: trace) outcome
  | output {target : port} {value : word} {next : PortProg port word α}
      {trace : List (Event port word)} {outcome : Option α}
      (rest : Runs next trace outcome) :
      Runs (.output target value next) (.write target value :: trace) outcome

theorem Runs.bind {prog : PortProg port word α} {next : α → PortProg port word β}
    {first second : List (Event port word)} {value : α} {outcome : Option β}
    (head : Runs prog first (some value)) (rest : Runs (next value) second outcome) :
    Runs (prog >>= next) (first ++ second) outcome := by
  generalize returned : some value = middle at head
  induction head with
  | ret result =>
      cases returned
      exact rest
  | stop prog => cases returned
  | input _ ih => exact .input (ih returned)
  | output _ ih => exact .output (ih returned)

theorem runs_input {source : port} {answer : word} {next : word → PortProg port word β}
    {trace : List (Event port word)} {outcome : Option β}
    (rest : Runs (next answer) trace outcome) :
    Runs (input source >>= next) (.read source answer :: trace) outcome :=
  .input rest

theorem Runs.inside {prog : PortProg port word α} {trace : List (Event port word)}
    (head : Runs prog trace none) (next : α → PortProg port word β) :
    Runs (prog >>= next) trace none := by
  generalize stopped : none = middle at head
  induction head with
  | ret result => cases stopped
  | stop prog => exact .stop _
  | input _ ih => exact .input (ih stopped)
  | output _ ih => exact .output (ih stopped)

theorem Runs.loop_next {step : σ → PortProg port word (Loop.Step σ ρ)} {state after : σ}
    {first second : List (Event port word)} {fuel : Nat} {outcome : Option ρ}
    (passed : Runs (step state) first (some (.next after)))
    (rest : Runs (loop step fuel after) second outcome) :
    Runs (loop step (fuel + 1) state) (first ++ second) outcome :=
  .bind passed rest

theorem Runs.loop_done {step : σ → PortProg port word (Loop.Step σ ρ)} {state : σ}
    {trace : List (Event port word)} {result : ρ} (fuel : Nat)
    (left : Runs (step state) trace (some (.done result))) :
    Runs (loop step (fuel + 1) state) trace (some result) := by
  rw [← List.append_nil trace]
  exact .bind left (.ret result)

theorem runs_bind_cases {prog : PortProg port word α} {next : α → PortProg port word β}
    {trace : List (Event port word)} {outcome : Option β} (run : Runs (prog >>= next) trace outcome) :
    (outcome = none ∧ Runs prog trace none) ∨
      ∃ first second value, trace = first ++ second ∧ Runs prog first (some value) ∧
        Runs (next value) second outcome := by
  induction prog generalizing trace with
  | ret value => exact .inr ⟨[], trace, value, rfl, .ret value, run⟩
  | halt =>
      cases run
      exact .inl ⟨rfl, .stop _⟩
  | input source rest ih =>
      cases run with
      | stop => exact .inl ⟨rfl, .stop _⟩
      | input later =>
          rcases ih _ later with ⟨stopped, head⟩ | ⟨first, second, value, rfl, head, tail⟩
          · exact .inl ⟨stopped, .input head⟩
          · exact .inr ⟨_ :: first, second, value, rfl, .input head, tail⟩
  | output target word rest ih =>
      cases run with
      | stop => exact .inl ⟨rfl, .stop _⟩
      | output later =>
          rcases ih later with ⟨stopped, head⟩ | ⟨first, second, value, rfl, head, tail⟩
          · exact .inl ⟨stopped, .output head⟩
          · exact .inr ⟨_ :: first, second, value, rfl, .output head, tail⟩

theorem runs_pure_cases {value : α} {trace : List (Event port word)} {outcome : Option α}
    (run : Runs (pure value : PortProg port word α) trace outcome) :
    trace = [] ∧ ∀ result, outcome = some result → result = value := by
  cases run with
  | ret => exact ⟨rfl, fun _ same => (Option.some.inj same).symm⟩
  | stop => exact ⟨rfl, fun _ same => nomatch same⟩

theorem runs_map_cases {prog : PortProg port word α} {f : α → β} {trace : List (Event port word)}
    {outcome : Option β} (run : Runs (prog >>= fun value => pure (f value)) trace outcome) :
    ∃ inner, Runs prog trace inner ∧
      ∀ result, outcome = some result → ∃ value, inner = some value ∧ result = f value := by
  rcases runs_bind_cases run with ⟨rfl, head⟩ | ⟨first, second, value, rfl, head, tail⟩
  · exact ⟨none, head, fun _ same => nomatch same⟩
  · obtain ⟨rfl, returned⟩ := runs_pure_cases tail
    rw [List.append_nil]
    exact ⟨some value, head, fun result same => ⟨value, rfl, returned result same⟩⟩

theorem Runs.of_prefix {prog : PortProg port word α} {trace older : List (Event port word)}
    {outcome : Option α} (run : Runs prog trace outcome) (start : older <+: trace) :
    Runs prog older none := by
  induction run generalizing older with
  | ret value =>
      rw [List.eq_nil_of_prefix_nil start]
      exact .stop _
  | stop prog =>
      rw [List.eq_nil_of_prefix_nil start]
      exact .stop _
  | input rest ih =>
      cases older with
      | nil => exact .stop _
      | cons event older =>
          obtain ⟨rfl, inside⟩ := List.cons_prefix_cons.mp start
          exact .input (ih inside)
  | output rest ih =>
      cases older with
      | nil => exact .stop _
      | cons event older =>
          obtain ⟨rfl, inside⟩ := List.cons_prefix_cons.mp start
          exact .output (ih inside)

/-! ## Weakest preconditions over histories -/

def wp : PortProg port word α → (α → List (Event port word) → Prop) →
    (List (Event port word) → Prop) → List (Event port word) → Prop
  | .ret value, post, mid, history => mid history ∧ post value history
  | .halt, _, mid, history => mid history
  | .input source next, post, mid, history =>
      mid history ∧ ∀ answer, wp (next answer) post mid (history ++ [.read source answer])
  | .output target value next, post, mid, history =>
      mid history ∧ wp next post mid (history ++ [.write target value])

section Rules

variable {post other : α → List (Event port word) → Prop}
  {mid weaker : List (Event port word) → Prop} {history : List (Event port word)}

@[simp] theorem wp_pure (value : α) :
    wp (pure value) post mid history ↔ mid history ∧ post value history :=
  Iff.rfl

@[simp] theorem wp_input (source : port) {post : word → List (Event port word) → Prop} :
    wp (input source) post mid history ↔ mid history ∧ ∀ answer,
      mid (history ++ [.read source answer]) ∧ post answer (history ++ [.read source answer]) :=
  Iff.rfl

@[simp] theorem wp_output (target : port) (value : word)
    {post : Unit → List (Event port word) → Prop} :
    wp (output target value) post mid history ↔ mid history ∧
      mid (history ++ [.write target value]) ∧ post () (history ++ [.write target value]) :=
  Iff.rfl

theorem wp_mid {prog : PortProg port word α} (holds : wp prog post mid history) :
    mid history := by
  cases prog with
  | ret value => exact holds.1
  | halt => exact holds
  | input source next => exact holds.1
  | output target value next => exact holds.1

theorem wp_mono {prog : PortProg port word α}
    (returned : ∀ value history, mid history → post value history → other value history)
    (between : ∀ history, mid history → weaker history)
    (holds : wp prog post mid history) : wp prog other weaker history := by
  induction prog generalizing history with
  | ret value => exact ⟨between _ holds.1, returned _ _ holds.1 holds.2⟩
  | halt => exact between _ holds
  | input source next ih =>
      exact ⟨between _ holds.1, fun answer => ih answer (holds.2 answer)⟩
  | output target value next ih => exact ⟨between _ holds.1, ih holds.2⟩

theorem wp_bind {prog : PortProg port word α} {next : α → PortProg port word β}
    {post : β → List (Event port word) → Prop} :
    wp (prog >>= next) post mid history ↔
      wp prog (fun value => wp (next value) post mid) mid history := by
  induction prog generalizing history with
  | ret value =>
      constructor
      · intro holds
        exact ⟨wp_mid holds, holds⟩
      · intro holds
        exact holds.2
  | halt => rfl
  | input source rest ih =>
      constructor
      · intro holds
        exact ⟨holds.1, fun answer => (ih answer).mp (holds.2 answer)⟩
      · intro holds
        exact ⟨holds.1, fun answer => (ih answer).mpr (holds.2 answer)⟩
  | output target value rest ih =>
      constructor
      · intro holds
        exact ⟨holds.1, ih.mp holds.2⟩
      · intro holds
        exact ⟨holds.1, ih.mpr holds.2⟩

theorem wp_seq {prog : PortProg port word α} {next : α → PortProg port word β}
    {middle : α → List (Event port word) → Prop} {post : β → List (Event port word) → Prop}
    (head : wp prog middle mid history)
    (rest : ∀ value after, middle value after → wp (next value) post mid after) :
    wp (prog >>= next) post mid history := by
  rw [wp_bind]
  exact wp_mono (fun value after _ reached => rest value after reached) (fun _ kept => kept) head

abbrev Passed (invariant : σ → List (Event port word) → Prop)
    (post : ρ → List (Event port word) → Prop) :
    Loop.Step σ ρ → List (Event port word) → Prop
  | .next after, history => invariant after history
  | .done result, history => post result history

/-- A loop keeps what every pass of its body keeps. -/
theorem wp_loop {step : σ → PortProg port word (Loop.Step σ ρ)}
    {post : ρ → List (Event port word) → Prop}
    (invariant : σ → List (Event port word) → Prop)
    (pass : ∀ state history, invariant state history →
      wp (step state) (Passed invariant post) mid history)
    (fuel : Nat) (state : σ) (start : invariant state history) :
    wp (loop step fuel state) post mid history := by
  induction fuel generalizing state history with
  | zero => exact wp_mid (pass state history start)
  | succ fuel ih =>
      rw [loop, wp_bind]
      refine wp_mono (fun outcome after between kept => ?_) (fun _ holds => holds)
        (pass state history start)
      cases outcome with
      | next state => exact ih state kept
      | done result => exact ⟨between, kept⟩

/-- What the rules prove holds of every run. -/
theorem wp_sound {prog : PortProg port word α} (holds : wp prog post mid history)
    {trace : List (Event port word)} {outcome : Option α} (run : Runs prog trace outcome) :
    mid (history ++ trace) ∧ ∀ value, outcome = some value → post value (history ++ trace) := by
  induction run generalizing history with
  | ret value =>
      rw [List.append_nil]
      refine ⟨holds.1, fun result same => ?_⟩
      cases same
      exact holds.2
  | stop prog =>
      rw [List.append_nil]
      exact ⟨wp_mid holds, fun _ same => nomatch same⟩
  | input rest ih =>
      have tail := ih (holds.2 _)
      rwa [List.append_assoc, List.singleton_append] at tail
  | output rest ih =>
      have tail := ih holds.2
      rwa [List.append_assoc, List.singleton_append] at tail

end Rules

/-! ## Programs with a bounded effect -/

/-- Every event that a program can make, whatever it is answered, is of some kind. -/
def Within (kind : Event port word → Prop) : PortProg port word α → Prop
  | .ret _ => True
  | .halt => True
  | .input source next => ∀ answer, kind (.read source answer) ∧ Within kind (next answer)
  | .output target value next => kind (.write target value) ∧ Within kind next

theorem Within.mono {kind wider : Event port word → Prop} {prog : PortProg port word α}
    (within : Within kind prog) (widen : ∀ event, kind event → wider event) : Within wider prog := by
  induction prog with
  | ret value => trivial
  | halt => trivial
  | input source next ih =>
      exact fun answer => ⟨widen _ (within answer).1, ih answer (within answer).2⟩
  | output target value next ih => exact ⟨widen _ within.1, ih within.2⟩

theorem Within.bind {kind : Event port word → Prop} {prog : PortProg port word α}
    {next : α → PortProg port word β} (head : Within kind prog)
    (rest : ∀ value, Within kind (next value)) : Within kind (prog >>= next) := by
  induction prog with
  | ret value => exact rest value
  | halt => trivial
  | input source later ih => exact fun answer => ⟨(head answer).1, ih answer (head answer).2⟩
  | output target value later ih => exact ⟨head.1, ih head.2⟩

theorem Within.loop {kind : Event port word → Prop}
    {step : σ → PortProg port word (Loop.Step σ ρ)} (pass : ∀ state, Within kind (step state))
    (fuel : Nat) (state : σ) : Within kind (loop step fuel state) := by
  induction fuel generalizing state with
  | zero => trivial
  | succ fuel ih =>
      refine (pass state).bind fun outcome => ?_
      cases outcome with
      | next after => exact ih after
      | done result => trivial

def NeverHalts : PortProg port word α → Prop
  | .ret _ => True
  | .halt => False
  | .input _ next => ∀ answer, NeverHalts (next answer)
  | .output _ _ next => NeverHalts next

def Returns (kind : α → Prop) : PortProg port word α → Prop
  | .ret value => kind value
  | .halt => True
  | .input _ next => ∀ answer, Returns kind (next answer)
  | .output _ _ next => Returns kind next

theorem Returns.bind_congr {kind : α → Prop} {prog : PortProg port word α}
    (returns : Returns kind prog) {first second : α → PortProg port word β}
    (same : ∀ value, kind value → first value = second value) : prog >>= first = prog >>= second := by
  induction prog with
  | ret value => exact same value returns
  | halt => rfl
  | input source next ih =>
      exact congrArg (PortProg.input source) (funext fun answer => ih answer (returns answer))
  | output target value next ih => exact congrArg (PortProg.output target value) (ih returns)

theorem wp_within {kind : Event port word → Prop} {frame mid : List (Event port word) → Prop}
    (keeps : ∀ history event, frame history → kind event → frame (history ++ [event]))
    (weaken : ∀ history, frame history → mid history) {prog : PortProg port word α}
    (within : Within kind prog) {history : List (Event port word)} (start : frame history) :
    wp prog (fun _ => frame) mid history := by
  induction prog generalizing history with
  | ret value => exact ⟨weaken _ start, start⟩
  | halt => exact weaken _ start
  | input source next ih =>
      refine ⟨weaken _ start, fun answer => ?_⟩
      obtain ⟨here, later⟩ := within answer
      exact ih answer later (keeps _ _ start here)
  | output target value next ih =>
      obtain ⟨here, later⟩ := within
      exact ⟨weaken _ start, ih later (keeps _ _ start here)⟩

theorem Within.of_runs {kind : Event port word → Prop} {prog : PortProg port word α}
    (within : Within kind prog) {trace : List (Event port word)} {outcome : Option α}
    (run : Runs prog trace outcome) : ∀ event ∈ trace, kind event := by
  induction run with
  | ret value => exact fun _ inside => nomatch inside
  | stop prog => exact fun _ inside => nomatch inside
  | input rest ih =>
      intro event inside
      rcases List.mem_cons.mp inside with rfl | later
      · exact (within _).1
      · exact ih (within _).2 event later
  | output rest ih =>
      intro event inside
      rcases List.mem_cons.mp inside with rfl | later
      · exact within.1
      · exact ih within.2 event later

/-- The other direction of `wp_sound`: what every run establishes can be proved. -/
theorem wp_of_runs {prog : PortProg port word α} {mid : List (Event port word) → Prop}
    {history : List (Event port word)}
    (between : ∀ trace outcome, Runs prog trace outcome → mid (history ++ trace)) :
    wp prog (fun value after => ∃ trace, after = history ++ trace ∧ Runs prog trace (some value))
      mid history := by
  have here : mid history := by
    have first := between [] none (.stop prog)
    rwa [List.append_nil] at first
  induction prog generalizing history with
  | ret value => exact ⟨here, [], (List.append_nil history).symm, .ret value⟩
  | halt => exact here
  | input source next ih =>
      refine ⟨here, fun answer => ?_⟩
      have tail (trace : List (Event port word)) (outcome : Option α)
          (run : Runs (next answer) trace outcome) :
          mid (history ++ [.read source answer] ++ trace) := by
        rw [List.append_assoc]
        exact between _ outcome (.input run)
      have now := tail [] none (.stop _)
      rw [List.append_nil] at now
      refine wp_mono ?_ (fun _ kept => kept) (ih answer tail now)
      rintro value _ _ ⟨trace, rfl, run⟩
      exact ⟨.read source answer :: trace, by rw [List.append_assoc]; rfl, .input run⟩
  | output target value next ih =>
      refine ⟨here, ?_⟩
      have tail (trace : List (Event port word)) (outcome : Option α)
          (run : Runs next trace outcome) : mid (history ++ [.write target value] ++ trace) := by
        rw [List.append_assoc]
        exact between _ outcome (.output run)
      have now := tail [] none (.stop _)
      rw [List.append_nil] at now
      refine wp_mono ?_ (fun _ kept => kept) (ih tail now)
      rintro result _ _ ⟨trace, rfl, run⟩
      exact ⟨.write target value :: trace, by rw [List.append_assoc]; rfl, .output run⟩

/-! ## Histories -/

theorem append_eq_concat {first second history : List α} {event : α}
    (whole : first ++ second = history ++ [event]) :
    (second = [] ∧ first = history ++ [event]) ∨
      ∃ rest, second = rest ++ [event] ∧ first ++ rest = history := by
  rcases List.eq_nil_or_concat second with rfl | ⟨rest, last, rfl⟩
  · rw [List.append_nil] at whole
    exact .inl ⟨rfl, whole⟩
  · rw [List.concat_eq_append, ← List.append_assoc] at whole
    obtain ⟨before, same⟩ := List.append_inj' whole rfl
    cases same
    exact .inr ⟨rest, List.concat_eq_append, before⟩

/-- Every event of a history was allowed after the events before it. -/
def Each (allowed : List (Event port word) → Event port word → Prop)
    (history : List (Event port word)) : Prop :=
  ∀ before event, before ++ [event] <+: history → allowed before event

variable {allowed : List (Event port word) → Event port word → Prop}

theorem each_nil : Each allowed [] := by
  intro before event start
  have empty := List.eq_nil_of_prefix_nil start
  simp at empty

theorem Each.concat {history : List (Event port word)} (kept : Each allowed history)
    {event : Event port word} (permitted : allowed history event) :
    Each allowed (history ++ [event]) := by
  intro before last start
  rcases List.prefix_concat_iff.mp start with whole | inside
  · obtain ⟨rfl, same⟩ := List.append_inj' whole rfl
    cases same
    exact permitted
  · exact kept before last inside

theorem Each.of_prefix {older history : List (Event port word)} (kept : Each allowed history)
    (start : older <+: history) : Each allowed older :=
  fun before event inside => kept before event (inside.trans start)

theorem Each.init {history : List (Event port word)} {event : Event port word}
    (kept : Each allowed (history ++ [event])) : Each allowed history :=
  kept.of_prefix (List.prefix_append history [event])

theorem Each.last {history : List (Event port word)} {event : Event port word}
    (kept : Each allowed (history ++ [event])) : allowed history event :=
  kept history event (List.prefix_refl _)

end ArcFirmware.Port
