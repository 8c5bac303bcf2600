import ArcFirmware.Lib.Threads
import Mathlib.Data.List.Dedup

/-!
# Threads that can be finished

A run that was stopped can go on.  `Reaches` says what is left of a program after
a trace and `Can` that it can return on a shared memory; `Covers` compares two
programs, of which the wider one follows the other through every trace and can be
finished wherever that is stopped.  If each thread of a pool can be finished while
the others rest, so can all of them.
-/

set_option autoImplicit false

namespace ArcFirmware.Resume

open ArcFirmware.Port ArcFirmware.Threads

variable {tid port word α β σ ι ρ mode : Type}

/-- What is left of a program after a trace. -/
inductive Reaches : PortProg port word α → List (Event port word) → PortProg port word α → Prop where
  | here (prog : PortProg port word α) : Reaches prog [] prog
  | input {source : port} {next : word → PortProg port word α} {answer : word}
      {trace : List (Event port word)} {rest : PortProg port word α}
      (later : Reaches (next answer) trace rest) :
      Reaches (.input source next) (.read source answer :: trace) rest
  | output {target : port} {value : word} {next : PortProg port word α}
      {trace : List (Event port word)} {rest : PortProg port word α}
      (later : Reaches next trace rest) :
      Reaches (.output target value next) (.write target value :: trace) rest

theorem Reaches.runs {prog rest : PortProg port word α} {trace more : List (Event port word)}
    {outcome : Option α} (reaches : Reaches prog trace rest) (run : Runs rest more outcome) :
    Runs prog (trace ++ more) outcome := by
  induction reaches with
  | here prog => exact run
  | input _ ih => exact .input (ih run)
  | output _ ih => exact .output (ih run)

/-! ## Returning on a shared memory -/

/-- From a state the program can return so. -/
def Can (shared : Shared port word σ) : PortProg port word α → (α → σ → Prop) → σ → Prop
  | .ret value, post, state => post value state
  | .halt, _, _ => False
  | .input source next, post, state => ∃ answer, shared.answers state (.read source answer) ∧
      Can shared (next answer) post (shared.after state (.read source answer))
  | .output target value next, post, state => shared.answers state (.write target value) ∧
      Can shared next post (shared.after state (.write target value))

section Can

variable {shared : Shared port word σ} {state : σ} {post other : α → σ → Prop}

theorem can_mono {prog : PortProg port word α}
    (weaken : ∀ value state, post value state → other value state)
    (can : Can shared prog post state) : Can shared prog other state := by
  induction prog generalizing state with
  | ret value => exact weaken value state can
  | halt => exact can
  | input source next ih =>
      obtain ⟨answer, served, rest⟩ := can
      exact ⟨answer, served, ih answer rest⟩
  | output target value next ih => exact ⟨can.1, ih can.2⟩

theorem can_bind {prog : PortProg port word α} {next : α → PortProg port word β}
    {post : β → σ → Prop} :
    Can shared (prog >>= next) post state ↔
      Can shared prog (fun value => Can shared (next value) post) state := by
  induction prog generalizing state with
  | ret value => rfl
  | halt => rfl
  | input source rest ih => exact exists_congr fun answer => and_congr_right fun _ => ih answer
  | output target value rest ih => exact and_congr_right fun _ => ih

theorem can_seq {prog : PortProg port word α} {next : α → PortProg port word β}
    {middle : α → σ → Prop} {post : β → σ → Prop} (head : Can shared prog middle state)
    (rest : ∀ value after, middle value after → Can shared (next value) post after) :
    Can shared (prog >>= next) post state :=
  can_bind.mpr (can_mono rest head)

theorem can_loop_done {body : ι → PortProg port word (Loop.Step ι ρ)} {post : ρ → σ → Prop} {state : ι}
    {memory : σ} (left : Can shared (body state)
      (fun outcome after => ∃ result, outcome = .done result ∧ post result after) memory) (fuel : Nat) :
    Can shared (loop body (fuel + 1) state) post memory := by
  refine can_seq left ?_
  rintro _ after ⟨result, rfl, reached⟩
  exact reached

theorem can_runs {prog : PortProg port word α} (can : Can shared prog post state) (who : tid) :
    ∃ events value, Runs prog events (some value) ∧
      Served shared state (events.map (Prod.mk who)) ∧
      post value (shared.run state (events.map (Prod.mk who))) := by
  induction prog generalizing state with
  | ret value => exact ⟨[], value, .ret value, served_nil state, can⟩
  | halt => exact can.elim
  | input source next ih =>
      obtain ⟨answer, answered, rest⟩ := can
      obtain ⟨events, value, run, served, reached⟩ := ih answer rest
      exact ⟨.read source answer :: events, value, .input run, served_cons answered served, reached⟩
  | output target word next ih =>
      obtain ⟨events, value, run, served, reached⟩ := ih can.2
      exact ⟨.write target word :: events, value, .output run, served_cons can.1 served, reached⟩

end Can

/-! ## A wider program -/

section Covers

variable (shared : Shared port word σ) (step : mode → Event port word → mode)
  (good : mode → σ → Prop) (fair : Event port word → Prop)

/-- From every state that is good for its mode the program can be finished. -/
def Finishable (exit : α → mode) (prog : PortProg port word α) (now : mode) : Prop :=
  ∀ state, good now state → Can shared prog (fun value => good (exit value)) state

/-- `wide` follows the program through every fair trace, and can be finished wherever that is
stopped. -/
def Covers (exit : α → mode) : PortProg port word α → PortProg port word α → mode → Prop
  | .ret value, wide, now => wide = .ret value ∧ now = exit value
  | .halt, wide, now => Finishable shared good exit wide now
  | .input source next, wide, now => Finishable shared good exit wide now ∧
      ∃ more, wide = .input source more ∧ ∀ answer, fair (.read source answer) →
        Covers exit (next answer) (more answer) (step now (.read source answer))
  | .output target value next, wide, now => Finishable shared good exit wide now ∧
      ∃ more, wide = .output target value more ∧
        Covers exit next more (step now (.write target value))

end Covers

section Rules

variable {shared : Shared port word σ} {step : mode → Event port word → mode}
  {good : mode → σ → Prop} {fair : Event port word → Prop} {exit : α → mode} {now : mode}

theorem Covers.finishable {prog wide : PortProg port word α}
    (covers : Covers shared step good fair exit prog wide now) :
    Finishable shared good exit wide now := by
  cases prog with
  | ret value =>
      obtain ⟨rfl, rfl⟩ := covers
      exact fun _ fine => fine
  | halt => exact covers
  | input source next => exact covers.1
  | output target value next => exact covers.1

theorem Finishable.bind {last : β → mode} {wide : PortProg port word α}
    {more : α → PortProg port word β} (head : Finishable shared good exit wide now)
    (rest : ∀ value, Finishable shared good last (more value) (exit value)) :
    Finishable shared good last (wide >>= more) now :=
  fun state fine => can_seq (head state fine) rest

theorem Covers.bind {last : β → mode} {prog wide : PortProg port word α}
    {next more : α → PortProg port word β} (head : Covers shared step good fair exit prog wide now)
    (rest : ∀ value, Covers shared step good fair last (next value) (more value) (exit value)) :
    Covers shared step good fair last (prog >>= next) (wide >>= more) now := by
  induction prog generalizing wide now with
  | ret value =>
      obtain ⟨rfl, rfl⟩ := head
      exact rest value
  | halt => exact Finishable.bind head fun value => (rest value).finishable
  | input source inner ih =>
      have whole := Finishable.bind head.finishable fun value => (rest value).finishable
      obtain ⟨_, wider, rfl, later⟩ := head
      exact ⟨whole, _, rfl, fun answer fine => ih answer (later answer fine)⟩
  | output target value inner ih =>
      have whole := Finishable.bind head.finishable fun value => (rest value).finishable
      obtain ⟨_, wider, rfl, later⟩ := head
      exact ⟨whole, _, rfl, ih later⟩

theorem covers_input {source : port} {next more : word → PortProg port word α}
    (serves : ∀ state, good now state → ∃ answer, shared.answers state (.read source answer) ∧
      fair (.read source answer) ∧
        good (step now (.read source answer)) (shared.after state (.read source answer)))
    (later : ∀ answer, fair (.read source answer) →
      Covers shared step good fair exit (next answer) (more answer) (step now (.read source answer))) :
    Covers shared step good fair exit (.input source next) (.input source more) now := by
  refine ⟨fun state fine => ?_, more, rfl, later⟩
  obtain ⟨answer, answered, among, still⟩ := serves state fine
  exact ⟨answer, answered, (later answer among).finishable _ still⟩

theorem covers_output {target : port} {value : word} {next more : PortProg port word α}
    (serves : ∀ state, good now state → shared.answers state (.write target value) ∧
      good (step now (.write target value)) (shared.after state (.write target value)))
    (later : Covers shared step good fair exit next more (step now (.write target value))) :
    Covers shared step good fair exit (.output target value next) (.output target value more) now :=
  ⟨fun state fine => ⟨(serves state fine).1, later.finishable _ (serves state fine).2⟩,
    more, rfl, later⟩

theorem covers_aside {kind : Event port word → Prop}
    (same : ∀ event, kind event → step now event = now)
    (reads : ∀ state source, (∀ answer, kind (.read source answer)) → good now state →
      ∃ answer, shared.answers state (.read source answer) ∧ fair (.read source answer) ∧
        good now (shared.after state (.read source answer)))
    (writes : ∀ state target value, kind (.write target value) → good now state →
      shared.answers state (.write target value) ∧
        good now (shared.after state (.write target value)))
    {prog : PortProg port word α} (within : Within kind prog) (goesOn : NeverHalts prog) :
    Covers shared step good fair (fun _ => now) prog prog now := by
  induction prog with
  | ret value => exact ⟨rfl, rfl⟩
  | halt => exact goesOn.elim
  | input source next ih =>
      have asides (answer : word) : kind (.read source answer) := (within answer).1
      refine covers_input (fun state fine => ?_) fun answer _ => ?_
      · obtain ⟨answer, answered, among, still⟩ := reads state source asides fine
        refine ⟨answer, answered, among, ?_⟩
        rwa [same _ (asides answer)]
      · rw [same _ (asides answer)]
        exact ih answer (within answer).2 (goesOn answer)
  | output target value next ih =>
      have unmoved := same _ within.1
      refine covers_output (fun state fine => ?_) ?_
      · rw [unmoved]
        exact writes state target value within.1 fine
      · rw [unmoved]
        exact ih within.2 goesOn

def passMode (again : mode) (exit : ρ → mode) : Loop.Step ι ρ → mode
  | .next _ => again
  | .done result => exit result

theorem Covers.loop {body : ι → PortProg port word (Loop.Step ι ρ)} {exit : ρ → mode}
    (pass : ∀ state, Covers shared step good fair (passMode now exit) (body state) (body state) now)
    (leaves : ∀ state, Finishable shared good exit (Port.loop body 1 state) now) (fuel : Nat)
    (state : ι) : Covers shared step good fair exit (Port.loop body fuel state)
      (Port.loop body (fuel + 1) state) now := by
  induction fuel generalizing state with
  | zero => exact leaves state
  | succ fuel ih =>
      refine (pass state).bind fun outcome => ?_
      cases outcome with
      | next after => exact ih after
      | done result => exact ⟨rfl, rfl⟩

theorem Covers.runs {prog wide : PortProg port word α} {trace : List (Event port word)}
    {outcome : Option α} (covers : Covers shared step good fair exit prog wide now)
    (run : Runs prog trace outcome) (fine : ∀ event ∈ trace, fair event) :
    ∃ rest, Reaches wide trace rest ∧ Finishable shared good exit rest (trace.foldl step now) := by
  induction run generalizing wide now with
  | ret value => exact ⟨wide, .here wide, covers.finishable⟩
  | stop prog => exact ⟨wide, .here wide, covers.finishable⟩
  | input _ ih =>
      obtain ⟨_, more, rfl, later⟩ := covers
      obtain ⟨rest, reaches, finishable⟩ := ih (later _ (fine _ (List.mem_cons_self ..)))
        fun event inside => fine event (List.mem_cons_of_mem _ inside)
      exact ⟨rest, .input reaches, finishable⟩
  | output _ ih =>
      obtain ⟨_, more, rfl, later⟩ := covers
      obtain ⟨rest, reaches, finishable⟩ := ih later
        fun event inside => fine event (List.mem_cons_of_mem _ inside)
      exact ⟨rest, .output reaches, finishable⟩

end Rules

/-! ## One thread after the other -/

section Pool

variable [DecidableEq tid] {shared : Shared port word σ} {good : mode → σ → Prop}
  {progs : tid → PortProg port word α} {start : σ} {schedule : Schedule tid port word}

def Stopped (shared : Shared port word σ) (good : mode → σ → Prop)
    (progs : tid → PortProg port word α) (idle : mode) (schedule : Schedule tid port word)
    (now : mode) (who : tid) : Prop :=
  ∃ rest, Reaches (progs who) (own who schedule) rest ∧
    Finishable shared good (fun _ => idle) rest now

/-- More of a schedule, in which these threads return and the others rest. -/
structure Finishes (shared : Shared port word σ) (good : mode → σ → Prop)
    (progs : tid → PortProg port word α) (start : σ) (idle : mode) (threads : List tid)
    (schedule more : Schedule tid port word) : Prop where
  served : Served shared start (schedule ++ more)
  returned : ∀ who ∈ threads, ∃ value, Runs (progs who) (own who (schedule ++ more)) (some value)
  rested : ∀ who, who ∉ threads → own who (schedule ++ more) = own who schedule
  good : good idle (shared.run start (schedule ++ more))

theorem Finishes.append {idle : mode} {who : tid} {threads : List tid}
    {first second : Schedule tid port word}
    (one : Finishes shared good progs start idle [who] schedule first)
    (others : Finishes shared good progs start idle threads (schedule ++ first) second)
    (apart : who ∉ threads) :
    Finishes shared good progs start idle (who :: threads) schedule (first ++ second) := by
  have whole := List.append_assoc schedule first second
  refine ⟨whole ▸ others.served, fun other inside => ?_, fun other outside => ?_, whole ▸ others.good⟩
  · rw [← whole]
    obtain rfl | later := List.mem_cons.mp inside
    · rw [others.rested other apart]
      exact one.returned other (List.mem_singleton_self other)
    · exact others.returned other later
  · obtain ⟨different, later⟩ := List.ne_and_not_mem_of_not_mem_cons outside
    rw [← whole, others.rested other later,
      one.rested other fun same => different (List.mem_singleton.mp same)]

theorem Finishes.stopped {idle now : mode} {who other : tid} {more : Schedule tid port word}
    (one : Finishes shared good progs start idle [who] schedule more) (different : other ≠ who)
    (stopped : Stopped shared good progs idle schedule now other) :
    Stopped shared good progs idle (schedule ++ more) now other := by
  rw [Stopped, one.rested other fun same => different (List.mem_singleton.mp same)]
  exact stopped

theorem finish_one {idle now : mode} {who : tid} (served : Served shared start schedule)
    (fine : good now (shared.run start schedule))
    (stopped : Stopped shared good progs idle schedule now who) :
    ∃ more, Finishes shared good progs start idle [who] schedule more := by
  obtain ⟨rest, reaches, finishable⟩ := stopped
  obtain ⟨events, value, run, answered, still⟩ := can_runs (finishable _ fine) who
  refine ⟨events.map (Prod.mk who), ⟨served_append served answered, ?_, ?_, ?_⟩⟩
  · intro other inside
    obtain rfl := List.mem_singleton.mp inside
    refine ⟨value, ?_⟩
    rw [own_append, own_map_self]
    exact reaches.runs run
  · intro other outside
    rw [own_append, own_map_of_ne _ fun same => outside (List.mem_singleton.mpr same.symm),
      List.append_nil]
  · rwa [run_append]

/-- Threads that are stopped where they wait for nobody finish in any order. -/
theorem finish_all {idle : mode} (threads : List tid) (once : threads.Nodup)
    (served : Served shared start schedule) (fine : good idle (shared.run start schedule))
    (stopped : ∀ who ∈ threads, Stopped shared good progs idle schedule idle who) :
    ∃ more, Finishes shared good progs start idle threads schedule more := by
  induction threads generalizing schedule with
  | nil =>
      refine ⟨[], ?_, fun _ inside => (nomatch inside), fun who _ => ?_, ?_⟩
      · rwa [List.append_nil]
      · rw [List.append_nil]
      · rwa [List.append_nil]
  | cons who threads ih =>
      obtain ⟨apart, once⟩ := List.nodup_cons.mp once
      obtain ⟨first, one⟩ := finish_one served fine (stopped who (List.mem_cons_self ..))
      obtain ⟨second, others⟩ := ih once one.served one.good fun other inside =>
        one.stopped (fun same => apart (same ▸ inside)) (stopped other (List.mem_cons_of_mem _ inside))
      exact ⟨first ++ second, one.append others apart⟩

/-- The thread that the others wait for goes first. -/
theorem finish_before {idle now : mode} {first : tid} {threads : List tid}
    (once : (first :: threads).Nodup) (served : Served shared start schedule)
    (fine : good now (shared.run start schedule))
    (head : Stopped shared good progs idle schedule now first)
    (stopped : ∀ who ∈ threads, Stopped shared good progs idle schedule idle who) :
    ∃ more, Finishes shared good progs start idle (first :: threads) schedule more := by
  obtain ⟨apart, once⟩ := List.nodup_cons.mp once
  obtain ⟨alone, one⟩ := finish_one served fine head
  obtain ⟨after, others⟩ := finish_all threads once one.served one.good fun who inside =>
    one.stopped (fun same => apart (same ▸ inside)) (stopped who inside)
  exact ⟨alone ++ after, one.append others apart⟩

end Pool

end ArcFirmware.Resume
