import Mathlib.Logic.Relation
import Mathlib.Order.Basic

/-!
# Deterministic loops with an explicit step

A `while` loop is a function from its variables to either the next values of the
variables or the result it leaves with.  `run` executes it with fuel; `Returns`
and `Diverges` are the two things a loop can do once fuel is forgotten, and
`Reaches` is the set of loop heads it visits, also on a run that never ends, and
`visited` lists those of a run.
The rules below are the only way the developments built on this file reason
about a loop: an invariant rule, a measure rule for termination and a rule for
loops that are stuck.
-/

set_option autoImplicit false

namespace ArcFirmware.Loop

universe u v

inductive Step (σ : Type u) (ρ : Type v) where
  | next (state : σ)
  | done (result : ρ)
  deriving DecidableEq, Repr

def Step.map {σ : Type u} {ρ τ : Type v} (change : ρ → τ) : Step σ ρ → Step σ τ
  | .next state => .next state
  | .done result => .done (change result)

variable {σ : Type u} {ρ : Type v}

/-- Execute at most `fuel` passes; `none` is a loop that has not left yet. -/
def run (step : σ → Step σ ρ) : Nat → σ → Option ρ
  | 0, _ => none
  | fuel + 1, state =>
      match step state with
      | .next after => run step fuel after
      | .done result => some result

def Returns (step : σ → Step σ ρ) (state : σ) (result : ρ) : Prop :=
  ∃ fuel, run step fuel state = some result

def Diverges (step : σ → Step σ ρ) (state : σ) : Prop :=
  ∀ fuel, run step fuel state = none

/-- Loop heads visited from a starting state. -/
inductive Reaches (step : σ → Step σ ρ) (start : σ) : σ → Prop where
  | refl : Reaches step start start
  | tail {state after : σ} (prior : Reaches step start state)
      (passed : step state = .next after) : Reaches step start after

/-- Loop heads of a run of at most `fuel` passes, in order. -/
def visited (step : σ → Step σ ρ) : Nat → σ → List σ
  | 0, _ => []
  | fuel + 1, state =>
      state :: match step state with
        | .next after => visited step fuel after
        | .done _ => []

/-! ## Fuel -/

theorem run_done (step : σ → Step σ ρ) (fuel : Nat) (state : σ) (result : ρ)
    (left : step state = .done result) : run step (fuel + 1) state = some result := by
  simp only [run, left]

theorem run_next (step : σ → Step σ ρ) (fuel : Nat) (state after : σ)
    (passed : step state = .next after) :
    run step (fuel + 1) state = run step fuel after := by
  simp only [run, passed]

theorem run_mono (step : σ → Step σ ρ) (fuel more : Nat) (state : σ) (result : ρ)
    (success : run step fuel state = some result) (enough : fuel ≤ more) :
    run step more state = some result := by
  induction fuel generalizing more state with
  | zero => simp [run] at success
  | succ fuel ih =>
      obtain ⟨rest, rfl⟩ : ∃ rest, more = rest + 1 := ⟨more - 1, by omega⟩
      cases outcome : step state with
      | next after =>
          rw [run_next step fuel state after outcome] at success
          rw [run_next step rest state after outcome]
          exact ih rest after success (by omega)
      | done value =>
          rw [run_done step fuel state value outcome] at success
          rw [run_done step rest state value outcome, success]

theorem Returns.unique {step : σ → Step σ ρ} {state : σ} {first second : ρ}
    (left : Returns step state first) (right : Returns step state second) :
    first = second := by
  obtain ⟨fuel, leftRun⟩ := left
  obtain ⟨more, rightRun⟩ := right
  have leftMax := run_mono step fuel (max fuel more) state first leftRun (by omega)
  have rightMax := run_mono step more (max fuel more) state second rightRun (by omega)
  exact Option.some.inj (leftMax.symm.trans rightMax)

theorem returns_done {step : σ → Step σ ρ} {state : σ} {result : ρ}
    (left : step state = .done result) : Returns step state result :=
  ⟨1, run_done step 0 state result left⟩

theorem returns_next_iff {step : σ → Step σ ρ} {state after : σ}
    (passed : step state = .next after) (result : ρ) :
    Returns step state result ↔ Returns step after result := by
  constructor
  · rintro ⟨fuel, success⟩
    cases fuel with
    | zero => simp [run] at success
    | succ fuel => exact ⟨fuel, by rwa [run_next step fuel state after passed] at success⟩
  · rintro ⟨fuel, success⟩
    exact ⟨fuel + 1, by rwa [run_next step fuel state after passed]⟩

theorem not_diverges_iff {step : σ → Step σ ρ} {state : σ} :
    ¬ Diverges step state ↔ ∃ result, Returns step state result := by
  constructor
  · intro ends
    by_contra never
    refine ends fun fuel => ?_
    cases outcome : run step fuel state with
    | none => rfl
    | some result => exact absurd ⟨result, fuel, outcome⟩ never
  · rintro ⟨result, fuel, success⟩ diverges
    rw [diverges fuel] at success
    cases success

/-! ## Rules -/

/-- Partial correctness: an invariant that every pass keeps holds at the exit. -/
theorem returns_invariant {step : σ → Step σ ρ} (invariant : σ → Prop) (post : ρ → Prop)
    (keeps : ∀ state, invariant state →
      match step state with
      | .next after => invariant after
      | .done result => post result)
    {state : σ} {result : ρ} (start : invariant state)
    (success : Returns step state result) : post result := by
  obtain ⟨fuel, success⟩ := success
  induction fuel generalizing state with
  | zero => simp [run] at success
  | succ fuel ih =>
      have kept := keeps state start
      cases outcome : step state with
      | next after =>
          rw [outcome] at kept
          rw [run_next step fuel state after outcome] at success
          exact ih kept success
      | done value =>
          rw [outcome] at kept
          rw [run_done step fuel state value outcome] at success
          cases success
          exact kept

/-- Partial correctness with a history: what holds of a head after the heads before it. -/
theorem run_visited {step : σ → Step σ ρ} (invariant : List σ → σ → Prop)
    (post : List σ → ρ → Prop)
    (keeps : ∀ done state, invariant done state →
      match step state with
      | .next after => invariant (done ++ [state]) after
      | .done result => post (done ++ [state]) result)
    {done : List σ} {state : σ} {result : ρ} {fuel : Nat} (start : invariant done state)
    (success : run step fuel state = some result) : post (done ++ visited step fuel state) result := by
  induction fuel generalizing done state with
  | zero => simp [run] at success
  | succ fuel ih =>
      have kept := keeps done state start
      rw [visited]
      cases outcome : step state with
      | next after =>
          rw [outcome] at kept
          rw [run_next step fuel state after outcome] at success
          have later := ih kept success
          rwa [List.append_assoc] at later
      | done value =>
          rw [outcome] at kept
          rw [run_done step fuel state value outcome] at success
          cases success
          exact kept

/-- Total correctness: an invariant and a measure that every pass makes smaller.
The measure is also a bound on the number of passes. -/
theorem run_of_measure {step : σ → Step σ ρ} (invariant : σ → Prop) (post : ρ → Prop)
    (measure : σ → Nat)
    (keeps : ∀ state, invariant state →
      match step state with
      | .next after => invariant after ∧ measure after < measure state
      | .done result => post result)
    {state : σ} (start : invariant state) {fuel : Nat} (enough : measure state < fuel) :
    ∃ result, run step fuel state = some result ∧ post result := by
  induction fuel generalizing state with
  | zero => omega
  | succ fuel ih =>
      have kept := keeps state start
      cases outcome : step state with
      | next after =>
          rw [outcome] at kept
          rw [run_next step fuel state after outcome]
          exact ih kept.1 (by omega)
      | done value =>
          rw [outcome] at kept
          exact ⟨value, run_done step fuel state value outcome, kept⟩

theorem returns_of_measure {step : σ → Step σ ρ} (invariant : σ → Prop) (post : ρ → Prop)
    (measure : σ → Nat)
    (keeps : ∀ state, invariant state →
      match step state with
      | .next after => invariant after ∧ measure after < measure state
      | .done result => post result)
    {state : σ} (start : invariant state) :
    ∃ result, Returns step state result ∧ post result := by
  obtain ⟨result, success, holds⟩ :=
    run_of_measure invariant post measure keeps start (Nat.lt_succ_self _)
  exact ⟨result, ⟨_, success⟩, holds⟩

theorem diverges_of_invariant {step : σ → Step σ ρ} (stuck : σ → Prop)
    (turns : ∀ state, stuck state → ∃ after, step state = .next after ∧ stuck after)
    {state : σ} (start : stuck state) : Diverges step state := by
  intro fuel
  induction fuel generalizing state with
  | zero => rfl
  | succ fuel ih =>
      obtain ⟨after, passed, still⟩ := turns state start
      rw [run_next step fuel state after passed]
      exact ih still

/-! ## Loop heads -/

theorem Reaches.returns_iff {step : σ → Step σ ρ} {start state : σ}
    (reached : Reaches step start state) (result : ρ) :
    Returns step start result ↔ Returns step state result := by
  induction reached with
  | refl => rfl
  | tail _ passed ih => exact ih.trans (returns_next_iff passed result)

theorem Reaches.head {step : σ → Step σ ρ} {start middle state : σ}
    (passed : step start = .next middle) (rest : Reaches step middle state) :
    Reaches step start state := by
  induction rest with
  | refl => exact .tail .refl passed
  | tail _ later ih => exact .tail ih later

theorem Reaches.invariant {step : σ → Step σ ρ} (holds : σ → Prop)
    (keeps : ∀ state after, holds state → step state = .next after → holds after)
    {start state : σ} (reached : Reaches step start state) (initial : holds start) :
    holds state := by
  induction reached with
  | refl => exact initial
  | tail _ passed ih => exact keeps _ _ ih passed

theorem Returns.exit {step : σ → Step σ ρ} {start : σ} {result : ρ}
    (success : Returns step start result) :
    ∃ state, Reaches step start state ∧ step state = .done result := by
  obtain ⟨fuel, success⟩ := success
  induction fuel generalizing start with
  | zero => simp [run] at success
  | succ fuel ih =>
      cases outcome : step start with
      | next after =>
          rw [run_next step fuel start after outcome] at success
          obtain ⟨state, reached, left⟩ := ih success
          exact ⟨state, reached.head outcome, left⟩
      | done value =>
          rw [run_done step fuel start value outcome] at success
          cases success
          exact ⟨start, .refl, outcome⟩

/-- Two loops whose bodies agree at every head the first one visits leave with
the same results. -/
theorem run_congr {first second : σ → Step σ ρ} {start : σ}
    (same : ∀ state, Reaches first start state → first state = second state)
    (fuel : Nat) : run first fuel start = run second fuel start := by
  induction fuel generalizing start with
  | zero => rfl
  | succ fuel ih =>
      have here := same start .refl
      cases outcome : first start with
      | next after =>
          rw [run_next first fuel start after outcome,
            run_next second fuel start after (here ▸ outcome)]
          exact ih fun state reached => same state (reached.head outcome)
      | done value =>
          rw [run_done first fuel start value outcome,
            run_done second fuel start value (here ▸ outcome)]

def Step.Related {τ : Type u} {υ : Type v} (related : σ → τ → Prop) (same : ρ → υ → Prop) :
    Step σ ρ → Step τ υ → Prop
  | .next left, .next right => related left right
  | .done left, .done right => same left right
  | _, _ => False

/-- Two loops in step with one another leave together, with related results. -/
theorem run_related {τ : Type u} {υ : Type v} {first : σ → Step σ ρ} {second : τ → Step τ υ}
    {related : σ → τ → Prop} {same : ρ → υ → Prop}
    (keeps : ∀ left right, related left right →
      Step.Related related same (first left) (second right))
    (fuel : Nat) {left : σ} {right : τ} (start : related left right) :
    Option.Rel same (run first fuel left) (run second fuel right) := by
  induction fuel generalizing left right with
  | zero => exact .none
  | succ fuel ih =>
      have kept := keeps left right start
      cases leftStep : first left with
      | next leftAfter =>
          cases rightStep : second right with
          | next rightAfter =>
              rw [leftStep, rightStep] at kept
              rw [run_next first fuel left leftAfter leftStep,
                run_next second fuel right rightAfter rightStep]
              exact ih kept
          | done rightResult =>
              rw [leftStep, rightStep] at kept
              exact kept.elim
      | done leftResult =>
          cases rightStep : second right with
          | next rightAfter =>
              rw [leftStep, rightStep] at kept
              exact kept.elim
          | done rightResult =>
              rw [leftStep, rightStep] at kept
              rw [run_done first fuel left leftResult leftStep,
                run_done second fuel right rightResult rightStep]
              exact .some kept

theorem run_map {τ : Type v} (step : σ → Step σ ρ) (change : ρ → τ) (fuel : Nat) (start : σ) :
    run (fun state => (step state).map change) fuel start =
      (run step fuel start).map change := by
  induction fuel generalizing start with
  | zero => rfl
  | succ fuel ih =>
      cases outcome : step start with
      | next after =>
          rw [run_next step fuel start after outcome, ← ih after]
          exact run_next _ fuel start after (by rw [outcome]; rfl)
      | done value =>
          rw [run_done step fuel start value outcome]
          exact run_done _ fuel start (change value) (by rw [outcome]; rfl)

theorem reaches_map_iff {τ : Type v} (step : σ → Step σ ρ) (change : ρ → τ) (start state : σ) :
    Reaches (fun s => (step s).map change) start state ↔ Reaches step start state := by
  constructor
  · intro reached
    induction reached with
    | refl => exact .refl
    | @tail middle after _ passed ih =>
        refine .tail ih ?_
        cases outcome : step middle with
        | next later =>
            rw [outcome] at passed
            cases passed
            rfl
        | done value =>
            rw [outcome] at passed
            cases passed
  · intro reached
    induction reached with
    | refl => exact .refl
    | tail _ passed ih => exact .tail ih (by rw [passed]; rfl)

end ArcFirmware.Loop
