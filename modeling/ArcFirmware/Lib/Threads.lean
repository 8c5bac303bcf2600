import ArcFirmware.Lib.Port
import Mathlib.Data.List.Induction

/-!
# Threads that share a memory

Several programs run side by side; a schedule is who did what, in the order in
which it happened.  Each thread's own accesses are a run of its program, and the
memory answers every access as the accesses before it have left it.  The rule of
this file proves an invariant of all schedules from what each program allows
itself after its own history.
-/

set_option autoImplicit false

namespace ArcFirmware.Threads

open ArcFirmware.Port

variable {tid port word α σ : Type}

abbrev Schedule (tid port word : Type) := List (tid × Event port word)

/-- A memory: which accesses it answers so, and what they leave. -/
structure Shared (port word σ : Type) where
  answers : σ → Event port word → Prop
  after : σ → Event port word → σ

def Shared.run (shared : Shared port word σ) (start : σ) (schedule : Schedule tid port word) : σ :=
  schedule.foldl (fun state step => shared.after state step.2) start

def own [DecidableEq tid] (who : tid) (schedule : Schedule tid port word) :
    List (Event port word) :=
  (schedule.filter fun step => step.1 = who).map Prod.snd

section Own

variable [DecidableEq tid] {who other : tid}

theorem own_append (first second : Schedule tid port word) :
    own who (first ++ second) = own who first ++ own who second := by
  rw [own, List.filter_append, List.map_append]
  rfl

theorem own_map_self (who : tid) (events : List (Event port word)) :
    own who (events.map (Prod.mk who)) = events := by
  have mine : (events.map (Prod.mk who)).filter (fun step => step.1 = who) =
      events.map (Prod.mk who) := by
    refine List.filter_eq_self.mpr fun step inside => ?_
    obtain ⟨event, _, rfl⟩ := List.mem_map.mp inside
    exact decide_eq_true rfl
  rw [own, mine, List.map_map]
  exact List.map_id events

theorem own_map_of_ne (events : List (Event port word)) (different : other ≠ who) :
    own who (events.map (Prod.mk other)) = [] := by
  simp [own, List.filter_map, different]

theorem own_concat_self (schedule : Schedule tid port word) (event : Event port word) :
    own who (schedule ++ [(who, event)]) = own who schedule ++ [event] := by
  rw [own_append]
  congr 1
  simp [own]

theorem own_concat_of_ne (schedule : Schedule tid port word) (event : Event port word)
    (different : other ≠ who) : own who (schedule ++ [(other, event)]) = own who schedule := by
  rw [own_append]
  simp [own, different]

theorem exists_before_of_mem_own {event : Event port word} {schedule : Schedule tid port word}
    (inside : event ∈ own who schedule) :
    ∃ before, before ++ [(who, event)] <+: schedule := by
  obtain ⟨step, among, rfl⟩ := List.mem_map.mp inside
  obtain ⟨here, mine⟩ := List.mem_filter.mp among
  obtain ⟨before, after, rfl⟩ := List.append_of_mem here
  refine ⟨before, after, ?_⟩
  rw [← of_decide_eq_true mine, List.append_assoc]
  rfl

end Own

/-! ## Schedules of programs -/

section Schedules

variable (shared : Shared port word σ)

theorem run_concat (start : σ) (schedule : Schedule tid port word) (who : tid)
    (event : Event port word) :
    shared.run start (schedule ++ [(who, event)]) = shared.after (shared.run start schedule) event := by
  rw [Shared.run, List.foldl_append]
  rfl

theorem run_append (start : σ) (first second : Schedule tid port word) :
    shared.run start (first ++ second) = shared.run (shared.run start first) second :=
  List.foldl_append

/-- Every access is answered from the memory that the accesses before it have left. -/
def Served (start : σ) (schedule : Schedule tid port word) : Prop :=
  ∀ before who event, before ++ [(who, event)] <+: schedule →
    shared.answers (shared.run start before) event

/-- Schedules of a pool of programs, each stopped at any point. -/
structure Interleaves [DecidableEq tid] (progs : tid → PortProg port word α) (start : σ)
    (schedule : Schedule tid port word) : Prop where
  served : Served shared start schedule
  runs : ∀ who, ∃ outcome, Runs (progs who) (own who schedule) outcome

variable {shared}

theorem served_nil (start : σ) : Served shared start ([] : Schedule tid port word) := by
  intro before who event begins
  have empty := List.eq_nil_of_prefix_nil begins
  simp at empty

theorem served_concat {start : σ} {schedule : Schedule tid port word}
    (served : Served shared start schedule) {who : tid} {event : Event port word}
    (answered : shared.answers (shared.run start schedule) event) :
    Served shared start (schedule ++ [(who, event)]) := by
  intro before other last begins
  rcases List.prefix_concat_iff.mp begins with whole | inside
  · obtain ⟨rfl, same⟩ := List.append_inj' whole rfl
    cases same
    exact answered
  · exact served before other last inside

theorem served_cons {start : σ} {who : tid} {event : Event port word}
    {schedule : Schedule tid port word} (answered : shared.answers start event)
    (rest : Served shared (shared.after start event) schedule) :
    Served shared start ((who, event) :: schedule) := by
  intro before other last begins
  cases before with
  | nil =>
      rw [List.nil_append, List.singleton_prefix_cons_iff] at begins
      cases begins
      exact answered
  | cons step before =>
      obtain ⟨rfl, inside⟩ := List.cons_prefix_cons.mp begins
      exact rest before other last inside

theorem Served.head {start : σ} {step : tid × Event port word} {schedule : Schedule tid port word}
    (served : Served shared start (step :: schedule)) : shared.answers start step.2 :=
  served [] step.1 step.2 ⟨schedule, rfl⟩

theorem Served.tail {start : σ} {step : tid × Event port word} {schedule : Schedule tid port word}
    (served : Served shared start (step :: schedule)) :
    Served shared (shared.after start step.2) schedule := by
  intro before who event begins
  exact served (step :: before) who event (List.cons_prefix_cons.mpr ⟨rfl, begins⟩)

theorem served_append {start : σ} {first second : Schedule tid port word}
    (served : Served shared start first) (rest : Served shared (shared.run start first) second) :
    Served shared start (first ++ second) := by
  induction first generalizing start with
  | nil => exact rest
  | cons step first ih =>
      obtain ⟨who, event⟩ := step
      exact served_cons served.head (ih served.tail rest)

theorem Served.of_prefix {start : σ} {older schedule : Schedule tid port word}
    (served : Served shared start schedule) (begins : older <+: schedule) :
    Served shared start older :=
  fun before who event inside => served before who event (inside.trans begins)

theorem Served.last {start : σ} {schedule : Schedule tid port word} {who : tid}
    {event : Event port word} (served : Served shared start (schedule ++ [(who, event)])) :
    shared.answers (shared.run start schedule) event :=
  served schedule who event (List.prefix_refl _)

theorem own_older [DecidableEq tid] {older schedule : Schedule tid port word}
    (begins : older <+: schedule) (who : tid) : own who older <+: own who schedule := by
  obtain ⟨rest, rfl⟩ := begins
  exact ⟨own who rest, (own_append older rest).symm⟩

theorem Interleaves.of_prefix [DecidableEq tid] {progs : tid → PortProg port word α} {start : σ}
    {older schedule : Schedule tid port word} (interleaves : Interleaves shared progs start schedule)
    (begins : older <+: schedule) : Interleaves shared progs start older := by
  refine ⟨interleaves.served.of_prefix begins, fun who => ?_⟩
  obtain ⟨outcome, run⟩ := interleaves.runs who
  exact ⟨none, run.of_prefix (own_older begins who)⟩

end Schedules

/-! ## A part of the memory -/

/-- States that agree on the part of the memory that some accesses are to. -/
structure Agreement (shared : Shared port word σ) (kind : Event port word → Bool)
    (agree : σ → σ → Prop) : Prop where
  refl : ∀ state, agree state state
  skip : ∀ state other event, kind event = false → agree state other →
    agree (shared.after state event) other
  step : ∀ state other event, kind event = true → agree state other →
    agree (shared.after state event) (shared.after other event)
  answers : ∀ state other event, kind event = true → agree state other →
    shared.answers state event → shared.answers other event

section Parts

variable {shared : Shared port word σ} {kind : Event port word → Bool} {agree : σ → σ → Prop}
  {start : σ} {schedule : Schedule tid port word}

theorem Agreement.run (agreement : Agreement shared kind agree) (start : σ)
    (schedule : Schedule tid port word) : agree (shared.run start schedule)
      (shared.run start (schedule.filter fun step => kind step.2)) := by
  induction schedule using List.reverseRecOn with
  | nil => exact agreement.refl start
  | append_singleton schedule step ih =>
      rw [List.filter_append, run_concat]
      cases part : kind step.2 with
      | false =>
          rw [List.filter_cons_of_neg (by simp [part]), List.filter_nil, List.append_nil]
          exact agreement.skip _ _ _ part ih
      | true =>
          rw [List.filter_cons_of_pos (by simp [part]), List.filter_nil, run_concat]
          exact agreement.step _ _ _ part ih

theorem Agreement.served (agreement : Agreement shared kind agree)
    (served : Served shared start schedule) :
    Served shared start (schedule.filter fun step => kind step.2) := by
  induction schedule using List.reverseRecOn with
  | nil => exact served
  | append_singleton schedule step ih =>
      -- the other accesses in between have left the part as it was
      have older := ih (served.of_prefix (List.prefix_append _ _))
      rw [List.filter_append]
      cases part : kind step.2 with
      | false =>
          rwa [List.filter_cons_of_neg (by simp [part]), List.filter_nil, List.append_nil]
      | true =>
          rw [List.filter_cons_of_pos (by simp [part]), List.filter_nil]
          exact served_concat older
            (agreement.answers _ _ _ part (agreement.run start schedule) served.last)

end Parts

/-! ## The invariant rule -/

/-- Schedules in which every thread only does what it allows itself. -/
structure Legal [DecidableEq tid] (shared : Shared port word σ) (start : σ)
    (allowed : tid → List (Event port word) → Event port word → Prop)
    (schedule : Schedule tid port word) : Prop where
  served : Served shared start schedule
  each : ∀ who, Each (allowed who) (own who schedule)

section Rule

variable [DecidableEq tid] {shared : Shared port word σ} {start : σ}
  {allowed : tid → List (Event port word) → Event port word → Prop}
  {schedule older : Schedule tid port word}

theorem Legal.of_prefix (legal : Legal shared start allowed schedule) (begins : older <+: schedule) :
    Legal shared start allowed older :=
  ⟨legal.served.of_prefix begins, fun who => Each.of_prefix (legal.each who) (own_older begins who)⟩

theorem Legal.last {who : tid} {event : Event port word}
    (legal : Legal shared start allowed (schedule ++ [(who, event)])) :
    allowed who (own who schedule) event := by
  have mine := legal.each who
  rw [own_concat_self] at mine
  exact mine.last

theorem legal_of_wp {progs : tid → PortProg port word α}
    (proved : ∀ who, wp (progs who) (fun _ _ => True) (Each (allowed who)) [])
    (interleaves : Interleaves shared progs start schedule) :
    Legal shared start allowed schedule := by
  refine ⟨interleaves.served, fun who => ?_⟩
  obtain ⟨outcome, run⟩ := interleaves.runs who
  exact (wp_sound (proved who) run).1

/-- An invariant that every allowed and answered access keeps. -/
theorem invariant_of_legal (invariant : Schedule tid port word → σ → Prop)
    (first : invariant [] start)
    (keeps : ∀ schedule who event, Legal shared start allowed (schedule ++ [(who, event)]) →
      invariant schedule (shared.run start schedule) →
      invariant (schedule ++ [(who, event)]) (shared.after (shared.run start schedule) event))
    (legal : Legal shared start allowed schedule) : invariant schedule (shared.run start schedule) := by
  induction schedule using List.reverseRecOn with
  | nil => exact first
  | append_singleton schedule step ih =>
      obtain ⟨who, event⟩ := step
      rw [run_concat]
      exact keeps schedule who event legal (ih (legal.of_prefix (List.prefix_append _ _)))

end Rule

end ArcFirmware.Threads
