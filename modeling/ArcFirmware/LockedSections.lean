import ArcFirmware.SpinLock

/-!
# Critical sections of a schedule

What a lock gives its users: at every point of every schedule one CPU at most is
in a critical section, and the guarded accesses are those of whole sections, one
after the other in the order in which the lock was taken.
-/

set_option autoImplicit false

namespace ArcFirmware.LockedSections

open ArcFirmware.Port ArcFirmware.Threads ArcFirmware.CpuSync ArcFirmware.SpinLock
  ArcFirmware.Edk2

variable {cpu : Type} {lock : Nat} {guarded : Nat → Bool}

/-! ## The sections -/

/-- Taking the lock opens a section, a guarded access goes to the section that is open. -/
def sectionStep (lock : Nat) (guarded : Nat → Bool) (sections : List (cpu × List SyncEvent))
    (step : cpu × SyncEvent) : List (cpu × List SyncEvent) :=
  if holdStep lock false step.2 then (step.1, []) :: sections
  else if isGuarded lock guarded step.2 then
    match sections with
    | [] => []
    | (owner, events) :: earlier => (owner, events ++ [step.2]) :: earlier
  else sections

/-- Whose section it was and what was accessed in it, the latest first. -/
def sectionsOf (lock : Nat) (guarded : Nat → Bool) (schedule : Schedule cpu SyncAccess Nat) :
    List (cpu × List SyncEvent) :=
  schedule.foldl (sectionStep lock guarded) []

def serially (sections : List (cpu × List SyncEvent)) : Schedule cpu SyncAccess Nat :=
  sections.reverse.flatMap fun one => one.2.map (Prod.mk one.1)

theorem sectionsOf_concat (schedule : Schedule cpu SyncAccess Nat) (step : cpu × SyncEvent) :
    sectionsOf lock guarded (schedule ++ [step]) =
      sectionStep lock guarded (sectionsOf lock guarded schedule) step := by
  rw [sectionsOf, List.foldl_append]
  rfl

theorem serially_cons (owner : cpu) (events : List SyncEvent)
    (sections : List (cpu × List SyncEvent)) :
    serially ((owner, events) :: sections) = serially sections ++ events.map (Prod.mk owner) := by
  rw [serially, List.reverse_cons, List.flatMap_append, List.flatMap_singleton]
  rfl

theorem sectionStep_cases (sections : List (cpu × List SyncEvent)) (who : cpu) (event : SyncEvent) :
    (holdStep lock false event = true ∧
        sectionStep lock guarded sections (who, event) = (who, []) :: sections) ∨
      (holdStep lock false event = false ∧ isGuarded lock guarded event = false ∧
        sectionStep lock guarded sections (who, event) = sections) ∨
      (holdStep lock false event = false ∧ isGuarded lock guarded event = true ∧
        ∀ owner events earlier, sections = (owner, events) :: earlier →
          sectionStep lock guarded sections (who, event) =
            (owner, events ++ [event]) :: earlier) := by
  cases taken : holdStep lock false event with
  | true => exact .inl ⟨rfl, by simp [sectionStep, taken]⟩
  | false =>
      cases inside : isGuarded lock guarded event with
      | false => exact .inr (.inl ⟨rfl, rfl, by simp [sectionStep, taken, inside]⟩)
      | true =>
          refine .inr (.inr ⟨rfl, rfl, ?_⟩)
          rintro owner events earlier rfl
          simp [sectionStep, taken, inside]

theorem touches_of_takes {event : SyncEvent} (taken : holdStep lock false event = true) :
    Touches event lock := by
  by_contra untouched
  rw [holdStep_of_untouched false untouched] at taken
  cases taken

/-! ## Every schedule -/

section Schedules

variable [DecidableEq cpu] {works : cpu → Nat → Bool → List SyncEvent → Prop} {start : Words}
  {schedule : Schedule cpu SyncAccess Nat} {who : cpu} {event : SyncEvent}

def turnsOf (who : cpu) (sections : List (cpu × List SyncEvent)) : Nat :=
  (sections.map Prod.fst).count who

/-- Each section has done the work that came next for its CPU. -/
def Ended (works : cpu → Nat → Bool → List SyncEvent → Prop) : List (cpu × List SyncEvent) → Prop
  | [] => True
  | (who, events) :: earlier => works who (turnsOf who earlier) true events ∧ Ended works earlier

theorem turnsOf_cons_self (who : cpu) (events : List SyncEvent)
    (earlier : List (cpu × List SyncEvent)) :
    turnsOf who ((who, events) :: earlier) = turnsOf who earlier + 1 := by
  simp [turnsOf]

theorem turnsOf_cons_of_ne {who other : cpu} (different : who ≠ other) (events : List SyncEvent)
    (earlier : List (cpu × List SyncEvent)) :
    turnsOf other ((who, events) :: earlier) = turnsOf other earlier := by
  simp [turnsOf, different]

/-- The open section is that of the CPU that has the lock; all others have ended. -/
structure Serialized (lock : Nat) (guarded : Nat → Bool)
    (works : cpu → Nat → Bool → List SyncEvent → Prop) (schedule : Schedule cpu SyncAccess Nat) :
    Prop where
  accesses : serially (sectionsOf lock guarded schedule) =
    schedule.filter fun step => isGuarded lock guarded step.2
  whole : ∀ who, ((sectionsOf lock guarded schedule).filter fun one => one.1 = who) =
    sectionsOf lock guarded (schedule.filter fun step => step.1 = who)
  opened : ∀ who, holds lock (own who schedule) = true → ∃ earlier,
    sectionsOf lock guarded schedule = (who, current lock guarded (own who schedule)) :: earlier ∧
      Ended works earlier
  ended : (∀ who, holds lock (own who schedule) = false) →
    Ended works (sectionsOf lock guarded schedule)
  numbers : ∀ who, turnsOf who (sectionsOf lock guarded schedule) =
    turns lock (own who schedule) + (holds lock (own who schedule)).toNat

theorem serialized_nil :
    Serialized lock guarded works ([] : Schedule cpu SyncAccess Nat) :=
  ⟨rfl, fun _ => rfl, fun _ has => (nomatch has), fun _ => trivial, fun _ => rfl⟩

theorem filter_concat_self (schedule : Schedule cpu SyncAccess Nat) (who : cpu) (event : SyncEvent) :
    ((schedule ++ [(who, event)]).filter fun step => step.1 = who) =
      (schedule.filter fun step => step.1 = who) ++ [(who, event)] := by
  simp [List.filter_append]

theorem filter_concat_of_ne (schedule : Schedule cpu SyncAccess Nat) {who other : cpu}
    (different : who ≠ other) (event : SyncEvent) :
    ((schedule ++ [(who, event)]).filter fun step => step.1 = other) =
      schedule.filter fun step => step.1 = other := by
  simp [List.filter_append, different]

theorem turns_own_self (schedule : Schedule cpu SyncAccess Nat) (who : cpu) (event : SyncEvent) :
    turns lock (own who (schedule ++ [(who, event)])) =
      if holdStep lock true event then turns lock (own who schedule)
      else turns lock (own who schedule) + 1 := by
  rw [own_concat_self, turns_concat]

theorem holdStep_of_takes {event : SyncEvent} (taken : holdStep lock false event = true) :
    holdStep lock true event = true := by
  cases event with
  | read source answer =>
      cases source with
      | compareExchange bits addr compareValue exchangeValue => exact holdStep_exchange_of_held ..
      | word addr => rfl
      | increment addr => rfl
      | decrement addr => rfl
      | performanceCounter => rfl
      | debugAssert => rfl
  | write target value =>
      cases target with
      | word addr =>
          rw [holdStep] at taken
          split at taken <;> cases taken
      | compareExchange bits addr compareValue exchangeValue => rfl
      | increment addr => rfl
      | decrement addr => rfl
      | performanceCounter => rfl
      | debugAssert => rfl

theorem holds_own_of_ne (schedule : Schedule cpu SyncAccess Nat) {who other : cpu}
    (different : who ≠ other) (event : SyncEvent) :
    holds lock (own other (schedule ++ [(who, event)])) = holds lock (own other schedule) := by
  rw [own_concat_of_ne _ _ different]

theorem Serialized.take (serialized : Serialized lock guarded works schedule)
    (taken : holdStep lock false event = true)
    (nobody : ∀ other, holds lock (own other schedule) = false) :
    Serialized lock guarded works (schedule ++ [(who, event)]) := by
  have outside : isGuarded lock guarded event = false := isGuarded_of_touches (touches_of_takes taken)
  have enter (sections : List (cpu × List SyncEvent)) :
      sectionStep lock guarded sections (who, event) = (who, []) :: sections := by
    simp [sectionStep, taken]
  have mine : holds lock (own who (schedule ++ [(who, event)])) = true := by
    rw [holds_own_self, nobody who, taken]
  refine ⟨?_, fun other => ?_, fun other has => ?_, fun free => ?_, fun other => ?_⟩
  · rw [sectionsOf_concat, enter, serially_cons, serialized.accesses]
    simp [List.filter_append, outside]
  · rw [sectionsOf_concat, enter]
    by_cases same : who = other
    · subst same
      rw [filter_concat_self, sectionsOf_concat, enter, ← serialized.whole]
      simp
    · rw [filter_concat_of_ne _ same, ← serialized.whole]
      simp [same]
  · by_cases same : who = other
    · subst same
      refine ⟨sectionsOf lock guarded schedule, ?_, serialized.ended nobody⟩
      rw [sectionsOf_concat, enter, own_concat_self, current_concat, currentStep, taken, if_pos rfl]
    · rw [holds_own_of_ne _ same, nobody other] at has
      cases has
  · rw [free who] at mine
    cases mine
  · have before := serialized.numbers other
    rw [nobody other, Bool.toNat_false, Nat.add_zero] at before
    rw [sectionsOf_concat, enter]
    by_cases same : who = other
    · subst same
      rw [turnsOf_cons_self, turns_own_self, if_pos (holdStep_of_takes taken), mine, before]
      rfl
    · rw [turnsOf_cons_of_ne same, own_concat_of_ne _ _ same, nobody other, before]
      rfl

theorem Serialized.aside (serialized : Serialized lock guarded works schedule)
    (idle : holdStep lock false event = false) (outside : isGuarded lock guarded event = false)
    (closes : holdStep lock true event = false → holds lock (own who schedule) = true ∧
      works who (turns lock (own who schedule)) true (current lock guarded (own who schedule))) :
    Serialized lock guarded works (schedule ++ [(who, event)]) := by
  have leave (sections : List (cpu × List SyncEvent)) :
      sectionStep lock guarded sections (who, event) = sections := by
    simp [sectionStep, idle, outside]
  refine ⟨?_, fun other => ?_, fun other has => ?_, fun free => ?_, fun other => ?_⟩
  · rw [sectionsOf_concat, leave, serialized.accesses]
    simp [List.filter_append, outside]
  · rw [sectionsOf_concat, leave, serialized.whole]
    by_cases same : who = other
    · subst same
      rw [filter_concat_self, sectionsOf_concat, leave]
    · rw [filter_concat_of_ne _ same]
  · rw [sectionsOf_concat, leave]
    by_cases same : who = other
    · subst same
      rw [holds_own_self] at has
      have before : holds lock (own who schedule) = true := by
        cases held : holds lock (own who schedule) with
        | true => rfl
        | false =>
            rw [held, idle] at has
            cases has
      rw [own_concat_self, current_concat, currentStep, idle, outside]
      exact serialized.opened who before
    · rw [holds_own_of_ne _ same] at has
      rw [own_concat_of_ne _ _ same]
      exact serialized.opened other has
  · rw [sectionsOf_concat, leave]
    cases held : holds lock (own who schedule) with
    | false =>
        refine serialized.ended fun other => ?_
        by_cases same : who = other
        · exact same ▸ held
        · rw [← holds_own_of_ne _ same event]
          exact free other
    | true =>
        have closed : holdStep lock true event = false := by
          rw [← held, ← holds_own_self]
          exact free who
        obtain ⟨earlier, opened, ended⟩ := serialized.opened who held
        have number := serialized.numbers who
        rw [opened, turnsOf_cons_self, held] at number
        rw [opened]
        exact ⟨Nat.succ.inj number ▸ (closes closed).2, ended⟩
  · rw [sectionsOf_concat, leave, serialized.numbers]
    by_cases same : who = other
    · subst same
      rw [turns_own_self, holds_own_self]
      cases kept : holdStep lock true event with
      | true =>
          rw [if_pos rfl]
          cases held : holds lock (own who schedule) with
          | true => rw [kept]
          | false => rw [idle]
      | false =>
          rw [if_neg Bool.false_ne_true, (closes kept).1, kept]
          rfl
    · rw [own_concat_of_ne _ _ same]

theorem Serialized.access (serialized : Serialized lock guarded works schedule)
    (inside : isGuarded lock guarded event = true) (mine : holds lock (own who schedule) = true)
    (only : ∀ other, holds lock (own other schedule) = true → other = who) :
    Serialized lock guarded works (schedule ++ [(who, event)]) := by
  have untouched : ¬ Touches event lock := fun touched => by
    rw [isGuarded_of_touches touched] at inside
    cases inside
  have idle : holdStep lock false event = false := holdStep_of_untouched false untouched
  have still : holds lock (own who (schedule ++ [(who, event)])) = true := by
    rw [holds_own_self, holdStep_of_untouched _ untouched, mine]
  have goes (events : List SyncEvent) (earlier : List (cpu × List SyncEvent)) :
      sectionStep lock guarded ((who, events) :: earlier) (who, event) =
        (who, events ++ [event]) :: earlier := by
    simp [sectionStep, idle, inside]
  obtain ⟨earlier, opened, ended⟩ := serialized.opened who mine
  have accesses := serialized.accesses
  refine ⟨?_, fun other => ?_, fun other has => ?_, fun free => ?_, fun other => ?_⟩
  · rw [opened, serially_cons] at accesses
    rw [sectionsOf_concat, opened, goes, serially_cons, List.map_append, ← List.append_assoc,
      accesses]
    simp [List.filter_append, inside]
  · have whole := serialized.whole other
    rw [opened] at whole
    rw [sectionsOf_concat, opened, goes]
    by_cases same : who = other
    · subst same
      rw [List.filter_cons_of_pos (by simp)] at whole ⊢
      rw [filter_concat_self, sectionsOf_concat, ← whole, goes]
    · rw [List.filter_cons_of_neg (by simp [same])] at whole ⊢
      rw [filter_concat_of_ne _ same, whole]
  · obtain rfl : other = who := by
      by_cases same : who = other
      · exact same.symm
      · rw [holds_own_of_ne _ same] at has
        exact only other has
    refine ⟨earlier, ?_, ended⟩
    rw [sectionsOf_concat, opened, goes, own_concat_self, current_concat, currentStep, idle, inside]
    rfl
  · rw [free who] at still
    cases still
  · have number := serialized.numbers other
    rw [opened] at number
    rw [sectionsOf_concat, opened, goes]
    by_cases same : who = other
    · subst same
      rw [turnsOf_cons_self] at number ⊢
      rw [turns_own_self, holdStep_of_untouched true untouched, if_pos rfl, still, number, mine]
    · rw [turnsOf_cons_of_ne same] at number ⊢
      rw [own_concat_of_ne _ _ same, number]

theorem nobody_of_takes {words : Words} {work : Nat → Bool → List SyncEvent → Prop}
    (ownership : Ownership lock schedule words)
    (permitted : Allowed lock guarded work (own who schedule) event)
    (served : answered words event) (taken : holdStep lock false event = true) :
    ∀ other, holds lock (own other schedule) = false := by
  have touched := touches_of_takes taken
  obtain ⟨answer, rfl⟩ | ⟨bits, answer, rfl, _⟩ | ⟨rfl, _, _⟩ :=
    lockAccess_cases touched (permitted.lockWord touched)
  · cases taken
  · have got : answer = spinLockReleased := by
      by_contra busy
      rw [holdStep, if_neg fun both => busy both.2] at taken
      cases taken
    cases ownership with
    | free _ nobody => exact nobody
    | owned owner acquired has others =>
        have word : spinLockReleased = spinLockAcquired := got.symm.trans (served.trans acquired)
        cases word
  · rw [holdStep, if_pos rfl] at taken
    cases taken

theorem worked_of_closes {work : Nat → Bool → List SyncEvent → Prop}
    (permitted : Allowed lock guarded work (own who schedule) event)
    (closed : holdStep lock true event = false) : holds lock (own who schedule) = true ∧
      work (turns lock (own who schedule)) true (current lock guarded (own who schedule)) := by
  have touched : Touches event lock := by
    by_contra untouched
    rw [holdStep_of_untouched true untouched] at closed
    cases closed
  obtain ⟨answer, rfl⟩ | ⟨bits, answer, rfl, _⟩ | ⟨rfl, mine, worked⟩ :=
    lockAccess_cases touched (permitted.lockWord touched)
  · cases closed
  · rw [holdStep_exchange_of_held] at closed
    cases closed
  · exact ⟨mine, worked⟩

/-- Every schedule of CPUs that keep to the rules is serialized. -/
theorem serialized_of_legal (released : start lock = spinLockReleased)
    (legal : Legal syncMemory start (fun who => Allowed lock guarded (works who)) schedule) :
    Serialized lock guarded works schedule := by
  refine invariant_of_legal (fun schedule _ => Serialized lock guarded works schedule)
    serialized_nil ?_ legal
  intro schedule who event legal serialized
  have permitted := legal.last
  have served : answered (syncMemory.run start schedule) event := legal.served.last
  have ownership := ownership_of_legal released (legal.of_prefix (List.prefix_append _ _))
  have cases := @sectionStep_cases _ lock guarded (sectionsOf lock guarded schedule) who event
  obtain ⟨taken, _⟩ | ⟨idle, outside, _⟩ | ⟨_, inside, _⟩ := cases
  · exact serialized.take taken (nobody_of_takes ownership permitted served taken)
  · exact serialized.aside idle outside fun closed => worked_of_closes permitted closed
  · obtain ⟨mine, _⟩ := permitted.inside inside
    exact serialized.access inside mine fun other has => ownership.unique has mine

end Schedules

/-! ## The guarded words -/

theorem wordsAfter_congr {words other : Words} {addr : Nat} (event : SyncEvent)
    (same : words addr = other addr) : wordsAfter words event addr = wordsAfter other event addr := by
  by_cases touched : Touches event addr
  · cases event with
    | read source answer =>
        cases source with
        | compareExchange bits here compareValue exchangeValue =>
            obtain rfl : here = addr := Option.some.inj touched
            by_cases hit : words here = compareValue
            · rw [wordsAfter, wordsAfter, if_pos hit, if_pos (same ▸ hit), Function.update_self,
                Function.update_self]
            · rw [wordsAfter, wordsAfter, if_neg hit, if_neg (same ▸ hit), same]
        | increment here =>
            obtain rfl : here = addr := Option.some.inj touched
            rw [wordsAfter, wordsAfter, Function.update_self, Function.update_self, same]
        | decrement here =>
            obtain rfl : here = addr := Option.some.inj touched
            rw [wordsAfter, wordsAfter, Function.update_self, Function.update_self, same]
        | word here => exact same
        | performanceCounter => exact same
        | debugAssert => exact same
    | write target value =>
        cases target with
        | word here =>
            obtain rfl : here = addr := Option.some.inj touched
            rw [wordsAfter, wordsAfter, Function.update_self, Function.update_self]
        | compareExchange bits here compareValue exchangeValue => exact same
        | increment here => exact same
        | decrement here => exact same
        | performanceCounter => exact same
        | debugAssert => exact same
  · rw [wordsAfter_of_untouched words touched, wordsAfter_of_untouched other touched, same]

theorem answered_congr {words other : Words} {event : SyncEvent}
    (same : ∀ addr, Touches event addr → words addr = other addr)
    (served : answered words event) : answered other event := by
  cases event with
  | read source answer =>
      cases source with
      | word addr => exact Eq.trans served (same addr rfl)
      | compareExchange bits addr compareValue exchangeValue => exact Eq.trans served (same addr rfl)
      | increment addr =>
          have now : answer = u32 (words addr + 1) := served
          rwa [same addr rfl] at now
      | decrement addr =>
          have now : answer = u32 (words addr + 2 ^ 32 - 1) := served
          rwa [same addr rfl] at now
      | performanceCounter => trivial
      | debugAssert => trivial
  | write target value => trivial

theorem isGuarded_of_guards {event : SyncEvent} {addr : Nat} (other : addr ≠ lock)
    (guards : guarded addr = true) (touched : Touches event addr) :
    isGuarded lock guarded event = true := by
  have port : SyncAccess.addr (port event) = some addr := touched
  simp [isGuarded, port, other, guards]

theorem guards_of_touches {event : SyncEvent} {addr : Nat}
    (inside : isGuarded lock guarded event = true) (touched : Touches event addr) :
    addr ≠ lock ∧ guarded addr = true := by
  have port : SyncAccess.addr (port event) = some addr := touched
  simpa [isGuarded, port] using inside

theorem guarded_agreement : Agreement syncMemory (isGuarded lock guarded)
    (fun words other => ∀ addr, addr ≠ lock → guarded addr = true → words addr = other addr) where
  refl _ _ _ _ := rfl
  skip words other event outside agree addr free guards := by
    refine Eq.trans (wordsAfter_of_untouched words fun touched => ?_) (agree addr free guards)
    rw [isGuarded_of_guards free guards touched] at outside
    cases outside
  step words other event _ agree addr free guards := wordsAfter_congr event (agree addr free guards)
  answers words other event inside agree served :=
    answered_congr (fun addr touched =>
      have guards := guards_of_touches inside touched
      agree addr guards.1 guards.2) served

section Serial

variable [DecidableEq cpu] {works : cpu → Nat → Bool → List SyncEvent → Prop} {start : Words}
  {schedule : Schedule cpu SyncAccess Nat}

/-- The guarded words are as if each section had run alone, in the order of the lock. -/
structure Serializes (lock : Nat) (guarded : Nat → Bool)
    (works : cpu → Nat → Bool → List SyncEvent → Prop) (start : Words)
    (schedule : Schedule cpu SyncAccess Nat) : Prop
    extends Serialized lock guarded works schedule where
  served : Served syncMemory start (serially (sectionsOf lock guarded schedule))
  words : ∀ addr, addr ≠ lock → guarded addr = true → syncMemory.run start schedule addr =
    syncMemory.run start (serially (sectionsOf lock guarded schedule)) addr

theorem serializes_of_legal (released : start lock = spinLockReleased)
    (legal : Legal syncMemory start (fun who => Allowed lock guarded (works who)) schedule) :
    Serializes lock guarded works start schedule := by
  have serialized := serialized_of_legal released legal
  refine { serialized with served := ?_, words := ?_ }
  · rw [serialized.accesses]
    exact guarded_agreement.served legal.served
  · rw [serialized.accesses]
    exact guarded_agreement.run start schedule

end Serial

end ArcFirmware.LockedSections
