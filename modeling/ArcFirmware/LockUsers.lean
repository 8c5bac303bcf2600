import ArcFirmware.LockedSections

/-!
# Users of a lock

CPUs that use one lock for any number of critical sections each: mutual
exclusion, serial order, and no update of a shared word lost.
-/

set_option autoImplicit false

namespace ArcFirmware.LockUsers

open ArcFirmware.Port ArcFirmware.Threads ArcFirmware.CpuSync ArcFirmware.SpinLock
  ArcFirmware.LockedSections ArcFirmware.Edk2

variable {cpu : Type} {lock data : Nat} {guarded : Nat → Bool}

/-! ## What the functions give their users -/

structure Users (cpu : Type) (lock : Nat) (guarded : Nat → Bool) where
  config : cpu → SyncConfig
  fuel : cpu → Nat
  parts (who : cpu) : List (CriticalSection lock guarded)

def Users.prog (users : Users cpu lock guarded) (who : cpu) : Sync Unit :=
  useLock (users.config who) (users.fuel who) (users.parts who)

def Users.works (users : Users cpu lock guarded) (who : cpu) :
    Nat → Bool → List SyncEvent → Prop := workOf (users.parts who)

theorem Users.wp_prog (users : Users cpu lock guarded) (who : cpu) :
    wp (users.prog who)
      (fun _ after => holds lock after = false ∧ turns lock after = (users.parts who).length)
      (Each (Allowed lock guarded (users.works who))) [] := by
  have start : Using lock guarded (users.works who) 0 false [] [] := using_nil
  have used := wp_useLock (users.config who) (users.fuel who) (users.parts who)
    (fun index part at_ ended events worked => by
      rw [Nat.zero_add]
      exact ⟨part, at_, worked⟩) start
  rwa [Nat.zero_add] at used

theorem Users.legal [DecidableEq cpu] {start : Words} {schedule : Schedule cpu SyncAccess Nat}
    (users : Users cpu lock guarded)
    (interleaves : Interleaves syncMemory users.prog start schedule) :
    Legal syncMemory start (fun who => Allowed lock guarded (users.works who)) schedule :=
  legal_of_wp (fun who => wp_mono (fun _ _ _ _ => trivial) (fun _ kept => kept)
    (users.wp_prog who)) interleaves

theorem Users.of_returned (users : Users cpu lock guarded) {who : cpu} {history : List SyncEvent}
    (run : Runs (users.prog who) history (some ())) :
    holds lock history = false ∧ turns lock history = (users.parts who).length :=
  (wp_sound (users.wp_prog who) run).2 () rfl

/-! ## Updates of a shared word -/

def updateWord (data : Nat) (change : Nat → Nat) : Sync Unit := do
  let value ← load data
  store data (change value)

/-- The guarded accesses of an update: none, the load, or both. -/
def UpdateWork (data : Nat) (change : Nat → Nat) (ended : Bool) (events : List SyncEvent) : Prop :=
  (ended = false ∧ events = []) ∨ (∃ value, ended = false ∧ events = [.read (.word data) value]) ∨
    ∃ value, events = [.read (.word data) value, .write (.word data) (change value)]

theorem runs_updateWord {change : Nat → Nat} {trace : List SyncEvent} {outcome : Option Unit}
    (run : Runs (updateWord data change) trace outcome) :
    UpdateWork data change outcome.isSome trace := by
  cases run with
  | stop => exact .inl ⟨rfl, rfl⟩
  | input rest =>
      cases rest with
      | stop => exact .inr (.inl ⟨_, rfl, rfl⟩)
      | output rest =>
          cases rest with
          | stop => exact .inr (.inr ⟨_, rfl⟩)
          | ret => exact .inr (.inr ⟨_, rfl⟩)

def updateSection (other : data ≠ lock) (change : Nat → Nat) :
    CriticalSection lock (fun addr => addr == data) where
  work := UpdateWork data change
  outside := pure ()
  inside := updateWord data change
  outsideAvoids := trivial
  insideAvoids :=
    have free : some data ≠ some lock := fun same => other (Option.some.inj same)
    fun _ => ⟨free, free, trivial⟩
  insideWorks trace outcome run := by
    have works := runs_updateWord run
    obtain ⟨fresh, rfl⟩ | ⟨value, fresh, rfl⟩ | ⟨value, rfl⟩ := works
    · exact .inl ⟨fresh, rfl⟩
    · refine .inr (.inl ⟨value, fresh, ?_⟩)
      simp [isGuarded, port, SyncAccess.addr, other]
    · refine .inr (.inr ⟨value, ?_⟩)
      simp [isGuarded, port, SyncAccess.addr, other]

/-- Who took the lock, in order. -/
def acquirers (lock : Nat) (schedule : Schedule cpu SyncAccess Nat) : List cpu :=
  (schedule.filter fun step => holdStep lock false step.2).map Prod.fst

theorem acquirers_concat (schedule : Schedule cpu SyncAccess Nat) (step : cpu × SyncEvent) :
    acquirers lock (schedule ++ [step]) =
      acquirers lock schedule ++ if holdStep lock false step.2 then [step.1] else [] := by
  rw [acquirers, List.filter_append, List.map_append]
  cases taken : holdStep lock false step.2 <;> simp [acquirers, taken]

theorem sectionsOf_owners (schedule : Schedule cpu SyncAccess Nat) :
    (sectionsOf lock guarded schedule).reverse.map Prod.fst = acquirers lock schedule := by
  induction schedule using List.reverseRecOn with
  | nil => rfl
  | append_singleton schedule step ih =>
      obtain ⟨who, event⟩ := step
      rw [sectionsOf_concat, acquirers_concat, ← ih]
      cases taken : holdStep lock false event with
      | true => simp [sectionStep, taken]
      | false =>
          cases inside : isGuarded lock guarded event with
          | false => simp [sectionStep, taken, inside]
          | true => cases sectionsOf lock guarded schedule <;> simp [sectionStep, taken, inside]

/-- The updates that have been made, where each CPU makes its own in order; the latest first. -/
def updatesMade [DecidableEq cpu] (updates : cpu → List (Nat → Nat)) : List cpu → List (Nat → Nat)
  | [] => []
  | who :: earlier => (updates who)[earlier.count who]?.toList ++ updatesMade updates earlier

/-- CPUs whose critical sections are updates of the word. -/
def Updating (updates : cpu → List (Nat → Nat))
    (users : Users cpu lock fun addr => addr == data) : Prop :=
  ∀ who, (users.parts who).map CriticalSection.work = (updates who).map (UpdateWork data)

section Updates

variable {updates : cpu → List (Nat → Nat)} {users : Users cpu lock fun addr => addr == data}

theorem Updating.length (updating : Updating updates users) (who : cpu) :
    (users.parts who).length = (updates who).length := by
  have same := congrArg List.length (updating who)
  rwa [List.length_map, List.length_map] at same

theorem Updating.work (updating : Updating updates users) {who : cpu} {turn : Nat}
    {events : List SyncEvent} (worked : users.works who turn true events) :
    ∃ change value, (updates who)[turn]? = some change ∧
      events = [.read (.word data) value, .write (.word data) (change value)] := by
  obtain ⟨part, here, worked⟩ := worked
  have same := congrArg (fun works => works[turn]?) (updating who)
  simp only [List.getElem?_map, here, Option.map_some] at same
  obtain ⟨change, made, update⟩ := Option.map_eq_some_iff.mp same.symm
  rw [← update] at worked
  obtain ⟨wrong, _⟩ | ⟨_, wrong, _⟩ | ⟨value, events⟩ := worked
  · cases wrong
  · cases wrong
  · exact ⟨change, value, made, events⟩

variable [DecidableEq cpu]

theorem run_updates (updating : Updating updates users) (sections : List (cpu × List SyncEvent))
    (start : Words) (ended : Ended users.works sections)
    (served : Served syncMemory start (serially sections)) :
    syncMemory.run start (serially sections) data =
      (updatesMade updates (sections.map Prod.fst)).foldr (fun change value => change value)
        (start data) := by
  induction sections with
  | nil => rfl
  | cons one earlier ih =>
      obtain ⟨who, events⟩ := one
      obtain ⟨worked, ended⟩ := ended
      obtain ⟨change, value, made, rfl⟩ := updating.work worked
      rw [serially_cons] at served ⊢
      have before := ih ended (served.of_prefix (List.prefix_append _ _))
      have loaded : value = syncMemory.run start (serially earlier) data :=
        served _ who (.read (.word data) value)
          ((List.prefix_append_right_inj _).mpr (List.prefix_append [_] [_]))
      rw [turnsOf] at made
      have updated : updatesMade updates (who :: earlier.map Prod.fst) =
          change :: updatesMade updates (earlier.map Prod.fst) := by
        rw [updatesMade, made]
        rfl
      change _ = (updatesMade updates (who :: earlier.map Prod.fst)).foldr _ _
      rw [run_append, updated, List.foldr_cons, ← before, ← loaded]
      exact Function.update_self data (change value) (syncMemory.run start (serially earlier))

theorem turnsOf_le (updating : Updating updates users) (who : cpu)
    (sections : List (cpu × List SyncEvent)) (ended : Ended users.works sections) :
    turnsOf who sections ≤ (updates who).length := by
  induction sections with
  | nil => exact Nat.zero_le _
  | cons one earlier ih =>
      obtain ⟨owner, events⟩ := one
      by_cases same : owner = who
      · subst same
        obtain ⟨change, value, made, _⟩ := updating.work ended.1
        obtain ⟨inside, _⟩ := List.getElem?_eq_some_iff.mp made
        rw [turnsOf_cons_self]
        exact inside
      · rw [turnsOf_cons_of_ne same]
        exact ih ended.2

end Updates

/-! ## Two CPUs -/

def pairUpdates : Bool → List (Nat → Nat)
  | false => [fun value => value + 1]
  | true => [fun value => 2 * value, fun value => value + 3]

def pairConfig : SyncConfig := ⟨0, 0, 0, 0, true⟩

def pairUsers : Users Bool 0x1000 fun addr => addr == 0x2000 :=
  ⟨fun _ => pairConfig, fun _ => 3, fun who => (pairUpdates who).map (updateSection (by decide))⟩

/-- What `InitializeSpinLock` leaves where the word is five. -/
def pairWords : Words :=
  [.write (.word 0x1000) spinLockReleased].foldl wordsAfter fun addr => if addr = 0x2000 then 5 else 0

theorem pair_released : pairWords 0x1000 = spinLockReleased := by
  have initialized : Runs (initializeSpinLock pairConfig 0x1000)
      [.write (.word 0x1000) spinLockReleased] (some 0x1000) := .output (.ret 0x1000)
  exact released_of_initialized _ initialized

def pairSchedule : Schedule Bool SyncAccess Nat :=
  let tries : SyncAccess := .compareExchange 32 0x1000 1 2
  [(true, .read (.word 0x1000) 1), (false, .read (.word 0x1000) 1), (false, .read tries 1),
    (true, .read tries 2), (false, .read (.word 0x2000) 5), (true, .read (.word 0x1000) 2),
    (false, .write (.word 0x2000) 6), (false, .read (.word 0x1000) 2),
    (false, .write (.word 0x1000) 1), (true, .read tries 1), (true, .read (.word 0x2000) 6),
    (true, .write (.word 0x2000) 12), (true, .read (.word 0x1000) 2),
    (true, .write (.word 0x1000) 1), (true, .read (.word 0x1000) 1), (true, .read tries 1),
    (true, .read (.word 0x2000) 12), (true, .write (.word 0x2000) 15),
    (true, .read (.word 0x1000) 2), (true, .write (.word 0x1000) 1)]

theorem pair_returns (who : Bool) : Runs (pairUsers.prog who) (own who pairSchedule) (some ()) := by
  cases who with
  | false =>
      exact .input (.input (.input (.output (.input (.output (.ret ()))))))
  | true =>
      exact .input (.input (.input (.input (.input (.output (.input (.output (.input (.input
        (.input (.output (.input (.output (.ret ()))))))))))))))

theorem pair_interleaves : Interleaves syncMemory pairUsers.prog pairWords pairSchedule := by
  refine ⟨?_, fun who => ⟨some (), pair_returns who⟩⟩
  iterate 20 refine served_cons (by first | exact rfl | trivial) ?_
  exact served_nil _

theorem pair_updating : Updating pairUpdates pairUsers := by
  intro who
  cases who <;> rfl

/-! ## Every interleaving -/

section Results

variable [DecidableEq cpu]

structure Excludes (lock : Nat) (guarded : Nat → Bool) (start : Words)
    (schedule : Schedule cpu SyncAccess Nat) : Prop where
  exclusive : ∀ before, before <+: schedule → ∀ first second,
    holds lock (own first before) = true → holds lock (own second before) = true → first = second
  inside : ∀ before who event, before ++ [(who, event)] <+: schedule →
    isGuarded lock guarded event = true → holds lock (own who before) = true
  acquired : ∀ before, before <+: schedule → (syncMemory.run start before lock = spinLockAcquired ↔
    ∃ who, holds lock (own who before) = true)
  released : ∀ before, before <+: schedule → (syncMemory.run start before lock = spinLockReleased ↔
    ∀ who, holds lock (own who before) = false)
  valid : ∀ before who answer, before ++ [(who, .read (.word lock) answer)] <+: schedule →
    isLockValue answer = true
  tries : ∀ before who bits answer, before ++ [(who,
      .read (.compareExchange bits lock spinLockReleased spinLockAcquired) answer)] <+: schedule →
    (answer = spinLockReleased ↔ ∀ other, holds lock (own other before) = false)

theorem spinLock_excludes (users : Users cpu lock guarded) (start : Words)
    (released : start lock = spinLockReleased) (schedule : Schedule cpu SyncAccess Nat)
    (interleaves : Interleaves syncMemory users.prog start schedule) :
    Excludes lock guarded start schedule := by
  have legal := users.legal interleaves
  have ownership (before : Schedule cpu SyncAccess Nat) (begins : before <+: schedule) :
      Ownership lock before (syncMemory.run start before) :=
    ownership_of_legal released (legal.of_prefix begins)
  refine ⟨?_, ?_, ?_, ?_, ?_, ?_⟩
  · intro before begins first second left right
    exact (ownership before begins).unique left right
  · intro before who event begins inside
    exact ((legal.of_prefix begins).last.inside inside).1
  · intro before begins
    exact (ownership before begins).acquired_iff
  · intro before begins
    exact (ownership before begins).released_iff
  · intro before who answer begins
    exact lockValue_of_legal released (legal.of_prefix begins)
  · intro before who bits answer begins
    have served : answer = syncMemory.run start before lock := (legal.of_prefix begins).served.last
    rw [served]
    exact (ownership before ((List.prefix_append _ _).trans begins)).released_iff

theorem spinLock_excludes_pair : pairWords 0x1000 = spinLockReleased ∧
    Excludes 0x1000 (fun addr => addr == 0x2000) pairWords pairSchedule :=
  ⟨pair_released, spinLock_excludes pairUsers pairWords pair_released pairSchedule pair_interleaves⟩

theorem spinLock_serializes (users : Users cpu lock guarded) (start : Words)
    (released : start lock = spinLockReleased) (schedule : Schedule cpu SyncAccess Nat)
    (interleaves : Interleaves syncMemory users.prog start schedule) :
    ∀ before, before <+: schedule → Serializes lock guarded users.works start before :=
  fun _ begins => serializes_of_legal released (Legal.of_prefix (users.legal interleaves) begins)

theorem spinLock_serializes_pair :
    Serializes 0x1000 (fun addr => addr == 0x2000) pairUsers.works pairWords pairSchedule :=
  spinLock_serializes pairUsers pairWords pair_released pairSchedule pair_interleaves pairSchedule
    (List.prefix_refl _)

/-- Where nobody has the lock the word holds the updates of the sections so far, in the order
of the lock: of each CPU its first ones, and all of them once it has returned. -/
structure Updated (updates : cpu → List (Nat → Nat))
    (users : Users cpu lock fun addr => addr == data) (start : Words)
    (before : Schedule cpu SyncAccess Nat) : Prop where
  word : syncMemory.run start before data =
    (updatesMade updates (acquirers lock before).reverse).foldr (fun change value => change value)
      (start data)
  made : ∀ who, (acquirers lock before).count who ≤ (updates who).length
  all : ∀ who, Runs (users.prog who) (own who before) (some ()) →
    (acquirers lock before).count who = (updates who).length

theorem spinLock_updates (updates : cpu → List (Nat → Nat))
    (users : Users cpu lock fun addr => addr == data) (updating : Updating updates users)
    (other : data ≠ lock) (start : Words) (released : start lock = spinLockReleased)
    (schedule : Schedule cpu SyncAccess Nat)
    (interleaves : Interleaves syncMemory users.prog start schedule) :
    ∀ before, before <+: schedule → (∀ who, holds lock (own who before) = false) →
      Updated updates users start before := by
  intro before begins nobody
  have serial := serializes_of_legal released (Legal.of_prefix (users.legal interleaves) begins)
  have ended := serial.ended nobody
  have owners : (sectionsOf lock (fun addr => addr == data) before).reverse.map Prod.fst =
      acquirers lock before := sectionsOf_owners before
  rw [List.map_reverse] at owners
  have count (who : cpu) : (acquirers lock before).count who =
      turnsOf who (sectionsOf lock (fun addr => addr == data) before) := by
    rw [← owners, List.count_reverse, turnsOf]
  refine ⟨?_, fun who => ?_, fun who run => ?_⟩
  · rw [serial.words data other (beq_self_eq_true data), ← owners, List.reverse_reverse]
    exact run_updates updating _ start ended serial.served
  · rw [count]
    exact turnsOf_le updating who _ ended
  · rw [count, serial.numbers, nobody, (users.of_returned run).2, updating.length]
    rfl

theorem spinLock_updates_pair :
    syncMemory.run pairWords pairSchedule 0x2000 = 15 ∧
      acquirers 0x1000 pairSchedule = [false, true, true] ∧
      Updated pairUpdates pairUsers pairWords pairSchedule := by
  have law := spinLock_updates pairUpdates pairUsers pair_updating (by decide) pairWords pair_released
    pairSchedule pair_interleaves pairSchedule (List.prefix_refl _) (by decide)
  exact ⟨law.word, by decide, law⟩

end Results

end ArcFirmware.LockUsers
