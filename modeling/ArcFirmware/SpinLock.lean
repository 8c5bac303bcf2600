import ArcFirmware.CpuSync
import ArcFirmware.Lib.Threads

/-!
# Spin locks between CPUs

Any number of CPUs use one lock in critical sections, in any interleaving of
their single accesses.  From its own history a CPU knows whether it has the
lock; that at most one does, and that the lock word says so, is the invariant of
all schedules.
-/

set_option autoImplicit false

namespace ArcFirmware.SpinLock

open ArcFirmware.Port ArcFirmware.Threads ArcFirmware.CpuSync ArcFirmware.Edk2

/-! ## Shared words -/

abbrev Words := Nat → Nat

def SyncAccess.addr : SyncAccess → Option Nat
  | .word addr => some addr
  | .compareExchange _ addr _ _ => some addr
  | .increment addr => some addr
  | .decrement addr => some addr
  | .performanceCounter => none
  | .debugAssert => none

def port : SyncEvent → SyncAccess
  | .read source _ => source
  | .write target _ => target

def Touches (event : SyncEvent) (addr : Nat) : Prop := SyncAccess.addr (port event) = some addr

def answered (words : Words) : SyncEvent → Prop
  | .read (.word addr) answer => answer = words addr
  | .read (.compareExchange _ addr _ _) answer => answer = words addr
  | .read (.increment addr) answer => answer = u32 (words addr + 1)
  | .read (.decrement addr) answer => answer = u32 (words addr + 2 ^ 32 - 1)
  | _ => True

def wordsAfter (words : Words) : SyncEvent → Words
  | .read (.compareExchange _ addr compareValue exchangeValue) _ =>
      if words addr = compareValue then Function.update words addr exchangeValue else words
  | .read (.increment addr) _ => Function.update words addr (u32 (words addr + 1))
  | .read (.decrement addr) _ => Function.update words addr (u32 (words addr + 2 ^ 32 - 1))
  | .write (.word addr) value => Function.update words addr value
  | _ => words

def syncMemory : Shared SyncAccess Nat Words := ⟨answered, wordsAfter⟩

theorem wordsAfter_of_untouched (words : Words) {event : SyncEvent} {addr : Nat}
    (untouched : ¬ Touches event addr) : wordsAfter words event addr = words addr := by
  have other (here : Nat) (same : SyncAccess.addr (port event) = some here) (value : Nat) :
      Function.update words here value addr = words addr := by
    refine Function.update_of_ne ?_ value words
    rintro rfl
    exact untouched same
  cases event with
  | read source answer =>
      cases source with
      | compareExchange bits here compareValue exchangeValue =>
          rw [wordsAfter]
          split
          · exact other here rfl _
          · rfl
      | increment here => exact other here rfl _
      | decrement here => exact other here rfl _
      | word here => rfl
      | performanceCounter => rfl
      | debugAssert => rfl
  | write target value =>
      cases target with
      | word here => exact other here rfl value
      | compareExchange bits here compareValue exchangeValue => rfl
      | increment here => rfl
      | decrement here => rfl
      | performanceCounter => rfl
      | debugAssert => rfl

/-- `InitializeSpinLock` releases the lock and changes nothing else. -/
theorem initializeSpinLock_releases (config : SyncConfig) (lock : Nat) (words : Words)
    {trace : List SyncEvent} {result : Nat}
    (run : Runs (initializeSpinLock config lock) trace (some result)) :
    trace.foldl wordsAfter words = Function.update words lock spinLockReleased := by
  have checks : Within (fun event => ∀ words, wordsAfter words event = words)
      (assertAt config 61 (lock != null)) := within_assertAt config (fun _ => rfl) _
  have checked : wp (assertAt config 61 (lock != null))
      (fun _ now => now.foldl wordsAfter words = words) (fun _ => True) [] := by
    refine wp_within ?_ (fun _ _ => trivial) checks rfl
    intro now event same leaves
    rw [List.foldl_append, same]
    exact leaves words
  have stores : wp (initializeSpinLock config lock)
      (fun _ after => after.foldl wordsAfter words = Function.update words lock spinLockReleased)
      (fun _ => True) [] := by
    refine wp_seq checked fun _ now same => ⟨trivial, trivial, ?_⟩
    change (now ++ [_]).foldl wordsAfter words = _
    rw [List.foldl_append, same]
    rfl
  exact (wp_sound stores run).2 result rfl

theorem released_of_initialized {config : SyncConfig} {lock : Nat} {trace : List SyncEvent}
    {result : Nat} (words : Words)
    (run : Runs (initializeSpinLock config lock) trace (some result)) :
    trace.foldl wordsAfter words lock = spinLockReleased := by
  rw [initializeSpinLock_releases config lock words run]
  exact Function.update_self lock spinLockReleased words

/-! ## Having the lock -/

/-- A successful exchange takes the lock, a store gives it back. -/
def holdStep (lock : Nat) (held : Bool) : SyncEvent → Bool
  | .read (.compareExchange _ addr compareValue _) answer =>
      if addr = lock ∧ answer = compareValue then true else held
  | .write (.word addr) _ => if addr = lock then false else held
  | _ => held

def holds (lock : Nat) (history : List SyncEvent) : Bool := history.foldl (holdStep lock) false

theorem holds_concat (lock : Nat) (history : List SyncEvent) (event : SyncEvent) :
    holds lock (history ++ [event]) = holdStep lock (holds lock history) event := by
  rw [holds, List.foldl_append]
  rfl

theorem holdStep_of_untouched {lock : Nat} {event : SyncEvent} (held : Bool)
    (untouched : ¬ Touches event lock) : holdStep lock held event = held := by
  cases event with
  | read source answer =>
      cases source with
      | compareExchange bits addr compareValue exchangeValue =>
          have different : addr ≠ lock := fun same => untouched (congrArg some same)
          rw [holdStep, if_neg fun both => different both.1]
      | word addr => rfl
      | increment addr => rfl
      | decrement addr => rfl
      | performanceCounter => rfl
      | debugAssert => rfl
  | write target value =>
      cases target with
      | word addr =>
          have different : addr ≠ lock := fun same => untouched (congrArg some same)
          rw [holdStep, if_neg different]
      | compareExchange bits addr compareValue exchangeValue => rfl
      | increment addr => rfl
      | decrement addr => rfl
      | performanceCounter => rfl
      | debugAssert => rfl

theorem holdStep_exchange {lock : Nat} (bits answer : Nat) :
    holdStep lock false
      (.read (.compareExchange bits lock spinLockReleased spinLockAcquired) answer) =
        (answer == spinLockReleased) := by
  rw [holdStep]
  by_cases got : answer = spinLockReleased
  · rw [if_pos ⟨rfl, got⟩, beq_iff_eq.mpr got]
  · rw [if_neg fun both => got both.2, beq_false_of_ne got]

theorem holdStep_exchange_of_held (lock bits addr compareValue exchangeValue answer : Nat) :
    holdStep lock true (.read (.compareExchange bits addr compareValue exchangeValue) answer) =
      true := by
  rw [holdStep]
  split <;> rfl

/-! ## Critical sections -/

def isGuarded (lock : Nat) (guarded : Nat → Bool) (event : SyncEvent) : Bool :=
  match SyncAccess.addr (port event) with
  | some addr => addr != lock && guarded addr
  | none => false

/-- The guarded accesses of a CPU since it took the lock last. -/
def currentStep (lock : Nat) (guarded : Nat → Bool) (events : List SyncEvent) (event : SyncEvent) :
    List SyncEvent :=
  if holdStep lock false event then []
  else if isGuarded lock guarded event then events ++ [event] else events

def current (lock : Nat) (guarded : Nat → Bool) (history : List SyncEvent) : List SyncEvent :=
  history.foldl (currentStep lock guarded) []

/-- The sections that a CPU has ended: the stores that gave the lock back. -/
def turns (lock : Nat) (history : List SyncEvent) : Nat :=
  history.countP fun event => !holdStep lock true event

/-- What a CPU does before it takes the lock and while it has it; `work` is known of the guarded
accesses of the second part, at every point of it and when it has ended. -/
structure CriticalSection (lock : Nat) (guarded : Nat → Bool) where
  work : Bool → List SyncEvent → Prop
  outside : Sync Unit
  inside : Sync Unit
  outsideAvoids : Within (fun event => ¬ Touches event lock ∧ isGuarded lock guarded event = false)
    outside
  insideAvoids : Within (fun event => ¬ Touches event lock) inside
  insideWorks : ∀ trace outcome, Runs inside trace outcome →
    work outcome.isSome (trace.filter (isGuarded lock guarded))

variable {lock : Nat} {guarded : Nat → Bool} {work : Nat → Bool → List SyncEvent → Prop}

/-- The use of a lock that the functions are made for. -/
def useLock (config : SyncConfig) (fuel : Nat) : List (CriticalSection lock guarded) → Sync Unit
  | [] => pure ()
  | part :: rest => do
      part.outside
      let _ ← acquireSpinLock config fuel lock
      part.inside
      let _ ← releaseSpinLock config lock
      useLock config fuel rest

def workOf (parts : List (CriticalSection lock guarded)) (turn : Nat) (ended : Bool)
    (events : List SyncEvent) : Prop :=
  ∃ part, parts[turn]? = some part ∧ part.work ended events

theorem turns_concat (lock : Nat) (history : List SyncEvent) (event : SyncEvent) :
    turns lock (history ++ [event]) =
      if holdStep lock true event then turns lock history else turns lock history + 1 := by
  rw [turns, List.countP_append, List.countP_singleton]
  cases holdStep lock true event <;> rfl

theorem current_concat (lock : Nat) (guarded : Nat → Bool) (history : List SyncEvent)
    (event : SyncEvent) : current lock guarded (history ++ [event]) =
      currentStep lock guarded (current lock guarded history) event := by
  rw [current, List.foldl_append]
  rfl

theorem isGuarded_of_touches {event : SyncEvent} (touched : Touches event lock) :
    isGuarded lock guarded event = false := by
  have addr : SyncAccess.addr (port event) = some lock := touched
  simp [isGuarded, addr]

theorem currentStep_of_untouched {event : SyncEvent} (events : List SyncEvent)
    (untouched : ¬ Touches event lock) : currentStep lock guarded events event =
      if isGuarded lock guarded event then events ++ [event] else events := by
  rw [currentStep, holdStep_of_untouched false untouched]
  rfl

/-! ## What a CPU allows itself -/

/-- How the lock functions access the lock word. -/
def LockAccess (lock : Nat) (guarded : Nat → Bool) (work : Nat → Bool → List SyncEvent → Prop)
    (before : List SyncEvent) : SyncEvent → Prop
  | .read (.word _) _ => True
  | .read (.compareExchange _ _ compareValue exchangeValue) _ =>
      compareValue = spinLockReleased ∧ exchangeValue = spinLockAcquired ∧
        holds lock before = false
  | .write (.word _) value =>
      value = spinLockReleased ∧ holds lock before = true ∧
        work (turns lock before) true (current lock guarded before)
  | _ => False

theorem lockAccess_cases {before : List SyncEvent} {event : SyncEvent}
    (touched : Touches event lock) (access : LockAccess lock guarded work before event) :
    (∃ answer, event = .read (.word lock) answer) ∨
      (∃ bits answer, event =
          .read (.compareExchange bits lock spinLockReleased spinLockAcquired) answer ∧
        holds lock before = false) ∨
      (event = .write (.word lock) spinLockReleased ∧ holds lock before = true ∧
        work (turns lock before) true (current lock guarded before)) := by
  cases event with
  | read source answer =>
      cases source with
      | word addr =>
          obtain rfl : addr = lock := Option.some.inj touched
          exact .inl ⟨answer, rfl⟩
      | compareExchange bits addr compareValue exchangeValue =>
          obtain rfl : addr = lock := Option.some.inj touched
          obtain ⟨rfl, rfl, waits⟩ := access
          exact .inr (.inl ⟨bits, answer, rfl, waits⟩)
      | increment addr => cases access
      | decrement addr => cases access
      | performanceCounter => cases access
      | debugAssert => cases access
  | write target value =>
      cases target with
      | word addr =>
          obtain rfl : addr = lock := Option.some.inj touched
          obtain ⟨rfl, mine, worked⟩ := access
          exact .inr (.inr ⟨rfl, mine, worked⟩)
      | compareExchange bits addr compareValue exchangeValue => cases access
      | increment addr => cases access
      | decrement addr => cases access
      | performanceCounter => cases access
      | debugAssert => cases access

structure Allowed (lock : Nat) (guarded : Nat → Bool) (work : Nat → Bool → List SyncEvent → Prop)
    (before : List SyncEvent) (event : SyncEvent) : Prop where
  lockWord : Touches event lock → LockAccess lock guarded work before event
  inside : isGuarded lock guarded event = true → holds lock before = true ∧
    work (turns lock before) false (current lock guarded before ++ [event])

/-- A history that kept to the rules, the sections ended in it, whether the lock is had after it,
and what has been done with it. -/
structure Using (lock : Nat) (guarded : Nat → Bool) (work : Nat → Bool → List SyncEvent → Prop)
    (turn : Nat) (held : Bool) (events history : List SyncEvent) : Prop where
  allowed : Each (Allowed lock guarded work) history
  turned : turns lock history = turn
  holding : holds lock history = held
  now : current lock guarded history = events

section Cpu

variable {turn : Nat} {held : Bool} {events history : List SyncEvent} (config : SyncConfig)

theorem using_nil : Using lock guarded work 0 false [] [] := ⟨each_nil, rfl, rfl, rfl⟩

theorem Using.concat (using_ : Using lock guarded work turn held events history) {event : SyncEvent}
    (permitted : Allowed lock guarded work history event) :
    Using lock guarded work (if holdStep lock true event then turn else turn + 1)
      (holdStep lock held event) (currentStep lock guarded events event) (history ++ [event]) := by
  refine ⟨using_.allowed.concat permitted, ?_, ?_, ?_⟩
  · rw [turns_concat, using_.turned]
  · rw [holds_concat, using_.holding]
  · rw [current_concat, using_.now]

theorem Using.aside (using_ : Using lock guarded work turn held events history) {event : SyncEvent}
    (untouched : ¬ Touches event lock) (aside : isGuarded lock guarded event = false) :
    Using lock guarded work turn held events (history ++ [event]) := by
  have next := using_.concat ⟨fun touched => absurd touched untouched, fun here => by
    rw [aside] at here
    cases here⟩
  rwa [holdStep_of_untouched true untouched, if_pos rfl, holdStep_of_untouched held untouched,
    currentStep_of_untouched events untouched, aside, if_neg Bool.false_ne_true] at next

theorem Using.while (using_ : Using lock guarded work turn true events history) {event : SyncEvent}
    (untouched : ¬ Touches event lock)
    (works : work turn false (events ++ [event].filter (isGuarded lock guarded))) :
    Using lock guarded work turn true (events ++ [event].filter (isGuarded lock guarded))
      (history ++ [event]) := by
  cases here : isGuarded lock guarded event with
  | false =>
      rw [List.filter_cons_of_neg (by rw [here]; exact Bool.false_ne_true), List.filter_nil,
        List.append_nil]
      exact using_.aside untouched here
  | true =>
      rw [List.filter_cons_of_pos here, List.filter_nil] at works ⊢
      have next := using_.concat ⟨fun touched => absurd touched untouched,
        fun _ => ⟨using_.holding, using_.now ▸ using_.turned ▸ works⟩⟩
      rwa [holdStep_of_untouched true untouched, if_pos rfl,
        currentStep_of_untouched events untouched, here, if_pos rfl] at next

theorem Using.lockAccess (using_ : Using lock guarded work turn held events history) (event : SyncEvent)
    (touched : Touches event lock) (access : LockAccess lock guarded work history event) :
    Using lock guarded work (if holdStep lock true event then turn else turn + 1)
      (holdStep lock held event) (if holdStep lock false event then [] else events)
      (history ++ [event]) := by
  have other : isGuarded lock guarded event = false := isGuarded_of_touches touched
  have next := using_.concat ⟨fun _ => access, fun here => by
    rw [other] at here
    cases here⟩
  rwa [currentStep, other, if_neg Bool.false_ne_true] at next

theorem Using.loadLock (using_ : Using lock guarded work turn held events history) (answer : Nat) :
    Using lock guarded work turn held events (history ++ [.read (.word lock) answer]) :=
  using_.lockAccess (.read (.word lock) answer) rfl trivial

theorem Using.exchange (using_ : Using lock guarded work turn false events history) (answer : Nat) :
    Using lock guarded work turn (answer == spinLockReleased)
      (if answer == spinLockReleased then [] else events)
      (history ++ [.read (.compareExchange 32 lock spinLockReleased spinLockAcquired) answer]) := by
  have next := using_.lockAccess
    (.read (.compareExchange 32 lock spinLockReleased spinLockAcquired) answer) rfl
    ⟨rfl, rfl, using_.holding⟩
  rwa [holdStep_exchange, holdStep_exchange_of_held, if_pos rfl] at next

theorem Using.release (using_ : Using lock guarded work turn true events history)
    (worked : work turn true events) : Using lock guarded work (turn + 1) false events
      (history ++ [.write (.word lock) spinLockReleased]) := by
  have next := using_.lockAccess (.write (.word lock) spinLockReleased) rfl
    ⟨rfl, using_.holding, using_.now.symm ▸ using_.turned.symm ▸ worked⟩
  rwa [holdStep, holdStep, if_pos rfl, if_pos rfl, if_neg Bool.false_ne_true,
    if_neg Bool.false_ne_true] at next

theorem Using.runs (start : Using lock guarded work turn true [] history)
    (part : CriticalSection lock guarded)
    (works : ∀ ended events, part.work ended events → work turn ended events)
    (trace : List SyncEvent) (outcome : Option Unit) (run : Runs part.inside trace outcome) :
    Using lock guarded work turn true (trace.filter (isGuarded lock guarded)) (history ++ trace) := by
  induction trace using List.reverseRecOn generalizing outcome with
  | nil => rwa [List.append_nil]
  | append_singleton trace event ih =>
      have earlier := ih none (run.of_prefix (List.prefix_append trace [event]))
      have untouched := part.insideAvoids.of_runs run event (by simp)
      have worked := works _ _ (part.insideWorks _ none (run.of_prefix (List.prefix_refl _)))
      rw [List.filter_append] at worked ⊢
      rw [← List.append_assoc]
      exact earlier.while untouched worked

/-! ## The lock functions -/

theorem wp_assertAt (line : Nat) (expression : Bool)
    (start : Using lock guarded work turn held events history) :
    wp (assertAt config line expression) (fun _ => Using lock guarded work turn held events)
      (Each (Allowed lock guarded work)) history := by
  have reported : Using lock guarded work turn held events (history ++ [.write .debugAssert line]) :=
    start.aside (fun touched => nomatch touched) rfl
  rw [assertAt]
  split
  · exact ⟨start.allowed, start⟩
  · rw [wp_bind, wp_output]
    refine ⟨start.allowed, reported.allowed, ?_⟩
    split
    · exact ⟨reported.allowed, reported⟩
    · exact reported.allowed

theorem wp_loadLock (start : Using lock guarded work turn held events history) :
    wp (load lock) (fun _ => Using lock guarded work turn held events)
      (Each (Allowed lock guarded work)) history := by
  rw [load, wp_input]
  exact ⟨start.allowed, fun answer => ⟨(start.loadLock answer).allowed, start.loadLock answer⟩⟩

theorem wp_acquireSpinLockOrFail (start : Using lock guarded work turn false events history) :
    wp (acquireSpinLockOrFail config lock)
      (fun got => Using lock guarded work turn got (if got then [] else events))
      (Each (Allowed lock guarded work)) history := by
  rw [acquireSpinLockOrFail]
  refine wp_seq (wp_assertAt config 182 _ start) fun _ _ checked => ?_
  refine wp_seq (wp_loadLock checked) fun lockValue _ loaded => ?_
  refine wp_seq (wp_assertAt config 185 _ loaded) fun _ _ valid => ?_
  rw [wp_bind]
  change wp (interlockedCompareExchange config 32 333 lock spinLockReleased spinLockAcquired) _ _ _
  rw [interlockedCompareExchange]
  refine wp_seq (wp_assertAt config 333 _ valid) fun _ _ ready => ?_
  rw [wp_input]
  refine ⟨ready.allowed, fun answer => ?_⟩
  have exchanged := ready.exchange answer
  exact ⟨exchanged.allowed, exchanged.allowed, exchanged⟩

theorem wp_releaseSpinLock (start : Using lock guarded work turn true events history)
    (worked : work turn true events) :
    wp (releaseSpinLock config lock) (fun _ => Using lock guarded work (turn + 1) false events)
      (Each (Allowed lock guarded work)) history := by
  rw [releaseSpinLock]
  refine wp_seq (wp_assertAt config 218 _ start) fun _ _ checked => ?_
  refine wp_seq (wp_loadLock checked) fun lockValue _ loaded => ?_
  refine wp_seq (wp_assertAt config 221 _ loaded) fun _ _ valid => ?_
  rw [wp_bind, store, wp_output]
  have released := valid.release worked
  exact ⟨valid.allowed, released.allowed, released.allowed, released⟩

theorem wp_spin (fuel : Nat) (start : Using lock guarded work turn false events history) :
    wp (loop (spinPass config lock) fuel ()) (fun _ => Using lock guarded work turn true [])
      (Each (Allowed lock guarded work)) history := by
  refine wp_loop (fun _ => Using lock guarded work turn false events) ?_ fuel () start
  intro _ _ waiting
  rw [spinPass]
  refine wp_seq (wp_acquireSpinLockOrFail config waiting) fun got _ tried => ?_
  cases got with
  | true => exact ⟨tried.allowed, tried⟩
  | false => exact ⟨tried.allowed, tried⟩

theorem wp_readCounter (start : Using lock guarded work turn held events history) :
    wp (input .performanceCounter) (fun _ => Using lock guarded work turn held events)
      (Each (Allowed lock guarded work)) history := by
  rw [wp_input]
  refine ⟨start.allowed, fun answer => ?_⟩
  have read : Using lock guarded work turn held events (history ++ [.read .performanceCounter answer]) :=
    start.aside (fun touched => nomatch touched) rfl
  exact ⟨read.allowed, read⟩

theorem wp_timedWait (fuel : Nat) (waiting : Waiting)
    (start : Using lock guarded work turn false events history) :
    wp (loop (timedPass config lock) fuel waiting) (fun _ => Using lock guarded work turn true [])
      (Each (Allowed lock guarded work)) history := by
  refine wp_loop (fun _ => Using lock guarded work turn false events) ?_ fuel waiting start
  intro _ _ waiting
  rw [timedPass]
  refine wp_seq (wp_acquireSpinLockOrFail config waiting) fun got _ tried => ?_
  cases got with
  | true => exact ⟨tried.allowed, tried⟩
  | false =>
      refine wp_seq (wp_readCounter tried) fun current _ read => ?_
      refine wp_seq (wp_assertAt config 150 _ read) fun _ _ passed => ?_
      exact ⟨passed.allowed, passed⟩

/-- The call returns only with the lock. -/
theorem wp_acquireSpinLock (fuel : Nat) (start : Using lock guarded work turn false events history) :
    wp (acquireSpinLock config fuel lock) (fun _ => Using lock guarded work turn true [])
      (Each (Allowed lock guarded work)) history := by
  have leave {after : List SyncEvent} (acquired : Using lock guarded work turn true [] after) :
      wp (pure lock : Sync Nat) (fun _ => Using lock guarded work turn true [])
        (Each (Allowed lock guarded work)) after :=
    ⟨acquired.allowed, acquired⟩
  rw [acquireSpinLock]
  split
  · exact wp_seq (wp_spin config fuel start) fun _ _ acquired => leave acquired
  · refine wp_seq (wp_acquireSpinLockOrFail config start) fun got _ tried => ?_
    cases got with
    | true => exact leave tried
    | false =>
        refine wp_seq (wp_readCounter tried) fun current _ read => ?_
        exact wp_seq (wp_timedWait config fuel _ read) fun _ _ acquired => leave acquired

theorem wp_useLock (fuel : Nat) (parts : List (CriticalSection lock guarded))
    (works : ∀ index part, parts[index]? = some part → ∀ ended events, part.work ended events →
      work (turn + index) ended events)
    (start : Using lock guarded work turn false events history) :
    wp (useLock config fuel parts)
      (fun _ after => holds lock after = false ∧ turns lock after = turn + parts.length)
      (Each (Allowed lock guarded work)) history := by
  induction parts generalizing turn history events with
  | nil => exact ⟨start.allowed, start.holding, start.turned⟩
  | cons part rest ih =>
      have here := works 0 part rfl
      have later (index : Nat) (part : CriticalSection lock guarded) (at_ : rest[index]? = some part)
          (ended : Bool) (events : List SyncEvent) (worked : part.work ended events) :
          work (turn + 1 + index) ended events := by
        rw [Nat.add_assoc, Nat.add_comm 1]
        exact works (index + 1) part at_ ended events worked
      rw [useLock, List.length_cons, Nat.add_comm rest.length, ← Nat.add_assoc]
      refine wp_seq (wp_within (fun _ _ kept avoids => kept.aside avoids.1 avoids.2)
        (fun _ kept => kept.allowed) part.outsideAvoids start) fun _ _ before => ?_
      refine wp_seq (wp_acquireSpinLock config fuel before) fun _ entered acquired => ?_
      refine wp_seq (wp_of_runs fun trace outcome run =>
        (acquired.runs part here trace outcome run).allowed) fun _ _ during => ?_
      obtain ⟨trace, rfl, run⟩ := during
      exact wp_seq (wp_releaseSpinLock config (acquired.runs part here trace _ run)
        (here _ _ (part.insideWorks trace _ run))) fun _ _ released => ih later released

end Cpu

/-! ## All CPUs -/

section Pool

variable {cpu : Type} [DecidableEq cpu]

/-- Nobody has the lock, or one CPU has it; the lock word says which. -/
inductive Ownership (lock : Nat) (schedule : Schedule cpu SyncAccess Nat) (words : Words) : Prop where
  | free (word : words lock = spinLockReleased)
      (nobody : ∀ who, holds lock (own who schedule) = false)
  | owned (owner : cpu) (word : words lock = spinLockAcquired)
      (has : holds lock (own owner schedule) = true)
      (others : ∀ who, who ≠ owner → holds lock (own who schedule) = false)

variable {works : cpu → Nat → Bool → List SyncEvent → Prop} {start words : Words}
  {schedule before : Schedule cpu SyncAccess Nat} {who owner : cpu}
  {event : SyncEvent}

theorem holds_own_self (schedule : Schedule cpu SyncAccess Nat) (who : cpu) (event : SyncEvent) :
    holds lock (own who (schedule ++ [(who, event)])) =
      holdStep lock (holds lock (own who schedule)) event := by
  rw [own_concat_self, holds_concat]

theorem Ownership.keep (ownership : Ownership lock schedule words)
    (word : wordsAfter words event lock = words lock)
    (same : holdStep lock (holds lock (own who schedule)) event = holds lock (own who schedule)) :
    Ownership lock (schedule ++ [(who, event)]) (wordsAfter words event) := by
  have kept (other : cpu) :
      holds lock (own other (schedule ++ [(who, event)])) = holds lock (own other schedule) := by
    by_cases mine : who = other
    · subst mine
      rw [holds_own_self, same]
    · rw [own_concat_of_ne _ _ mine]
  cases ownership with
  | free released nobody =>
      exact .free (word.trans released) fun other => (kept other).trans (nobody other)
  | owned owner acquired has others =>
      exact .owned owner (word.trans acquired) ((kept owner).trans has)
        fun other different => (kept other).trans (others other different)

theorem Ownership.exchange (ownership : Ownership lock schedule words) {bits : Nat}
    {answer : Nat} (served : answer = words lock) :
    Ownership lock
      (schedule ++ [(who, .read (.compareExchange bits lock spinLockReleased spinLockAcquired) answer)])
      (wordsAfter words
        (.read (.compareExchange bits lock spinLockReleased spinLockAcquired) answer)) := by
  cases ownership with
  | free released nobody =>
      refine .owned who ?_ ?_ ?_
      · rw [wordsAfter, if_pos released, Function.update_self]
      · rw [holds_own_self, holdStep, if_pos ⟨rfl, served.trans released⟩]
      · intro other different
        rw [own_concat_of_ne _ _ different.symm]
        exact nobody other
  | owned owner acquired has others =>
      have busy : words lock ≠ spinLockReleased := by
        rw [acquired]
        decide
      refine (Ownership.owned owner acquired has others).keep ?_ ?_
      · rw [wordsAfter, if_neg busy]
      · rw [holdStep, if_neg fun both => busy (served.symm.trans both.2)]

theorem Ownership.release (ownership : Ownership lock schedule words)
    (mine : holds lock (own who schedule) = true) :
    Ownership lock (schedule ++ [(who, .write (.word lock) spinLockReleased)])
      (wordsAfter words (.write (.word lock) spinLockReleased)) := by
  cases ownership with
  | free released nobody =>
      rw [nobody who] at mine
      cases mine
  | owned owner acquired has others =>
      have same : who = owner := by
        by_contra different
        rw [others who different] at mine
        cases mine
      subst same
      refine .free (Function.update_self _ _ _) fun other => ?_
      by_cases self : who = other
      · subst self
        rw [holds_own_self, holdStep, if_pos rfl]
      · rw [own_concat_of_ne _ _ self]
        exact others other (Ne.symm self)

/-- Every access that its CPU allows itself and the memory answers keeps the ownership. -/
theorem Ownership.next (ownership : Ownership lock schedule words)
    (permitted : Allowed lock guarded work (own who schedule) event)
    (served : answered words event) :
    Ownership lock (schedule ++ [(who, event)]) (wordsAfter words event) := by
  by_cases touched : Touches event lock
  · obtain ⟨answer, rfl⟩ | ⟨bits, answer, rfl, _⟩ | ⟨rfl, mine, _⟩ :=
      lockAccess_cases touched (permitted.lockWord touched)
    · exact ownership.keep rfl rfl
    · exact ownership.exchange served
    · exact ownership.release mine
  · exact ownership.keep (wordsAfter_of_untouched words touched)
      (holdStep_of_untouched _ touched)

theorem ownership_of_legal (released : start lock = spinLockReleased)
    (legal : Legal syncMemory start (fun who => Allowed lock guarded (works who)) schedule) :
    Ownership lock schedule (syncMemory.run start schedule) := by
  refine invariant_of_legal (Ownership lock) (.free released fun _ => rfl) ?_ legal
  intro schedule who event legal ownership
  exact ownership.next legal.last legal.served.last

theorem Ownership.unique (ownership : Ownership lock schedule words)
    (first : holds lock (own who schedule) = true) (second : holds lock (own owner schedule) = true) :
    who = owner := by
  cases ownership with
  | free _ nobody =>
      rw [nobody who] at first
      cases first
  | owned holder _ _ others =>
      have only (other : cpu) (has : holds lock (own other schedule) = true) : other = holder := by
        by_contra different
        rw [others other different] at has
        cases has
      rw [only who first, only owner second]

theorem Ownership.acquired_iff (ownership : Ownership lock schedule words) :
    words lock = spinLockAcquired ↔ ∃ who, holds lock (own who schedule) = true := by
  cases ownership with
  | free released nobody =>
      rw [released]
      refine ⟨fun same => (nomatch same), fun ⟨who, has⟩ => ?_⟩
      rw [nobody who] at has
      cases has
  | owned owner acquired has _ => exact ⟨fun _ => ⟨owner, has⟩, fun _ => acquired⟩

theorem Ownership.released_iff (ownership : Ownership lock schedule words) :
    words lock = spinLockReleased ↔ ∀ who, holds lock (own who schedule) = false := by
  cases ownership with
  | free released nobody => exact ⟨fun _ => nobody, fun _ => released⟩
  | owned owner acquired has _ =>
      rw [acquired]
      refine ⟨fun same => (nomatch same), fun nobody => ?_⟩
      rw [nobody owner] at has
      cases has

theorem Ownership.valid (ownership : Ownership lock schedule words) :
    isLockValue (words lock) = true := by
  cases ownership with
  | free released _ => rw [released]; rfl
  | owned _ acquired _ _ => rw [acquired]; rfl

theorem lockValue_of_legal (released : start lock = spinLockReleased) {answer : Nat}
    (legal : Legal syncMemory start (fun who => Allowed lock guarded (works who))
      (schedule ++ [(who, .read (.word lock) answer)])) : isLockValue answer = true := by
  have served : answer = syncMemory.run start schedule lock := legal.served.last
  rw [served]
  exact (ownership_of_legal released (legal.of_prefix (List.prefix_append _ _))).valid

end Pool

end ArcFirmware.SpinLock
