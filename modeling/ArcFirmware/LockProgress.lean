import ArcFirmware.LockUsers
import ArcFirmware.Lib.Progress
import ArcFirmware.Lib.Resume
import Mathlib.Data.List.Infix

/-!
# No CPU is stuck

A CPU that waits for the lock goes on as soon as the CPU that has it gives it
back, and that one needs nobody for it.  So wherever the CPUs of a lock were
stopped, they can all be finished, unless an assertion has stopped one; and
CPUs that are not refused the lock for too long do finish.
-/

set_option autoImplicit false

namespace ArcFirmware.LockProgress

open ArcFirmware.Port ArcFirmware.Threads ArcFirmware.Resume ArcFirmware.Progress ArcFirmware.CpuSync
  ArcFirmware.SpinLock ArcFirmware.LockUsers ArcFirmware.Edk2

variable {lock : Nat} {α β : Type} {held : Bool} {config : SyncConfig}

/-! ## What a CPU finds -/

def LockWord (lock : Nat) (held : Bool) (words : Words) : Prop :=
  words lock = if held then spinLockAcquired else spinLockReleased

def LoadsLockValue (lock : Nat) (event : SyncEvent) : Prop :=
  ∀ answer, event = .read (.word lock) answer → isLockValue answer = true

theorem LockWord.isLockValue {words : Words} (word : LockWord lock held words) :
    isLockValue (words lock) = true := by
  rw [LockWord] at word
  rw [word]
  cases held <;> rfl

/-- The second program goes on where the first was stopped. -/
abbrev Continues (lock : Nat) (exit : α → Bool) (prog wide : Sync α) (held : Bool) : Prop :=
  Covers syncMemory (holdStep lock) (LockWord lock) (LoadsLockValue lock) exit prog wide held

theorem answered_read (words : Words) (source : SyncAccess) :
    ∃ answer, answered words (.read source answer) := by
  cases source with
  | word addr => exact ⟨words addr, rfl⟩
  | compareExchange bits addr compareValue exchangeValue => exact ⟨words addr, rfl⟩
  | increment addr => exact ⟨u32 (words addr + 1), rfl⟩
  | decrement addr => exact ⟨u32 (words addr + 2 ^ 32 - 1), rfl⟩
  | performanceCounter => exact ⟨0, trivial⟩
  | debugAssert => exact ⟨0, trivial⟩

theorem report_untouched (line : Nat) : ¬ Touches (.write .debugAssert line) lock :=
  fun touched => nomatch touched

theorem readCounter_aside :
    Within (fun event => ¬ Touches event lock) (input .performanceCounter : Sync Nat) :=
  fun _ => ⟨fun touched => (nomatch touched), trivial⟩

theorem answered_write (words : Words) (target : SyncAccess) (value : Nat) :
    answered words (.write target value) := by
  cases target <;> trivial

theorem LockWord.aside {words : Words} (word : LockWord lock held words) {event : SyncEvent}
    (untouched : ¬ Touches event lock) : LockWord lock held (wordsAfter words event) := by
  rw [LockWord, wordsAfter_of_untouched words untouched]
  exact word

theorem continues_aside {prog : Sync α} (avoids : Within (fun event => ¬ Touches event lock) prog)
    (goesOn : NeverHalts prog) : Continues lock (fun _ => held) prog prog held := by
  refine covers_aside (fun _ untouched => holdStep_of_untouched held untouched) ?_ ?_ avoids goesOn
  · intro words source untouched word
    obtain ⟨answer, served⟩ := answered_read words source
    refine ⟨answer, served, ?_, word.aside (untouched answer)⟩
    rintro _ same
    cases same
    exact absurd rfl (untouched answer)
  · intro words target value untouched word
    exact ⟨answered_write words target value, word.aside untouched⟩

/-! ## The lock functions -/

theorem assertAt_neverHalts {expression : Bool} (line : Nat)
    (passes : config.assertReturns = true ∨ expression = true) :
    NeverHalts (assertAt config line expression) := by
  rw [assertAt]
  split
  · trivial
  · have returns := passes.resolve_right ‹_›
    change NeverHalts (if config.assertReturns then pure () else .halt)
    rw [if_pos returns]
    trivial

theorem continues_assertAt {expression : Bool} (line : Nat)
    (passes : config.assertReturns = true ∨ expression = true) :
    Continues lock (fun _ => held) (assertAt config line expression)
      (assertAt config line expression) held :=
  continues_aside (within_assertAt config (report_untouched line) expression)
    (assertAt_neverHalts line passes)

theorem can_assertAt {expression : Bool} {words : Words} (word : LockWord lock held words) (line : Nat)
    (passes : config.assertReturns = true ∨ expression = true) :
    Can syncMemory (assertAt config line expression) (fun _ => LockWord lock held) words :=
  (continues_assertAt line passes).finishable words word

theorem can_loadLock {next : Nat → Sync α} {post : α → Words → Prop} {words : Words}
    (later : Can syncMemory (next (words lock)) post words) :
    Can syncMemory (load lock >>= next) post words :=
  ⟨words lock, rfl, later⟩

theorem continues_loadLock {exit : α → Bool} {next more : Nat → Sync α}
    (later : ∀ lockValue, isLockValue lockValue = true →
      Continues lock exit (next lockValue) (more lockValue) held) :
    Continues lock exit (load lock >>= next) (load lock >>= more) held := by
  refine covers_input (fun words word => ?_) fun answer fine => later answer (fine answer rfl)
  refine ⟨words lock, rfl, ?_, word⟩
  rintro _ same
  cases same
  exact word.isLockValue

theorem wordsAfter_exchange {words : Words} (bits : Nat) (released : words lock = spinLockReleased) :
    LockWord lock true (wordsAfter words
      (.read (.compareExchange bits lock spinLockReleased spinLockAcquired) (words lock))) := by
  rw [LockWord, wordsAfter, if_pos released, Function.update_self]
  rfl

theorem continues_exchange :
    Continues lock (fun got => got)
      (input (.compareExchange 32 lock spinLockReleased spinLockAcquired) >>= fun answer =>
        pure (answer == spinLockReleased))
      (input (.compareExchange 32 lock spinLockReleased spinLockAcquired) >>= fun answer =>
        pure (answer == spinLockReleased)) false := by
  refine covers_input (fun words word => ?_) fun answer _ => ⟨rfl, holdStep_exchange 32 answer⟩
  have released : words lock = spinLockReleased := word
  refine ⟨words lock, rfl, fun _ same => (nomatch same), ?_⟩
  rw [holdStep_exchange, beq_iff_eq.mpr released]
  exact wordsAfter_exchange 32 released

theorem continues_acquireSpinLockOrFail
    (passes : config.assertReturns = true ∨ (lock != null) = true) :
    Continues lock (fun got => got) (acquireSpinLockOrFail config lock)
      (acquireSpinLockOrFail config lock) false := by
  rw [acquireSpinLockOrFail]
  refine (continues_assertAt 182 passes).bind fun _ => continues_loadLock fun lockValue valid => ?_
  refine (continues_assertAt 185 (.inr valid)).bind fun _ => ?_
  change Continues lock _ (interlockedCompareExchange config 32 333 lock _ _ >>= _)
    (interlockedCompareExchange config 32 333 lock _ _ >>= _) false
  rw [interlockedCompareExchange, bind_assoc]
  exact (continues_assertAt 333 passes).bind fun _ => continues_exchange

theorem continues_releaseSpinLock (passes : config.assertReturns = true ∨ (lock != null) = true) :
    Continues lock (fun _ => false) (releaseSpinLock config lock) (releaseSpinLock config lock)
      true := by
  rw [releaseSpinLock]
  refine (continues_assertAt 218 passes).bind fun _ => continues_loadLock fun lockValue valid => ?_
  refine (continues_assertAt 221 (.inr valid)).bind fun _ => ?_
  have released : holdStep lock true (.write (.word lock) spinLockReleased) = false := if_pos rfl
  refine covers_output (fun words _ => ⟨trivial, ?_⟩) ⟨rfl, released⟩
  rw [released]
  exact Function.update_self lock spinLockReleased words

/-! ## Waiting -/

theorem continues_readCounter : Continues lock (fun _ => held) (input .performanceCounter)
    (input .performanceCounter) held :=
  continues_aside readCounter_aside fun _ => trivial

theorem can_acquireSpinLockOrFail {words : Words} (word : LockWord lock false words)
    (passes : config.assertReturns = true ∨ (lock != null) = true) :
    Can syncMemory (acquireSpinLockOrFail config lock)
      (fun got after => got = true ∧ LockWord lock true after) words := by
  rw [acquireSpinLockOrFail]
  refine can_seq (can_assertAt word 182 passes) fun _ words word => can_loadLock ?_
  refine can_seq (can_assertAt word 185 (.inr word.isLockValue)) fun _ words word => ?_
  change Can syncMemory (interlockedCompareExchange config 32 333 lock _ _ >>= _) _ words
  rw [interlockedCompareExchange, bind_assoc]
  refine can_seq (can_assertAt word 333 passes) fun _ words word => ?_
  have released : words lock = spinLockReleased := word
  exact ⟨words lock, rfl, beq_iff_eq.mpr released, wordsAfter_exchange 32 released⟩

theorem continues_spin (passes : config.assertReturns = true ∨ (lock != null) = true) (fuel : Nat) :
    Continues lock (fun _ => true) (loop (spinPass config lock) fuel ())
      (loop (spinPass config lock) (fuel + 1) ()) false := by
  refine Covers.loop (fun _ => ?_) (fun _ words word => can_loop_done ?_ 0) fuel ()
  · rw [spinPass]
    refine (continues_acquireSpinLockOrFail passes).bind fun got => ?_
    cases got <;> exact ⟨rfl, rfl⟩
  · refine can_seq (can_acquireSpinLockOrFail word passes) ?_
    rintro _ after ⟨rfl, taken⟩
    exact ⟨(), rfl, taken⟩

/-- The counter tells the CPU nothing about the lock. -/
theorem continues_timedWait (returns : config.assertReturns = true) (fuel : Nat)
    (waiting : Waiting) :
    Continues lock (fun _ => true) (loop (timedPass config lock) fuel waiting)
      (loop (timedPass config lock) (fuel + 1) waiting) false := by
  refine Covers.loop (fun waiting => ?_) (fun waiting words word => can_loop_done ?_ 0) fuel waiting
  · rw [timedPass]
    refine (continues_acquireSpinLockOrFail (.inl returns)).bind fun got => ?_
    cases got with
    | true => exact ⟨rfl, rfl⟩
    | false =>
        refine continues_readCounter.bind fun current => ?_
        exact (continues_assertAt 150 (.inl returns)).bind fun _ => ⟨rfl, rfl⟩
  · refine can_seq (can_acquireSpinLockOrFail word (.inl returns)) ?_
    rintro _ after ⟨rfl, taken⟩
    exact ⟨(), rfl, taken⟩

/-- Nothing stops the CPU: assertions return, or none can fail but those on the lock value. -/
def Passes (lock : Nat) (config : SyncConfig) : Prop :=
  config.assertReturns = true ∨ ((lock != null) = true ∧ config.spinLockTimeout = 0)

theorem Passes.checks (passes : Passes lock config) :
    config.assertReturns = true ∨ (lock != null) = true := passes.imp_right And.left

theorem continues_acquireSpinLock (passes : Passes lock config) (fuel : Nat) :
    Continues lock (fun _ => true) (acquireSpinLock config fuel lock)
      (acquireSpinLock config (fuel + 1) lock) false := by
  rw [acquireSpinLock, acquireSpinLock]
  split
  · exact (continues_spin passes.checks fuel).bind fun _ => ⟨rfl, rfl⟩
  · have returns := passes.resolve_right fun both => ‹¬ _› both.2
    refine Covers.bind (continues_acquireSpinLockOrFail passes.checks) fun got => ?_
    cases got with
    | true => exact ⟨rfl, rfl⟩
    | false =>
        refine continues_readCounter.bind fun current => ?_
        exact (continues_timedWait returns fuel _).bind fun _ => ⟨rfl, rfl⟩

/-! ## The use of the lock -/

variable {guarded : Nat → Bool}

theorem continues_useLock (passes : Passes lock config) (fuel : Nat)
    (parts : List (CriticalSection lock guarded))
    (goesOn : ∀ part ∈ parts, NeverHalts part.outside ∧ NeverHalts part.inside) :
    Continues lock (fun _ => false) (useLock config fuel parts) (useLock config (fuel + 1) parts)
      false := by
  induction parts with
  | nil => exact ⟨rfl, rfl⟩
  | cons part rest ih =>
      obtain ⟨outside, inside⟩ := goesOn part (List.mem_cons_self ..)
      have avoids := part.outsideAvoids.mono fun _ both => both.1
      rw [useLock, useLock]
      refine (continues_aside avoids outside).bind fun _ => ?_
      refine (continues_acquireSpinLock passes fuel).bind fun _ => ?_
      refine (continues_aside part.insideAvoids inside).bind fun _ => ?_
      refine (continues_releaseSpinLock passes.checks).bind fun _ => ?_
      exact ih fun later among => goesOn later (List.mem_cons_of_mem _ among)

/-! ## Waits that end -/

/-- Exchanges in a row that did not take the lock, one event further. -/
def refusedStep (lock : Nat) (refused : Nat) : SyncEvent → Nat
  | .read (.compareExchange _ addr compareValue _) answer =>
      if addr = lock then if answer = compareValue then 0 else refused + 1 else refused
  | _ => refused

def refusals (lock : Nat) (history : List SyncEvent) : Nat := history.foldl (refusedStep lock) 0

theorem refusals_concat (history : List SyncEvent) (event : SyncEvent) :
    refusals lock (history ++ [event]) = refusedStep lock (refusals lock history) event := by
  rw [refusals, List.foldl_append]
  rfl

theorem refusedStep_of_untouched {event : SyncEvent} (refused : Nat)
    (untouched : ¬ Touches event lock) : refusedStep lock refused event = refused := by
  cases event with
  | read source answer =>
      cases source with
      | compareExchange bits addr compareValue exchangeValue =>
          have different : addr ≠ lock := fun same => untouched (congrArg some same)
          rw [refusedStep, if_neg different]
      | word addr => rfl
      | increment addr => rfl
      | decrement addr => rfl
      | performanceCounter => rfl
      | debugAssert => rfl
  | write target value => rfl

structure Lively (config : SyncConfig) (lock fuel : Nat) (history : List SyncEvent) : Prop where
  patient : refusals lock history < fuel
  unstopped : config.assertReturns = true ∨ ∀ line, .write .debugAssert line ∉ history

structure Refused (config : SyncConfig) (lock fuel refused : Nat) (history : List SyncEvent) :
    Prop where
  lively : Lively config lock fuel history
  count : refusals lock history = refused

section Waits

variable {fuel refused : Nat} {history : List SyncEvent}

theorem Refused.aside (waited : Refused config lock fuel refused history) {event : SyncEvent}
    (untouched : ¬ Touches event lock) (lively : Lively config lock fuel (history ++ [event])) :
    Refused config lock fuel refused (history ++ [event]) := by
  refine ⟨lively, ?_⟩
  rw [refusals_concat, refusedStep_of_untouched _ untouched, waited.count]

theorem ends_aside {prog : Sync α} (avoids : Within (fun event => ¬ Touches event lock) prog)
    (goesOn : NeverHalts prog) (start : Refused config lock fuel refused history) :
    Ends (Lively config lock fuel) prog (fun _ => Refused config lock fuel refused) history :=
  ends_within (fun _ _ waited untouched lively => waited.aside untouched lively) avoids goesOn start

theorem ends_assertAt (line : Nat) (expression : Bool)
    (start : Refused config lock fuel refused history) :
    Ends (Lively config lock fuel) (assertAt config line expression)
      (fun _ => Refused config lock fuel refused) history := by
  rw [assertAt]
  split
  · exact start
  · rw [ends_bind, ends_output]
    intro lively
    have returns := lively.unstopped.resolve_right fun silent => silent line (by simp)
    rw [if_pos returns]
    exact start.aside (report_untouched line) lively

theorem ends_loadLock (start : Refused config lock fuel refused history) :
    Ends (Lively config lock fuel) (load lock) (fun _ => Refused config lock fuel refused)
      history := by
  intro answer lively
  refine ⟨lively, ?_⟩
  rw [refusals_concat, ← start.count]
  rfl

theorem ends_acquireSpinLockOrFail (start : Refused config lock fuel refused history) :
    Ends (Lively config lock fuel) (acquireSpinLockOrFail config lock)
      (fun got => Refused config lock fuel (if got then 0 else refused + 1)) history := by
  rw [acquireSpinLockOrFail]
  refine ends_seq (ends_assertAt 182 _ start) fun _ _ checked => ?_
  refine ends_seq (ends_loadLock checked) fun lockValue _ loaded => ?_
  refine ends_seq (ends_assertAt 185 _ loaded) fun _ _ valid => ?_
  rw [ends_bind]
  change Ends _ (interlockedCompareExchange config 32 333 lock spinLockReleased spinLockAcquired) _ _
  rw [interlockedCompareExchange]
  refine ends_seq (ends_assertAt 333 _ valid) fun _ _ ready answer lively => ⟨lively, ?_⟩
  rw [refusals_concat, ready.count, refusedStep, if_pos rfl]
  by_cases got : answer = spinLockReleased
  · rw [if_pos got, beq_iff_eq.mpr got, if_pos rfl]
  · rw [if_neg got, beq_false_of_ne got, if_neg Bool.false_ne_true]

theorem ends_releaseSpinLock (start : Refused config lock fuel refused history) :
    Ends (Lively config lock fuel) (releaseSpinLock config lock)
      (fun _ => Refused config lock fuel refused) history := by
  rw [releaseSpinLock]
  refine ends_seq (ends_assertAt 218 _ start) fun _ _ checked => ?_
  refine ends_seq (ends_loadLock checked) fun lockValue _ loaded => ?_
  refine ends_seq (ends_assertAt 221 _ loaded) fun _ _ valid lively => ⟨lively, ?_⟩
  rw [refusals_concat, ← valid.count]
  rfl

theorem ends_wait {σ : Type} {body : σ → Sync (Loop.Step σ Unit)}
    (pass : ∀ state before now, Refused config lock fuel before now →
      Ends (Lively config lock fuel) (body state)
        (fun outcome => Refused config lock fuel (passMode (before + 1) (fun _ => 0) outcome)) now)
    (start : Refused config lock fuel refused history) (state : σ) :
    Ends (Lively config lock fuel) (loop body fuel state) (fun _ => Refused config lock fuel 0)
      history := by
  have room := start.lively.patient
  rw [start.count] at room
  refine ends_loop (fun left _ now => ∃ before, Refused config lock fuel before now ∧
    left + before + 1 = fuel) ?_ (Nat.sub_lt_of_pos_le (Nat.succ_pos refused) room)
    ⟨refused, start, by omega⟩
  rintro left state now ⟨before, waited, counted⟩
  refine ends_mono (fun outcome after tried => ?_) (pass state before now waited)
  cases outcome with
  | done result => exact tried
  | next state =>
      have less := tried.lively.patient
      rw [tried.count, passMode] at less
      exact ⟨left - 1, by omega, before + 1, tried, by omega⟩

theorem ends_spin (start : Refused config lock fuel refused history) :
    Ends (Lively config lock fuel) (loop (spinPass config lock) fuel ())
      (fun _ => Refused config lock fuel 0) history := by
  refine ends_wait (fun _ before now waited => ?_) start ()
  rw [spinPass]
  refine ends_seq (ends_acquireSpinLockOrFail waited) fun got after tried => ?_
  cases got <;> exact tried

theorem ends_readCounter (start : Refused config lock fuel refused history) :
    Ends (Lively config lock fuel) (input .performanceCounter)
      (fun _ => Refused config lock fuel refused) history :=
  ends_aside readCounter_aside (fun _ => trivial) start

theorem ends_timedWait (start : Refused config lock fuel refused history) (waiting : Waiting) :
    Ends (Lively config lock fuel) (loop (timedPass config lock) fuel waiting)
      (fun _ => Refused config lock fuel 0) history := by
  refine ends_wait (fun waiting before now waited => ?_) start waiting
  rw [timedPass]
  refine ends_seq (ends_acquireSpinLockOrFail waited) fun got after tried => ?_
  cases got with
  | true => exact tried
  | false =>
      refine ends_seq (ends_readCounter tried) fun current _ read => ?_
      exact ends_seq (ends_assertAt 150 _ read) fun _ _ passed => passed

theorem ends_acquireSpinLock (start : Refused config lock fuel refused history) :
    Ends (Lively config lock fuel) (acquireSpinLock config fuel lock)
      (fun _ => Refused config lock fuel 0) history := by
  rw [acquireSpinLock]
  split
  · exact ends_seq (ends_spin start) fun _ _ acquired => acquired
  · refine ends_seq (ends_acquireSpinLockOrFail start) fun got _ tried => ?_
    cases got with
    | true => exact tried
    | false =>
        refine ends_seq (ends_readCounter tried) fun current _ read => ?_
        exact ends_seq (ends_timedWait read _) fun _ _ acquired => acquired

theorem ends_useLock (parts : List (CriticalSection lock guarded))
    (goesOn : ∀ part ∈ parts, NeverHalts part.outside ∧ NeverHalts part.inside)
    (start : Refused config lock fuel refused history) :
    Ends (Lively config lock fuel) (useLock config fuel parts) (fun _ _ => True) history := by
  induction parts generalizing refused history with
  | nil => trivial
  | cons part rest ih =>
      obtain ⟨outside, inside⟩ := goesOn part (List.mem_cons_self ..)
      have avoids := part.outsideAvoids.mono fun _ both => both.1
      rw [useLock]
      refine ends_seq (ends_aside avoids outside start) fun _ _ before => ?_
      refine ends_seq (ends_acquireSpinLock before) fun _ _ acquired => ?_
      refine ends_seq (ends_aside part.insideAvoids inside acquired) fun _ _ during => ?_
      refine ends_seq (ends_releaseSpinLock during) fun _ _ released => ?_
      exact ih (fun later among => goesOn later (List.mem_cons_of_mem _ among)) released

theorem completes_useLock {parts : List (CriticalSection lock guarded)} {trace : List SyncEvent}
    {outcome : Option Unit} (goesOn : ∀ part ∈ parts, NeverHalts part.outside ∧ NeverHalts part.inside)
    (complete : Completes (useLock config fuel parts) trace outcome)
    (lives : ∀ before, before <+: trace → Lively config lock fuel before) : outcome = some () := by
  have start : Refused config lock fuel 0 [] := ⟨lives [] (List.nil_prefix ..), rfl⟩
  obtain ⟨_, returned, _⟩ := ends_sound (ends_useLock parts goesOn start) complete lives
  exact returned

end Waits

/-! ## All CPUs -/

section Pool

variable {cpu : Type} [DecidableEq cpu] {start : Words}
  {schedule : Schedule cpu SyncAccess Nat}

def Users.longer (users : Users cpu lock guarded) : Users cpu lock guarded :=
  { users with fuel := fun who => users.fuel who + 1 }

/-- Users that nothing but the lock can hold up. -/
structure Unobstructed (users : Users cpu lock guarded) : Prop where
  passes : ∀ who, Passes lock (users.config who)
  goesOn : ∀ who, ∀ part ∈ users.parts who, NeverHalts part.outside ∧ NeverHalts part.inside

theorem stopped_of_interleaves {users : Users cpu lock guarded}
    (unobstructed : Unobstructed users) (released : start lock = spinLockReleased)
    (interleaves : Interleaves syncMemory users.prog start schedule) (who : cpu) :
    Stopped syncMemory (LockWord lock) (Users.longer users).prog false schedule
      (holds lock (own who schedule)) who := by
  obtain ⟨outcome, run⟩ := interleaves.runs who
  refine (continues_useLock (unobstructed.passes who) (users.fuel who) (users.parts who)
    (unobstructed.goesOn who)).runs run ?_
  rintro _ inside answer rfl
  obtain ⟨before, begins⟩ := exists_before_of_mem_own inside
  exact lockValue_of_legal released (Legal.of_prefix (users.legal interleaves) begins)

/-- The CPU that has the lock finishes first, then the others do. -/
theorem finishes_of_interleaves {users : Users cpu lock guarded}
    (unobstructed : Unobstructed users) (released : start lock = spinLockReleased)
    (interleaves : Interleaves syncMemory users.prog start schedule) (cpus : List cpu) :
    ∃ threads more, cpus ⊆ threads ∧ Finishes syncMemory (LockWord lock) (Users.longer users).prog
      start false threads schedule more := by
  have stopped := stopped_of_interleaves unobstructed released interleaves
  have ownership := ownership_of_legal released (users.legal interleaves)
  cases ownership with
  | free word nobody =>
      obtain ⟨more, finishes⟩ := finish_all cpus.dedup cpus.nodup_dedup interleaves.served word
        fun who _ => nobody who ▸ stopped who
      exact ⟨cpus.dedup, more, cpus.subset_dedup, finishes⟩
  | owned owner word has others =>
      have once : (owner :: cpus.dedup.erase owner).Nodup :=
        List.nodup_cons.mpr ⟨cpus.nodup_dedup.not_mem_erase, cpus.nodup_dedup.erase owner⟩
      obtain ⟨more, finishes⟩ := finish_before once interleaves.served word (has ▸ stopped owner)
        fun who inside => others who (cpus.nodup_dedup.mem_erase_iff.mp inside).1 ▸ stopped who
      refine ⟨owner :: cpus.dedup.erase owner, more, fun who inside => ?_, finishes⟩
      by_cases same : who = owner
      · exact same ▸ List.mem_cons_self
      · exact List.mem_cons_of_mem _ ((List.mem_erase_of_ne same).mpr (List.mem_dedup.mpr inside))

structure Completed (users : Users cpu lock guarded) (start : Words) (cpus : List cpu)
    (schedule : Schedule cpu SyncAccess Nat) : Prop where
  interleaves : Interleaves syncMemory users.prog start schedule
  returned : ∀ who ∈ cpus, Runs (users.prog who) (own who schedule) (some ())
  released : syncMemory.run start schedule lock = spinLockReleased

theorem spinLock_neverStuck (users : Users cpu lock guarded) (unobstructed : Unobstructed users)
    (start : Words) (released : start lock = spinLockReleased)
    (schedule : Schedule cpu SyncAccess Nat)
    (interleaves : Interleaves syncMemory users.prog start schedule) (cpus : List cpu) :
    ∃ more, Completed (Users.longer users) start cpus (schedule ++ more) := by
  obtain ⟨threads, more, among, finishes⟩ :=
    finishes_of_interleaves unobstructed released interleaves cpus
  refine ⟨more, ⟨finishes.served, fun who => ?_⟩, fun who inside => ?_, finishes.good⟩
  · by_cases inside : who ∈ threads
    · obtain ⟨_, run⟩ := finishes.returned who inside
      exact ⟨_, run⟩
    · obtain ⟨rest, reaches, _⟩ := stopped_of_interleaves unobstructed released interleaves who
      have run := reaches.runs (.stop rest)
      rw [List.append_nil] at run
      rw [finishes.rested who inside]
      exact ⟨none, run⟩
  · obtain ⟨_, run⟩ := finishes.returned who (among inside)
    exact run

theorem pair_unobstructed : Unobstructed pairUsers := by
  refine ⟨fun _ => .inl rfl, fun who part inside => ?_⟩
  obtain ⟨change, _, rfl⟩ := List.mem_map.mp inside
  exact ⟨trivial, fun _ => trivial⟩

/-- The first CPU is stopped with the lock, while the second waits. -/
theorem spinLock_neverStuck_pair :
    ∃ more, Completed (Users.longer pairUsers) pairWords [true, false] (pairSchedule.take 6 ++ more) :=
  spinLock_neverStuck pairUsers pair_unobstructed pairWords pair_released (pairSchedule.take 6)
    (pair_interleaves.of_prefix (List.take_prefix 6 pairSchedule)) [true, false]

/-- CPUs that have run to their end, none of them refused the lock for longer than its waits
last, or stopped by an assertion. -/
structure RunOut (users : Users cpu lock guarded) (schedule : Schedule cpu SyncAccess Nat) :
    Prop where
  complete : ∀ who, ∃ outcome, Completes (users.prog who) (own who schedule) outcome
  patient : ∀ who before, before <+: own who schedule → refusals lock before < users.fuel who
  unstopped : ∀ who, (users.config who).assertReturns = true ∨
    ∀ line, .write .debugAssert line ∉ own who schedule

theorem spinLock_returns (users : Users cpu lock guarded)
    (goesOn : ∀ who, ∀ part ∈ users.parts who, NeverHalts part.outside ∧ NeverHalts part.inside)
    (start : Words) (released : start lock = spinLockReleased)
    (schedule : Schedule cpu SyncAccess Nat)
    (interleaves : Interleaves syncMemory users.prog start schedule) (runOut : RunOut users schedule) :
    (∀ who, Runs (users.prog who) (own who schedule) (some ())) ∧
      syncMemory.run start schedule lock = spinLockReleased := by
  have returned (who : cpu) : Runs (users.prog who) (own who schedule) (some ()) := by
    obtain ⟨outcome, complete⟩ := runOut.complete who
    have ended := completes_useLock (goesOn who) complete fun before begins =>
      ⟨runOut.patient who before begins, (runOut.unstopped who).imp_right fun silent line inside =>
        silent line (begins.subset inside)⟩
    exact ended ▸ complete.runs
  refine ⟨returned, ?_⟩
  have ownership := ownership_of_legal released (users.legal interleaves)
  exact ownership.released_iff.mpr fun who => (users.of_returned (returned who)).1

theorem pair_runOut : RunOut pairUsers pairSchedule := by
  refine ⟨fun who => ?_, fun who before begins => ?_, fun _ => .inl rfl⟩
  · exact ⟨some (), completes_of_runs (pair_returns who)⟩
  · have all : ∀ before ∈ (own who pairSchedule).inits, refusals 0x1000 before < 3 := by
      cases who <;> decide
    exact all before ((List.mem_inits before _).mpr begins)

theorem spinLock_returns_pair :
    (∀ who, Runs (pairUsers.prog who) (own who pairSchedule) (some ())) ∧
      syncMemory.run pairWords pairSchedule 0x1000 = spinLockReleased :=
  spinLock_returns pairUsers pair_unobstructed.goesOn pairWords pair_released pairSchedule pair_interleaves
    pair_runOut

end Pool

end ArcFirmware.LockProgress
