import ArcFirmware.CpuSync
import ArcFirmware.Lib.CyclicCounter

/-!
# The timeout of a spin lock

`AcquireSpinLock` adds up the ticks between its readings of the performance
counter.  The sum of two signed words and a correction for a counter that starts
again is exact for some counters and not for others; where it is, the assertion
after the wait reports exactly the readings at which the timeout has passed.
-/

set_option autoImplicit false

namespace ArcFirmware.SpinTimeout

open ArcFirmware.Edk2 ArcFirmware.Port ArcFirmware.CyclicCounter ArcFirmware.CpuSync

/-! ## One gap -/

theorem int64_spec (value : Int) :
    ∃ turns, int64 value = value + turns * 2 ^ 64 ∧ -2 ^ 63 ≤ int64 value ∧
      int64 value < 2 ^ 63 := by
  refine ⟨-(value.bdiv (2 ^ 64)), ?_, Int.le_bmod (by decide), Int.bmod_lt (by decide)⟩
  have split := Int.bmod_add_bdiv' value (2 ^ 64)
  have size : ((2 ^ 64 : Nat) : Int) = 2 ^ 64 := rfl
  rw [size] at split
  rw [int64]
  omega

def counterOf (config : SyncConfig) : Counter :=
  ⟨config.counterStart.toNat, config.counterEnd.toNat⟩

theorem magnitude_spec (diff : Int) (word : diff.natAbs < 2 ^ 64) :
    ∃ turns, (if int64 diff < 0 then int64 (-int64 diff) else int64 diff) =
      (if diff.natAbs ≤ 2 ^ 63 then (diff.natAbs : Int) else -(diff.natAbs : Int)) +
        turns * 2 ^ 64 := by
  obtain ⟨first, signed, low, high⟩ := int64_spec diff
  by_cases negative : int64 diff < 0
  · obtain ⟨second, negated, _⟩ := int64_spec (-int64 diff)
    rw [if_pos negative, negated, signed]
    by_cases short : diff.natAbs ≤ 2 ^ 63
    · rw [if_pos short]
      by_cases above : 0 ≤ diff
      · exact ⟨second - first - 1, by omega⟩
      · exact ⟨second - first, by omega⟩
    · rw [if_neg short]
      exact ⟨second - first, by omega⟩
  · rw [if_neg negative, signed]
    by_cases short : diff.natAbs ≤ 2 ^ 63
    · rw [if_pos short]
      exact ⟨first, by omega⟩
    · rw [if_neg short]
      exact ⟨first, by omega⟩

theorem period_eq (config : SyncConfig) : (counterOf config).period =
    ((config.counterEnd.toNat : Int) - config.counterStart.toNat).natAbs + 1 := by
  simp only [Counter.period, counterOf]
  omega

/-- The correction is the period, unless the period is too long for a signed word. -/
theorem cycleTicks_spec (config : SyncConfig) :
    ∃ turns, cycleTicks config = (if (counterOf config).period ≤ 2 ^ 63 + 1 then
      ((counterOf config).period : Int) else 2 - (counterOf config).period) + turns * 2 ^ 64 := by
  have start := config.counterStart.toNat_lt
  have last := config.counterEnd.toNat_lt
  obtain ⟨first, magnitude⟩ := magnitude_spec
    ((config.counterEnd.toNat : Int) - config.counterStart.toNat) (by omega)
  rw [cycleTicks, period_eq]
  obtain ⟨second, sum, _⟩ := int64_spec
    ((if int64 ((config.counterEnd.toNat : Int) - config.counterStart.toNat) < 0 then
      int64 (-int64 ((config.counterEnd.toNat : Int) - config.counterStart.toNat))
      else int64 ((config.counterEnd.toNat : Int) - config.counterStart.toNat)) + 1)
  rw [sum, magnitude]
  refine ⟨first + second, ?_⟩
  split_ifs <;> omega

theorem deltaTicks_eq (config : SyncConfig) (previous current : Nat) :
    deltaTicks config previous current =
      (if int64 ((counterOf config).difference previous current) < 0 then
        int64 (int64 ((counterOf config).difference previous current) + cycleTicks config)
      else int64 ((counterOf config).difference previous current)) := by
  have down : config.counterStart > config.counterEnd ↔
      ¬ (counterOf config).first ≤ (counterOf config).last := by
    rw [gt_iff_lt, UInt64.lt_iff_toNat_lt, Nat.not_le]
    rfl
  have same : (if config.counterStart > config.counterEnd then
      int64 (-int64 ((current : Int) - previous)) else int64 ((current : Int) - previous)) =
      int64 ((counterOf config).difference previous current) := by
    rw [Counter.difference]
    by_cases up : (counterOf config).first ≤ (counterOf config).last
    · rw [if_neg fun reversed => down.mp reversed up, if_pos up]
    · obtain ⟨first, difference, _⟩ := int64_spec ((current : Int) - previous)
      obtain ⟨second, negated, _⟩ := int64_spec (-int64 ((current : Int) - previous))
      obtain ⟨third, straight, _⟩ := int64_spec ((previous : Int) - current)
      rw [if_pos (down.mpr up), if_neg up]
      omega
  rw [deltaTicks]
  simp only [same]

variable {config : SyncConfig}

/-- The counters whose gaps are computed exactly. -/
def Exact (config : SyncConfig) : Prop :=
  (counterOf config).period ≤ 2 ^ 63 + 1 ∨ (counterOf config).period = 2 ^ 64

theorem deltaTicks_reading (exact : Exact config) (ticks gap : Nat)
    (near : gap < (counterOf config).period) (short : gap < 2 ^ 63) :
    deltaTicks config ((counterOf config).reading ticks) ((counterOf config).reading (ticks + gap)) =
      gap := by
  obtain ⟨first, signed, low, high⟩ := int64_spec ((counterOf config).difference
    ((counterOf config).reading ticks) ((counterOf config).reading (ticks + gap)))
  obtain ⟨turns, correction⟩ := cycleTicks_spec config
  obtain ⟨second, corrected, below, above⟩ := int64_spec (int64 ((counterOf config).difference
    ((counterOf config).reading ticks) ((counterOf config).reading (ticks + gap))) +
      cycleTicks config)
  rw [deltaTicks_eq]
  rcases difference_reading (counterOf config) ticks gap near with straight | ⟨restarted, positive⟩
  · rw [straight] at signed low high ⊢
    rw [if_neg (by omega)]
    omega
  · rw [restarted] at signed low high corrected below above ⊢
    rcases exact with fits | whole
    · rw [if_pos fits] at correction
      rw [if_pos (by omega)]
      omega
    · rw [if_neg (by omega)]
      omega

theorem deltaTicks_exact_iff (config : SyncConfig) :
    (∀ ticks gap, gap < (counterOf config).period → gap < 2 ^ 63 →
      deltaTicks config ((counterOf config).reading ticks)
        ((counterOf config).reading (ticks + gap)) = gap) ↔ Exact config := by
  constructor
  · intro exact
    by_contra long
    have fits : ¬ (counterOf config).period ≤ 2 ^ 63 + 1 := fun short => long (.inl short)
    have whole : (counterOf config).period ≠ 2 ^ 64 := fun full => long (.inr full)
    have start := config.counterStart.toNat_lt
    have last := config.counterEnd.toNat_lt
    have range := period_eq config
    have one := exact ((counterOf config).period - 1) 1 (by omega) (by decide)
    have restarted := difference_restart (counterOf config)
    obtain ⟨first, signed, low, high⟩ := int64_spec (1 - ((counterOf config).period : Int))
    rw [deltaTicks_eq, restarted, if_neg (by omega)] at one
    omega
  · intro exact ticks gap near short
    exact deltaTicks_reading exact ticks gap near short

/-! ## Readings of a wait -/

def counterAnswer : SyncEvent → Option Nat
  | .read .performanceCounter answer => some answer
  | _ => none

def counterAnswers (history : List SyncEvent) : List Nat := history.filterMap counterAnswer

theorem counterAnswers_concat (history : List SyncEvent) (event : SyncEvent) :
    counterAnswers (history ++ [event]) = counterAnswers history ++ (counterAnswer event).toList := by
  rw [counterAnswers, List.filterMap_append]
  cases event with
  | read source answer => cases source <;> rfl
  | write target value => rfl

def report : SyncEvent := .write .debugAssert 150

def Quiet (event : SyncEvent) : Prop := counterAnswer event = none ∧ event ≠ report

/-- `PcdSpinLockTimeout` microseconds have passed, to the tick. -/
def Expired (config : SyncConfig) (ticks : Nat) : Prop :=
  config.frequency.toNat * config.spinLockTimeout.toNat < (ticks + 1) * 1000000

theorem timeoutTicks_le_iff (fits : config.frequency.toNat * config.spinLockTimeout.toNat < 2 ^ 64)
    (ticks : Nat) : timeoutTicks config ≤ ticks ↔ Expired config ticks := by
  rw [timeoutTicks, u64, Nat.mod_eq_of_lt fits, Expired, ← Nat.lt_succ_iff,
    Nat.div_lt_iff_lt_mul (by decide)]

def Clocked (config : SyncConfig) (times : List Nat) (history : List SyncEvent) : Prop :=
  counterAnswers history <+: times.map (counterOf config).reading

def seen (times : List Nat) (history : List SyncEvent) : List Nat :=
  times.take (counterAnswers history).length

/-- A reading after the first has just shown that the timeout has passed. -/
def Late (config : SyncConfig) (times : List Nat) (history : List SyncEvent) : Prop :=
  ∃ older answer, history = older ++ [.read .performanceCounter answer] ∧
    counterAnswers older ≠ [] ∧ Expired config (elapsed (seen times history))

/-- Times of readings for which the sum of the gaps is exact. -/
structure Timeline (config : SyncConfig) (times : List Nat) : Prop where
  exact : Exact config
  spaced : Spaced (min (counterOf config).period (2 ^ 63)) times
  span : elapsed times < 2 ^ 64
  fits : config.frequency.toNat * config.spinLockTimeout.toNat < 2 ^ 64

section Histories

variable {times : List Nat} {history : List SyncEvent} {event : SyncEvent}

theorem Clocked.of_prefix {older : List SyncEvent} (clocked : Clocked config times history)
    (start : older <+: history) : Clocked config times older :=
  (start.filterMap counterAnswer).trans clocked

theorem not_late_of_unread (unread : counterAnswer event = none) :
    ¬ Late config times (history ++ [event]) := by
  rintro ⟨older, answer, whole, _⟩
  have last := (List.append_inj' whole rfl).2
  rw [(List.cons.inj last).1] at unread
  cases unread

theorem not_late_nil : ¬ Late config times [] := by
  rintro ⟨older, answer, whole, _⟩
  exact absurd whole.symm (List.append_ne_nil_of_right_ne_nil _ (List.cons_ne_nil _ _))

theorem seen_concat {answer : Nat}
    (clocked : Clocked config times (history ++ [.read .performanceCounter answer])) :
    ∃ time, seen times (history ++ [.read .performanceCounter answer]) =
      seen times history ++ [time] ∧ answer = (counterOf config).reading time := by
  rw [Clocked, counterAnswers_concat] at clocked
  change counterAnswers history ++ [answer] <+: _ at clocked
  have bound := clocked.length_le
  rw [List.length_append, List.length_map, List.length_singleton] at bound
  have last : (counterAnswers history).length < (counterAnswers history ++ [answer]).length := by
    simp
  have here := clocked.getElem last
  refine ⟨times[(counterAnswers history).length], ?_, ?_⟩
  · rw [seen, seen, counterAnswers_concat, List.length_append]
    exact List.take_succ_eq_append_getElem bound
  · simpa using here

/-- What every event of a call requires of the trace before it. -/
def Allowed (config : SyncConfig) (times : List Nat) (before : List SyncEvent) (event : SyncEvent) :
    Prop :=
  Clocked config times before → (event = report ↔ Late config times before)

structure Waits (config : SyncConfig) (times : List Nat) (history : List SyncEvent) : Prop where
  allowed : Each (Allowed config times) history
  inTime : config.assertReturns = false → ∀ before, before <+: history →
    Clocked config times before → ¬ Late config times before
  still : Clocked config times history → ¬ Late config times history

theorem waits_nil : Waits config times [] := by
  refine ⟨each_nil, fun _ before start _ => ?_, fun _ => not_late_nil⟩
  rw [List.eq_nil_of_prefix_nil start]
  exact not_late_nil

theorem Waits.concat (waits : Waits config times history) (quiet : Quiet event) :
    Waits config times (history ++ [event]) := by
  refine ⟨waits.allowed.concat fun clocked => ?_, fun halts before start clocked => ?_,
    fun _ => not_late_of_unread quiet.1⟩
  · exact iff_of_false quiet.2 (waits.still clocked)
  · rcases List.prefix_concat_iff.mp start with rfl | inside
    · exact not_late_of_unread quiet.1
    · exact waits.inTime halts before inside clocked

end Histories

/-! ## The tries in between -/

theorem quiet_report {line : Nat} (other : line ≠ 150) : Quiet (.write .debugAssert line) :=
  ⟨rfl, fun same => other (Event.write.inj same).2⟩

theorem within_acquireSpinLockOrFail (config : SyncConfig) (spinLock : Nat) :
    Within Quiet (acquireSpinLockOrFail config spinLock) := by
  have exchange : Within Quiet (interlockedCompareExchangePointer config spinLock spinLockReleased
      spinLockAcquired) :=
    (within_assertAt config (quiet_report (by decide)) _).bind fun _ => fun _ => ⟨⟨rfl, nofun⟩, trivial⟩
  rw [acquireSpinLockOrFail]
  refine (within_assertAt config (quiet_report (by decide)) _).bind fun _ answer => ⟨⟨rfl, nofun⟩, ?_⟩
  exact (within_assertAt config (quiet_report (by decide)) _).bind fun _ => exchange.bind fun _ => trivial

section Calls

variable {times : List Nat} {history : List SyncEvent} {spinLock : Nat}

theorem wp_try (waits : Waits config times history) :
    wp (acquireSpinLockOrFail config spinLock)
      (fun _ after => Waits config times after ∧ counterAnswers after = counterAnswers history)
      (Each (Allowed config times)) history := by
  refine wp_within ?_ ?_ (within_acquireSpinLockOrFail config spinLock) ⟨waits, rfl⟩
  · intro before event ⟨waits, same⟩ quiet
    refine ⟨waits.concat quiet, ?_⟩
    rw [counterAnswers_concat, quiet.1, same]
    exact List.append_nil _
  · intro before ⟨waits, _⟩
    exact waits.allowed

/-! ## Every run of a call -/

def Counted (config : SyncConfig) (times : List Nat) (waiting : Waiting)
    (history : List SyncEvent) : Prop :=
  counterAnswers history ≠ [] ∧ (Clocked config times history →
    waiting.current = (counterOf config).reading ((seen times history).getLastD 0) ∧
      waiting.total = elapsed (seen times history))

theorem Counted.congr {waiting : Waiting} {after : List SyncEvent}
    (counted : Counted config times waiting history)
    (same : counterAnswers after = counterAnswers history) :
    Counted config times waiting after := by
  refine ⟨by rw [same]; exact counted.1, fun clocked => ?_⟩
  rw [Clocked, same] at clocked
  rw [seen, same]
  exact counted.2 clocked

theorem addTicks_eq {total gap : Nat} (span : total + gap < 2 ^ 64) :
    addTicks total gap = total + gap := by
  rw [addTicks]
  omega

theorem seen_ne_nil (clocked : Clocked config times history) (some : counterAnswers history ≠ []) :
    seen times history ≠ [] := by
  intro none
  have length := clocked.length_le
  rw [List.length_map] at length
  have taken := congrArg List.length none
  rw [seen, List.length_take, Nat.min_eq_left length] at taken
  exact some (List.length_eq_zero_iff.mp taken)

theorem counted_reading (timeline : Timeline config times) {waiting : Waiting} {answer : Nat}
    (counted : Counted config times waiting history) :
    Counted config times ⟨answer, addTicks waiting.total (deltaTicks config waiting.current answer)⟩
      (history ++ [.read .performanceCounter answer]) := by
  refine ⟨?_, fun clocked => ?_⟩
  · rw [counterAnswers_concat]
    exact List.append_ne_nil_of_left_ne_nil counted.1 _
  · have before := clocked.of_prefix (List.prefix_append _ _)
    obtain ⟨time, more, rfl⟩ := seen_concat clocked
    obtain ⟨current, total⟩ := counted.2 before
    have some := seen_ne_nil before counted.1
    have inside : seen times history ++ [time] <+: times := by
      rw [← more]
      exact List.take_prefix _ _
    obtain ⟨rest, whole⟩ := inside
    have spaced : Spaced (min (counterOf config).period (2 ^ 63)) (seen times history ++ [time] ++ rest) := by
      rw [whole]
      exact timeline.spaced
    have span := spaced.elapsed_le
    rw [whole] at span
    have bound := timeline.span
    have here : Spaced _ (seen times history ++ [time]) := spaced.left_of_append
    obtain ⟨later, near⟩ := here.last some
    have gap := deltaTicks_reading timeline.exact ((seen times history).getLastD 0)
      (time - (seen times history).getLastD 0) (by omega) (by omega)
    rw [Nat.add_sub_cancel' later] at gap
    have sum := elapsed_concat here some
    rw [more, last_concat, current, gap, total]
    exact ⟨rfl, (addTicks_eq (by omega)).trans sum.symm⟩

theorem counted_first {answer : Nat} (none : counterAnswers history = []) :
    Counted config times ⟨answer, 0⟩ (history ++ [.read .performanceCounter answer]) := by
  refine ⟨?_, fun clocked => ?_⟩
  · rw [counterAnswers_concat]
    exact List.append_ne_nil_of_right_ne_nil _ (List.cons_ne_nil _ _)
  · obtain ⟨time, more, rfl⟩ := seen_concat clocked
    rw [more, seen, none, List.length_nil, List.take_zero, List.nil_append]
    exact ⟨rfl, (Nat.sub_self time).symm⟩

theorem late_iff (timeline : Timeline config times) {waiting : Waiting} {answer : Nat}
    (some : counterAnswers history ≠ [])
    (counted : Counted config times waiting (history ++ [.read .performanceCounter answer]))
    (clocked : Clocked config times (history ++ [.read .performanceCounter answer])) :
    Late config times (history ++ [.read .performanceCounter answer]) ↔
      timeoutTicks config ≤ waiting.total := by
  rw [timeoutTicks_le_iff timeline.fits, (counted.2 clocked).2]
  constructor
  · intro late
    obtain ⟨_, _, _, _, expired⟩ := late
    exact expired
  · exact fun expired => ⟨history, answer, rfl, some, expired⟩

theorem wp_timedPass (timeline : Timeline config times) {waiting : Waiting}
    (waits : Waits config times history) (counted : Counted config times waiting history) :
    wp (timedPass config spinLock waiting)
      (Passed (fun next after => Waits config times after ∧ Counted config times next after)
        (fun _ after => Waits config times after))
      (Each (Allowed config times)) history := by
  rw [timedPass]
  refine wp_seq (wp_try waits) fun got tried ⟨waits, same⟩ => ?_
  cases got with
  | true => exact ⟨waits.allowed, waits⟩
  | false =>
      have again := counted.congr same
      change wp (input SyncAccess.performanceCounter >>= fun answer => _) _ _ _
      rw [wp_bind, wp_input]
      refine ⟨waits.allowed, fun answer => ?_⟩
      have read : Each (Allowed config times) (tried ++ [.read .performanceCounter answer]) :=
        waits.allowed.concat fun clocked => iff_of_false nofun (waits.still clocked)
      refine ⟨read, ?_⟩
      have next : Counted config times
          ⟨answer, addTicks waiting.total (deltaTicks config waiting.current answer)⟩
          (tried ++ [.read .performanceCounter answer]) := counted_reading timeline again
      generalize addTicks waiting.total (deltaTicks config waiting.current answer) = total at next ⊢
      have late := late_iff timeline again.1 next
      rw [wp_bind, assertAt]
      by_cases short : total < timeoutTicks config
      · rw [if_pos (decide_eq_true short), wp_pure, wp_pure]
        have inTime (clocked : Clocked config times (tried ++ [.read .performanceCounter answer])) :
            ¬ Late config times (tried ++ [.read .performanceCounter answer]) :=
          fun shown => Nat.not_le.mpr short ((late clocked).mp shown)
        refine ⟨read, read, ⟨read, fun halts before start clocked => ?_, inTime⟩, next⟩
        rcases List.prefix_concat_iff.mp start with rfl | inside
        · exact inTime clocked
        · exact waits.inTime halts before inside clocked
      · rw [if_neg (ne_true_of_eq_false (decide_eq_false short)), wp_bind, wp_output]
        have reported : Each (Allowed config times)
            (tried ++ [.read .performanceCounter answer] ++ [report]) :=
          read.concat fun clocked => iff_of_true rfl ((late clocked).mpr (Nat.not_lt.mp short))
        refine ⟨read, reported, ?_⟩
        by_cases returns : config.assertReturns = true
        · rw [if_pos returns, wp_pure, wp_pure]
          refine ⟨reported, reported, ⟨reported, fun halts => ?_, fun _ => not_late_of_unread rfl⟩, ?_⟩
          · rw [returns] at halts
            cases halts
          · exact next.congr ((counterAnswers_concat _ _).trans (List.append_nil _))
        · rw [if_neg returns]
          exact reported

theorem wp_acquireSpinLock (timeline : Timeline config times) (fuel : Nat) :
    wp (acquireSpinLock config fuel spinLock) (fun _ after => Waits config times after)
      (Each (Allowed config times)) [] := by
  rw [acquireSpinLock]
  by_cases untimed : config.spinLockTimeout = 0
  · rw [if_pos untimed]
    refine wp_seq (wp_loop (fun _ now => Waits config times now) ?_ fuel () waits_nil)
      fun _ after waits => ⟨waits.allowed, waits⟩
    intro _ now waits
    refine wp_seq (wp_try waits) fun got tried ⟨waits, _⟩ => ?_
    cases got with
    | true => exact ⟨waits.allowed, waits⟩
    | false => exact ⟨waits.allowed, waits⟩
  · rw [if_neg untimed]
    refine wp_seq (wp_try waits_nil) fun got tried ⟨waits, same⟩ => ?_
    cases got with
    | true => exact ⟨waits.allowed, waits⟩
    | false =>
        change wp (input SyncAccess.performanceCounter >>= fun answer =>
          loop (timedPass config spinLock) fuel ⟨answer, 0⟩ >>= fun _ => pure spinLock) _ _ _
        rw [wp_bind, wp_input]
        refine ⟨waits.allowed, fun answer => ?_⟩
        have read : Each (Allowed config times) (tried ++ [.read .performanceCounter answer]) :=
          waits.allowed.concat fun clocked => iff_of_false nofun (waits.still clocked)
        have none : counterAnswers tried = [] := same
        have first : ¬ Late config times (tried ++ [.read .performanceCounter answer]) := by
          rintro ⟨older, other, whole, some, _⟩
          rw [(List.append_inj' whole rfl).1] at none
          exact some none
        have start : Waits config times (tried ++ [.read .performanceCounter answer]) := by
          refine ⟨read, fun halts before start clocked => ?_, fun _ => first⟩
          rcases List.prefix_concat_iff.mp start with rfl | inside
          · exact first
          · exact waits.inTime halts before inside clocked
        refine ⟨read, wp_seq (wp_loop (fun waiting now => Waits config times now ∧
          Counted config times waiting now) ?_ fuel _ ⟨start, counted_first none⟩)
          fun _ after waits => ⟨waits.allowed, waits⟩⟩
        intro waiting now ⟨waits, counted⟩
        exact wp_timedPass timeline waits counted

end Calls

def microseconds : SyncConfig where
  spinLockTimeout := 5
  frequency := 1000000
  counterStart := 0
  counterEnd := 0xffffffff
  assertReturns := true

def failedTry : List SyncEvent :=
  [.read (.word 0x2000) 2, .read (.compareExchange 32 0x2000 1 2) 2]

def lateTrace : List SyncEvent :=
  failedTry ++ [.read .performanceCounter 0xfffffffe] ++ failedTry ++ [.read .performanceCounter 2] ++
    failedTry ++ [.read .performanceCounter 4, report] ++
    [.read (.word 0x2000) 1, .read (.compareExchange 32 0x2000 1 2) 1]

theorem lateTrace_runs : Runs (acquireSpinLock microseconds 3 0x2000) lateTrace (some 0x2000) :=
  .input (.input (.input (.input (.input (.input (.input (.input (.input (.output (.input (.input
    (.ret _))))))))))))

end ArcFirmware.SpinTimeout
