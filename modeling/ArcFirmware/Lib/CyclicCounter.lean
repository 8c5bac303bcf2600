import Mathlib.Data.List.Chain
import Mathlib.Data.List.Induction

/-!
# Counters that start again

A counter runs from its first value to its last, up or down, one value a tick, and
starts again.  The difference of two readings in the direction of the counter is
the ticks between them, or a whole period less where the counter has started again
in between.  Of readings in a row, what has elapsed is the sum of the gaps.
-/

set_option autoImplicit false

namespace ArcFirmware.CyclicCounter

structure Counter where
  first : Nat
  last : Nat
  deriving DecidableEq, Repr

def Counter.period (counter : Counter) : Nat :=
  counter.last - counter.first + (counter.first - counter.last) + 1

def Counter.reading (counter : Counter) (ticks : Nat) : Nat :=
  if counter.first ≤ counter.last then counter.first + ticks % counter.period
  else counter.first - ticks % counter.period

def Counter.difference (counter : Counter) (earlier later : Nat) : Int :=
  if counter.first ≤ counter.last then (later : Int) - earlier else (earlier : Int) - later

variable (counter : Counter)

theorem period_pos : 0 < counter.period :=
  Nat.succ_pos _

theorem phase_add (ticks gap period : Nat) (near : gap < period) :
    (ticks + gap) % period = ticks % period + gap ∨
      (ticks + gap) % period + period = ticks % period + gap := by
  have phase := Nat.mod_lt ticks (Nat.zero_lt_of_lt near)
  rw [Nat.add_mod, Nat.mod_eq_of_lt near]
  by_cases within : ticks % period + gap < period
  · exact .inl (Nat.mod_eq_of_lt within)
  · have wrapped := Nat.mod_eq_sub_mod (Nat.not_lt.mp within)
    rw [Nat.mod_eq_of_lt (by omega : ticks % period + gap - period < period)] at wrapped
    exact .inr (by omega)

theorem difference_reading (ticks gap : Nat) (near : gap < counter.period) :
    counter.difference (counter.reading ticks) (counter.reading (ticks + gap)) = gap ∨
      counter.difference (counter.reading ticks) (counter.reading (ticks + gap)) =
        gap - counter.period ∧ 0 < gap := by
  have phase := Nat.mod_lt ticks (period_pos counter)
  have later := Nat.mod_lt (ticks + gap) (period_pos counter)
  have sum := phase_add ticks gap counter.period near
  rw [Counter.difference, Counter.reading, Counter.reading]
  by_cases up : counter.first ≤ counter.last
  · simp only [if_pos up]
    omega
  · have range : counter.period = counter.first - counter.last + 1 := by
      rw [Counter.period]
      omega
    simp only [if_neg up]
    omega

/-- Where the counter starts again. -/
theorem difference_restart :
    counter.difference (counter.reading (counter.period - 1))
      (counter.reading (counter.period - 1 + 1)) = 1 - counter.period := by
  have positive := period_pos counter
  have range : counter.period = counter.last - counter.first + (counter.first - counter.last) + 1 :=
    rfl
  have last : (counter.period - 1) % counter.period = counter.period - 1 :=
    Nat.mod_eq_of_lt (by omega)
  rw [Counter.difference, Counter.reading, Counter.reading, Nat.sub_add_cancel positive,
    Nat.mod_self, last]
  by_cases up : counter.first ≤ counter.last
  · simp only [if_pos up]
    omega
  · simp only [if_neg up]
    omega

/-! ## Readings in a row -/

def elapsed (times : List Nat) : Nat := times.getLastD 0 - times.headD 0

/-- Times that do not go back and lie less than `gap` apart. -/
def Spaced (gap : Nat) (times : List Nat) : Prop :=
  times.IsChain fun earlier later => earlier ≤ later ∧ later < earlier + gap

variable {gap : Nat} {seen : List Nat}

theorem last_concat (seen : List Nat) (time : Nat) : (seen ++ [time]).getLastD 0 = time := by
  rw [List.getLastD_eq_getLast?, List.getLast?_concat, Option.getD_some]

theorem head_concat (some : seen ≠ []) (time : Nat) :
    (seen ++ [time]).headD 0 = seen.headD 0 := by
  cases seen with
  | nil => exact absurd rfl some
  | cons first rest => rfl

theorem Spaced.init {time : Nat} (spaced : Spaced gap (seen ++ [time])) : Spaced gap seen :=
  spaced.left_of_append

theorem Spaced.last {time : Nat} (spaced : Spaced gap (seen ++ [time])) (some : seen ≠ []) :
    seen.getLastD 0 ≤ time ∧ time < seen.getLastD 0 + gap := by
  obtain ⟨init, last, rfl⟩ := (List.eq_nil_or_concat seen).resolve_left some
  rw [List.concat_eq_append] at spaced ⊢
  rw [last_concat]
  exact (List.isChain_append.mp spaced).2.2 last (List.getLast?_concat ..) time rfl

theorem Spaced.head_le_last (spaced : Spaced gap seen) : seen.headD 0 ≤ seen.getLastD 0 := by
  induction seen using List.reverseRecOn with
  | nil => exact Nat.le_refl 0
  | append_singleton seen time ih =>
      rw [last_concat]
      by_cases none : seen = []
      · rw [none]
        exact Nat.le_refl time
      · rw [head_concat none]
        exact (ih spaced.init).trans (spaced.last none).1

theorem elapsed_concat {time : Nat} (spaced : Spaced gap (seen ++ [time])) (some : seen ≠ []) :
    elapsed (seen ++ [time]) = elapsed seen + (time - seen.getLastD 0) := by
  have first := spaced.init.head_le_last
  have next := (spaced.last some).1
  rw [elapsed, elapsed, last_concat, head_concat some]
  omega

theorem Spaced.elapsed_le {later : List Nat} (spaced : Spaced gap (seen ++ later)) :
    elapsed seen ≤ elapsed (seen ++ later) := by
  induction later using List.reverseRecOn with
  | nil =>
      rw [List.append_nil]
  | append_singleton later time ih =>
      rw [← List.append_assoc] at spaced ⊢
      refine (ih spaced.init).trans ?_
      by_cases none : seen ++ later = []
      · rw [none]
        exact Nat.zero_le _
      · rw [elapsed_concat spaced none]
        exact Nat.le_add_right _ _

end ArcFirmware.CyclicCounter
