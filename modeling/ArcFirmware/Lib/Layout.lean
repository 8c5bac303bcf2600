import Mathlib.Data.List.Basic
import Mathlib.Data.Nat.Basic
import Mathlib.Tactic.Ring

/-!
# Sized items packed at aligned addresses

A packed run places each item at the first aligned address at or after the end
of the previous one.  `starts` lists the items with the addresses they get,
`finish` is where the last item ends and `cursor` is where the next one would
start.
-/

set_option autoImplicit false

namespace ArcFirmware.Layout

/-- The first multiple of `align` at or after an address. -/
def roundUp (align addr : Nat) : Nat := (addr + (align - 1)) / align * align

section Packed

variable {ι : Type} (align : Nat) (size : ι → Nat)

def starts : Nat → List ι → List (Nat × ι)
  | _, [] => []
  | addr, item :: rest => (addr, item) :: starts (roundUp align (addr + size item)) rest

def finish : Nat → List ι → Nat
  | addr, [] => addr
  | addr, [item] => addr + size item
  | addr, item :: next :: rest => finish (roundUp align (addr + size item)) (next :: rest)

def cursor : Nat → List ι → Nat
  | addr, [] => addr
  | addr, item :: rest => cursor (roundUp align (addr + size item)) rest

end Packed

theorem le_roundUp {align : Nat} (positive : 0 < align) (addr : Nat) :
    addr ≤ roundUp align addr := by
  have split := Nat.div_add_mod (addr + (align - 1)) align
  have small := Nat.mod_lt (addr + (align - 1)) positive
  rw [Nat.mul_comm] at split
  unfold roundUp
  omega

theorem roundUp_of_dvd {align addr : Nat} (positive : 0 < align) (aligned : align ∣ addr) :
    roundUp align addr = addr := by
  obtain ⟨count, rfl⟩ := aligned
  unfold roundUp
  rw [Nat.mul_add_div positive, Nat.div_eq_of_lt (by omega), Nat.add_zero, Nat.mul_comm]

theorem dvd_roundUp (align addr : Nat) : align ∣ roundUp align addr := Nat.dvd_mul_left _ _

section Bounds

variable {ι : Type} {align : Nat} {size : ι → Nat}

theorem le_finish (positive : 0 < align) (items : List ι) (addr : Nat) :
    addr ≤ finish align size addr items := by
  induction items generalizing addr with
  | nil => exact le_rfl
  | cons item rest ih =>
      cases rest with
      | nil => exact Nat.le_add_right _ _
      | cons next rest =>
          have step := le_roundUp positive (addr + size item)
          have tail := ih (roundUp align (addr + size item))
          simp only [finish]
          omega

theorem head_le_finish (positive : 0 < align) (item : ι) (rest : List ι) (addr : Nat) :
    addr + size item ≤ finish align size addr (item :: rest) := by
  cases rest with
  | nil => exact le_rfl
  | cons next rest =>
      have step := le_roundUp positive (addr + size item)
      have tail : roundUp align (addr + size item) ≤
          finish align size (roundUp align (addr + size item)) (next :: rest) :=
        le_finish positive (next :: rest) _
      simp only [finish]
      omega

theorem starts_bounds (positive : 0 < align) (items : List ι) (addr : Nat)
    (entry : Nat × ι) (member : entry ∈ starts align size addr items) :
    addr ≤ entry.1 ∧ entry.1 + size entry.2 ≤ finish align size addr items := by
  induction items generalizing addr with
  | nil => simp [starts] at member
  | cons item rest ih =>
      rcases List.mem_cons.mp member with rfl | member
      · exact ⟨le_rfl, head_le_finish positive item rest addr⟩
      · have step := le_roundUp positive (addr + size item)
        obtain ⟨low, high⟩ := ih (roundUp align (addr + size item)) member
        cases rest with
        | nil => simp [starts] at member
        | cons next rest => exact ⟨by omega, high⟩

theorem starts_aligned (items : List ι) (addr : Nat) (aligned : align ∣ addr)
    (entry : Nat × ι) (member : entry ∈ starts align size addr items) : align ∣ entry.1 := by
  induction items generalizing addr with
  | nil => simp [starts] at member
  | cons item rest ih =>
      rcases List.mem_cons.mp member with rfl | member
      · exact aligned
      · exact ih (roundUp align (addr + size item)) (dvd_roundUp _ _) member

theorem starts_separated (positive : 0 < align) (items : List ι) (addr : Nat)
    (first second : Nat × ι) (firstMember : first ∈ starts align size addr items)
    (secondMember : second ∈ starts align size addr items) :
    first = second ∨ first.1 + size first.2 ≤ second.1 ∨
      second.1 + size second.2 ≤ first.1 := by
  induction items generalizing addr with
  | nil => simp [starts] at firstMember
  | cons item rest ih =>
      have step := le_roundUp positive (addr + size item)
      rcases List.mem_cons.mp firstMember with rfl | firstMember
      · rcases List.mem_cons.mp secondMember with rfl | secondMember
        · exact Or.inl rfl
        · have low := (starts_bounds positive rest _ second secondMember).1
          exact Or.inr (Or.inl (le_trans step low))
      · rcases List.mem_cons.mp secondMember with rfl | secondMember
        · have low := (starts_bounds positive rest _ first firstMember).1
          exact Or.inr (Or.inr (le_trans step low))
        · exact ih _ firstMember secondMember

theorem starts_pairwise (positive : 0 < align) (items : List ι) (addr : Nat) :
    (starts align size addr items).Pairwise fun first second =>
      first.1 + size first.2 ≤ second.1 := by
  induction items generalizing addr with
  | nil => exact .nil
  | cons item rest ih =>
      apply List.Pairwise.cons _ (ih _)
      intro entry member
      have low := (starts_bounds positive rest _ entry member).1
      exact (le_roundUp positive (addr + size item)).trans low

theorem le_cursor (positive : 0 < align) (items : List ι) (addr : Nat) :
    addr ≤ cursor align size addr items := by
  induction items generalizing addr with
  | nil => exact le_rfl
  | cons item rest ih =>
      have step := le_roundUp positive (addr + size item)
      have tail := ih (roundUp align (addr + size item))
      simp only [cursor]
      omega

theorem cursor_aligned (items : List ι) (addr : Nat) (aligned : align ∣ addr) :
    align ∣ cursor align size addr items := by
  induction items generalizing addr with
  | nil => exact aligned
  | cons item rest ih => exact ih (roundUp align (addr + size item)) (dvd_roundUp _ _)

end Bounds

end ArcFirmware.Layout
