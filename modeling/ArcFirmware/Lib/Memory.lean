import Mathlib.Data.Nat.Basic
import Mathlib.Logic.Function.Basic
import Mathlib.Tactic.Ring

/-!
# A byte memory with a 32-bit address bus

Addresses are natural numbers and the bus keeps their low 32 bits, so pointer
arithmetic that runs over the top of the address space wraps.  Multi-byte words
are little-endian.
-/

set_option autoImplicit false

namespace ArcFirmware.Memory

/-- The address the bus sees. -/
def bus (addr : Nat) : Nat := addr % 2 ^ 32

abbrev Mem := Nat → UInt8

def byteAt (mem : Mem) (addr : Nat) : UInt8 := mem (bus addr)

/-- Little-endian word of `count` bytes. -/
def leAt (mem : Mem) (addr : Nat) : Nat → Nat
  | 0 => 0
  | count + 1 => (byteAt mem addr).toNat + 256 * leAt mem (addr + 1) count

def bytesAt (mem : Mem) (addr : Nat) : Nat → List UInt8
  | 0 => []
  | count + 1 => byteAt mem addr :: bytesAt mem (addr + 1) count

/-- Store the low `count` bytes of a value, least significant byte first. -/
def storeLe (mem : Mem) (addr : Nat) : Nat → Nat → Mem
  | 0, _ => mem
  | count + 1, value =>
      storeLe (Function.update mem (bus addr) (UInt8.ofNat value)) (addr + 1) count
        (value / 256)

/-- No byte of the first window is a byte of the second one. -/
def Apart (first firstLen second secondLen : Nat) : Prop :=
  ∀ i < firstLen, ∀ j < secondLen, bus (first + i) ≠ bus (second + j)

def AgreeOn (region : Nat → Prop) (left right : Mem) : Prop :=
  ∀ addr, region (bus addr) → byteAt left addr = byteAt right addr

/-! ## The bus -/

theorem bus_of_lt {addr : Nat} (small : addr < 2 ^ 32) : bus addr = addr :=
  Nat.mod_eq_of_lt small

@[simp] theorem bus_bus (addr : Nat) : bus (bus addr) = bus addr := Nat.mod_mod _ _

@[simp] theorem bus_bus_add (addr offset : Nat) : bus (bus addr + offset) = bus (addr + offset) :=
  Nat.mod_add_mod _ _ _

theorem byteAt_bus_add (mem : Mem) (addr offset : Nat) :
    byteAt mem (bus addr + offset) = byteAt mem (addr + offset) := by
  simp only [byteAt, bus_bus_add]

/-! ## Words -/

theorem leAt_lt (mem : Mem) (addr count : Nat) : leAt mem addr count < 256 ^ count := by
  induction count generalizing addr with
  | zero => simp [leAt]
  | succ count ih =>
      have low := (byteAt mem addr).toNat_lt
      have high := ih (addr + 1)
      rw [leAt, pow_succ]
      omega

theorem leAt_congr (left right : Mem) (first second count : Nat)
    (same : ∀ i < count, byteAt left (first + i) = byteAt right (second + i)) :
    leAt left first count = leAt right second count := by
  induction count generalizing first second with
  | zero => rfl
  | succ count ih =>
      have head : byteAt left first = byteAt right second := same 0 (by omega)
      have tail := ih (first + 1) (second + 1) fun i bound => by
        have shifted := same (i + 1) (by omega)
        rwa [Nat.add_comm i 1, ← Nat.add_assoc, ← Nat.add_assoc] at shifted
      rw [leAt, leAt, head, tail]

@[simp] theorem leAt_bus (mem : Mem) (addr count : Nat) :
    leAt mem (bus addr) count = leAt mem addr count :=
  leAt_congr mem mem (bus addr) addr count fun i _ => byteAt_bus_add mem addr i

theorem leAt_bus_add (mem : Mem) (addr offset count : Nat) :
    leAt mem (bus addr + offset) count = leAt mem (addr + offset) count :=
  leAt_congr mem mem _ _ count fun i _ => by
    rw [Nat.add_assoc, byteAt_bus_add, Nat.add_assoc]

theorem length_bytesAt (mem : Mem) (addr count : Nat) : (bytesAt mem addr count).length = count := by
  induction count generalizing addr with
  | zero => rfl
  | succ count ih => rw [bytesAt, List.length_cons, ih]

theorem bytesAt_getD (mem : Mem) (addr count index : Nat) (bound : index < count) :
    (bytesAt mem addr count).getD index 0 = byteAt mem (addr + index) := by
  induction count generalizing addr index with
  | zero => omega
  | succ count ih =>
      cases index with
      | zero => rfl
      | succ index =>
          rw [bytesAt, List.getD_cons_succ, ih (addr + 1) index (by omega),
            Nat.add_right_comm, Nat.add_assoc]

theorem byteAt_eq_of_leAt_eq (left right : Mem) (first second count : Nat)
    (same : leAt left first count = leAt right second count) :
    ∀ i < count, byteAt left (first + i) = byteAt right (second + i) := by
  induction count generalizing first second with
  | zero => intro i bound; omega
  | succ count ih =>
      have leftLow := (byteAt left first).toNat_lt
      have rightLow := (byteAt right second).toNat_lt
      rw [leAt, leAt] at same
      have low : (byteAt left first).toNat = (byteAt right second).toNat := by omega
      have high : leAt left (first + 1) count = leAt right (second + 1) count := by omega
      intro i bound
      cases i with
      | zero => exact UInt8.toNat_inj.mp low
      | succ i =>
          have tail := ih (first + 1) (second + 1) high i (by omega)
          rwa [Nat.add_right_comm first, Nat.add_right_comm second] at tail

theorem leAt_agree {region : Nat → Prop} {left right : Mem} (agree : AgreeOn region left right)
    (addr count : Nat) (inside : ∀ i < count, region (bus (addr + i))) :
    leAt left addr count = leAt right addr count :=
  leAt_congr left right addr addr count fun i bound => agree (addr + i) (inside i bound)

/-! ## Stores -/

theorem byteAt_update_of_ne (mem : Mem) (addr other : Nat) (value : UInt8)
    (distinct : bus addr ≠ bus other) :
    byteAt (Function.update mem (bus addr) value) other = byteAt mem other := by
  simp only [byteAt]
  exact Function.update_of_ne (Ne.symm distinct) _ _

theorem byteAt_update_self (mem : Mem) (addr : Nat) (value : UInt8) :
    byteAt (Function.update mem (bus addr) value) addr = value := by
  simp only [byteAt]
  exact Function.update_self ..

theorem byteAt_storeLe_of_apart (mem : Mem) (addr count value other : Nat)
    (apart : ∀ i < count, bus (addr + i) ≠ bus other) :
    byteAt (storeLe mem addr count value) other = byteAt mem other := by
  induction count generalizing mem addr value with
  | zero => rfl
  | succ count ih =>
      have head : bus addr ≠ bus other := apart 0 (by omega)
      have tail : ∀ i < count, bus (addr + 1 + i) ≠ bus other := fun i bound => by
        have shifted := apart (i + 1) (by omega)
        rwa [Nat.add_comm i 1, ← Nat.add_assoc] at shifted
      rw [storeLe, ih _ _ _ tail, byteAt_update_of_ne mem addr other _ head]

theorem leAt_storeLe_of_apart (mem : Mem) (addr count value other otherCount : Nat)
    (apart : Apart addr count other otherCount) :
    leAt (storeLe mem addr count value) other otherCount = leAt mem other otherCount :=
  leAt_congr _ _ _ _ _ fun j bound =>
    byteAt_storeLe_of_apart mem addr count value (other + j) fun i small => apart i small j bound

theorem leAt_storeLe_self (mem : Mem) (addr count value : Nat) (fits : count ≤ 2 ^ 32) :
    leAt (storeLe mem addr count value) addr count = value % 256 ^ count := by
  induction count generalizing mem addr value with
  | zero => simp [leAt, Nat.mod_one]
  | succ count ih =>
      have fresh : ∀ i < count, bus (addr + 1 + i) ≠ bus addr := fun i bound same => by
        simp only [bus] at same
        omega
      have split : value % 256 ^ (count + 1) = value % 256 + 256 * (value / 256 % 256 ^ count) := by
        rw [pow_succ', Nat.mod_mul]
      rw [storeLe, leAt, byteAt_storeLe_of_apart _ _ _ _ _ fresh, byteAt_update_self,
        ih _ _ _ (by omega), UInt8.toNat_ofNat', split]

theorem storeLe_leAt (mem : Mem) (addr count : Nat) :
    storeLe mem addr count (leAt mem addr count) = mem := by
  induction count generalizing addr with
  | zero => rfl
  | succ count ih =>
      have low := (byteAt mem addr).toNat_lt
      have quotient : ((byteAt mem addr).toNat + 256 * leAt mem (addr + 1) count) / 256 =
          leAt mem (addr + 1) count := by omega
      have head : UInt8.ofNat ((byteAt mem addr).toNat + 256 * leAt mem (addr + 1) count) =
          byteAt mem addr := by
        apply UInt8.toNat_inj.mp
        rw [UInt8.toNat_ofNat']
        omega
      have same : Function.update mem (bus addr) (byteAt mem addr) = mem :=
        Function.update_eq_self _ _
      rw [storeLe, leAt, head, quotient, same]
      exact ih (addr + 1)

/-! ## Windows -/

theorem Apart.symm {first firstLen second secondLen : Nat}
    (apart : Apart first firstLen second secondLen) :
    Apart second secondLen first firstLen :=
  fun j jBound i iBound same => apart i iBound j jBound same.symm

theorem Apart.inner {first firstLen second secondLen : Nat}
    (apart : Apart first firstLen second secondLen) (offset count : Nat)
    (inside : offset + count ≤ secondLen) : Apart first firstLen (second + offset) count := by
  intro i iBound j jBound
  rw [Nat.add_assoc]
  exact apart i iBound (offset + j) (by omega)

theorem apart_bus_left {first firstLen second secondLen : Nat} :
    Apart (bus first) firstLen second secondLen ↔ Apart first firstLen second secondLen := by
  unfold Apart
  simp only [bus_bus_add]

theorem apart_of_below {first firstLen second secondLen : Nat}
    (ordered : first + firstLen ≤ second) (fits : second + secondLen ≤ 2 ^ 32) :
    Apart first firstLen second secondLen := by
  intro i iBound j jBound
  rw [bus_of_lt (by omega), bus_of_lt (by omega)]
  omega

/-! ## Copies -/

/-- A window has been copied from the source memory, and nothing else changed. -/
structure Copied (before : Mem) (dest : Nat) (source : Mem) (src length : Nat) (after : Mem) :
    Prop where
  inside : ∀ i < length, byteAt after (dest + i) = byteAt source (src + i)
  outside : ∀ addr, (∀ i < length, bus (dest + i) ≠ bus addr) →
    byteAt after addr = byteAt before addr

/-- Distance of an address above a base, on the bus. -/
def offsetFrom (base addr : Nat) : Nat := bus (addr + 2 ^ 32 - bus base)

theorem offsetFrom_add (base i : Nat) : offsetFrom base (bus (base + i)) = bus i := by
  unfold offsetFrom bus
  omega

theorem bus_add_offsetFrom (base addr : Nat) : bus (base + offsetFrom base addr) = bus addr := by
  unfold offsetFrom bus
  omega

def copyBytes (before : Mem) (dest : Nat) (source : Mem) (src length : Nat) : Mem :=
  fun addr =>
    if offsetFrom dest addr < length then byteAt source (src + offsetFrom dest addr)
    else before addr

theorem copied_copyBytes (before : Mem) (dest : Nat) (source : Mem) (src length : Nat)
    (fits : length ≤ 2 ^ 32) :
    Copied before dest source src length (copyBytes before dest source src length) := by
  refine ⟨?_, ?_⟩
  · intro i bound
    have offset : offsetFrom dest (bus (dest + i)) = i := by
      rw [offsetFrom_add, bus_of_lt (by omega)]
    rw [byteAt, copyBytes, offset, if_pos bound]
  · intro addr apart
    have far : ¬ offsetFrom dest (bus addr) < length := by
      intro near
      apply apart _ near
      rw [bus_add_offsetFrom, bus_bus]
    rw [byteAt, copyBytes, if_neg far]
    rfl

def place (base : Nat) (bytes : List UInt8) : Mem :=
  fun addr => if base ≤ addr then bytes.getD (addr - base) 0 else 0

end ArcFirmware.Memory
