import Mathlib.Data.List.Basic
import Mathlib.Data.Nat.Basic
import Mathlib.Tactic.IntervalCases
import Mathlib.Tactic.Ring

/-!
# Hexadecimal text of a fixed width

The ASCII digits of a number, most significant first and lower case, and the
reader that takes both cases back.  `hex_add` splits the text of a wide number
into those of its parts, which is how it is printed byte by byte.
-/

set_option autoImplicit false

namespace ArcFirmware.Hex

def digit (value : Nat) : UInt8 :=
  if value < 10 then UInt8.ofNat (0x30 + value) else UInt8.ofNat (0x61 + (value - 10))

def digitValue (char : UInt8) : Option Nat :=
  if 0x30 ≤ char ∧ char ≤ 0x39 then some (char.toNat - 0x30)
  else if 0x61 ≤ char ∧ char ≤ 0x66 then some (char.toNat - 0x61 + 10)
  else if 0x41 ≤ char ∧ char ≤ 0x46 then some (char.toNat - 0x41 + 10)
  else none

def hex : Nat → Nat → List UInt8
  | 0, _ => []
  | width + 1, value => hex width (value / 16) ++ [digit (value % 16)]

/-- Digits read after a number that has been read before them. -/
def parseFrom (read : Nat) : List UInt8 → Option Nat
  | [] => some read
  | char :: rest => do parseFrom (16 * read + (← digitValue char)) rest

def parseHex (text : List UInt8) : Option Nat := parseFrom 0 text

theorem digitValue_digit {value : Nat} (small : value < 16) :
    digitValue (digit value) = some value := by
  interval_cases value <;> rfl

@[simp] theorem length_hex (width value : Nat) : (hex width value).length = width := by
  induction width generalizing value with
  | zero => rfl
  | succ width ih => rw [hex, List.length_append, ih, List.length_singleton]

theorem hex_add (high low value : Nat) :
    hex (high + low) value = hex high (value / 16 ^ low) ++ hex low value := by
  induction low generalizing value with
  | zero => simp [hex]
  | succ low ih =>
      rw [← Nat.add_assoc, hex, ih, hex, Nat.div_div_eq_div_mul, ← Nat.pow_succ',
        List.append_assoc]

theorem hex_mod (width value : Nat) : hex width (value % 16 ^ width) = hex width value := by
  induction width generalizing value with
  | zero => rfl
  | succ width ih =>
      have high : value % 16 ^ (width + 1) / 16 = value / 16 % 16 ^ width := by
        rw [Nat.pow_succ', Nat.mod_mul_right_div_self]
      have low : value % 16 ^ (width + 1) % 16 = value % 16 :=
        Nat.mod_mod_of_dvd value (Dvd.intro_left (16 ^ width) (Nat.pow_succ 16 width).symm)
      rw [hex, hex, high, low, ih]

theorem digit_ne {value : Nat} (small : value < 16) {char : UInt8}
    (other : digitValue char = none) : digit value ≠ char := by
  rintro rfl
  rw [digitValue_digit small] at other
  cases other

theorem not_mem_hex {char : UInt8} (other : digitValue char = none) (width value : Nat) :
    char ∉ hex width value := by
  induction width generalizing value with
  | zero => exact List.not_mem_nil
  | succ width ih =>
      rw [hex, List.mem_append, List.mem_singleton]
      rintro (high | low)
      · exact ih _ high
      · exact digit_ne (Nat.mod_lt _ (by omega)) other low.symm

theorem parseFrom_append (read : Nat) (first second : List UInt8) :
    parseFrom read (first ++ second) =
      (parseFrom read first).bind fun middle => parseFrom middle second := by
  induction first generalizing read with
  | nil => rfl
  | cons char rest ih =>
      rw [List.cons_append, parseFrom, parseFrom]
      cases value : digitValue char with
      | none => rfl
      | some small => exact ih (16 * read + small)

theorem parseFrom_hex (read width value : Nat) :
    parseFrom read (hex width value) = some (read * 16 ^ width + value % 16 ^ width) := by
  induction width generalizing value with
  | zero => simp [hex, parseFrom, Nat.mod_one]
  | succ width ih =>
      have small : value % 16 < 16 := Nat.mod_lt _ (by omega)
      have split : value % 16 ^ (width + 1) = value % 16 + 16 * (value / 16 % 16 ^ width) := by
        rw [Nat.pow_succ', Nat.mod_mul]
      rw [hex, parseFrom_append, ih, Option.bind_some, parseFrom, digitValue_digit small]
      change some (16 * (read * 16 ^ width + value / 16 % 16 ^ width) + value % 16) = _
      rw [split, Nat.pow_succ]
      congr 1
      ring

@[simp] theorem parseHex_hex (width value : Nat) :
    parseHex (hex width value) = some (value % 16 ^ width) := by
  rw [parseHex, parseFrom_hex, Nat.zero_mul, Nat.zero_add]

/-! ## Bytes -/

def hexBytes (bytes : List UInt8) : List UInt8 := bytes.flatMap fun byte => hex 2 byte.toNat

def parseBytes : List UInt8 → Option (List UInt8)
  | [] => some []
  | [_] => none
  | high :: low :: rest => do
      let byte ← parseHex [high, low]
      let tail ← parseBytes rest
      pure (UInt8.ofNat byte :: tail)

theorem hexBytes_cons (byte : UInt8) (rest : List UInt8) :
    hexBytes (byte :: rest) = hex 2 byte.toNat ++ hexBytes rest :=
  rfl

@[simp] theorem length_hexBytes (bytes : List UInt8) :
    (hexBytes bytes).length = 2 * bytes.length := by
  induction bytes with
  | nil => rfl
  | cons byte rest ih =>
      rw [hexBytes_cons, List.length_append, length_hex, ih, List.length_cons]
      omega

theorem not_mem_hexBytes {char : UInt8} (other : digitValue char = none) (bytes : List UInt8) :
    char ∉ hexBytes bytes := by
  intro member
  obtain ⟨byte, _, inside⟩ := List.mem_flatMap.mp member
  exact not_mem_hex other 2 byte.toNat inside

@[simp] theorem parseBytes_hexBytes (bytes : List UInt8) :
    parseBytes (hexBytes bytes) = some bytes := by
  induction bytes with
  | nil => rfl
  | cons byte rest ih =>
      have whole : parseHex (hex 2 byte.toNat) = some byte.toNat := by
        have small : byte.toNat < 16 ^ 2 := byte.toNat_lt
        rw [parseHex_hex, Nat.mod_eq_of_lt small]
      change (do
        let value ← parseHex (hex 2 byte.toNat)
        let tail ← parseBytes (hexBytes rest)
        pure (UInt8.ofNat value :: tail)) = some (byte :: rest)
      rw [whole, ih]
      change some (UInt8.ofNat byte.toNat :: rest) = some (byte :: rest)
      rw [UInt8.ofNat_toNat]

end ArcFirmware.Hex
