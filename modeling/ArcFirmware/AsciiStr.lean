import ArcFirmware.Edk2
import ArcFirmware.Lib.Hex
import ArcFirmware.Lib.Store

/-!
# UtilsLib: the ASCII printers

`ByteToAscii`, `Int32ToAscii` and `GuidToAsciiStr` as they store to the buffer of
their caller.  A byte is printed right; the destination offsets of `Int32ToAscii`
are one too high, so its text has a hole and its terminator misses the buffer.
-/

set_option autoImplicit false

namespace ArcFirmware.AsciiStr

open ArcFirmware.Memory ArcFirmware.Reader ArcFirmware.Store ArcFirmware.Hex ArcFirmware.Edk2

/-! ## The printers -/

/-- One digit; a value that is none stores a NUL at `fallback`. -/
def nibbleToAscii (val : UInt8) (str fallback : Nat) : StoreProg Unit :=
  if val ≥ 0 ∧ val ≤ 9 then storeByte str (0x30 + val)
  else if val ≥ 10 ∧ val ≤ 15 then storeByte str (0x61 + val - 10)
  else storeByte fallback 0

def byteToAscii (byte : UInt8) (str : Nat) : StoreProg Unit := do
  nibbleToAscii ((byte >>> 4) &&& 0x0f) str str
  -- the last branch of the second half stores to `*Str` as well
  nibbleToAscii (byte &&& 0x0f) (str + 1) str

/-- `sizeof(INT32_STR)`: the length of "0xffffffff" and its NUL. -/
def sizeofInt32Str : Nat := 11

def int32ToAscii (val : UInt32) (str : Nat) : StoreProg Unit := do
  storeByte (str + 0) 0x30
  storeByte (str + 1) 0x78
  byteToAscii ((val >>> 24) &&& 0xff).toUInt8 (str + 3)
  byteToAscii ((val >>> 16) &&& 0xff).toUInt8 (str + 5)
  byteToAscii ((val >>> 8) &&& 0xff).toUInt8 (str + 7)
  byteToAscii (val &&& 0xff).toUInt8 (str + 9)
  storeByte (str + 11) 0

def guidStrMax : UInt8 := 36

def sizeofGuidStr : Nat := 37

def dash : UInt8 := 0x2d

def readData1 (guid : Nat) : ReadProg UInt32 := do return UInt32.ofNat (← readLe guid 4)

def readData2 (guid : Nat) : ReadProg UInt16 := do return UInt16.ofNat (← readLe (guid + 4) 2)

def readData3 (guid : Nat) : ReadProg UInt16 := do return UInt16.ofNat (← readLe (guid + 6) 2)

def readData4 (guid : Nat) (index : UInt8) : ReadProg UInt8 := readByte (guid + 8 + index.toNat)

/-- `for (Idx1 = 2, Idx2 = 24; Idx2 < GUID_STR_MAX; Idx1++)`, from given indices on. -/
def nodeToAscii (guid str : Nat) (idx1 idx2 : UInt8) : StoreProg Unit :=
  if inside : idx2 < guidStrMax then do
    byteToAscii (← reading (readData4 guid idx1)) (str + idx2.toNat)
    nodeToAscii guid str (idx1 + 1) (idx2 + 2)
  else
    pure ()
  termination_by guidStrMax.toNat - idx2.toNat
  decreasing_by
    have bound : idx2.toNat < 36 := inside
    have next : (idx2 + 2).toNat = (idx2.toNat + 2) % 256 := UInt8.toNat_add idx2 2
    have limit : guidStrMax.toNat = 36 := rfl
    omega

def guidToAsciiStr (guid str : Nat) : StoreProg Unit := do
  byteToAscii (((← reading (readData1 guid)) >>> 24) &&& 0xff).toUInt8 (str + 0)
  byteToAscii (((← reading (readData1 guid)) >>> 16) &&& 0xff).toUInt8 (str + 2)
  byteToAscii (((← reading (readData1 guid)) >>> 8) &&& 0xff).toUInt8 (str + 4)
  byteToAscii ((← reading (readData1 guid)) &&& 0xff).toUInt8 (str + 6)
  storeByte (str + 8) dash
  byteToAscii (((← reading (readData2 guid)) >>> 8) &&& 0xff).toUInt8 (str + 9)
  byteToAscii ((← reading (readData2 guid)) &&& 0xff).toUInt8 (str + 11)
  storeByte (str + 13) dash
  byteToAscii (((← reading (readData3 guid)) >>> 8) &&& 0xff).toUInt8 (str + 14)
  byteToAscii ((← reading (readData3 guid)) &&& 0xff).toUInt8 (str + 16)
  storeByte (str + 18) dash
  byteToAscii ((← reading (readData4 guid 0)) &&& 0xff) (str + 19)
  byteToAscii ((← reading (readData4 guid 1)) &&& 0xff) (str + 21)
  storeByte (str + 23) dash
  nodeToAscii guid str 2 24
  storeByte (str + guidStrMax.toNat) 0

/-! ## One byte -/

theorem nibbleToAscii_eq (val : UInt8) (small : val.toNat < 16) (str fallback : Nat) :
    nibbleToAscii val str fallback = storeByte str (digit val.toNat) := by
  have low : val ≤ 9 ↔ val.toNat < 10 := UInt8.le_iff_toNat_le.trans Nat.lt_succ_iff.symm
  have high : val ≥ 10 ↔ 10 ≤ val.toNat := UInt8.le_iff_toNat_le
  have top : val ≤ 15 ↔ val.toNat ≤ 15 := UInt8.le_iff_toNat_le
  rw [nibbleToAscii, digit]
  by_cases decimal : val.toNat < 10
  · rw [if_pos ⟨UInt8.zero_le, low.mpr decimal⟩, if_pos decimal, UInt8.ofNat_add,
      UInt8.ofNat_toNat]
    rfl
  · have letter : UInt8.ofNat (0x61 + (val.toNat - 10)) = 0x61 + val - 10 := by
      apply UInt8.toNat_inj.mp
      rw [UInt8.toNat_sub, UInt8.toNat_add, UInt8.toNat_ofNat']
      change (0x61 + (val.toNat - 10)) % 256 = (256 - 10 + (0x61 + val.toNat) % 256) % 256
      omega
    rw [if_neg fun both => decimal (low.mp both.2), if_pos ⟨high.mpr (by omega), top.mpr (by omega)⟩,
      if_neg decimal, letter]

section Emits

variable {region : Nat → Prop} {source : Mem} {base offset size : Nat}

theorem emits_byteToAscii (free : ∀ i < size, ¬ region (bus (base + i))) (room : offset < size)
    (byte : UInt8) :
    Emits region source base offset (hex 2 byte.toNat) (byteToAscii byte (base + offset)) := by
  have mask (word : Nat) : word &&& 15 = word % 16 := Nat.and_two_pow_sub_one_eq_mod word 4
  have upper : ((byte >>> 4) &&& 0x0f).toNat = byte.toNat / 16 % 16 := by
    rw [UInt8.toNat_and, UInt8.toNat_shiftRight]
    change (byte.toNat >>> 4) &&& 15 = _
    rw [mask, Nat.shiftRight_eq_div_pow]
  have lower : (byte &&& 0x0f).toNat = byte.toNat % 16 := by
    rw [UInt8.toNat_and]
    exact mask byte.toNat
  rw [byteToAscii, nibbleToAscii_eq _ (by omega), nibbleToAscii_eq _ (by omega), upper, lower]
  exact emits_seq free room (emits_store _) (emits_store _)

theorem emits_byte_seq (free : ∀ i < size, ¬ region (bus (base + i))) (room : offset + 2 ≤ size)
    (byte : UInt8) {text : List UInt8} {next : StoreProg Unit}
    (rest : Emits region source base (offset + 2) text next) :
    Emits region source base offset (hex 2 byte.toNat ++ text)
      (byteToAscii byte (base + offset) >>= fun _ => next) :=
  emits_seq free room (emits_byteToAscii free (by omega) byte) rest

theorem emits_char_seq (free : ∀ i < size, ¬ region (bus (base + i))) (room : offset + 1 ≤ size)
    (char : UInt8) {text : List UInt8} {next : StoreProg Unit}
    (rest : Emits region source base (offset + 1) text next) :
    Emits region source base offset (char :: text)
      (storeByte (base + offset) char >>= fun _ => next) :=
  emits_seq free room (emits_store char) rest

end Emits

def cString (buffer : List UInt8) : List UInt8 := buffer.takeWhile (· ≠ 0)

/-! ## Words -/

theorem mask_byte (word : Nat) : word &&& 255 = word % 16 ^ 2 :=
  Nat.and_two_pow_sub_one_eq_mod word 8

theorem hex_eight (val : UInt32) :
    hex 8 val.toNat =
      hex 2 ((val >>> 24) &&& 0xff).toUInt8.toNat ++
        (hex 2 ((val >>> 16) &&& 0xff).toUInt8.toNat ++
          (hex 2 ((val >>> 8) &&& 0xff).toUInt8.toNat ++ hex 2 (val &&& 0xff).toUInt8.toNat)) := by
  have byte3 : ((val >>> 24) &&& 0xff).toUInt8.toNat = val.toNat / 16 ^ 6 % 16 ^ 2 := by
    simp [mask_byte, Nat.shiftRight_eq_div_pow]
  have byte2 : ((val >>> 16) &&& 0xff).toUInt8.toNat = val.toNat / 16 ^ 4 % 16 ^ 2 := by
    simp [mask_byte, Nat.shiftRight_eq_div_pow]
  have byte1 : ((val >>> 8) &&& 0xff).toUInt8.toNat = val.toNat / 16 ^ 2 % 16 ^ 2 := by
    simp [mask_byte, Nat.shiftRight_eq_div_pow]
  have byte0 : (val &&& 0xff).toUInt8.toNat = val.toNat % 16 ^ 2 := by
    simp [mask_byte]
  rw [byte3, byte2, byte1, byte0, hex_mod, hex_mod, hex_mod, hex_mod, ← hex_add 2 2,
    ← hex_add 2 4, ← hex_add 2 6]

theorem hex_four (val : UInt16) :
    hex 4 val.toNat =
      hex 2 ((val >>> 8) &&& 0xff).toUInt8.toNat ++ hex 2 (val &&& 0xff).toUInt8.toNat := by
  have byte1 : ((val >>> 8) &&& 0xff).toUInt8.toNat = val.toNat / 16 ^ 2 % 16 ^ 2 := by
    simp [mask_byte, Nat.shiftRight_eq_div_pow]
  have byte0 : (val &&& 0xff).toUInt8.toNat = val.toNat % 16 ^ 2 := by
    simp [mask_byte]
  rw [byte1, byte0, hex_mod, hex_mod, ← hex_add 2 2]

/-! ## Int32ToAscii -/

def int32Text (val : UInt32) : List UInt8 := 0x30 :: 0x78 :: hex 8 val.toNat

def writtenInt32 (mem : Mem) (val : UInt32) (str : Nat) : List UInt8 :=
  bytesAt (final mem (int32ToAscii val str)) str sizeofInt32Str

def StaysInside (mem : Mem) (val : UInt32) (str : Nat) : Prop :=
  ∀ target ∈ stores mem (int32ToAscii val str), target ∈ window str sizeofInt32Str

section Int32

variable (mem : Mem) (val : UInt32) (str : Nat)

/-- The digits come after a hole at index 2, and the NUL after the last byte of the buffer. -/
theorem emits_int32Digits :
    Emits (fun _ => False) mem str 3 (hex 8 val.toNat ++ [0]) (do
      byteToAscii ((val >>> 24) &&& 0xff).toUInt8 (str + 3)
      byteToAscii ((val >>> 16) &&& 0xff).toUInt8 (str + 5)
      byteToAscii ((val >>> 8) &&& 0xff).toUInt8 (str + 7)
      byteToAscii (val &&& 0xff).toUInt8 (str + 9)
      storeByte (str + 11) 0) := by
  have free : ∀ i < 12, ¬ False := fun _ _ => not_false
  rw [hex_eight, List.append_assoc, List.append_assoc, List.append_assoc]
  refine emits_byte_seq free (by decide) _ ?_
  refine emits_byte_seq free (by decide) _ ?_
  refine emits_byte_seq free (by decide) _ ?_
  exact emits_byte_seq free (by decide) _ (emits_store 0)

/-- Everything a call stores: the prefix at the start of the buffer, the rest one byte late. -/
theorem final_int32ToAscii :
    final mem (int32ToAscii val str) =
      storeBytes (storeBytes mem str [0x30, 0x78]) (str + 3) (hex 8 val.toNat ++ [0]) :=
  (emits_int32Digits (storeBytes mem str [0x30, 0x78]) val str).left _ fun _ no => no.elim

theorem stores_int32ToAscii :
    stores mem (int32ToAscii val str) = window str 2 ++ window (str + 3) 9 := by
  have digits := (emits_int32Digits (storeBytes mem str [0x30, 0x78]) val str).stored
    (storeBytes mem str [0x30, 0x78]) fun _ no => no.elim
  rw [List.length_append, length_hex, List.length_singleton] at digits
  rw [← digits]
  rfl

theorem writtenInt32_eq :
    writtenInt32 mem val str = 0x30 :: 0x78 :: byteAt mem (str + 2) :: hex 8 val.toNat := by
  have before (i : Nat) (early : i < 3) : byteAt (final mem (int32ToAscii val str)) (str + i) =
      byteAt (storeBytes mem str [0x30, 0x78]) (str + i) := by
    rw [final_int32ToAscii]
    refine byteAt_storeBytes_of_apart _ _ _ _ fun j bound same => ?_
    rw [List.length_append, length_hex, List.length_singleton] at bound
    simp only [bus] at same
    omega
  obtain ⟨zero, rest⟩ := List.cons.inj (bytesAt_storeBytes_self mem str [0x30, 0x78] (by decide))
  have one := (List.cons.inj rest).1
  have hole : byteAt (storeBytes mem str [0x30, 0x78]) (str + 2) = byteAt mem (str + 2) := by
    refine byteAt_storeBytes_of_apart _ _ _ _ fun j bound same => ?_
    rw [List.length_cons, List.length_singleton] at bound
    simp only [bus] at same
    omega
  have digits := bytesAt_storeBytes_self (storeBytes mem str [0x30, 0x78]) (str + 3)
    (hex 8 val.toNat ++ [0]) (by simp)
  rw [← final_int32ToAscii, List.length_append, length_hex, bytesAt_append] at digits
  have low : bytesAt (final mem (int32ToAscii val str)) (str + 3) 8 = hex 8 val.toNat :=
    (List.append_inj digits (by rw [length_bytesAt, length_hex])).1
  rw [writtenInt32, sizeofInt32Str, bytesAt_append _ str 3 8, low]
  change byteAt _ (str + 0) :: byteAt _ (str + 1) :: byteAt _ (str + 2) :: hex 8 val.toNat = _
  rw [before 0 (by decide), before 1 (by decide), before 2 (by decide), hole]
  exact congrArg₂ (fun first second => first :: second :: byteAt mem (str + 2) :: _) zero one

theorem int32ToAscii_leaves_buffer : ¬ StaysInside mem val str := by
  intro inside
  have terminator : bus (str + 11) ∈ stores mem (int32ToAscii val str) := by
    rw [stores_int32ToAscii, List.mem_append]
    exact .inr (mem_window.mpr ⟨8, by decide, rfl⟩)
  obtain ⟨index, bound, same⟩ := mem_window.mp (inside _ terminator)
  rw [sizeofInt32Str] at bound
  simp only [bus] at same
  omega

theorem cString_of_cleared (cleared : byteAt mem (str + 2) = 0) :
    cString (writtenInt32 mem val str) = [0x30, 0x78] := by
  rw [writtenInt32_eq, cleared]
  rfl

theorem int32ToAscii_misplaces_text : writtenInt32 mem val str ≠ int32Text val ++ [0] := by
  intro whole
  rw [writtenInt32_eq, hex] at whole
  change (0x30 :: 0x78 :: byteAt mem (str + 2) :: hex 7 (val.toNat / 16)) ++ [_] = _ ++ [0] at whole
  have last := (List.append_inj' whole rfl).2
  exact digit_ne (Nat.mod_lt _ (by decide)) rfl (List.cons.inj last).1

end Int32

/-- No value is encoded: some byte goes past the string type, and what its bytes hold is not the
text of the value, whatever they held before. -/
theorem int32ToAscii_never_encodes (mem : Mem) (val : UInt32) (str : Nat) :
    ¬ StaysInside mem val str ∧ writtenInt32 mem val str ≠ int32Text val ++ [0] :=
  ⟨int32ToAscii_leaves_buffer mem val str, int32ToAscii_misplaces_text mem val str⟩

def clearedStr : Mem := fun addr => if addr < 0x100b then 0 else 0xff

theorem int32ToAscii_cleared :
    writtenInt32 clearedStr 0xdeadbeef 0x1000 =
        [0x30, 0x78, 0, 0x64, 0x65, 0x61, 0x64, 0x62, 0x65, 0x65, 0x66] ∧
      int32Text 0xdeadbeef ++ [0] =
        [0x30, 0x78, 0x64, 0x65, 0x61, 0x64, 0x62, 0x65, 0x65, 0x66, 0] ∧
      cString (writtenInt32 clearedStr 0xdeadbeef 0x1000) =
        cString (writtenInt32 clearedStr 0x12345678 0x1000) ∧
      ¬ StaysInside clearedStr 0xdeadbeef 0x1000 ∧
      byteAt clearedStr 0x100b = 0xff ∧
      byteAt (final clearedStr (int32ToAscii 0xdeadbeef 0x1000)) 0x100b = 0 := by
  refine ⟨by decide, by decide, ?_, int32ToAscii_leaves_buffer _ _ _, by decide, by decide⟩
  rw [cString_of_cleared clearedStr _ _ (by decide), cString_of_cleared clearedStr _ _ (by decide)]

end ArcFirmware.AsciiStr
