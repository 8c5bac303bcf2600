import ArcFirmware.AsciiStr
import ArcFirmware.UtilsLib

/-!
# GUID text

The registry form of a GUID and its reader, and what `GuidToAsciiStr` leaves in
the buffer of its caller: the text of the GUID in memory and a NUL, every byte of
the string type and no other.  Two texts are equal exactly where `CompareGuids`
finds the two memory words equal.
-/

set_option autoImplicit false

namespace ArcFirmware.GuidText

open ArcFirmware.Memory ArcFirmware.Reader ArcFirmware.Store ArcFirmware.Hex ArcFirmware.Edk2
open ArcFirmware.UtilsLib ArcFirmware.AsciiStr

/-! ## The registry form -/

/-- 8-4-4-4-12 lower-case digits; the last two groups are bytes in memory order. -/
def guidText (guid : EfiGuid) : List UInt8 :=
  [dash].intercalate [hex 8 guid.data1.toNat, hex 4 guid.data2.toNat, hex 4 guid.data3.toNat,
    hexBytes (guid.data4.toList.take 2), hexBytes (guid.data4.toList.drop 2)]

def parseGuid (text : List UInt8) : Option EfiGuid :=
  match text.splitOn dash with
  | [first, second, third, clock, node] => do
      guard (first.length = 8 ∧ second.length = 4 ∧ third.length = 4 ∧ clock.length = 4 ∧
        node.length = 12)
      let data1 ← parseHex first
      let data2 ← parseHex second
      let data3 ← parseHex third
      let data4 ← parseBytes (clock ++ node)
      pure ⟨UInt32.ofNat data1, UInt16.ofNat data2, UInt16.ofNat data3,
        Vector.ofFn fun index => data4.getD index 0⟩
  | _ => none

theorem splitOn_guidText (guid : EfiGuid) :
    (guidText guid).splitOn dash = [hex 8 guid.data1.toNat, hex 4 guid.data2.toNat,
      hex 4 guid.data3.toNat, hexBytes (guid.data4.toList.take 2),
      hexBytes (guid.data4.toList.drop 2)] := by
  have other : digitValue dash = none := rfl
  refine List.splitOn_intercalate dash ?_ (List.cons_ne_nil _ _)
  simp only [List.forall_mem_cons]
  exact ⟨not_mem_hex other _ _, not_mem_hex other _ _, not_mem_hex other _ _,
    not_mem_hexBytes other _, not_mem_hexBytes other _, fun _ inside => nomatch inside⟩

theorem parseGuid_guidText (guid : EfiGuid) : parseGuid (guidText guid) = some guid := by
  have data4 : hexBytes (guid.data4.toList.take 2) ++ hexBytes (guid.data4.toList.drop 2) =
      hexBytes guid.data4.toList := by
    rw [hexBytes, hexBytes, ← List.flatMap_append, List.take_append_drop, hexBytes]
  have low : guid.data1.toNat % 16 ^ 8 = guid.data1.toNat := Nat.mod_eq_of_lt guid.data1.toNat_lt
  have middle : guid.data2.toNat % 16 ^ 4 = guid.data2.toNat := Nat.mod_eq_of_lt guid.data2.toNat_lt
  have high : guid.data3.toNat % 16 ^ 4 = guid.data3.toNat := Nat.mod_eq_of_lt guid.data3.toNat_lt
  rw [parseGuid, splitOn_guidText]
  simp only [length_hex, length_hexBytes, parseHex_hex, data4, parseBytes_hexBytes, low, middle,
    high]
  have clock : (guid.data4.toList.take 2).length = 2 := by simp
  have node : (guid.data4.toList.drop 2).length = 6 := by simp
  have bytes : (Vector.ofFn fun index : Fin 8 => guid.data4.toList.getD index 0) = guid.data4 := by
    apply Vector.ext
    intro index bound
    simp
  rw [clock, node, guard, if_pos (by decide)]
  change some (EfiGuid.mk _ _ _ _) = some guid
  rw [UInt32.ofNat_toNat, UInt16.ofNat_toNat, UInt16.ofNat_toNat, bytes]

example : guidText ⟨0x8c8ce578, 0x8a3d, 0x4f1c, #v[0x99, 0x35, 0x89, 0x61, 0x85, 0xc3, 0x2d, 0xd3]⟩ =
    "8c8ce578-8a3d-4f1c-9935-896185c32dd3".toList.map fun char => UInt8.ofNat char.toNat := by
  decide

/-! ## The fields as they are fetched -/

section Fields

variable (mem : Mem) (guid : Nat)

@[simp] theorem value_readData1 : value mem (readData1 guid) = (guidAt mem guid).data1 := by
  simp [readData1, guidAt]

@[simp] theorem value_readData2 : value mem (readData2 guid) = (guidAt mem guid).data2 := by
  simp [readData2, guidAt]

@[simp] theorem value_readData3 : value mem (readData3 guid) = (guidAt mem guid).data3 := by
  simp [readData3, guidAt]

theorem data4_toList : (guidAt mem guid).data4.toList = bytesAt mem (guid + 8) 8 :=
  rfl

variable {mem guid}

theorem reads_field {α : Type} (convert : Nat → α) {offset count : Nat}
    (inside : offset + count ≤ 16) :
    ∀ target ∈ reads mem (do return convert (← readLe (guid + offset) count)),
      target ∈ window guid 16 := by
  intro target member
  rw [reads_bind, reads_pure, List.append_nil] at member
  obtain ⟨index, bound, rfl⟩ := (mem_reads_readLe mem _ count target).mp member
  exact mem_window.mpr ⟨offset + index, by omega, by rw [Nat.add_assoc]⟩

theorem reads_readData1 : ∀ target ∈ reads mem (readData1 guid), target ∈ window guid 16 :=
  reads_field UInt32.ofNat (show 0 + 4 ≤ 16 by decide)

theorem reads_readData2 : ∀ target ∈ reads mem (readData2 guid), target ∈ window guid 16 :=
  reads_field UInt16.ofNat (show 4 + 2 ≤ 16 by decide)

theorem reads_readData3 : ∀ target ∈ reads mem (readData3 guid), target ∈ window guid 16 :=
  reads_field UInt16.ofNat (show 6 + 2 ≤ 16 by decide)

theorem reads_readData4 (index : UInt8) (bound : index.toNat < 8) :
    ∀ target ∈ reads mem (readData4 guid index), target ∈ window guid 16 := by
  intro target member
  rw [readData4, reads_readByte, List.mem_singleton] at member
  exact mem_window.mpr ⟨8 + index.toNat, by omega, by rw [member, Nat.add_assoc]⟩

end Fields

/-! ## GuidToAsciiStr -/

section Print

variable {mem : Mem} {guid str : Nat}

theorem free_of_apart (apart : Apart guid 16 str sizeofGuidStr) :
    ∀ i < sizeofGuidStr, ¬ bus (str + i) ∈ window guid 16 := by
  intro i bound member
  obtain ⟨j, small, same⟩ := mem_window.mp member
  exact apart j small i bound same.symm

theorem emits_nodeToAscii (apart : Apart guid 16 str sizeofGuidStr) (count : Nat) (few : count ≤ 6) :
    Emits (· ∈ window guid 16) mem str (36 - 2 * count)
      (hexBytes (bytesAt mem (guid + (16 - count)) count))
      (nodeToAscii guid str (UInt8.ofNat (8 - count)) (UInt8.ofNat (36 - 2 * count))) := by
  induction count with
  | zero =>
      rw [nodeToAscii, dif_neg (by decide)]
      exact emits_pure
  | succ count ih =>
      have idx1 : (UInt8.ofNat (8 - (count + 1))).toNat = 8 - (count + 1) := by
        rw [UInt8.toNat_ofNat']
        omega
      have idx2 : (UInt8.ofNat (36 - 2 * (count + 1))).toNat = 36 - 2 * (count + 1) := by
        rw [UInt8.toNat_ofNat']
        omega
      have inside : UInt8.ofNat (36 - 2 * (count + 1)) < guidStrMax := by
        rw [UInt8.lt_iff_toNat_lt, idx2]
        change _ < 36
        omega
      have next1 : UInt8.ofNat (8 - (count + 1)) + 1 = UInt8.ofNat (8 - count) := by
        rw [show 8 - count = 8 - (count + 1) + 1 by omega, UInt8.ofNat_add]
        rfl
      have next2 : UInt8.ofNat (36 - 2 * (count + 1)) + 2 = UInt8.ofNat (36 - 2 * count) := by
        rw [show 36 - 2 * count = 36 - 2 * (count + 1) + 2 by omega, UInt8.ofNat_add]
        rfl
      have byte : value mem (readData4 guid (UInt8.ofNat (8 - (count + 1)))) =
          byteAt mem (guid + (16 - (count + 1))) := by
        rw [readData4, value_readByte, idx1]
        congr 1
        omega
      have later := ih (by omega)
      rw [show 36 - 2 * count = 36 - 2 * (count + 1) + 2 by omega,
        show guid + (16 - count) = guid + (16 - (count + 1)) + 1 by omega] at later
      rw [nodeToAscii, dif_pos inside, next1, next2, idx2, bytesAt, hexBytes_cons]
      refine emits_reading (reads_readData4 _ (by omega)) ?_
      rw [byte]
      have room : 36 - 2 * (count + 1) + 2 ≤ sizeofGuidStr := by
        change _ ≤ 37
        omega
      refine emits_byte_seq (free_of_apart apart) room _ ?_
      rw [show 36 - 2 * count = 36 - 2 * (count + 1) + 2 by omega]
      exact later

theorem guidText_guidAt (mem : Mem) (guid : Nat) :
    guidText (guidAt mem guid) =
      hex 8 (guidAt mem guid).data1.toNat ++ dash :: (hex 4 (guidAt mem guid).data2.toNat ++
        dash :: (hex 4 (guidAt mem guid).data3.toNat ++
          dash :: (hexBytes (bytesAt mem (guid + 8) 2) ++
            dash :: hexBytes (bytesAt mem (guid + 10) 6)))) := by
  rw [guidText, data4_toList]
  simp only [List.intercalate_cons_cons, List.intercalate_singleton, List.append_assoc,
    List.singleton_append]
  rfl

/-- The masks of the fourth group keep the whole byte. -/
theorem hexBytes_clock (mem : Mem) (guid : Nat) :
    hexBytes (bytesAt mem (guid + 8) 2) =
      hex 2 (value mem (readData4 guid 0) &&& 0xff).toNat ++
        hex 2 (value mem (readData4 guid 1) &&& 0xff).toNat := by
  have mask (byte : UInt8) : byte &&& 0xff = byte := UInt8.and_neg_one
  rw [mask, mask]
  exact congrArg (hex 2 _ ++ ·) (List.append_nil _)

theorem emits_guidToAsciiStr (apart : Apart guid 16 str sizeofGuidStr) :
    Emits (· ∈ window guid 16) mem str 0 (guidText (guidAt mem guid) ++ [0])
      (guidToAsciiStr guid str) := by
  have free := free_of_apart apart
  rw [guidText_guidAt, hex_eight, hex_four, hex_four, hexBytes_clock]
  simp only [List.append_assoc, List.cons_append]
  rw [guidToAsciiStr]
  refine emits_reading reads_readData1 (emits_byte_seq free (by decide) _ ?_)
  refine emits_reading reads_readData1 (emits_byte_seq free (by decide) _ ?_)
  refine emits_reading reads_readData1 (emits_byte_seq free (by decide) _ ?_)
  refine emits_reading reads_readData1 (emits_byte_seq free (by decide) _ ?_)
  refine emits_char_seq free (by decide) dash ?_
  refine emits_reading reads_readData2 (emits_byte_seq free (by decide) _ ?_)
  refine emits_reading reads_readData2 (emits_byte_seq free (by decide) _ ?_)
  refine emits_char_seq free (by decide) dash ?_
  refine emits_reading reads_readData3 (emits_byte_seq free (by decide) _ ?_)
  refine emits_reading reads_readData3 (emits_byte_seq free (by decide) _ ?_)
  refine emits_char_seq free (by decide) dash ?_
  refine emits_reading (reads_readData4 0 (by decide)) (emits_byte_seq free (by decide) _ ?_)
  refine emits_reading (reads_readData4 1 (by decide)) (emits_byte_seq free (by decide) _ ?_)
  refine emits_char_seq free (by decide) dash ?_
  refine emits_seq free ?_ (emits_nodeToAscii apart 6 (by decide)) (emits_store 0)
  rw [length_hexBytes, length_bytesAt]
  decide

end Print

/-! ## The text and the comparison -/

def printedGuid (mem : Mem) (guid str : Nat) : List UInt8 :=
  bytesAt (final mem (guidToAsciiStr guid str)) str sizeofGuidStr

/-- A call prints the GUID that is in memory: it fetches from the sixteen bytes of the GUID,
stores once to each byte of the string type and nowhere else, and the string then is the text,
which reads back. -/
structure PrintsGuid (mem : Mem) (guid str : Nat) : Prop where
  fetched : ∀ target ∈ fetches mem (guidToAsciiStr guid str), target ∈ window guid 16
  stored : stores mem (guidToAsciiStr guid str) = window str sizeofGuidStr
  others : ∀ addr, bus addr ∉ window str sizeofGuidStr →
    byteAt (final mem (guidToAsciiStr guid str)) addr = byteAt mem addr
  text : printedGuid mem guid str = guidText (guidAt mem guid) ++ [0]
  parses : parseGuid (cString (printedGuid mem guid str)) = some (guidAt mem guid)

theorem length_guidText (guid : EfiGuid) : (guidText guid).length = 36 := by
  have clock : (guid.data4.toList.take 2).length = 2 := by simp
  have node : (guid.data4.toList.drop 2).length = 6 := by simp
  simp [guidText, clock, node]

theorem cString_guidText (guid : EfiGuid) : cString (guidText guid ++ [0]) = guidText guid := by
  have absent : 0 ∉ guidText guid := by
    have other : digitValue 0 = none := rfl
    simp [guidText, dash, not_mem_hex other, not_mem_hexBytes other]
  have shown : ∀ char ∈ guidText guid, decide (char ≠ 0) = true := by
    intro char member
    refine decide_eq_true fun zero => ?_
    rw [zero] at member
    exact absent member
  rw [cString, List.takeWhile_append_of_pos shown]
  exact List.append_nil _

theorem guidToAsciiStr_prints (mem : Mem) (guid str : Nat)
    (apart : Apart guid 16 str sizeofGuidStr) : PrintsGuid mem guid str := by
  have emits : Emits (· ∈ window guid 16) mem str 0 _ _ := emits_guidToAsciiStr apart
  have agree : AgreeOn (· ∈ window guid 16) mem mem := fun _ _ => rfl
  have size : (guidText (guidAt mem guid) ++ [0]).length = sizeofGuidStr := by
    rw [List.length_append, length_guidText]
    rfl
  have text : printedGuid mem guid str = guidText (guidAt mem guid) ++ [0] := by
    rw [printedGuid, emits.left mem agree, ← size]
    exact bytesAt_storeBytes_self mem str _ (by rw [size]; decide)
  refine ⟨emits.fetched mem agree, ?_, ?_, text, ?_⟩
  · rw [emits.stored mem agree, size]
    rfl
  · intro addr outside
    rw [emits.left mem agree]
    refine byteAt_storeBytes_of_apart _ _ _ _ fun index bound same => ?_
    rw [size] at bound
    exact outside (mem_window.mpr ⟨index, bound, same.symm⟩)
  · rw [text, cString_guidText, parseGuid_guidText]

theorem printedGuid_eq_iff {first second : Mem} {guid str otherGuid otherStr : Nat}
    (left : PrintsGuid first guid str) (right : PrintsGuid second otherGuid otherStr) :
    printedGuid first guid str = printedGuid second otherGuid otherStr ↔
      compareGuids (guidAt first guid) (guidAt second otherGuid) = true := by
  rw [compareGuids_iff]
  constructor
  · intro same
    have parsed := left.parses
    rw [same, right.parses] at parsed
    exact (Option.some.inj parsed).symm
  · intro same
    rw [left.text, right.text, same]

theorem guidToAsciiStr_canonical (mem : Mem) (guid str : Nat)
    (apart : Apart guid 16 str sizeofGuidStr) :
    PrintsGuid mem guid str ∧
      ∀ (other : Mem) (otherGuid otherStr : Nat), Apart otherGuid 16 otherStr sizeofGuidStr →
        (printedGuid mem guid str = printedGuid other otherGuid otherStr ↔
          compareGuids (guidAt mem guid) (guidAt other otherGuid) = true) := by
  have prints := guidToAsciiStr_prints mem guid str apart
  refine ⟨prints, fun other otherGuid otherStr otherApart => ?_⟩
  exact printedGuid_eq_iff prints (guidToAsciiStr_prints other otherGuid otherStr otherApart)

theorem guidToAsciiStr_canonical_counting :
    PrintsGuid (fun addr => UInt8.ofNat addr) 0x1000 0x2000 ∧
      (printedGuid (fun addr => UInt8.ofNat addr) 0x1000 0x2000 =
          printedGuid (fun addr => UInt8.ofNat addr) 0x1010 0x2000 ↔
        compareGuids (guidAt (fun addr => UInt8.ofNat addr) 0x1000)
          (guidAt (fun addr => UInt8.ofNat addr) 0x1010) = true) := by
  have canonical := guidToAsciiStr_canonical (fun addr => UInt8.ofNat addr) 0x1000 0x2000
    (apart_of_below (by decide) (by decide))
  exact ⟨canonical.1, canonical.2 _ 0x1010 0x2000 (apart_of_below (by decide) (by decide))⟩

end ArcFirmware.GuidText
