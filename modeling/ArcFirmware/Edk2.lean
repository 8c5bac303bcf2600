import ArcFirmware.Lib.Reader

/-!
# The edk2 declarations the platform is written against

Integer widths, status codes, the in-memory layout of the firmware-volume
structures and the few constants of the PI specification that the ARC sources
name.  Structure fields are read at the byte offsets of the packed little-endian
headers; a `VOID *` is a 32-bit address and `NULL` is zero.
-/

set_option autoImplicit false

namespace ArcFirmware.Edk2

open ArcFirmware.Memory ArcFirmware.Reader

/-- `UINTN`, `UINT32` and pointer arithmetic on ARC. -/
def u32 (value : Nat) : Nat := value % 2 ^ 32

/-- `UINT64` and `EFI_PHYSICAL_ADDRESS` arithmetic. -/
def u64 (value : Nat) : Nat := value % 2 ^ 64

def null : Nat := 0

/-- The `EFI_STATUS` values that the modelled functions return. -/
inductive EfiStatus where
  | success
  | loadError
  | invalidParameter
  | unsupported
  | volumeCorrupted
  | notFound
  deriving DecidableEq, Repr

/-- `STATUS_INFO`: a status and the source line that set it. -/
structure StatusInfo where
  status : EfiStatus
  line : Nat
  deriving DecidableEq, Repr

structure EfiGuid where
  data1 : UInt32
  data2 : UInt16
  data3 : UInt16
  data4 : Vector UInt8 8
  deriving DecidableEq, Repr

/-! ## Section types, file types and sizes -/

def efiSectionPe32 : UInt8 := 0x10
def efiSectionTe : UInt8 := 0x12
def efiSectionFreeformSubtypeGuid : UInt8 := 0x18
def efiSectionRaw : UInt8 := 0x19

def efiFvFiletypeFreeform : UInt8 := 0x02
def efiFvFiletypePeiCore : UInt8 := 0x04
def efiFvFiletypeDxeCore : UInt8 := 0x05
def efiFvFiletypePeim : UInt8 := 0x06

def sizeofSectionHeader : Nat := 4

def sizeofFileHeader : Nat := 24

/-! ## Header fields as memory words -/

/-- `SECTION_SIZE`: the 24-bit size field. -/
def sectionSize (mem : Mem) (header : Nat) : Nat := leAt mem header 3

def sectionType (mem : Mem) (header : Nat) : UInt8 := byteAt mem (header + 3)

def guidAt (mem : Mem) (addr : Nat) : EfiGuid where
  data1 := UInt32.ofNat (leAt mem addr 4)
  data2 := UInt16.ofNat (leAt mem (addr + 4) 2)
  data3 := UInt16.ofNat (leAt mem (addr + 6) 2)
  data4 := Vector.ofFn fun index => byteAt mem (addr + 8 + index)

theorem guidAt_congr {left right : Mem} {first second : Nat}
    (same : ∀ i < 16, byteAt left (first + i) = byteAt right (second + i)) :
    guidAt left first = guidAt right second := by
  have word (offset count : Nat) (room : offset + count ≤ 16) :
      leAt left (first + offset) count = leAt right (second + offset) count := by
    apply leAt_congr
    intro i bound
    rw [Nat.add_assoc, Nat.add_assoc]
    exact same (offset + i) (by omega)
  have data1 : leAt left first 4 = leAt right second 4 := word 0 4 (by omega)
  have data4 : (Vector.ofFn fun index : Fin 8 => byteAt left (first + 8 + index)) =
      Vector.ofFn fun index : Fin 8 => byteAt right (second + 8 + index) := by
    congr 1
    funext index
    rw [Nat.add_assoc, Nat.add_assoc]
    exact same (8 + index) (by omega)
  rw [guidAt, guidAt, data1, word 4 2 (by omega), word 6 2 (by omega), data4]

theorem byteAt_eq_of_guidAt_eq {left right : Mem} {first second : Nat}
    (same : guidAt left first = guidAt right second) :
    ∀ i < 16, byteAt left (first + i) = byteAt right (second + i) := by
  rw [guidAt, guidAt, EfiGuid.mk.injEq] at same
  obtain ⟨data1, data2, data3, data4⟩ := same
  have word (offset count : Nat) (equal : leAt left (first + offset) count =
      leAt right (second + offset) count) (i : Nat) (low : offset ≤ i) (high : i < offset + count) :
      byteAt left (first + i) = byteAt right (second + i) := by
    have bytes := byteAt_eq_of_leAt_eq left right _ _ count equal (i - offset) (by omega)
    rwa [Nat.add_assoc, Nat.add_assoc, Nat.add_sub_cancel' low] at bytes
  have half (left right : Nat) (leftLt : left < 2 ^ 16) (rightLt : right < 2 ^ 16)
      (equal : UInt16.ofNat left = UInt16.ofNat right) : left = right := by
    have values := congrArg UInt16.toNat equal
    rwa [UInt16.toNat_ofNat_of_lt' leftLt, UInt16.toNat_ofNat_of_lt' rightLt] at values
  have full (left right : Nat) (leftLt : left < 2 ^ 32) (rightLt : right < 2 ^ 32)
      (equal : UInt32.ofNat left = UInt32.ofNat right) : left = right := by
    have values := congrArg UInt32.toNat equal
    rwa [UInt32.toNat_ofNat_of_lt' leftLt, UInt32.toNat_ofNat_of_lt' rightLt] at values
  intro i bound
  rcases Nat.lt_or_ge i 4 with low | low
  · exact word 0 4 (full _ _ (leAt_lt left _ 4) (leAt_lt right _ 4) data1) i (by omega) (by omega)
  rcases Nat.lt_or_ge i 6 with mid | mid
  · exact word 4 2 (half _ _ (leAt_lt left _ 2) (leAt_lt right _ 2) data2) i low (by omega)
  rcases Nat.lt_or_ge i 8 with high | high
  · exact word 6 2 (half _ _ (leAt_lt left _ 2) (leAt_lt right _ 2) data3) i mid (by omega)
  · have tail : i - 8 < 8 := by omega
    have byte := congrArg (fun bytes => bytes[i - 8]) data4
    simp only [Vector.getElem_ofFn] at byte
    rwa [Nat.add_assoc, Nat.add_assoc, Nat.add_sub_cancel' high] at byte

def fileName (mem : Mem) (header : Nat) : EfiGuid := guidAt mem header

def fileType (mem : Mem) (header : Nat) : UInt8 := byteAt mem (header + 18)

/-- `FFS_FILE_SIZE`: the 24-bit size field. -/
def fileSize (mem : Mem) (header : Nat) : Nat := leAt mem (header + 20) 3

def fvLength (mem : Mem) (volume : Nat) : Nat := leAt mem (volume + 32) 8

def fvHeaderLength (mem : Mem) (volume : Nat) : Nat := leAt mem (volume + 48) 2

/-! ## The same fields as the code fetches them -/

def readSectionSize (header : Nat) : ReadProg Nat := readLe header 3

def readSectionType (header : Nat) : ReadProg UInt8 := readByte (header + 3)

def readGuid (addr : Nat) : ReadProg EfiGuid := do
  let data1 ← readLe addr 4
  let data2 ← readLe (addr + 4) 2
  let data3 ← readLe (addr + 6) 2
  let data4 ← readBytes (addr + 8) 8
  pure ⟨UInt32.ofNat data1, UInt16.ofNat data2, UInt16.ofNat data3,
    Vector.ofFn fun index => data4.getD index 0⟩

def readFileName (header : Nat) : ReadProg EfiGuid := readGuid header

def readFileType (header : Nat) : ReadProg UInt8 := readByte (header + 18)

def readFileSize (header : Nat) : ReadProg Nat := readLe (header + 20) 3

@[simp] theorem value_readSectionSize (mem : Mem) (header : Nat) :
    value mem (readSectionSize header) = sectionSize mem header :=
  value_readLe mem header 3

@[simp] theorem value_readSectionType (mem : Mem) (header : Nat) :
    value mem (readSectionType header) = sectionType mem header := rfl

@[simp] theorem value_readGuid (mem : Mem) (addr : Nat) :
    value mem (readGuid addr) = guidAt mem addr := by
  simp only [readGuid, value_bind, value_pure, value_readLe, value_readBytes, guidAt,
    EfiGuid.mk.injEq, true_and]
  apply Vector.ext
  intro index bound
  simp only [Vector.getElem_ofFn]
  exact bytesAt_getD mem (addr + 8) 8 index bound

theorem mem_reads_readGuid (mem : Mem) (addr target : Nat) :
    target ∈ reads mem (readGuid addr) ↔ ∃ i < 16, target = bus (addr + i) := by
  simp only [readGuid, reads_bind, reads_pure, List.append_nil, List.mem_append,
    mem_reads_readLe, mem_reads_readBytes]
  constructor
  · rintro (⟨i, bound, rfl⟩ | ⟨i, bound, rfl⟩ | ⟨i, bound, rfl⟩ | ⟨i, bound, rfl⟩)
    · exact ⟨i, by omega, rfl⟩
    · exact ⟨4 + i, by omega, by rw [Nat.add_assoc]⟩
    · exact ⟨6 + i, by omega, by rw [Nat.add_assoc]⟩
    · exact ⟨8 + i, by omega, by rw [Nat.add_assoc]⟩
  · rintro ⟨i, bound, rfl⟩
    rcases Nat.lt_or_ge i 4 with low | low
    · exact Or.inl ⟨i, low, rfl⟩
    rcases Nat.lt_or_ge i 6 with mid | mid
    · exact Or.inr (Or.inl ⟨i - 4, by omega, by congr 1; omega⟩)
    rcases Nat.lt_or_ge i 8 with high | high
    · exact Or.inr (Or.inr (Or.inl ⟨i - 6, by omega, by congr 1; omega⟩))
    · exact Or.inr (Or.inr (Or.inr ⟨i - 8, by omega, by congr 1; omega⟩))

@[simp] theorem value_readFileName (mem : Mem) (header : Nat) :
    value mem (readFileName header) = fileName mem header :=
  value_readGuid mem header

@[simp] theorem value_readFileType (mem : Mem) (header : Nat) :
    value mem (readFileType header) = fileType mem header := rfl

@[simp] theorem value_readFileSize (mem : Mem) (header : Nat) :
    value mem (readFileSize header) = fileSize mem header :=
  value_readLe mem (header + 20) 3

end ArcFirmware.Edk2
