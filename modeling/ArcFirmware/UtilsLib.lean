import ArcFirmware.Edk2
import Mathlib.Tactic.IntervalCases

/-!
# UtilsLib: the firmware-volume walks

`FindSection`, `GetFileSection`, `GetTeEntryPoint` and `GetAprioriFile` over an
arbitrary memory.  Every loop body is a reader, so the bytes a pass fetches are
part of the model; the `*Step_eq` theorems are what one pass computes, and the
proofs about the walks start from them.
-/

set_option autoImplicit false

namespace ArcFirmware.UtilsLib

open ArcFirmware.Memory ArcFirmware.Reader ArcFirmware.Loop ArcFirmware.Edk2

/-- `Bytes` is a `UINT8` and `~Bytes` an `int` that is sign-extended to 64 bits. -/
def alignAddr (addr bytes : Nat) : Nat :=
  let mask := (bytes + 255) % 256
  u64 (addr + mask) &&& (2 ^ 64 - 1 - mask)

/-! ## GUID comparison -/

/-- `((UINT64 *) Guid)[0]` of the little-endian memory form. -/
def guidWord0 (guid : EfiGuid) : Nat :=
  guid.data1.toNat + 2 ^ 32 * guid.data2.toNat + 2 ^ 48 * guid.data3.toNat

def guidWord1 (guid : EfiGuid) : Nat :=
  guid.data4[0].toNat + 2 ^ 8 * guid.data4[1].toNat + 2 ^ 16 * guid.data4[2].toNat +
    2 ^ 24 * guid.data4[3].toNat + 2 ^ 32 * guid.data4[4].toNat +
    2 ^ 40 * guid.data4[5].toNat + 2 ^ 48 * guid.data4[6].toNat +
    2 ^ 56 * guid.data4[7].toNat

def compareGuids (guid1 guid2 : EfiGuid) : Bool :=
  guidWord0 guid1 == guidWord0 guid2 && guidWord1 guid1 == guidWord1 guid2

theorem guidWord0_inj {guid1 guid2 : EfiGuid} (same : guidWord0 guid1 = guidWord0 guid2) :
    guid1.data1 = guid2.data1 ∧ guid1.data2 = guid2.data2 ∧ guid1.data3 = guid2.data3 := by
  have := guid1.data1.toNat_lt; have := guid2.data1.toNat_lt
  have := guid1.data2.toNat_lt; have := guid2.data2.toNat_lt
  have := guid1.data3.toNat_lt; have := guid2.data3.toNat_lt
  rw [guidWord0, guidWord0] at same
  refine ⟨UInt32.toNat_inj.mp ?_, UInt16.toNat_inj.mp ?_, UInt16.toNat_inj.mp ?_⟩
  · omega
  · omega
  · omega

theorem guidWord1_inj {guid1 guid2 : EfiGuid} (same : guidWord1 guid1 = guidWord1 guid2) :
    guid1.data4 = guid2.data4 := by
  obtain ⟨_, _, _, a⟩ := guid1
  obtain ⟨_, _, _, b⟩ := guid2
  simp only [guidWord1] at same
  change a = b
  have := a[0].toNat_lt; have := b[0].toNat_lt
  have := a[1].toNat_lt; have := b[1].toNat_lt
  have := a[2].toNat_lt; have := b[2].toNat_lt
  have := a[3].toNat_lt; have := b[3].toNat_lt
  have := a[4].toNat_lt; have := b[4].toNat_lt
  have := a[5].toNat_lt; have := b[5].toNat_lt
  have := a[6].toNat_lt; have := b[6].toNat_lt
  have := a[7].toNat_lt; have := b[7].toNat_lt
  apply Vector.ext
  intro index bound
  apply UInt8.toNat_inj.mp
  interval_cases index <;> omega

theorem compareGuids_iff (guid1 guid2 : EfiGuid) :
    compareGuids guid1 guid2 = true ↔ guid1 = guid2 := by
  rw [compareGuids, Bool.and_eq_true, beq_iff_eq, beq_iff_eq]
  constructor
  · rintro ⟨low, high⟩
    obtain ⟨data1, data2, data3⟩ := guidWord0_inj low
    have data4 := guidWord1_inj high
    cases guid1
    cases guid2
    rw [EfiGuid.mk.injEq]
    exact ⟨data1, data2, data3, data4⟩
  · rintro rfl
    exact ⟨rfl, rfl⟩

/-! ## FindSection -/

/-- One pass of the section loop.  The type byte is fetched only for a section
that is long enough and ends inside the searched range. -/
def findSectionBody (type : UInt8) (sectionsEnd addr : Nat) :
    ReadProg (Step Nat (Nat × StatusInfo)) := do
  if addr < sectionsEnd then
    let header := u32 addr
    let size ← readSectionSize header
    if size < sizeofSectionHeader then
      return .done (null, ⟨.volumeCorrupted, 173⟩)
    if u64 (addr + size) > sectionsEnd then
      return .done (null, ⟨.volumeCorrupted, 178⟩)
    if (← readSectionType header) = type then
      return .done (header, ⟨.success, 183⟩)
    return .next (u64 (addr + size))
  else
    return .done (null, ⟨.notFound, 190⟩)

def findSectionStep (mem : Mem) (type : UInt8) (sectionsEnd addr : Nat) :
    Step Nat (Nat × StatusInfo) :=
  value mem (findSectionBody type sectionsEnd addr)

def findSection (mem : Mem) (type : UInt8) (sectionsAddr sectionsEnd fuel : Nat) :
    Option (Nat × StatusInfo) :=
  run (findSectionStep mem type sectionsEnd) fuel (alignAddr sectionsAddr 4)

def FindSectionReturns (mem : Mem) (type : UInt8) (sectionsAddr sectionsEnd : Nat)
    (result : Nat × StatusInfo) : Prop :=
  ∃ fuel, findSection mem type sectionsAddr sectionsEnd fuel = some result

/-! ## GetFileSection -/

/-- The file loop is left with a status, or with the file whose sections are to
be searched. -/
inductive FileExit where
  | fail (info : StatusInfo)
  | found (file eof : Nat)
  deriving DecidableEq, Repr

/-- One pass of the file loop.  The name is fetched once for the debug text and,
when a name was asked for, once more for the comparison; `&&` fetches the type
only for a file whose name is right. -/
def getFileSectionBody (type : UInt8) (name : Option EfiGuid) (eov addr : Nat) :
    ReadProg (Step Nat FileExit) := do
  if addr < eov then
    let file := u32 addr
    let eof := u64 (addr + (← readFileSize file))
    let _ ← readFileName file
    if eof > eov then
      return .done (.fail ⟨.volumeCorrupted, 224⟩)
    let fileNameOk ← match name with
      | none => pure true
      | some wanted => do pure (compareGuids wanted (← readFileName file))
    if fileNameOk then
      if (← readFileType file) = type then
        return .done (.found file eof)
    return .next (alignAddr eof 8)
  else
    return .done (.fail ⟨.notFound, 241⟩)

def getFileSectionStep (mem : Mem) (type : UInt8) (name : Option EfiGuid) (eov addr : Nat) :
    Step Nat FileExit :=
  value mem (getFileSectionBody type name eov addr)

def endOfVolume (mem : Mem) (fvBase : Nat) : Nat := u64 (fvBase + fvLength mem fvBase)

def firstFile (mem : Mem) (fvBase : Nat) : Nat :=
  alignAddr (u64 (fvBase + fvHeaderLength mem fvBase)) 8

def getFileSection (mem : Mem) (fvBase : Nat) (sectionType fileType : UInt8)
    (fileName : Option EfiGuid) (fuel : Nat) : Option (Nat × StatusInfo) :=
  match run (getFileSectionStep mem fileType fileName (endOfVolume mem fvBase)) fuel
      (firstFile mem fvBase) with
  | none => none
  | some (.fail info) => some (null, info)
  | some (.found file eof) =>
      findSection mem sectionType (u32 (file + sizeofFileHeader)) eof fuel

def GetFileSectionReturns (mem : Mem) (fvBase : Nat) (sectionType fileType : UInt8)
    (fileName : Option EfiGuid) (result : Nat × StatusInfo) : Prop :=
  ∃ fuel, getFileSection mem fvBase sectionType fileType fileName fuel = some result

/-! ## Entry points and the apriori file -/

def sizeofTeHeader : Nat := 40

def teStrippedSize (mem : Mem) (header : Nat) : Nat := leAt mem (header + 6) 2

def teAddressOfEntryPoint (mem : Mem) (header : Nat) : Nat := leAt mem (header + 8) 4

/-- The pointer arithmetic on a section that was found; `+` binds tighter than
`&`, so the mask is on the sum. -/
def teEntryPoint (mem : Mem) (ptr : Nat) : Nat :=
  let teHdr := u32 (ptr + sizeofSectionHeader)
  let ptr := u32 (teHdr + 2 ^ 32 - teStrippedSize mem teHdr)
  u32 (ptr + u32 (sizeofTeHeader + teAddressOfEntryPoint mem teHdr))

def getTeEntryPoint (mem : Mem) (fvBase : Nat) (fileType : UInt8)
    (fileName : Option EfiGuid) (fuel : Nat) : Option (Nat × StatusInfo) :=
  match getFileSection mem fvBase efiSectionTe fileType fileName fuel with
  | none => none
  | some (ptr, info) =>
      if ptr = null then some (null, info) else some (teEntryPoint mem ptr, info)

def GetTeEntryPointReturns (mem : Mem) (fvBase : Nat) (fileType : UInt8)
    (fileName : Option EfiGuid) (result : Nat × StatusInfo) : Prop :=
  ∃ fuel, getTeEntryPoint mem fvBase fileType fileName fuel = some result

theorem getTeEntryPointReturns_iff (mem : Mem) (fvBase : Nat) (fileType : UInt8)
    (fileName : Option EfiGuid) (entry : Nat) (info : StatusInfo) :
    GetTeEntryPointReturns mem fvBase fileType fileName (entry, info) ↔
      ∃ ptr, GetFileSectionReturns mem fvBase efiSectionTe fileType fileName (ptr, info) ∧
        entry = if ptr = null then null else teEntryPoint mem ptr := by
  unfold GetTeEntryPointReturns GetFileSectionReturns getTeEntryPoint
  constructor
  · intro success
    obtain ⟨fuel, success⟩ := success
    cases found : getFileSection mem fvBase efiSectionTe fileType fileName fuel with
    | none => simp [found] at success
    | some result =>
        obtain ⟨ptr, status⟩ := result
        by_cases missing : ptr = null
        · simp only [found, if_pos missing, Option.some.injEq, Prod.mk.injEq] at success
          obtain ⟨rfl, rfl⟩ := success
          exact ⟨ptr, ⟨fuel, found⟩, by rw [if_pos missing]⟩
        · simp only [found, if_neg missing, Option.some.injEq, Prod.mk.injEq] at success
          obtain ⟨rfl, rfl⟩ := success
          exact ⟨ptr, ⟨fuel, found⟩, by rw [if_neg missing]⟩
  · intro success
    obtain ⟨ptr, ⟨fuel, found⟩, rfl⟩ := success
    refine ⟨fuel, ?_⟩
    by_cases missing : ptr = null
    · simp only [found, if_pos missing]
    · simp only [found, if_neg missing]

def aprioriFileName : EfiGuid :=
  ⟨0x1b45cc0a, 0x156a, 0x428a, #v[0xaf, 0x62, 0x49, 0x86, 0x4d, 0xa0, 0xe6, 0xe6]⟩

def getAprioriFile (mem : Mem) (fvBase fuel : Nat) : Option (Nat × StatusInfo) :=
  match getFileSection mem fvBase efiSectionRaw efiFvFiletypeFreeform (some aprioriFileName)
      fuel with
  | none => none
  | some (ptr, info) =>
      if ptr = null then some (null, info) else some (u32 (ptr + sizeofSectionHeader), info)

/-! ## What one pass computes -/

theorem and_high_mask (value bits : Nat) (small : value < 2 ^ 64) (low : bits ≤ 64) :
    value &&& (2 ^ 64 - 2 ^ bits) = value / 2 ^ bits * 2 ^ bits := by
  have mask : 2 ^ 64 - 2 ^ bits = 2 ^ bits * (2 ^ (64 - bits) - 1) := by
    rw [Nat.mul_sub, ← pow_add, Nat.add_sub_cancel' low, Nat.mul_one]
  apply Nat.eq_of_testBit_eq
  intro index
  rw [mask, Nat.testBit_and, Nat.testBit_two_pow_mul, Nat.testBit_two_pow_sub_one,
    Nat.mul_comm, Nat.testBit_two_pow_mul, Nat.testBit_div_two_pow]
  by_cases shifted : bits ≤ index
  · by_cases inside : index < 64
    · have tail : index - bits < 64 - bits := by omega
      simp [shifted, tail]
    · have above : value.testBit index = false :=
        Nat.testBit_lt_two_pow (lt_of_lt_of_le small (Nat.pow_le_pow_right (by norm_num) (by omega)))
      simp [above, shifted]
  · simp [shifted]

theorem alignAddr_four (addr : Nat) (small : addr + 3 < 2 ^ 64) :
    alignAddr addr 4 = (addr + 3) / 4 * 4 := by
  have masked := and_high_mask (addr + 3) 2 small (by omega)
  have kept : u64 (addr + 3) = addr + 3 := Nat.mod_eq_of_lt small
  simpa [alignAddr, kept] using masked

theorem alignAddr_eight (addr : Nat) (small : addr + 7 < 2 ^ 64) :
    alignAddr addr 8 = (addr + 7) / 8 * 8 := by
  have masked := and_high_mask (addr + 7) 3 small (by omega)
  have kept : u64 (addr + 7) = addr + 7 := Nat.mod_eq_of_lt small
  simpa [alignAddr, kept] using masked

@[simp] theorem sectionSize_u32 (mem : Mem) (addr : Nat) :
    sectionSize mem (u32 addr) = sectionSize mem addr := leAt_bus mem addr 3

@[simp] theorem sectionType_u32 (mem : Mem) (addr : Nat) :
    sectionType mem (u32 addr) = sectionType mem addr := byteAt_bus_add mem addr 3

@[simp] theorem fileSize_u32 (mem : Mem) (addr : Nat) :
    fileSize mem (u32 addr) = fileSize mem addr := leAt_bus_add mem addr 20 3

@[simp] theorem fileType_u32 (mem : Mem) (addr : Nat) :
    fileType mem (u32 addr) = fileType mem addr := byteAt_bus_add mem addr 18

@[simp] theorem fileName_u32 (mem : Mem) (addr : Nat) :
    fileName mem (u32 addr) = fileName mem addr := by
  have shift (offset count : Nat) : leAt mem (u32 addr + offset) count =
      leAt mem (addr + offset) count := leAt_bus_add mem addr offset count
  have byte (offset : Nat) : byteAt mem (u32 addr + offset) = byteAt mem (addr + offset) :=
    byteAt_bus_add mem addr offset
  have first : leAt mem (u32 addr) 4 = leAt mem addr 4 := shift 0 4
  simp only [fileName, guidAt, first, shift, Nat.add_assoc, byte]

theorem sectionSize_lt (mem : Mem) (addr : Nat) : sectionSize mem addr < 2 ^ 24 :=
  leAt_lt mem addr 3

theorem fileSize_lt (mem : Mem) (addr : Nat) : fileSize mem addr < 2 ^ 24 :=
  leAt_lt mem (addr + 20) 3

theorem findSectionStep_eq (mem : Mem) (type : UInt8) (sectionsEnd addr : Nat) :
    findSectionStep mem type sectionsEnd addr =
      if addr < sectionsEnd then
        if sectionSize mem addr < 4 then .done (null, ⟨.volumeCorrupted, 173⟩)
        else if sectionsEnd < u64 (addr + sectionSize mem addr) then
          .done (null, ⟨.volumeCorrupted, 178⟩)
        else if sectionType mem addr = type then .done (u32 addr, ⟨.success, 183⟩)
        else .next (u64 (addr + sectionSize mem addr))
      else .done (null, ⟨.notFound, 190⟩) := by
  simp [findSectionStep, findSectionBody, sizeofSectionHeader]

theorem findSectionStep_cases (mem : Mem) (type : UInt8) (addr : Nat) {sectionsEnd : Nat}
    (below : sectionsEnd ≤ 2 ^ 32) :
    (sectionsEnd ≤ addr ∧
      findSectionStep mem type sectionsEnd addr = .done (null, ⟨.notFound, 190⟩)) ∨
    ((sectionSize mem addr < 4 ∨ sectionsEnd < addr + sectionSize mem addr) ∧ ∃ line,
      findSectionStep mem type sectionsEnd addr = .done (null, ⟨.volumeCorrupted, line⟩)) ∨
    (addr < sectionsEnd ∧ 4 ≤ sectionSize mem addr ∧ addr + sectionSize mem addr ≤ sectionsEnd ∧
      sectionType mem addr = type ∧
      findSectionStep mem type sectionsEnd addr = .done (addr, ⟨.success, 183⟩)) ∨
    (addr < sectionsEnd ∧ 4 ≤ sectionSize mem addr ∧ addr + sectionSize mem addr ≤ sectionsEnd ∧
      sectionType mem addr ≠ type ∧
      findSectionStep mem type sectionsEnd addr = .next (addr + sectionSize mem addr)) := by
  have small := sectionSize_lt mem addr
  rw [findSectionStep_eq]
  by_cases inside : addr < sectionsEnd
  · have kept : u64 (addr + sectionSize mem addr) = addr + sectionSize mem addr :=
      Nat.mod_eq_of_lt (by omega)
    have pointer : u32 addr = addr := Nat.mod_eq_of_lt (by omega)
    rw [if_pos inside, kept, pointer]
    by_cases short : sectionSize mem addr < 4
    · exact Or.inr (Or.inl ⟨Or.inl short, 173, if_pos short⟩)
    rw [if_neg short]
    by_cases long : sectionsEnd < addr + sectionSize mem addr
    · exact Or.inr (Or.inl ⟨Or.inr long, 178, if_pos long⟩)
    rw [if_neg long]
    have large := Nat.not_lt.mp short
    have fits := Nat.not_lt.mp long
    by_cases found : sectionType mem addr = type
    · exact Or.inr (Or.inr (Or.inl ⟨inside, large, fits, found, if_pos found⟩))
    · exact Or.inr (Or.inr (Or.inr ⟨inside, large, fits, found, if_neg found⟩))
  · exact Or.inl ⟨Nat.not_lt.mp inside, if_neg inside⟩

/-- The files a lookup selects: type and, when one is asked for, name. -/
def Selects (mem : Mem) (type : UInt8) (name : Option EfiGuid) (addr : Nat) : Prop :=
  (∀ wanted, name = some wanted → fileName mem addr = wanted) ∧ fileType mem addr = type

instance (mem : Mem) (type : UInt8) (name : Option EfiGuid) (addr : Nat) :
    Decidable (Selects mem type name addr) := by
  unfold Selects
  cases name with
  | none => exact decidable_of_iff (fileType mem addr = type) (by simp)
  | some wanted =>
      exact decidable_of_iff (fileName mem addr = wanted ∧ fileType mem addr = type)
        (by simp)

theorem Selects.unnamed {mem : Mem} {type : UInt8} {name : Option EfiGuid} {addr : Nat}
    (selected : Selects mem type name addr) : Selects mem type none addr := by
  refine ⟨?_, selected.2⟩
  intro wanted absent
  cases absent

theorem getFileSectionStep_eq (mem : Mem) (type : UInt8) (name : Option EfiGuid)
    (eov addr : Nat) :
    getFileSectionStep mem type name eov addr =
      if addr < eov then
        if eov < u64 (addr + fileSize mem addr) then .done (.fail ⟨.volumeCorrupted, 224⟩)
        else if Selects mem type name addr then
          .done (.found (u32 addr) (u64 (addr + fileSize mem addr)))
        else .next (alignAddr (u64 (addr + fileSize mem addr)) 8)
      else .done (.fail ⟨.notFound, 241⟩) := by
  cases name with
  | none => simp [getFileSectionStep, getFileSectionBody, Selects]
  | some wanted =>
      by_cases named : fileName mem addr = wanted
      · simp [getFileSectionStep, getFileSectionBody, Selects, compareGuids_iff, named]
      · simp [getFileSectionStep, getFileSectionBody, Selects, compareGuids_iff, named,
          Ne.symm named]

end ArcFirmware.UtilsLib
