import ArcFirmware.FileLookup

/-!
# What the file information describes

`PeiFfsGetFileInfo` on a handle that the walk has returned.  The large-file test
reads whatever the local pointer held, and the buffer size is a subtraction in
32 bits that nothing compares with the header size.
-/

set_option autoImplicit false

namespace ArcFirmware.FileInfo

open ArcFirmware.Memory ArcFirmware.Loop ArcFirmware.Edk2 ArcFirmware.UtilsLib
  ArcFirmware.PeiServices ArcFirmware.FileChain ArcFirmware.FileLookup

/-- `[Buffer, Buffer + BufferSize)` is what follows the header of the file, and is
inside the volume. -/
structure BufferOf (mem : Mem) (base handle : Nat) (info : FvFileInfo) : Prop where
  start : info.buffer = handle + sizeofFileHeader
  finish : info.buffer + info.bufferSize = handle + fileSize mem handle
  low : base ≤ info.buffer
  high : info.buffer + info.bufferSize ≤ base + fvLength mem base

structure DescribesFile (mem : Mem) (base handle : Nat)
    (result : EfiStatus × Option FvFileInfo) : Prop where
  unsupported : result.1 = .unsupported ↔ isFfsFile2 mem handle = true
  described : isFfsFile2 mem handle = false → ∃ info, result = (.success, some info) ∧
    info.fileName = fileName mem handle ∧ info.fileType = fileType mem handle ∧
    info.fileAttributes = (fileAttributes mem handle).toNat ∧ BufferOf mem base handle info

section Handle

variable {mem : Mem} {base stackAddr handle : Nat} {type : UInt8}

theorem exit_of_step {eov addr : Nat} {name : Option EfiGuid} {leaving : FileExit}
    (left : getFileSectionStep mem type name eov addr = .done leaving) :
    (∃ info, leaving = .fail info ∧ info.status ≠ .success) ∨
      (addr < eov ∧ u64 (addr + fileSize mem addr) ≤ eov ∧
        leaving = .found (u32 addr) (u64 (addr + fileSize mem addr))) := by
  rw [getFileSectionStep_eq] at left
  by_cases inside : addr < eov
  · rw [if_pos inside] at left
    by_cases long : eov < u64 (addr + fileSize mem addr)
    · rw [if_pos long] at left
      cases left
      exact .inl ⟨_, rfl, by simp⟩
    · rw [if_neg long] at left
      by_cases selected : Selects mem type name addr
      · rw [if_pos selected] at left
        cases left
        exact .inr ⟨inside, Nat.not_lt.mp long, rfl⟩
      · rw [if_neg selected] at left
        cases left
  · rw [if_neg inside] at left
    cases left
    exact .inl ⟨_, rfl, by simp⟩

/-- A handle is a pointer to a file that ends no later than the volume does, also
when the volume runs past the end of the 32-bit address space. -/
theorem handle_bounds (volume : base ≠ null)
    (returned : FindNextFileReturns mem stackAddr type base null .success handle) :
    handle < 2 ^ 32 ∧ handle + fileSize mem handle ≤ base + fvLength mem base := by
  obtain ⟨leaving, ends, status, after⟩ :=
    (findNextFileReturns_first_iff _ _ _ _ _ _ volume).mp returned
  obtain ⟨addr, _, left⟩ := ends.exit
  rcases exit_of_step left with ⟨info, rfl, failed⟩ | ⟨inside, fits, rfl⟩
  · exact absurd status failed
  · change u32 addr = handle at after
    subst after
    have small := fileSize_lt mem addr
    have sum : endOfVolume mem base ≤ base + fvLength mem base := Nat.mod_le _ _
    have pointer : u32 addr < 2 ^ 32 := Nat.mod_lt _ (by norm_num)
    have lower : u32 addr ≤ addr := Nat.mod_le _ _
    have total : u64 (addr + fileSize mem addr) = (addr + fileSize mem addr) % 2 ^ 64 := rfl
    have volumeLt : endOfVolume mem base < 2 ^ 64 := Nat.mod_lt _ (by norm_num)
    refine ⟨pointer, ?_⟩
    rw [fileSize_u32]
    omega

theorem bufferOf_iff (pointer : handle < 2 ^ 32)
    (ends : handle + fileSize mem handle ≤ base + fvLength mem base) :
    BufferOf mem base handle (fileInfoOf mem handle) ↔
      sizeofFileHeader ≤ fileSize mem handle ∧ base ≤ handle + sizeofFileHeader ∧
        handle + sizeofFileHeader < 2 ^ 32 := by
  have small := fileSize_lt mem handle
  have header : sizeofFileHeader = 24 := rfl
  have buffer : (fileInfoOf mem handle).buffer = (handle + 24) % 2 ^ 32 := rfl
  have bufferSize : (fileInfoOf mem handle).bufferSize =
      (fileSize mem handle + 2 ^ 32 - 24) % 2 ^ 32 := rfl
  rw [header]
  constructor
  · intro right
    obtain ⟨start, finish, low, _⟩ := right
    rw [header] at start
    refine ⟨?_, by omega, by omega⟩
    by_contra short
    omega
  · intro fits
    obtain ⟨large, low, below⟩ := fits
    refine ⟨?_, by omega, by omega, by omega⟩
    rw [header]
    omega

/-- In a volume below `2 ^ 32` a handle does not wrap and is not `NULL`, and of its
size it only matters whether the header fits. -/
theorem handle_of_below (volume : base ≠ null) (below : base + fvLength mem base < 2 ^ 32)
    (returned : FindNextFileReturns mem stackAddr type base null .success handle) :
    handle ≠ null ∧ (sizeofFileHeader ≤ fileSize mem handle ↔
      sizeofFileHeader ≤ fileSize mem handle ∧ base ≤ handle + sizeofFileHeader ∧
        handle + sizeofFileHeader < 2 ^ 32) := by
  obtain ⟨_, ends⟩ := handle_bounds volume returned
  obtain ⟨leaving, found, status, after⟩ :=
    (findNextFileReturns_first_iff _ _ _ _ _ _ volume).mp returned
  cases leaving with
  | fail info => exact absurd status (fail_status below found)
  | found file eof =>
      change file = handle at after
      subst after
      obtain ⟨index, _, rfl, _⟩ := firstMatch_of_found below found
      have low := base_le_chainFile mem base index
      refine ⟨?_, fun large => ⟨large, by omega, by omega⟩, fun fits => fits.1⟩
      unfold null at volume ⊢
      omega

end Handle

/-- When the answer is about the file of the handle. -/
theorem describesFile_iff (mem : Mem) (base stackAddr stackFile handle : Nat) (type : UInt8)
    (volume : base ≠ null)
    (returned : FindNextFileReturns mem stackAddr type base null .success handle) :
    DescribesFile mem base handle (peiFfsGetFileInfo mem stackFile handle true) ↔
      handle ≠ null ∧ isFfsFile2 mem stackFile = isFfsFile2 mem handle ∧
        (isFfsFile2 mem handle = false →
          sizeofFileHeader ≤ fileSize mem handle ∧ base ≤ handle + sizeofFileHeader ∧
            handle + sizeofFileHeader < 2 ^ 32) := by
  obtain ⟨pointer, ends⟩ := handle_bounds volume returned
  rw [← bufferOf_iff pointer ends]
  unfold peiFfsGetFileInfo
  by_cases given : handle = null
  · rw [if_pos (Or.inl given)]
    refine iff_of_false ?_ fun right => right.1 given
    intro right
    cases large : isFfsFile2 mem handle with
    | true => cases right.unsupported.mpr large
    | false =>
        obtain ⟨info, same, _⟩ := right.described large
        cases same
  rw [if_neg (by simp [given])]
  cases tested : isFfsFile2 mem stackFile with
  | true =>
      rw [if_pos rfl]
      constructor
      · intro right
        have large := right.unsupported.mp rfl
        refine ⟨given, large.symm, ?_⟩
        intro small
        cases large.symm.trans small
      · intro condition
        obtain ⟨_, large, _⟩ := condition
        refine ⟨iff_of_true rfl large.symm, ?_⟩
        intro small
        cases large.trans small
  | false =>
      rw [if_neg Bool.false_ne_true]
      constructor
      · intro right
        cases large : isFfsFile2 mem handle with
        | true => cases right.unsupported.mpr large
        | false =>
            obtain ⟨info, same, _, _, _, inside⟩ := right.described large
            cases same
            exact ⟨given, rfl, fun _ => inside⟩
      · intro condition
        obtain ⟨_, small, inside⟩ := condition
        refine ⟨?_, fun _ => ⟨_, rfl, rfl, rfl, rfl, inside small.symm⟩⟩
        rw [← small]
        simp

theorem describesFile_iff_twoPeims :
    DescribesFile twoPeims 0x1000 0x1048 (peiFfsGetFileInfo twoPeims 0x1000 0x1048 true) ↔
      0x1048 ≠ null ∧ isFfsFile2 twoPeims 0x1000 = isFfsFile2 twoPeims 0x1048 ∧
        (isFfsFile2 twoPeims 0x1048 = false →
          sizeofFileHeader ≤ fileSize twoPeims 0x1048 ∧ 0x1000 ≤ 0x1048 + sizeofFileHeader ∧
            0x1048 + sizeofFileHeader < 2 ^ 32) :=
  describesFile_iff twoPeims 0x1000 0 0x1000 0x1048 efiFvFiletypePeim (by decide)
    ⟨9, by decide +kernel⟩

/-- Over a stack that holds `0x1035` a small file is taken for a large one; a file
of size zero gets a buffer of almost four gigabytes. -/
theorem fileInfo_of_stack_and_wrap :
    FindNextFileReturns twoPeims 0 efiFvFiletypePeim 0x1000 null .success 0x1048 ∧
      isFfsFile2 twoPeims 0x1048 = false ∧
      peiFfsGetFileInfo twoPeims 0x1035 0x1048 true = (.unsupported, none) ∧
      ¬ DescribesFile twoPeims 0x1000 0x1048 (peiFfsGetFileInfo twoPeims 0x1035 0x1048 true) ∧
      FindNextFileReturns zeroVolume 0 0 0x1000 null .success 0x1048 ∧
      (∃ info, peiFfsGetFileInfo zeroVolume 0x1000 0x1048 true = (.success, some info) ∧
        info.buffer = 0x1060 ∧ info.bufferSize = 0xffffffe8) ∧
      ¬ DescribesFile zeroVolume 0x1000 0x1048
        (peiFfsGetFileInfo zeroVolume 0x1000 0x1048 true) := by
  have small : isFfsFile2 twoPeims 0x1048 = false := by decide +kernel
  have refused : peiFfsGetFileInfo twoPeims 0x1035 0x1048 true = (.unsupported, none) := by
    decide +kernel
  have empty : isFfsFile2 zeroVolume 0x1048 = false := by decide +kernel
  have wrapped : peiFfsGetFileInfo zeroVolume 0x1000 0x1048 true =
      (.success, some (fileInfoOf zeroVolume 0x1048)) := by decide +kernel
  refine ⟨⟨9, by decide +kernel⟩, small, refused, ?_, ⟨9, by decide +kernel⟩,
    ⟨_, wrapped, by decide +kernel, by decide +kernel⟩, ?_⟩
  · intro right
    rw [refused] at right
    obtain ⟨info, same, _⟩ := right.described small
    cases same
  · intro right
    rw [wrapped] at right
    obtain ⟨info, same, _, _, _, inside⟩ := right.described empty
    cases same
    have finish := inside.finish
    revert finish
    decide +kernel

end ArcFirmware.FileInfo
