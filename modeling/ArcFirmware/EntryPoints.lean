import ArcFirmware.BootDecision
import ArcFirmware.DxeIpl
import ArcFirmware.PeiCoreMain

/-!
# Entry addresses and their images

The boot chain computes an entry address from the fields of an image header and
checks neither against the section.  What the fields must satisfy for the header
and the entry to be inside is given here as an equivalence, for both formats.
-/

set_option autoImplicit false

namespace ArcFirmware.EntryPoints

open ArcFirmware.Memory ArcFirmware.Edk2 ArcFirmware.UtilsLib ArcFirmware.PeiServices
  ArcFirmware.SecMain ArcFirmware.BootDecision ArcFirmware.DxeIpl ArcFirmware.PeiCoreMain

/-! ## Windows of a section -/

def InSection (mem : Mem) (header addr length : Nat) : Prop :=
  ∀ i < length, offsetFrom header (addr + i) < sectionSize mem header

theorem inSection_iff (mem : Mem) (header addr length : Nat) (positive : 0 < length) :
    InSection mem header addr length ↔
      offsetFrom header addr + length ≤ sectionSize mem header := by
  have small := sectionSize_lt mem header
  have moved (i : Nat) : offsetFrom header (addr + i) = (offsetFrom header addr + i) % 2 ^ 32 := by
    unfold offsetFrom bus
    omega
  constructor
  · intro inside
    have first := inside 0 positive
    rw [Nat.add_zero] at first
    by_contra long
    have past := inside (sectionSize mem header - offsetFrom header addr) (by omega)
    rw [moved] at past
    omega
  · intro fits i bound
    rw [moved]
    omega

theorem offsetFrom_u32 (header offset : Nat) :
    offsetFrom header (u32 (header + offset)) = u32 offset := offsetFrom_add header offset

theorem offsetFrom_u32_add (header first second : Nat) :
    offsetFrom header (u32 (u32 (header + first) + second)) = u32 (first + second) := by
  unfold offsetFrom bus u32
  omega

/-! ## TE images -/

/-- The TE header that was read is in the section, and the entry is in what follows it. -/
structure TeInside (mem : Mem) (header entry : Nat) : Prop where
  teHdr : InSection mem header (u32 (header + sizeofSectionHeader)) sizeofTeHeader
  low : sizeofSectionHeader + sizeofTeHeader ≤ offsetFrom header entry
  high : offsetFrom header entry < sectionSize mem header

structure TeFits (mem : Mem) (header : Nat) : Prop where
  stripped : teStrippedSize mem (u32 (header + sizeofSectionHeader)) ≤
    teAddressOfEntryPoint mem (u32 (header + sizeofSectionHeader))
  fits : sizeofSectionHeader + sizeofTeHeader +
      (teAddressOfEntryPoint mem (u32 (header + sizeofSectionHeader)) -
        teStrippedSize mem (u32 (header + sizeofSectionHeader))) < sectionSize mem header

theorem teHeader_end : sizeofSectionHeader + sizeofTeHeader = 44 := rfl

theorem offsetFrom_teEntryPoint (mem : Mem) (header : Nat) :
    offsetFrom header (teEntryPoint mem header) =
      (44 + teAddressOfEntryPoint mem (u32 (header + sizeofSectionHeader)) + 2 ^ 32 -
        teStrippedSize mem (u32 (header + sizeofSectionHeader))) % 2 ^ 32 := by
  have strippedLt : teStrippedSize mem (u32 (header + sizeofSectionHeader)) < 2 ^ 16 :=
    leAt_lt mem _ 2
  unfold teEntryPoint
  simp only
  generalize teAddressOfEntryPoint mem (u32 (header + sizeofSectionHeader)) = entry
  generalize teStrippedSize mem (u32 (header + sizeofSectionHeader)) = stripped at strippedLt ⊢
  unfold offsetFrom bus u32 sizeofSectionHeader sizeofTeHeader
  omega

theorem teInside_iff (mem : Mem) (header : Nat) :
    TeInside mem header (teEntryPoint mem header) ↔ TeFits mem header := by
  have small := sectionSize_lt mem header
  have offset := offsetFrom_teEntryPoint mem header
  have strippedLt : teStrippedSize mem (u32 (header + sizeofSectionHeader)) < 2 ^ 16 :=
    leAt_lt mem _ 2
  have entryLt : teAddressOfEntryPoint mem (u32 (header + sizeofSectionHeader)) < 2 ^ 32 :=
    leAt_lt mem _ 4
  constructor
  · intro inside
    obtain ⟨_, low, high⟩ := inside
    rw [offset] at low high
    rw [teHeader_end] at low
    refine ⟨by omega, ?_⟩
    rw [teHeader_end]
    omega
  · intro fits
    obtain ⟨stripped, fits⟩ := fits
    rw [teHeader_end] at fits
    refine ⟨?_, ?_, ?_⟩
    · have start : u32 sizeofSectionHeader + sizeofTeHeader = 44 := rfl
      rw [inSection_iff _ _ _ _ (by decide), offsetFrom_u32, start]
      omega
    · rw [offset, teHeader_end]
      omega
    · rw [offset]
      omega

/-! ## PE32 images -/

/-- Both headers that were read are in the section, and the entry is in the image
and in the section. -/
structure Pe32Inside (mem : Mem) (header : Nat) (image : LoadedImage) : Prop where
  dosHdr : InSection mem header (u32 (header + sizeofSectionHeader)) sizeofDosHeader
  pe32Hdr : InSection mem header (pe32Hdr mem (u32 (header + sizeofSectionHeader)))
    sizeofNtHeaders32
  low : image.imageAddress ≤ image.entryPoint
  high : image.entryPoint < image.imageAddress + image.imageSize
  inside : offsetFrom header image.entryPoint < sectionSize mem header

structure Pe32Fits (mem : Mem) (header : Nat) : Prop where
  dosHdr : sizeofSectionHeader + sizeofDosHeader ≤ sectionSize mem header
  pe32Hdr : u32 (sizeofSectionHeader + dosLfanew mem (u32 (header + sizeofSectionHeader))) +
    sizeofNtHeaders32 ≤ sectionSize mem header
  entry : ntAddressOfEntryPoint mem (DxeIpl.pe32Hdr mem (u32 (header + sizeofSectionHeader))) <
    ntSizeOfImage mem (DxeIpl.pe32Hdr mem (u32 (header + sizeofSectionHeader)))
  below : u32 (header + sizeofSectionHeader) + ntAddressOfEntryPoint mem
    (DxeIpl.pe32Hdr mem (u32 (header + sizeofSectionHeader))) < 2 ^ 32
  inside : u32 (sizeofSectionHeader + ntAddressOfEntryPoint mem
    (DxeIpl.pe32Hdr mem (u32 (header + sizeofSectionHeader)))) < sectionSize mem header

theorem image_of_loaded {mem : Mem} {pe32Data : Nat} {image : LoadedImage}
    (loaded : peiLoadPe32 mem pe32Data = (.success, some image)) :
    image = ⟨pe32Data, ntSizeOfImage mem (pe32Hdr mem pe32Data),
      u32 (ntAddressOfEntryPoint mem (pe32Hdr mem pe32Data) + pe32Data)⟩ := by
  unfold peiLoadPe32 at loaded
  split_ifs at loaded
  all_goals cases loaded
  rfl

theorem offsetFrom_pe32Hdr (mem : Mem) (header : Nat) :
    offsetFrom header (pe32Hdr mem (u32 (header + sizeofSectionHeader))) =
      u32 (sizeofSectionHeader + dosLfanew mem (u32 (header + sizeofSectionHeader))) :=
  offsetFrom_u32_add header _ _

theorem entry_in_image_iff {pe32Data entry : Nat} (size : Nat) (dataLt : pe32Data < 2 ^ 32)
    (entryLt : entry < 2 ^ 32) :
    pe32Data ≤ u32 (entry + pe32Data) ∧ u32 (entry + pe32Data) < pe32Data + size ↔
      entry < size ∧ pe32Data + entry < 2 ^ 32 := by
  unfold u32
  constructor
  · intro inside
    omega
  · intro fits
    omega

theorem pe32Inside_iff {mem : Mem} {header : Nat} {image : LoadedImage}
    (loaded : peiLoadPe32 mem (u32 (header + sizeofSectionHeader)) = (.success, some image)) :
    Pe32Inside mem header image ↔ Pe32Fits mem header := by
  have filled := image_of_loaded loaded
  subst filled
  have range := entry_in_image_iff
    (ntSizeOfImage mem (pe32Hdr mem (u32 (header + sizeofSectionHeader))))
    (Nat.mod_lt (header + sizeofSectionHeader) (by norm_num))
    (leAt_lt mem (pe32Hdr mem (u32 (header + sizeofSectionHeader)) + 40) 4)
  have dosIff := inSection_iff mem header (u32 (header + sizeofSectionHeader)) sizeofDosHeader
    (by decide)
  rw [offsetFrom_u32] at dosIff
  have ntIff := inSection_iff mem header (pe32Hdr mem (u32 (header + sizeofSectionHeader)))
    sizeofNtHeaders32 (by decide)
  rw [offsetFrom_pe32Hdr] at ntIff
  have entryOffset := offsetFrom_u32_add header sizeofSectionHeader
    (ntAddressOfEntryPoint mem (pe32Hdr mem (u32 (header + sizeofSectionHeader))))
  rw [Nat.add_comm (u32 (header + sizeofSectionHeader))] at entryOffset
  constructor
  · intro inside
    obtain ⟨dosHdr, ntHdr, low, high, inside⟩ := inside
    obtain ⟨entry, below⟩ := range.mp ⟨low, high⟩
    exact ⟨dosIff.mp dosHdr, ntIff.mp ntHdr, entry, below, entryOffset ▸ inside⟩
  · intro fits
    obtain ⟨dosHdr, ntHdr, entry, below, inside⟩ := fits
    obtain ⟨low, high⟩ := range.mpr ⟨entry, below⟩
    refine ⟨dosIff.mpr dosHdr, ntIff.mpr ntHdr, low, high, ?_⟩
    exact lt_of_eq_of_lt entryOffset inside

theorem loaded_of_loadFile {mem : Mem} {fileHandle : Nat} {pointersGiven : Bool}
    {result : Option LoadedImage}
    (returned : LoadFileReturns mem fileHandle pointersGiven .success result) :
    ∃ header image, result = some image ∧
      FindSectionDataReturns mem efiSectionPe32 fileHandle .success header ∧
      peiLoadPe32 mem (u32 (header + sizeofSectionHeader)) = (.success, some image) := by
  obtain ⟨fuel, success⟩ := returned
  unfold peiLoadFile at success
  cases pointersGiven with
  | false => cases success
  | true =>
      rw [if_neg (by decide)] at success
      cases found : peiFfsFindSectionData mem efiSectionPe32 fileHandle true fuel with
      | none => simp [found] at success
      | some answer =>
          obtain ⟨status, sectionData⟩ := answer
          by_cases failed : status = .success
          · subst failed
            have given : ∃ header, sectionData = some header := by
              unfold peiFfsFindSectionData at found
              by_cases refused : fileHandle = null ∨ true = false
              · rw [if_pos refused] at found
                cases found
              · rw [if_neg refused] at found
                simp only at found
                split at found
                · cases found
                · exact ⟨_, (congrArg Prod.snd (Option.some.inj found)).symm⟩
            obtain ⟨header, rfl⟩ := given
            simp only [found, Option.getD_some, ne_eq, not_true_eq_false, if_false,
              Option.some.injEq] at success
            have filled : ∃ image, result = some image := by
              unfold peiLoadPe32 at success
              split_ifs at success
              all_goals cases success
              exact ⟨_, rfl⟩
            obtain ⟨image, rfl⟩ := filled
            exact ⟨header, image, rfl, ⟨fuel, found⟩, success⟩
          · simp only [found, ne_eq, if_pos failed, Option.some.injEq, Prod.mk.injEq] at success
            exact absurd success.1 failed

/-! ## The boot chain -/

theorem entry_of_secCall {lib : BaseMemoryLib} {pcds : SecPcds} {frame : SecFrame}
    {flash stack : Mem} {call : SecCall} (called : SecCalls lib pcds frame flash stack call) :
    call.peiEp ≠ null ∧ ∃ info, GetTeEntryPointReturns flash pcds.bootFvBase.toNat
      efiFvFiletypePeiCore none (call.peiEp, info) := by
  obtain ⟨_, ptr, core, callable, rfl⟩ := (secCalls_iff _ _ _ _ _ _).mp called
  exact ⟨callable, core.entry pcds flash⟩

theorem entry_of_initPeims {mem : Mem} {fvBase peimInit : Nat}
    (called : InitPeimsCalls mem fvBase peimInit) :
    peimInit ≠ null ∧ ∃ fileName info, GetTeEntryPointReturns mem fvBase efiFvFiletypePeim
      (some fileName) (peimInit, info) := by
  obtain ⟨fuel, success⟩ := called
  unfold initPeims at success
  cases apriori : getAprioriFile mem fvBase fuel with
  | none => simp [apriori] at success
  | some result =>
      obtain ⟨aprioriFile, aprioriInfo⟩ := result
      by_cases missing : aprioriFile = null
      · simp [apriori, missing] at success
      · simp only [apriori, if_neg missing] at success
        cases found : getTeEntryPoint mem fvBase efiFvFiletypePeim
            (some (guidAt mem aprioriFile)) fuel with
        | none => simp [found] at success
        | some entry =>
            obtain ⟨entry, info⟩ := entry
            by_cases absent : entry = null
            · simp [found, absent] at success
            · simp only [found, if_neg absent, Option.some.injEq] at success
              subst success
              exact ⟨absent, _, info, fuel, found⟩

structure EntriesInside (mem : Mem) : Prop where
  te : ∀ fvBase fileType fileName entry info,
    GetTeEntryPointReturns mem fvBase fileType fileName (entry, info) → entry ≠ null →
      ∃ header, GetFileSectionReturns mem fvBase efiSectionTe fileType fileName (header, info) ∧
        TeInside mem header entry
  pe32 : ∀ fileHandle pointersGiven result,
    LoadFileReturns mem fileHandle pointersGiven .success result →
      ∃ header image, result = some image ∧
        FindSectionDataReturns mem efiSectionPe32 fileHandle .success header ∧
        Pe32Inside mem header image

/-- The entries that are called, and when each of them is inside its image. -/
structure EntryAddressLaw (mem : Mem) : Prop where
  te : ∀ fvBase fileType fileName entry info,
    GetTeEntryPointReturns mem fvBase fileType fileName (entry, info) → entry ≠ null →
      ∃ header, GetFileSectionReturns mem fvBase efiSectionTe fileType fileName (header, info) ∧
        (TeInside mem header entry ↔ TeFits mem header)
  pe32 : ∀ fileHandle pointersGiven result,
    LoadFileReturns mem fileHandle pointersGiven .success result →
      ∃ header image, result = some image ∧
        FindSectionDataReturns mem efiSectionPe32 fileHandle .success header ∧
        (Pe32Inside mem header image ↔ Pe32Fits mem header)
  secCall : ∀ lib pcds frame stack call, SecCalls lib pcds frame mem stack call →
    call.peiEp ≠ null ∧ ∃ info, GetTeEntryPointReturns mem pcds.bootFvBase.toNat
      efiFvFiletypePeiCore none (call.peiEp, info)
  peimCall : ∀ fvBase peimInit, InitPeimsCalls mem fvBase peimInit →
    peimInit ≠ null ∧ ∃ fileName info, GetTeEntryPointReturns mem fvBase efiFvFiletypePeim
      (some fileName) (peimInit, info)

theorem entryAddress_law (mem : Mem) : EntryAddressLaw mem where
  te := by
    intro fvBase fileType fileName entry info returned callable
    obtain ⟨header, found, rfl⟩ := (getTeEntryPointReturns_iff _ _ _ _ _ _).mp returned
    have real : header ≠ null := by
      intro missing
      exact callable (if_pos missing)
    rw [if_neg real]
    exact ⟨header, found, teInside_iff mem header⟩
  pe32 := by
    intro fileHandle pointersGiven result returned
    obtain ⟨header, image, same, found, loaded⟩ := loaded_of_loadFile returned
    exact ⟨header, image, same, found, pe32Inside_iff loaded⟩
  secCall := fun _ _ _ _ _ called => entry_of_secCall called
  peimCall := fun _ _ called => entry_of_initPeims called

/-- A volume of two files, each with nothing but a section header: a TE section
at 0x1060 and a PE32 section at 0x1080 with the headers behind it. -/
def hollowSections : Mem :=
  place 0x1000 (List.replicate 32 0 ++ [0x84, 0, 0, 0, 0, 0, 0, 0, 0x5f, 0x46, 0x56, 0x48] ++
    [0, 0, 0, 0, 0x48, 0] ++ List.replicate 40 0 ++
    [0x06, 0, 0x1c, 0, 0, 0, 0x04, 0, 0, 0x12] ++ List.replicate 22 0 ++
    [0x05, 0, 0x1c, 0, 0, 0, 0x04, 0, 0, 0x10, 0x4d, 0x5a] ++ List.replicate 58 0 ++
    [0x40, 0, 0, 0, 0x50, 0x45] ++ List.replicate 22 0 ++ [0x0b, 0x01])

theorem hollowSections_entries_outside :
    GetTeEntryPointReturns hollowSections 0x1000 efiFvFiletypePeim none
        (0x108c, ⟨.success, 183⟩) ∧
      ¬ TeInside hollowSections 0x1060 0x108c ∧
      LoadFileReturns hollowSections 0x1068 true .success (some ⟨0x1084, 0, 0x1084⟩) ∧
      ¬ Pe32Inside hollowSections 0x1080 ⟨0x1084, 0, 0x1084⟩ ∧
      ¬ EntriesInside hollowSections := by
  have entry : getTeEntryPoint hollowSections 0x1000 efiFvFiletypePeim none 3 =
      some (0x108c, ⟨.success, 183⟩) := by decide +kernel
  have header : getFileSection hollowSections 0x1000 efiSectionTe efiFvFiletypePeim none 3 =
      some (0x1060, ⟨.success, 183⟩) := by decide +kernel
  have loaded : peiLoadFile hollowSections 0x1068 true 3 =
      some (.success, some ⟨0x1084, 0, 0x1084⟩) := by decide +kernel
  have teSize : sectionSize hollowSections 0x1060 = 4 := by decide +kernel
  have peSize : sectionSize hollowSections 0x1080 = 4 := by decide +kernel
  have teOutside : ¬ TeInside hollowSections 0x1060 0x108c := by
    intro inside
    have high := inside.high
    rw [teSize] at high
    exact absurd high (by decide)
  have peOutside : ¬ Pe32Inside hollowSections 0x1080 ⟨0x1084, 0, 0x1084⟩ := by
    intro inside
    have high := inside.inside
    rw [peSize] at high
    exact absurd high (by decide)
  refine ⟨⟨3, entry⟩, teOutside, ⟨3, loaded⟩, peOutside, ?_⟩
  intro claimed
  obtain ⟨other, found, inside⟩ := claimed.te _ _ _ _ _ ⟨3, entry⟩ (by decide)
  have same := FileChain.getFileSectionReturns_unique found ⟨3, header⟩
  cases same
  exact teOutside inside

end ArcFirmware.EntryPoints
