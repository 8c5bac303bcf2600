import ArcFirmware.FileLookup
import ArcFirmware.PeiCoreMain
import ArcFirmware.PpiServices

/-!
# Whose base a PEIM's PPIs are relocated by

The entry point that `InitPeims` calls comes from a lookup by type and name, the
fixup from a lookup by type alone.  Both select the first match on the chain, so
they meet in one file exactly when the first PEIM of the volume is the named one.
-/

set_option autoImplicit false

namespace ArcFirmware.PeimFixup

open ArcFirmware.Memory ArcFirmware.Edk2 ArcFirmware.UtilsLib ArcFirmware.FileChain
  ArcFirmware.FileLookup ArcFirmware.PeiCoreMain ArcFirmware.PpiServices

def GetAprioriFileReturns (mem : Mem) (fvBase aprioriFile : Nat) : Prop :=
  ∃ fuel info, getAprioriFile mem fvBase fuel = some (aprioriFile, info)

def CalcPeimFixupReturns (mem : Mem) (pcdBootFvBase peimFixup : Nat) (status : EfiStatus) : Prop :=
  ∃ fuel, calcPeimFixup mem pcdBootFvBase fuel = some (peimFixup, status)

/-- `InitPeims` calls the entry point computed from the TE section at `teSection`,
which it has found under the first name in the apriori file. -/
structure RunsPeim (mem : Mem) (fvBase aprioriFile teSection : Nat) : Prop where
  apriori : GetAprioriFileReturns mem fvBase aprioriFile
  named : aprioriFile ≠ null
  te : ∃ info, GetFileSectionReturns mem fvBase efiSectionTe efiFvFiletypePeim
    (some (guidAt mem aprioriFile)) (teSection, info)
  found : teSection ≠ null
  called : teEntryPoint mem teSection ≠ null

def SamePeim (mem : Mem) (fvBase first second : Nat) : Prop :=
  ∃ index, chainFile mem fvBase index < fvBase + fvLength mem fvBase ∧
    fileType mem (chainFile mem fvBase index) = efiFvFiletypePeim ∧
    ∀ addr, addr = first ∨ addr = second → chainFile mem fvBase index ≤ addr ∧
      addr < chainFile mem fvBase index + fileSize mem (chainFile mem fvBase index)

section Lookups

variable {mem : Mem} {base aprioriFile teSection peimFixup : Nat}

theorem getAprioriFile_mono {fuel more : Nat} {result : Nat × StatusInfo}
    (success : getAprioriFile mem base fuel = some result) (enough : fuel ≤ more) :
    getAprioriFile mem base more = some result := by
  unfold getAprioriFile at success ⊢
  cases found : getFileSection mem base efiSectionRaw efiFvFiletypeFreeform
      (some aprioriFileName) fuel with
  | none => simp [found] at success
  | some section_ => rwa [getFileSection_mono found enough, ← found]

theorem initPeimsCalls_iff (mem : Mem) (fvBase peimInit : Nat) :
    InitPeimsCalls mem fvBase peimInit ↔ ∃ aprioriFile teSection,
      RunsPeim mem fvBase aprioriFile teSection ∧ peimInit = teEntryPoint mem teSection := by
  constructor
  · intro calls
    obtain ⟨fuel, calls⟩ := calls
    unfold initPeims at calls
    cases apriori : getAprioriFile mem fvBase fuel with
    | none => simp [apriori] at calls
    | some file =>
        obtain ⟨aprioriFile, info⟩ := file
        by_cases named : aprioriFile = null
        · simp [apriori, named] at calls
        cases te : getTeEntryPoint mem fvBase efiFvFiletypePeim
            (some (guidAt mem aprioriFile)) fuel with
        | none => simp [apriori, named, te] at calls
        | some entry =>
            obtain ⟨entryPoint, teInfo⟩ := entry
            by_cases absent : entryPoint = null
            · simp [apriori, named, te, absent] at calls
            simp only [apriori, named, te, absent, if_false, Option.some.injEq] at calls
            subst calls
            obtain ⟨teSection, found, rfl⟩ := (getTeEntryPointReturns_iff ..).mp ⟨fuel, te⟩
            by_cases missing : teSection = null
            · exact absurd (if_pos missing) absent
            rw [if_neg missing] at absent ⊢
            exact ⟨aprioriFile, teSection,
              ⟨⟨fuel, info, apriori⟩, named, ⟨teInfo, found⟩, missing, absent⟩, rfl⟩
  · intro runs
    obtain ⟨aprioriFile, teSection, runs, rfl⟩ := runs
    obtain ⟨⟨fuel, info, apriori⟩, named, ⟨teInfo, more, te⟩, found, called⟩ := runs
    have first := getAprioriFile_mono apriori (le_max_left fuel more)
    have second := getFileSection_mono te (le_max_right fuel more)
    refine ⟨max fuel more, ?_⟩
    simp only [initPeims, first, if_neg named, getTeEntryPoint, second, if_neg found, if_neg called]

theorem RunsPeim.inFile (room : base + fvLength mem base + sizeofFileHeader ≤ 2 ^ 32)
    (runs : RunsPeim mem base aprioriFile teSection) :
    ∃ index, FirstMatch mem base efiFvFiletypePeim (some (guidAt mem aprioriFile)) index ∧
      SectionOf mem (chainFile mem base index) efiSectionTe teSection := by
  obtain ⟨info, te⟩ := runs.te
  have status := (success_iff_ptr room te).mpr runs.found
  obtain ⟨index, first, _, inside⟩ := sectionOf_of_success room te status
  exact ⟨index, first, inside⟩

theorem CalcPeimFixupReturns.inFile (room : base + fvLength mem base + sizeofFileHeader ≤ 2 ^ 32)
    (fixup : CalcPeimFixupReturns mem base peimFixup .success) :
    ∃ index, FirstMatch mem base efiFvFiletypePeim none index ∧
      SectionOf mem (chainFile mem base index) efiSectionFreeformSubtypeGuid peimFixup := by
  obtain ⟨fuel, success⟩ := fixup
  obtain ⟨⟨ptr, info⟩, lookup, result⟩ := Option.map_eq_some_iff.mp success
  obtain ⟨rfl, status⟩ := Prod.mk.inj result
  obtain ⟨index, first, fits, inside⟩ := sectionOf_of_success room ⟨fuel, lookup⟩ status
  have high := inside.high
  have pointer : u32 ptr = ptr := by
    have nonempty := inside.nonempty
    exact Nat.mod_eq_of_lt (by omega)
  exact ⟨index, first, by rw [pointer]; exact inside⟩

theorem SectionOf.bounds {file header : Nat} {type : UInt8} (inside : SectionOf mem file type header) :
    file ≤ header ∧ header < file + fileSize mem file := by
  have low := inside.low
  have nonempty := inside.nonempty
  have high := inside.high
  have size : sizeofFileHeader = 24 := rfl
  omega

theorem samePeim_iff_index {first second firstFile secondFile : Nat} {firstType secondType : UInt8}
    (firstPeim : Selects mem efiFvFiletypePeim none (chainFile mem base firstFile))
    (firstInside : chainFile mem base firstFile < base + fvLength mem base)
    (firstSection : SectionOf mem (chainFile mem base firstFile) firstType first)
    (secondSection : SectionOf mem (chainFile mem base secondFile) secondType second) :
    SamePeim mem base first second ↔ firstFile = secondFile := by
  have firstBounds := SectionOf.bounds firstSection
  have secondBounds := SectionOf.bounds secondSection
  constructor
  · intro same
    obtain ⟨index, _, _, both⟩ := same
    obtain ⟨firstLow, firstHigh⟩ := both first (Or.inl rfl)
    obtain ⟨secondLow, secondHigh⟩ := both second (Or.inr rfl)
    have left : index = firstFile :=
      chainFile_unique firstLow firstHigh firstBounds.1 firstBounds.2
    have right : index = secondFile :=
      chainFile_unique secondLow secondHigh secondBounds.1 secondBounds.2
    exact left.symm.trans right
  · intro same
    subst same
    refine ⟨firstFile, firstInside, firstPeim.2, ?_⟩
    intro addr either
    rcases either with rfl | rfl
    · exact firstBounds
    · exact secondBounds

end Lookups

/-- The fixup lies in the PEIM that is running exactly when that PEIM is the
first one of the volume. -/
theorem fixup_in_running_peim_iff (mem : Mem) (base aprioriFile teSection peimFixup : Nat)
    (room : base + fvLength mem base + sizeofFileHeader ≤ 2 ^ 32)
    (runs : RunsPeim mem base aprioriFile teSection)
    (fixup : CalcPeimFixupReturns mem base peimFixup .success) :
    SamePeim mem base teSection peimFixup ↔
      ∃ index, FirstMatch mem base efiFvFiletypePeim none index ∧
        fileName mem (chainFile mem base index) = guidAt mem aprioriFile := by
  obtain ⟨running, named, teInside⟩ := runs.inFile room
  obtain ⟨first, unnamed, fixupInside⟩ := fixup.inFile room
  rw [samePeim_iff_index named.selected.unnamed named.inside teInside fixupInside]
  constructor
  · intro same
    subst same
    exact ⟨running, unnamed, named.selected.1 _ rfl⟩
  · intro carries
    obtain ⟨index, match_, name⟩ := carries
    cases unnamed.unique match_
    have selected : Selects mem efiFvFiletypePeim (some (guidAt mem aprioriFile))
        (chainFile mem base first) := by
      refine ⟨?_, unnamed.selected.2⟩
      intro wanted asked
      cases asked
      exact name
    refine named.unique ⟨unnamed.inside, selected, ?_⟩
    intro before early chosen
    exact unnamed.earlier before early chosen.unnamed

theorem runsPeim_twoPeims : RunsPeim twoPeims 0x1000 0x1114 0x10cc :=
  ⟨⟨9, ⟨.success, 183⟩, by decide +kernel⟩, by decide, ⟨⟨.success, 183⟩, 9, by decide +kernel⟩,
    by decide, by decide +kernel⟩

theorem calcPeimFixup_twoPeims : CalcPeimFixupReturns twoPeims 0x1000 0x1060 .success :=
  ⟨9, by decide +kernel⟩

theorem fixup_in_running_peim_iff_twoPeims :
    SamePeim twoPeims 0x1000 0x10cc 0x1060 ↔
      ∃ index, FirstMatch twoPeims 0x1000 efiFvFiletypePeim none index ∧
        fileName twoPeims (chainFile twoPeims 0x1000 index) = guidAt twoPeims 0x1114 :=
  fixup_in_running_peim_iff twoPeims 0x1000 0x1114 0x10cc 0x1060 (by decide +kernel)
    runsPeim_twoPeims calcPeimFixup_twoPeims

/-- The second PEIM is called, and its PPIs get the address of a section of the first. -/
theorem second_peim_gets_first_fixup :
    InitPeimsCalls twoPeims 0x1000 (teEntryPoint twoPeims 0x10cc) ∧
      RunsPeim twoPeims 0x1000 0x1114 0x10cc ∧
      CalcPeimFixupReturns twoPeims 0x1000 0x1060 .success ∧
      ¬ SamePeim twoPeims 0x1000 0x10cc 0x1060 := by
  refine ⟨(initPeimsCalls_iff ..).mpr ⟨0x1114, 0x10cc, runsPeim_twoPeims, rfl⟩,
    runsPeim_twoPeims, calcPeimFixup_twoPeims, ?_⟩
  intro same
  obtain ⟨index, _, _, both⟩ := same
  obtain ⟨firstLow, firstHigh⟩ := both 0x1060 (Or.inr rfl)
  obtain ⟨secondLow, secondHigh⟩ := both 0x10cc (Or.inl rfl)
  have left : index = 0 :=
    chainFile_unique firstLow firstHigh (by decide +kernel) (by decide +kernel)
  have right : index = 1 :=
    chainFile_unique secondLow secondHigh (by decide +kernel) (by decide +kernel)
  omega

end ArcFirmware.PeimFixup
