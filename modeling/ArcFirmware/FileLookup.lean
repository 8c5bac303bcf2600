import ArcFirmware.ReadBounds
import Mathlib.Order.Iterate

/-!
# What a lookup finds

The chain of a volume is the orbit of its first header under "the next boundary
after the end of this file", and the chain of a file the orbit of its first
section.  Both only go up, so a walk that has left at some index has seen every
header below the end, and what it reports can be said of the whole chain.
-/

set_option autoImplicit false

namespace ArcFirmware.FileLookup

open ArcFirmware.Memory ArcFirmware.Loop ArcFirmware.Layout ArcFirmware.Edk2
  ArcFirmware.UtilsLib ArcFirmware.PeiServices ArcFirmware.FileChain ArcFirmware.ReadBounds

/-! ## The chains -/

def nextFile (mem : Mem) (file : Nat) : Nat := roundUp 8 (file + fileSize mem file)

/-- File headers of a volume by index, whatever their size fields say. -/
def chainFile (mem : Mem) (base index : Nat) : Nat :=
  (nextFile mem)^[index] (roundUp 8 (base + fvHeaderLength mem base))

def nextSection (mem : Mem) (header : Nat) : Nat := header + sectionSize mem header

def chainSection (mem : Mem) (file index : Nat) : Nat :=
  (nextSection mem)^[index] (file + sizeofFileHeader)

/-- The first file on the chain with the type and, if one is given, the name. -/
structure FirstMatch (mem : Mem) (base : Nat) (type : UInt8) (name : Option EfiGuid)
    (index : Nat) : Prop where
  inside : chainFile mem base index < base + fvLength mem base
  selected : Selects mem type name (chainFile mem base index)
  earlier : ∀ before < index, ¬ Selects mem type name (chainFile mem base before)

/-- The section, as long as its size field says, lies in the file after its header. -/
structure SectionOf (mem : Mem) (file : Nat) (type : UInt8) (header : Nat) : Prop where
  type : sectionType mem header = type
  low : file + sizeofFileHeader ≤ header
  nonempty : 4 ≤ sectionSize mem header
  high : header + sectionSize mem header ≤ file + fileSize mem file

section Chains

variable {mem : Mem} {base file : Nat}

theorem le_nextFile (mem : Mem) (addr : Nat) : addr + fileSize mem addr ≤ nextFile mem addr :=
  le_roundUp (by norm_num) _

theorem monotone_orbit {next : Nat → Nat} (grows : ∀ addr, addr ≤ next addr) (start : Nat) :
    Monotone fun index => next^[index] start := by
  intro first second order
  exact Function.monotone_iterate_of_id_le grows order start

theorem monotone_nextFile (mem : Mem) (start : Nat) :
    Monotone fun index => (nextFile mem)^[index] start :=
  monotone_orbit (fun addr => (Nat.le_add_right _ _).trans (le_nextFile mem addr)) start

theorem monotone_nextSection (mem : Mem) (start : Nat) :
    Monotone fun index => (nextSection mem)^[index] start :=
  monotone_orbit (fun _ => Nat.le_add_right _ _) start

theorem chainFile_succ (mem : Mem) (base index : Nat) :
    chainFile mem base (index + 1) = nextFile mem (chainFile mem base index) :=
  Function.iterate_succ_apply' _ _ _

theorem base_le_chainFile (mem : Mem) (base index : Nat) : base ≤ chainFile mem base index := by
  have first : base ≤ roundUp 8 (base + fvHeaderLength mem base) :=
    (Nat.le_add_right _ _).trans (le_roundUp (by norm_num) _)
  exact first.trans (monotone_nextFile mem _ (Nat.zero_le index))

theorem chainFile_apart (mem : Mem) (base : Nat) {first second : Nat} (order : first < second) :
    chainFile mem base first + fileSize mem (chainFile mem base first) ≤
      chainFile mem base second := by
  have step := le_nextFile mem (chainFile mem base first)
  rw [← chainFile_succ] at step
  exact step.trans (monotone_nextFile mem _ order)

theorem chainFile_unique {first second addr : Nat}
    (firstLow : chainFile mem base first ≤ addr)
    (firstHigh : addr < chainFile mem base first + fileSize mem (chainFile mem base first))
    (secondLow : chainFile mem base second ≤ addr)
    (secondHigh : addr < chainFile mem base second + fileSize mem (chainFile mem base second)) :
    first = second := by
  rcases Nat.lt_trichotomy first second with order | same | order
  · have apart := chainFile_apart mem base order
    omega
  · exact same
  · have apart := chainFile_apart mem base order
    omega

theorem FirstMatch.unique {type : UInt8} {name : Option EfiGuid} {first second : Nat}
    (left : FirstMatch mem base type name first) (right : FirstMatch mem base type name second) :
    first = second := by
  rcases Nat.lt_trichotomy first second with order | same | order
  · exact absurd left.selected (right.earlier first order)
  · exact same
  · exact absurd right.selected (left.earlier second order)

end Chains

/-! ## Heads of the walks by index -/

theorem scanned_iff_index {mem : Mem} {type : UInt8} {name : Option EfiGuid}
    {eov start addr : Nat} :
    Scanned mem type name eov start addr ↔
      ∃ index, addr = (nextFile mem)^[index] start ∧ ∀ before < index,
        (nextFile mem)^[before] start < eov ∧
          (nextFile mem)^[before] start + fileSize mem ((nextFile mem)^[before] start) ≤ eov ∧
          ¬ Selects mem type name ((nextFile mem)^[before] start) := by
  constructor
  · intro scanned
    induction scanned with
    | first => exact ⟨0, rfl, fun before early => absurd early (Nat.not_lt_zero before)⟩
    | @next addr _ inside fits skipped ih =>
        obtain ⟨index, rfl, earlier⟩ := ih
        refine ⟨index + 1, (Function.iterate_succ_apply' (nextFile mem) index start).symm, ?_⟩
        intro before early
        rcases Nat.lt_succ_iff_lt_or_eq.mp early with early | rfl
        · exact earlier before early
        · exact ⟨inside, fits, skipped⟩
  · intro indexed
    obtain ⟨index, rfl, earlier⟩ := indexed
    induction index with
    | zero => exact .first
    | succ index ih =>
        obtain ⟨inside, fits, skipped⟩ := earlier index (Nat.lt_succ_self index)
        rw [Function.iterate_succ_apply']
        exact .next (ih fun before early => earlier before (Nat.lt_succ_of_lt early))
          inside fits skipped

theorem index_of_sectionScanned {mem : Mem} {type : UInt8} {sectionsEnd start addr : Nat}
    (scanned : SectionScanned mem type sectionsEnd start addr) :
    ∃ index, addr = (nextSection mem)^[index] start ∧
      ∀ before < index, sectionType mem ((nextSection mem)^[before] start) ≠ type := by
  induction scanned with
  | first => exact ⟨0, rfl, fun before early => absurd early (Nat.not_lt_zero before)⟩
  | @next addr _ _ _ _ skipped ih =>
      obtain ⟨index, rfl, earlier⟩ := ih
      refine ⟨index + 1, (Function.iterate_succ_apply' (nextSection mem) index start).symm, ?_⟩
      intro before early
      rcases Nat.lt_succ_iff_lt_or_eq.mp early with early | rfl
      · exact earlier before early
      · exact skipped

/-! ## Leaving the file loop -/

section Files

variable {mem : Mem} {base : Nat} {type : UInt8} {name : Option EfiGuid}

theorem firstMatch_of_found {file eof : Nat} (below : base + fvLength mem base < 2 ^ 32)
    (found : Returns (getFileSectionStep mem type name (endOfVolume mem base))
      (firstFile mem base) (.found file eof)) :
    ∃ index, FirstMatch mem base type name index ∧ file = chainFile mem base index ∧
      eof = file + fileSize mem file ∧ eof ≤ base + fvLength mem base := by
  rw [endOfVolume_of_lt below, firstFile_of_lt (by omega)] at found
  obtain ⟨scanned, inside, fits, selected, rfl⟩ := (returns_found_iff (by omega) file eof).mp found
  obtain ⟨index, rfl, earlier⟩ := scanned_iff_index.mp scanned
  exact ⟨index, ⟨inside, selected, fun before early => (earlier before early).2.2⟩, rfl, rfl, fits⟩

theorem fail_of_step {eov addr : Nat} {info : StatusInfo} (below : eov ≤ 2 ^ 32)
    (left : getFileSectionStep mem type name eov addr = .done (.fail info)) :
    (eov ≤ addr ∧ info.status = .notFound) ∨ info.status = .volumeCorrupted := by
  rcases getFileSectionStep_cases mem type name addr below with
    ⟨past, step⟩ | ⟨_, _, step⟩ | ⟨_, _, _, step⟩ | ⟨_, _, _, step⟩
  · rw [step] at left
    cases left
    exact Or.inl ⟨past, rfl⟩
  · rw [step] at left
    cases left
    exact Or.inr rfl
  · rw [step] at left
    cases left
  · rw [step] at left
    cases left

theorem none_selected_of_notFound {info : StatusInfo}
    (below : base + fvLength mem base < 2 ^ 32)
    (failed : Returns (getFileSectionStep mem type name (endOfVolume mem base))
      (firstFile mem base) (.fail info)) (missing : info.status = .notFound) (index : Nat)
    (inside : chainFile mem base index < base + fvLength mem base) :
    ¬ Selects mem type name (chainFile mem base index) := by
  rw [endOfVolume_of_lt below, firstFile_of_lt (by omega)] at failed
  obtain ⟨addr, reached, left⟩ := failed.exit
  obtain ⟨past, rfl, earlier⟩ := scanned_iff_index.mp ((reaches_iff_scanned (by omega)).mp reached)
  have ended : base + fvLength mem base ≤ chainFile mem base past := by
    rcases fail_of_step (by omega) left with ⟨ended, _⟩ | status
    · exact ended
    · exact absurd (missing.symm.trans status) (by decide)
  have order : index < past := by
    by_contra late
    have up : chainFile mem base past ≤ chainFile mem base index :=
      monotone_nextFile mem _ (Nat.not_lt.mp late)
    omega
  exact (earlier index order).2.2

theorem fail_status {info : StatusInfo} (below : base + fvLength mem base < 2 ^ 32)
    (failed : Returns (getFileSectionStep mem type name (endOfVolume mem base))
      (firstFile mem base) (.fail info)) : info.status ≠ .success := by
  rw [endOfVolume_of_lt below] at failed
  obtain ⟨addr, _, left⟩ := failed.exit
  rcases fail_of_step (by omega) left with ⟨_, status⟩ | status
  · rw [status]
    decide
  · rw [status]
    decide

end Files

/-! ## Leaving the section loop -/

def SectionAnswer (mem : Mem) (file : Nat) (type : UInt8) (result : Nat × StatusInfo) : Prop :=
  (result.2.status = .success ∧ SectionOf mem file type result.1) ∨
    (result.1 = null ∧ result.2.status = .notFound ∧ ∀ index,
      chainSection mem file index < file + fileSize mem file →
        sectionType mem (chainSection mem file index) ≠ type) ∨
    (result.1 = null ∧ result.2.status = .volumeCorrupted)

theorem sectionAnswer_of_returns {mem : Mem} {file : Nat} {type : UInt8}
    {result : Nat × StatusInfo} (room : file + sizeofFileHeader < 2 ^ 32)
    (below : file + fileSize mem file < 2 ^ 32) (aligned : 8 ∣ file)
    (success : FindSectionReturns mem type (u32 (file + sizeofFileHeader))
      (file + fileSize mem file) result) : SectionAnswer mem file type result := by
  have header : sizeofFileHeader = 24 := rfl
  have start : alignAddr (u32 (file + sizeofFileHeader)) 4 = file + sizeofFileHeader := by
    have kept : u32 (file + sizeofFileHeader) = file + sizeofFileHeader := Nat.mod_eq_of_lt room
    rw [alignAddr_u32_four, kept]
    exact roundUp_of_dvd (by norm_num) (by omega)
  have ends : Returns (findSectionStep mem type (file + fileSize mem file))
      (file + sizeofFileHeader) result := start ▸ success
  obtain ⟨addr, reached, left⟩ := ends.exit
  obtain ⟨past, rfl, earlier⟩ :=
    index_of_sectionScanned ((reaches_iff_sectionScanned below).mp reached)
  have up (first second : Nat) (order : first ≤ second) :
      chainSection mem file first ≤ chainSection mem file second :=
    monotone_nextSection mem _ order
  change findSectionStep mem type _ (chainSection mem file past) = _ at left
  rcases findSectionStep_cases mem type (chainSection mem file past) below.le with
    ⟨ended, step⟩ | ⟨_, line, step⟩ | ⟨_, large, fits, found, step⟩ | ⟨_, _, _, _, step⟩
  · rw [step] at left
    cases left
    refine Or.inr (Or.inl ⟨rfl, rfl, ?_⟩)
    intro index early
    refine earlier index ?_
    by_contra late
    have order := up past index (Nat.not_lt.mp late)
    omega
  · rw [step] at left
    cases left
    exact Or.inr (Or.inr ⟨rfl, rfl⟩)
  · rw [step] at left
    cases left
    exact Or.inl ⟨rfl, found, up 0 past (Nat.zero_le past), large, fits⟩
  · rw [step] at left
    cases left

/-! ## Soundness of a lookup -/

section Lookup

variable {mem : Mem} {base ptr : Nat} {sectionType_ type : UInt8} {name : Option EfiGuid}
  {info : StatusInfo}

/-- A lookup that comes back has either not left the chain with a file, or has
an answer about the sections of the first match. -/
theorem getFileSection_cases (room : base + fvLength mem base + sizeofFileHeader ≤ 2 ^ 32)
    (success : GetFileSectionReturns mem base sectionType_ type name (ptr, info)) :
    (ptr = null ∧ info.status ≠ .success ∧ (info.status = .notFound → ∀ index,
        chainFile mem base index < base + fvLength mem base →
          ¬ Selects mem type name (chainFile mem base index))) ∨
      ∃ index, FirstMatch mem base type name index ∧
        chainFile mem base index + fileSize mem (chainFile mem base index) ≤
          base + fvLength mem base ∧
        SectionAnswer mem (chainFile mem base index) sectionType_ (ptr, info) := by
  have header : sizeofFileHeader = 24 := rfl
  have below : base + fvLength mem base < 2 ^ 32 := by omega
  obtain ⟨leaving, ends, rest⟩ := (getFileSectionReturns_iff ..).mp success
  cases leaving with
  | fail other =>
      cases rest
      exact Or.inl ⟨rfl, fail_status below ends, none_selected_of_notFound below ends⟩
  | found file eof =>
      have aligned : 8 ∣ file := by
        obtain ⟨scanned, _⟩ :=
          (returns_found_iff (by rw [endOfVolume_of_lt below]; omega) file eof).mp ends
        exact scanned.aligned (firstFile_aligned (by omega))
      obtain ⟨index, first, rfl, rfl, fits⟩ := firstMatch_of_found below ends
      have inside := first.inside
      exact Or.inr ⟨index, first, fits,
        sectionAnswer_of_returns (by omega) (by omega) aligned rest⟩

theorem sectionOf_of_success (room : base + fvLength mem base + sizeofFileHeader ≤ 2 ^ 32)
    (success : GetFileSectionReturns mem base sectionType_ type name (ptr, info))
    (found : info.status = .success) :
    ∃ index, FirstMatch mem base type name index ∧
      chainFile mem base index + fileSize mem (chainFile mem base index) ≤
        base + fvLength mem base ∧
      SectionOf mem (chainFile mem base index) sectionType_ ptr := by
  rcases getFileSection_cases room success with ⟨_, failed, _⟩ | ⟨index, first, fits, answer⟩
  · exact absurd found failed
  · rcases answer with ⟨_, inside⟩ | ⟨_, status, _⟩ | ⟨_, status⟩
    · exact ⟨index, first, fits, inside⟩
    · exact absurd (status.symm.trans found) (by decide)
    · exact absurd (status.symm.trans found) (by decide)

theorem success_iff_ptr (room : base + fvLength mem base + sizeofFileHeader ≤ 2 ^ 32)
    (success : GetFileSectionReturns mem base sectionType_ type name (ptr, info)) :
    info.status = .success ↔ ptr ≠ null := by
  constructor
  · intro found
    obtain ⟨index, _, _, inside⟩ := sectionOf_of_success room success found
    have low := inside.low
    have header : sizeofFileHeader = 24 := rfl
    unfold null
    omega
  · intro given
    rcases getFileSection_cases room success with ⟨absent, _⟩ | ⟨_, _, _, answer⟩
    · exact absurd absent given
    · rcases answer with ⟨status, _⟩ | ⟨absent, _⟩ | ⟨absent, _⟩
      · exact status
      · exact absurd absent given
      · exact absurd absent given

structure LookupSound (mem : Mem) (base : Nat) (sectionType_ type : UInt8)
    (name : Option EfiGuid) (ptr : Nat) (status : EfiStatus) : Prop where
  pointer : status = .success ↔ ptr ≠ null
  found : status = .success → ∃ index, FirstMatch mem base type name index ∧
    chainFile mem base index + fileSize mem (chainFile mem base index) ≤
      base + fvLength mem base ∧
    SectionOf mem (chainFile mem base index) sectionType_ ptr
  missing : status = .notFound →
    (∀ index, chainFile mem base index < base + fvLength mem base →
      ¬ Selects mem type name (chainFile mem base index)) ∨
    ∃ index, FirstMatch mem base type name index ∧ ∀ inner,
      chainSection mem (chainFile mem base index) inner <
          chainFile mem base index + fileSize mem (chainFile mem base index) →
        sectionType mem (chainSection mem (chainFile mem base index) inner) ≠ sectionType_

/-- Whatever the image holds, a lookup that comes back is sound. -/
theorem lookup_sound (mem : Mem) (base : Nat) (sectionType_ type : UInt8)
    (name : Option EfiGuid) (ptr : Nat) (info : StatusInfo)
    (room : base + fvLength mem base + sizeofFileHeader ≤ 2 ^ 32)
    (success : GetFileSectionReturns mem base sectionType_ type name (ptr, info)) :
    LookupSound mem base sectionType_ type name ptr info.status := by
  refine ⟨success_iff_ptr room success, sectionOf_of_success room success, ?_⟩
  intro missing
  rcases getFileSection_cases room success with ⟨_, _, passed⟩ | ⟨index, first, _, answer⟩
  · exact Or.inl (passed missing)
  · rcases answer with ⟨status, _⟩ | ⟨_, _, none⟩ | ⟨_, status⟩
    · exact absurd (status.symm.trans missing) (by decide)
    · exact Or.inr ⟨index, first, none⟩
    · exact absurd (status.symm.trans missing) (by decide)

end Lookup

/-- A volume at `0x1000` with PEIMs at `0x1048` and `0x10a0`, each with a fixup
section before its TE section, and an apriori file that names the second. -/
def twoPeims : Mem :=
  place 0x1000 (List.replicate 32 0 ++ [0x28, 1, 0, 0, 0, 0, 0, 0, 0x5f, 0x46, 0x56, 0x48] ++
    [0, 0, 0, 0, 0x48, 0] ++ List.replicate 22 0 ++
    List.replicate 16 0x11 ++ [0, 0, 0x06, 0, 0x58, 0, 0, 0] ++
    [0x14, 0, 0, 0x18] ++ List.replicate 16 0 ++ [0x2c, 0, 0, 0x12] ++ List.replicate 40 0 ++
    List.replicate 16 0x22 ++ [0, 0, 0x06, 0, 0x58, 0, 0, 0] ++
    [0x14, 0, 0, 0x18] ++ List.replicate 16 0 ++ [0x2c, 0, 0, 0x12] ++ List.replicate 40 0 ++
    [0x0a, 0xcc, 0x45, 0x1b, 0x6a, 0x15, 0x8a, 0x42] ++
    [0xaf, 0x62, 0x49, 0x86, 0x4d, 0xa0, 0xe6, 0xe6] ++ [0, 0, 0x02, 0, 0x2c, 0, 0, 0] ++
    [0x14, 0, 0, 0x19] ++ List.replicate 16 0x22)

theorem lookup_sound_twoPeims :
    LookupSound twoPeims 0x1000 efiSectionTe efiFvFiletypePeim (some (guidAt twoPeims 0x10a0))
      0x10cc .success :=
  lookup_sound twoPeims 0x1000 efiSectionTe efiFvFiletypePeim (some (guidAt twoPeims 0x10a0))
    0x10cc ⟨.success, 183⟩ (by decide +kernel) ⟨9, by decide +kernel⟩

/-! ## The two service calls against the direct call -/

/-- `PeiFfsFindNextFile` from a `NULL` handle, then `PeiFfsFindSectionData` on
the handle it writes; the section is `none` when nothing was written. -/
def servicePath (mem : Mem) (stackAddr fvBase : Nat) (sectionType_ type : UInt8) (fuel : Nat) :
    Option (EfiStatus × Option Nat) :=
  match peiFfsFindNextFile mem stackAddr type fvBase (some null) fuel with
  | none => none
  | some (status, fileHandle) =>
      if status ≠ .success then some (status, none)
      else peiFfsFindSectionData mem sectionType_ (fileHandle.getD null) true fuel

def SameAnswer (service : EfiStatus × Option Nat) (direct : Nat × StatusInfo) : Prop :=
  service.1 = direct.2.status ∧ (service.1 = .success → service.2 = some direct.1)

theorem none_iff_of_rel {α β : Type} {related : α → β → Prop} {left : Option α}
    {right : Option β} (same : Option.Rel related left right) : left = none ↔ right = none := by
  cases same with
  | none => exact iff_of_true rfl rfl
  | some _ => simp

/-- The handle that the first call writes is the file whose sections the direct
call searches, and its end is computed again from the same size. -/
theorem findSectionData_of_found {mem : Mem} {base file eof : Nat} {sectionType_ type : UInt8}
    (volume : base ≠ null) (below : base + fvLength mem base < 2 ^ 32)
    (found : Returns (getFileSectionStep mem type none (endOfVolume mem base))
      (firstFile mem base) (.found file eof)) (fuel : Nat) :
    Option.Rel SameAnswer (peiFfsFindSectionData mem sectionType_ file true fuel)
      (findSection mem sectionType_ (u32 (file + sizeofFileHeader)) eof fuel) := by
  obtain ⟨index, first, rfl, rfl, fits⟩ := firstMatch_of_found below found
  have low := base_le_chainFile mem base index
  have given : chainFile mem base index ≠ null := by
    unfold null at volume ⊢
    omega
  have kept : u64 (chainFile mem base index + fileSize mem (chainFile mem base index)) =
      chainFile mem base index + fileSize mem (chainFile mem base index) :=
    Nat.mod_eq_of_lt (by omega)
  simp only [peiFfsFindSectionData, given, Bool.true_eq_false, or_self, if_false, kept]
  cases findSection mem sectionType_ (u32 (chainFile mem base index + sizeofFileHeader))
      (chainFile mem base index + fileSize mem (chainFile mem base index)) fuel with
  | none => exact .none
  | some result => exact .some ⟨rfl, fun _ => rfl⟩

/-- The two calls of the service table and the direct call take the same passes
and come back, or not, with the same answer. -/
theorem servicePath_agrees (mem : Mem) (base stackAddr : Nat) (sectionType_ type : UInt8)
    (volume : base ≠ null) (room : base + fvLength mem base + sizeofFileHeader ≤ 2 ^ 32) :
    (∀ fuel, Option.Rel SameAnswer (servicePath mem stackAddr base sectionType_ type fuel)
      (getFileSection mem base sectionType_ type none fuel)) ∧
      ((∀ fuel, servicePath mem stackAddr base sectionType_ type fuel = none) ↔
        ∀ fuel, getFileSection mem base sectionType_ type none fuel = none) := by
  have header : sizeofFileHeader = 24 := rfl
  have same (fuel : Nat) : Option.Rel SameAnswer
      (servicePath mem stackAddr base sectionType_ type fuel)
      (getFileSection mem base sectionType_ type none fuel) := by
    simp only [servicePath, getFileSection, peiFfsFindNextFile, if_neg volume, if_true,
      run_findNextFileStep]
    cases outcome : run (getFileSectionStep mem type none (endOfVolume mem base)) fuel
        (firstFile mem base) with
    | none => exact .none
    | some leaving =>
        cases leaving with
        | fail info =>
            have failed := fail_status (by omega) ⟨fuel, outcome⟩
            simp only [Option.map_some, handleOfExit, if_pos failed]
            exact .some ⟨rfl, fun status => absurd status failed⟩
        | found file eof =>
            exact findSectionData_of_found volume (by omega) ⟨fuel, outcome⟩ fuel
  exact ⟨same, forall_congr' fun fuel => none_iff_of_rel (same fuel)⟩

theorem servicePath_agrees_twoPeims :
    (∀ fuel, Option.Rel SameAnswer
      (servicePath twoPeims 0 0x1000 efiSectionTe efiFvFiletypePeim fuel)
      (getFileSection twoPeims 0x1000 efiSectionTe efiFvFiletypePeim none fuel)) ∧
      ((∀ fuel, servicePath twoPeims 0 0x1000 efiSectionTe efiFvFiletypePeim fuel = none) ↔
        ∀ fuel, getFileSection twoPeims 0x1000 efiSectionTe efiFvFiletypePeim none fuel = none) :=
  servicePath_agrees twoPeims 0x1000 0 efiSectionTe efiFvFiletypePeim (by decide)
    (by decide +kernel)

end ArcFirmware.FileLookup
