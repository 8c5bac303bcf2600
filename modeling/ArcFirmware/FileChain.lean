import ArcFirmware.Lib.Layout
import ArcFirmware.PeiServices

/-!
# The chain of file headers a walk scans

Each file loop visits the first file of the volume and then, from a file it
does not select, the next 8-byte boundary after the end of that file.  `Scanned`
is that chain read off the memory; below `2 ^ 32` it is the set of heads of both
loops.  An untrusted size of zero leaves the chain where it is, and that is the
only way in which a walk fails to end.
-/

set_option autoImplicit false

namespace ArcFirmware.FileChain

open ArcFirmware.Memory ArcFirmware.Loop ArcFirmware.Layout ArcFirmware.Edk2
  ArcFirmware.UtilsLib ArcFirmware.PeiServices

/-- Headers examined by a search, from `start` up to the end of the volume. -/
inductive Scanned (mem : Mem) (type : UInt8) (name : Option EfiGuid) (eov start : Nat) :
    Nat → Prop where
  | first : Scanned mem type name eov start start
  | next {addr : Nat} (prior : Scanned mem type name eov start addr) (inside : addr < eov)
      (fits : addr + fileSize mem addr ≤ eov) (skipped : ¬ Selects mem type name addr) :
      Scanned mem type name eov start (roundUp 8 (addr + fileSize mem addr))

section Volume

variable {mem : Mem} {base : Nat}

theorem endOfVolume_of_lt (below : base + fvLength mem base < 2 ^ 32) :
    endOfVolume mem base = base + fvLength mem base :=
  Nat.mod_eq_of_lt (by omega)

theorem fvHeaderLength_lt (mem : Mem) (base : Nat) : fvHeaderLength mem base < 2 ^ 16 :=
  leAt_lt mem (base + 48) 2

theorem alignAddr_eq_roundUp {addr : Nat} (small : addr + 7 < 2 ^ 64) :
    alignAddr addr 8 = roundUp 8 addr :=
  alignAddr_eight addr small

theorem firstFile_of_lt (below : base < 2 ^ 32) :
    firstFile mem base = roundUp 8 (base + fvHeaderLength mem base) := by
  have short := fvHeaderLength_lt mem base
  have kept : u64 (base + fvHeaderLength mem base) = base + fvHeaderLength mem base :=
    Nat.mod_eq_of_lt (by omega)
  rw [firstFile, kept, alignAddr_eq_roundUp (by omega)]

theorem firstFile_aligned (below : base < 2 ^ 32) : 8 ∣ firstFile mem base := by
  rw [firstFile_of_lt below]
  exact dvd_roundUp _ _

end Volume

section Chain

variable {mem : Mem} {type : UInt8} {name : Option EfiGuid} {eov start addr : Nat}

theorem getFileSectionStep_below (below : eov ≤ 2 ^ 32) (inside : addr < eov) :
    getFileSectionStep mem type name eov addr =
      if eov < addr + fileSize mem addr then .done (.fail ⟨.volumeCorrupted, 224⟩)
      else if Selects mem type name addr then .done (.found addr (addr + fileSize mem addr))
      else .next (roundUp 8 (addr + fileSize mem addr)) := by
  have small := fileSize_lt mem addr
  have kept : u64 (addr + fileSize mem addr) = addr + fileSize mem addr :=
    Nat.mod_eq_of_lt (by omega)
  have pointer : u32 addr = addr := Nat.mod_eq_of_lt (by omega)
  rw [getFileSectionStep_eq, if_pos inside, kept, pointer, alignAddr_eq_roundUp (by omega)]

theorem getFileSectionStep_past (past : eov ≤ addr) :
    getFileSectionStep mem type name eov addr = .done (.fail ⟨.notFound, 241⟩) := by
  rw [getFileSectionStep_eq, if_neg (by omega)]

theorem getFileSectionStep_cases (mem : Mem) (type : UInt8) (name : Option EfiGuid) (addr : Nat)
    (below : eov ≤ 2 ^ 32) :
    (eov ≤ addr ∧ getFileSectionStep mem type name eov addr = .done (.fail ⟨.notFound, 241⟩)) ∨
    (addr < eov ∧ eov < addr + fileSize mem addr ∧
      getFileSectionStep mem type name eov addr = .done (.fail ⟨.volumeCorrupted, 224⟩)) ∨
    (addr < eov ∧ addr + fileSize mem addr ≤ eov ∧ Selects mem type name addr ∧
      getFileSectionStep mem type name eov addr =
        .done (.found addr (addr + fileSize mem addr))) ∨
    (addr < eov ∧ addr + fileSize mem addr ≤ eov ∧ ¬ Selects mem type name addr ∧
      getFileSectionStep mem type name eov addr =
        .next (roundUp 8 (addr + fileSize mem addr))) := by
  by_cases inside : addr < eov
  · rw [getFileSectionStep_below below inside]
    by_cases long : eov < addr + fileSize mem addr
    · exact Or.inr (Or.inl ⟨inside, long, if_pos long⟩)
    rw [if_neg long]
    by_cases selected : Selects mem type name addr
    · exact Or.inr (Or.inr (Or.inl ⟨inside, Nat.not_lt.mp long, selected, if_pos selected⟩))
    · exact Or.inr (Or.inr (Or.inr ⟨inside, Nat.not_lt.mp long, selected, if_neg selected⟩))
  · exact Or.inl ⟨Nat.not_lt.mp inside, getFileSectionStep_past (Nat.not_lt.mp inside)⟩

theorem getFileSectionStep_next_iff (below : eov ≤ 2 ^ 32) (after : Nat) :
    getFileSectionStep mem type name eov addr = .next after ↔
      addr < eov ∧ addr + fileSize mem addr ≤ eov ∧ ¬ Selects mem type name addr ∧
        after = roundUp 8 (addr + fileSize mem addr) := by
  rcases getFileSectionStep_cases mem type name addr below with
    ⟨past, step⟩ | ⟨_, long, step⟩ | ⟨_, _, selected, step⟩ | ⟨inside, fits, skipped, step⟩
  · simp [step, Nat.not_lt.mpr past]
  · simp [step, Nat.not_le.mpr long]
  · simp [step, selected]
  · simp [step, inside, fits, skipped, eq_comm]

theorem reaches_iff_scanned (below : eov ≤ 2 ^ 32) :
    Reaches (getFileSectionStep mem type name eov) start addr ↔
      Scanned mem type name eov start addr := by
  constructor
  · intro reached
    induction reached with
    | refl => exact .first
    | tail _ passed ih =>
        obtain ⟨inside, fits, skipped, rfl⟩ := (getFileSectionStep_next_iff below _).mp passed
        exact .next ih inside fits skipped
  · intro scanned
    induction scanned with
    | first => exact .refl
    | next _ inside fits skipped ih =>
        exact .tail ih ((getFileSectionStep_next_iff below _).mpr ⟨inside, fits, skipped, rfl⟩)

theorem Scanned.aligned (scanned : Scanned mem type name eov start addr)
    (aligned : 8 ∣ start) : 8 ∣ addr := by
  cases scanned with
  | first => exact aligned
  | next => exact dvd_roundUp _ _

theorem Scanned.start_le (scanned : Scanned mem type name eov start addr) : start ≤ addr := by
  induction scanned with
  | first => exact le_rfl
  | @next addr _ _ _ _ ih =>
      have step := le_roundUp (by norm_num : 0 < 8) (addr + fileSize mem addr)
      omega

theorem Scanned.named (scanned : Scanned mem type none eov start addr) :
    Scanned mem type name eov start addr := by
  induction scanned with
  | first => exact .first
  | next _ inside fits skipped ih =>
      exact .next ih inside fits fun selected => skipped selected.unnamed

/-! ## When the walk ends -/

/-- No header of size zero is passed over. -/
def NoStall (mem : Mem) (type : UInt8) (name : Option EfiGuid) (eov start : Nat) : Prop :=
  ∀ addr, Scanned mem type name eov start addr → addr < eov → fileSize mem addr = 0 →
    Selects mem type name addr

theorem NoStall.unnamed (moves : NoStall mem type name eov start) :
    NoStall mem type none eov start := by
  intro addr scanned inside empty
  exact (moves addr scanned.named inside empty).unnamed

def FileExitBelow (eov : Nat) : FileExit → Prop
  | .fail info => info.status = .notFound ∨ info.status = .volumeCorrupted
  | .found file eof => file < eov ∧ eof ≤ eov

theorem NoStall.advances (moves : NoStall mem type name eov start)
    (scanned : Scanned mem type name eov start addr) (inside : addr < eov)
    (skipped : ¬ Selects mem type name addr) : addr < roundUp 8 (addr + fileSize mem addr) := by
  have step := le_roundUp (by norm_num : 0 < 8) (addr + fileSize mem addr)
  have nonzero : fileSize mem addr ≠ 0 := fun empty => skipped (moves addr scanned inside empty)
  omega

/-- The distance to the end of the volume shrinks on every pass. -/
theorem NoStall.returns (moves : NoStall mem type name eov start) (below : eov ≤ 2 ^ 32) :
    ∃ leaving, Returns (getFileSectionStep mem type name eov) start leaving ∧
      FileExitBelow eov leaving := by
  refine returns_of_measure (Scanned mem type name eov start) (FileExitBelow eov)
    (fun addr => eov - addr) ?_ .first
  intro addr scanned
  rcases getFileSectionStep_cases mem type name addr below with
    ⟨_, step⟩ | ⟨_, _, step⟩ | ⟨inside, fits, _, step⟩ | ⟨inside, fits, skipped, step⟩
  · rw [step]
    exact Or.inl rfl
  · rw [step]
    exact Or.inr rfl
  · rw [step]
    exact ⟨inside, fits⟩
  · rw [step]
    have later := moves.advances scanned inside skipped
    exact ⟨.next scanned inside fits skipped, by omega⟩

theorem diverges_of_stall (below : eov ≤ 2 ^ 32) (aligned : 8 ∣ start)
    (scanned : Scanned mem type name eov start addr) (inside : addr < eov)
    (empty : fileSize mem addr = 0) (skipped : ¬ Selects mem type name addr) :
    Diverges (getFileSectionStep mem type name eov) start := by
  have still : roundUp 8 (addr + fileSize mem addr) = addr := by
    rw [empty, Nat.add_zero]
    exact roundUp_of_dvd (by norm_num) (scanned.aligned aligned)
  have turns : getFileSectionStep mem type name eov addr = .next addr :=
    (getFileSectionStep_next_iff below addr).mpr ⟨inside, by omega, skipped, still.symm⟩
  have stuck : Diverges (getFileSectionStep mem type name eov) addr :=
    diverges_of_invariant (· = addr) (fun state here => ⟨addr, here ▸ turns, rfl⟩) rfl
  by_contra ends
  obtain ⟨result, success⟩ := not_diverges_iff.mp ends
  have reached := (reaches_iff_scanned below).mpr scanned
  exact not_diverges_iff.mpr ⟨result, (reached.returns_iff result).mp success⟩ stuck

theorem noStall_iff_returns (below : eov ≤ 2 ^ 32) (aligned : 8 ∣ start) :
    NoStall mem type name eov start ↔
      ∃ leaving, Returns (getFileSectionStep mem type name eov) start leaving := by
  constructor
  · intro moves
    obtain ⟨leaving, success, _⟩ := moves.returns below
    exact ⟨leaving, success⟩
  · intro ends addr scanned inside empty
    by_contra skipped
    exact not_diverges_iff.mpr ends
      (diverges_of_stall below aligned scanned inside empty skipped)

end Chain

/-! ## The section loop always ends -/

/-- The three statuses with which a walk can be left. -/
def LookupStatus (status : EfiStatus) : Prop :=
  status = .success ∨ status = .notFound ∨ status = .volumeCorrupted

/-- `FindSection` rejects a size below its own header, so it always moves on. -/
theorem findSection_returns (mem : Mem) (type : UInt8) (sectionsEnd start : Nat)
    (below : sectionsEnd ≤ 2 ^ 32) :
    ∃ result, Returns (findSectionStep mem type sectionsEnd) start result ∧
      LookupStatus result.2.status := by
  refine returns_of_measure (fun _ => True)
    (fun result : Nat × StatusInfo => LookupStatus result.2.status)
    (fun addr => sectionsEnd - addr) ?_ trivial
  intro addr _
  rcases findSectionStep_cases mem type addr below with
    ⟨_, step⟩ | ⟨_, line, step⟩ | ⟨_, _, _, _, step⟩ | ⟨inside, large, _, _, step⟩
  · rw [step]
    exact Or.inr (Or.inl rfl)
  · rw [step]
    exact Or.inr (Or.inr rfl)
  · rw [step]
    exact Or.inl rfl
  · rw [step]
    exact ⟨trivial, by omega⟩

/-! ## The lookups as their loops -/

theorem getFileSectionReturns_iff (mem : Mem) (base : Nat) (sectionType_ type : UInt8)
    (name : Option EfiGuid) (result : Nat × StatusInfo) :
    GetFileSectionReturns mem base sectionType_ type name result ↔
      ∃ leaving, Returns (getFileSectionStep mem type name (endOfVolume mem base))
        (firstFile mem base) leaving ∧
        match leaving with
        | .fail info => result = (null, info)
        | .found file eof =>
            FindSectionReturns mem sectionType_ (u32 (file + sizeofFileHeader)) eof result := by
  constructor
  · rintro ⟨fuel, success⟩
    unfold getFileSection at success
    cases outcome : run (getFileSectionStep mem type name (endOfVolume mem base)) fuel
        (firstFile mem base) with
    | none => simp [outcome] at success
    | some leaving =>
        refine ⟨leaving, ⟨fuel, outcome⟩, ?_⟩
        cases leaving with
        | fail info =>
            simp only [outcome, Option.some.injEq] at success
            exact success.symm
        | found file eof =>
            simp only [outcome] at success
            exact ⟨fuel, success⟩
  · rintro ⟨leaving, ⟨fuel, outcome⟩, rest⟩
    cases leaving with
    | fail info => exact ⟨fuel, by simp only [getFileSection, outcome]; rw [rest]⟩
    | found file eof =>
        obtain ⟨more, success⟩ := rest
        refine ⟨max fuel more, ?_⟩
        have outer := run_mono _ fuel (max fuel more) _ _ outcome (by omega)
        have inner := run_mono _ more (max fuel more) _ _ success (by omega)
        simp only [getFileSection, outer]
        exact inner

theorem getFileSection_mono {mem : Mem} {base fuel more : Nat} {sectionType_ type : UInt8}
    {name : Option EfiGuid} {result : Nat × StatusInfo}
    (success : getFileSection mem base sectionType_ type name fuel = some result)
    (enough : fuel ≤ more) : getFileSection mem base sectionType_ type name more = some result := by
  unfold getFileSection at success ⊢
  cases outcome : run (getFileSectionStep mem type name (endOfVolume mem base)) fuel
      (firstFile mem base) with
  | none => simp [outcome] at success
  | some leaving =>
      rw [run_mono _ fuel more _ _ outcome enough]
      cases leaving with
      | fail info => simpa [outcome] using success
      | found file eof =>
          simp only [outcome] at success
          exact run_mono _ fuel more _ _ success enough

theorem getFileSectionReturns_unique {mem : Mem} {base : Nat} {sectionType_ type : UInt8}
    {name : Option EfiGuid} {first second : Nat × StatusInfo}
    (left : GetFileSectionReturns mem base sectionType_ type name first)
    (right : GetFileSectionReturns mem base sectionType_ type name second) : first = second := by
  obtain ⟨leaving, leftEnds, leftRest⟩ := (getFileSectionReturns_iff ..).mp left
  obtain ⟨_, rightEnds, rightRest⟩ := (getFileSectionReturns_iff ..).mp right
  cases leftEnds.unique rightEnds
  cases leaving with
  | fail info => exact leftRest.trans rightRest.symm
  | found file eof => exact Returns.unique leftRest rightRest

theorem getFileSectionReturns_found_iff {mem : Mem} {base file eof : Nat}
    {sectionType_ type : UInt8} {name : Option EfiGuid} (result : Nat × StatusInfo)
    (found : Returns (getFileSectionStep mem type name (endOfVolume mem base))
      (firstFile mem base) (.found file eof)) :
    GetFileSectionReturns mem base sectionType_ type name result ↔
      FindSectionReturns mem sectionType_ (u32 (file + sizeofFileHeader)) eof result := by
  rw [getFileSectionReturns_iff]
  constructor
  · intro success
    obtain ⟨leaving, ends, rest⟩ := success
    cases ends.unique found
    exact rest
  · intro success
    exact ⟨_, found, success⟩

theorem findNextFileReturns_of_returns {mem : Mem} {base stackAddr : Nat} {type : UInt8}
    {leaving : FileExit} (volume : base ≠ null) (status : EfiStatus) (after : Nat)
    (ends : Returns (getFileSectionStep mem type none (endOfVolume mem base))
      (firstFile mem base) leaving) :
    FindNextFileReturns mem stackAddr type base null status after ↔
      status = (handleOfExit leaving).1 ∧ after = (handleOfExit leaving).2.getD null := by
  rw [findNextFileReturns_first_iff _ _ _ _ _ _ volume]
  constructor
  · intro success
    obtain ⟨other, otherEnds, rfl, rfl⟩ := success
    cases otherEnds.unique ends
    exact ⟨rfl, rfl⟩
  · intro same
    exact ⟨leaving, ends, same.1.symm, same.2.symm⟩

theorem exists_getFileSectionReturns (mem : Mem) (base : Nat) (sectionType_ type : UInt8)
    (name : Option EfiGuid) (below : base + fvLength mem base < 2 ^ 32)
    (moves : NoStall mem type name (endOfVolume mem base) (firstFile mem base)) :
    ∃ result, GetFileSectionReturns mem base sectionType_ type name result ∧
      LookupStatus result.2.status := by
  have limit : endOfVolume mem base ≤ 2 ^ 32 := by
    rw [endOfVolume_of_lt below]
    exact below.le
  obtain ⟨leaving, success, bound⟩ := moves.returns limit
  cases leaving with
  | fail info =>
      exact ⟨(null, info), (getFileSectionReturns_iff ..).mpr ⟨_, success, rfl⟩, Or.inr bound⟩
  | found file eof =>
      obtain ⟨result, inner, status⟩ := findSection_returns mem sectionType_ eof
        (alignAddr (u32 (file + sizeofFileHeader)) 4) (bound.2.trans limit)
      exact ⟨result, (getFileSectionReturns_iff ..).mpr ⟨_, success, inner⟩, status⟩

theorem exists_findNextFileReturns (mem : Mem) (base stackAddr : Nat) (type : UInt8)
    (below : base + fvLength mem base < 2 ^ 32) (volume : base ≠ null)
    (moves : NoStall mem type none (endOfVolume mem base) (firstFile mem base)) :
    ∃ status after, FindNextFileReturns mem stackAddr type base null status after ∧
      LookupStatus status := by
  have limit : endOfVolume mem base ≤ 2 ^ 32 := by
    rw [endOfVolume_of_lt below]
    exact below.le
  obtain ⟨leaving, success, bound⟩ := moves.returns limit
  refine ⟨_, _, (findNextFileReturns_first_iff _ _ _ _ _ _ volume).mpr
    ⟨leaving, success, rfl, rfl⟩, ?_⟩
  cases leaving with
  | fail info => exact Or.inr bound
  | found file eof => exact Or.inl rfl

/-- Both walks end with one of their three statuses, and their iterator never
stands still, exactly when no header of size zero is passed over. -/
theorem walks_end_iff (mem : Mem) (base : Nat) (sectionType_ type : UInt8)
    (name : Option EfiGuid) (below : base + fvLength mem base < 2 ^ 32) :
    ((∃ result, GetFileSectionReturns mem base sectionType_ type name result ∧
        LookupStatus result.2.status) ∧
      (base ≠ null → ∀ stackAddr, ∃ status after,
        FindNextFileReturns mem stackAddr type base null status after ∧ LookupStatus status) ∧
      ∀ addr after, Reaches (getFileSectionStep mem type name (endOfVolume mem base))
        (firstFile mem base) addr →
        getFileSectionStep mem type name (endOfVolume mem base) addr = .next after →
          addr < after) ↔
      NoStall mem type name (endOfVolume mem base) (firstFile mem base) := by
  have limit : endOfVolume mem base ≤ 2 ^ 32 := by
    rw [endOfVolume_of_lt below]
    exact below.le
  constructor
  · rintro ⟨⟨result, success, _⟩, _⟩
    obtain ⟨leaving, ends, _⟩ := (getFileSectionReturns_iff ..).mp success
    exact (noStall_iff_returns limit (firstFile_aligned (by omega))).mpr ⟨leaving, ends⟩
  · intro moves
    refine ⟨exists_getFileSectionReturns mem base sectionType_ type name below moves,
      fun volume stackAddr =>
        exists_findNextFileReturns mem base stackAddr type below volume moves.unnamed, ?_⟩
    intro addr after reached passed
    have scanned := (reaches_iff_scanned limit).mp reached
    obtain ⟨inside, _, skipped, rfl⟩ := (getFileSectionStep_next_iff limit after).mp passed
    exact moves.advances scanned inside skipped

/-- A volume of 256 bytes with a 72-byte header and zeros after it. -/
def zeroVolume : Mem :=
  place 0x1000 (List.replicate 32 0 ++ [0, 1, 0, 0, 0, 0, 0, 0, 0x5f, 0x46, 0x56, 0x48] ++
    [0, 0, 0, 0, 0x48, 0])

theorem walks_end_iff_zeroVolume :
    ((∃ result, GetFileSectionReturns zeroVolume 0x1000 efiSectionTe efiFvFiletypePeim none
        result ∧ LookupStatus result.2.status) ∧
      (0x1000 ≠ null → ∀ stackAddr, ∃ status after,
        FindNextFileReturns zeroVolume stackAddr efiFvFiletypePeim 0x1000 null status after ∧
          LookupStatus status) ∧
      ∀ addr after, Reaches (getFileSectionStep zeroVolume efiFvFiletypePeim none
          (endOfVolume zeroVolume 0x1000)) (firstFile zeroVolume 0x1000) addr →
        getFileSectionStep zeroVolume efiFvFiletypePeim none (endOfVolume zeroVolume 0x1000)
          addr = .next after → addr < after) ↔
      NoStall zeroVolume efiFvFiletypePeim none (endOfVolume zeroVolume 0x1000)
        (firstFile zeroVolume 0x1000) :=
  walks_end_iff zeroVolume 0x1000 efiSectionTe efiFvFiletypePeim none (by decide)

theorem walks_hang_on_zeroVolume :
    fvLength zeroVolume 0x1000 = 0x100 ∧
      (∀ result, ¬ GetFileSectionReturns zeroVolume 0x1000 efiSectionTe efiFvFiletypePeim none
        result) ∧
      ∀ stackAddr status after, ¬ FindNextFileReturns zeroVolume stackAddr efiFvFiletypePeim
        0x1000 null status after := by
  have diverges : Diverges (getFileSectionStep zeroVolume efiFvFiletypePeim none
      (endOfVolume zeroVolume 0x1000)) (firstFile zeroVolume 0x1000) :=
    diverges_of_stall (by decide) (by decide) .first (by decide) (by decide) (by decide)
  have never := not_exists.mp (mt not_diverges_iff.mpr (not_not.mpr diverges))
  refine ⟨by decide, ?_, ?_⟩
  · intro result success
    obtain ⟨leaving, ends, _⟩ := (getFileSectionReturns_iff ..).mp success
    exact never leaving ends
  · intro stackAddr status after success
    obtain ⟨leaving, ends, _⟩ :=
      (findNextFileReturns_first_iff _ _ _ _ _ _ (by decide)).mp success
    exact never leaving ends

end ArcFirmware.FileChain
