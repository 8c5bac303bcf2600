import ArcFirmware.FileChain

/-!
# What the walks read

The heads of the two loops and the bytes each pass fetches there.  The loops
test that the iterator is below the end and never that a whole header is, so a
walk stays inside the volume exactly when no header it comes to runs over the
end, and inside the file exactly when the same holds of its sections.
-/

set_option autoImplicit false

namespace ArcFirmware.ReadBounds

open ArcFirmware.Memory ArcFirmware.Reader ArcFirmware.Loop ArcFirmware.Layout
  ArcFirmware.Edk2 ArcFirmware.UtilsLib ArcFirmware.PeiServices ArcFirmware.FileChain

/-! ## Sections a search comes to -/

inductive SectionScanned (mem : Mem) (type : UInt8) (sectionsEnd start : Nat) : Nat → Prop where
  | first : SectionScanned mem type sectionsEnd start start
  | next {addr : Nat} (prior : SectionScanned mem type sectionsEnd start addr)
      (inside : addr < sectionsEnd) (large : 4 ≤ sectionSize mem addr)
      (fits : addr + sectionSize mem addr ≤ sectionsEnd) (skipped : sectionType mem addr ≠ type) :
      SectionScanned mem type sectionsEnd start (addr + sectionSize mem addr)

section Sections

variable {mem : Mem} {type : UInt8} {sectionsEnd start addr : Nat}

theorem findSectionStep_next_iff (below : sectionsEnd < 2 ^ 32) (after : Nat) :
    findSectionStep mem type sectionsEnd addr = .next after ↔
      addr < sectionsEnd ∧ 4 ≤ sectionSize mem addr ∧
        addr + sectionSize mem addr ≤ sectionsEnd ∧ sectionType mem addr ≠ type ∧
        after = addr + sectionSize mem addr := by
  rcases findSectionStep_cases mem type addr below.le with
    ⟨past, step⟩ | ⟨short | long, line, step⟩ | ⟨_, _, _, found, step⟩ |
      ⟨inside, large, fits, skipped, step⟩
  · simp [step, Nat.not_lt.mpr past]
  · simp [step, Nat.not_le.mpr short]
  · simp [step, Nat.not_le.mpr long]
  · simp [step, found]
  · simp [step, inside, large, fits, skipped, eq_comm]

theorem reaches_iff_sectionScanned (below : sectionsEnd < 2 ^ 32) :
    Reaches (findSectionStep mem type sectionsEnd) start addr ↔
      SectionScanned mem type sectionsEnd start addr := by
  constructor
  · intro reached
    induction reached with
    | refl => exact .first
    | tail _ passed ih =>
        obtain ⟨inside, large, fits, skipped, rfl⟩ := (findSectionStep_next_iff below _).mp passed
        exact .next ih inside large fits skipped
  · intro scanned
    induction scanned with
    | first => exact .refl
    | next _ inside large fits skipped ih =>
        apply Reaches.tail ih
        exact (findSectionStep_next_iff below _).mpr ⟨inside, large, fits, skipped, rfl⟩

theorem SectionScanned.start_le
    (scanned : SectionScanned mem type sectionsEnd start addr) : start ≤ addr := by
  induction scanned with
  | first => exact Nat.le_refl start
  | next _ _ _ _ _ ih => exact ih.trans (Nat.le_add_right _ _)

theorem mem_reads_findSectionBody {target : Nat}
    (fetched : target ∈ reads mem (findSectionBody type sectionsEnd addr))
    (below : sectionsEnd < 2 ^ 32) :
    addr < sectionsEnd ∧ ((∃ i < 3, target = bus (addr + i)) ∨
      (target = bus (addr + 3) ∧ addr + 4 ≤ sectionsEnd)) := by
  have small := sectionSize_lt mem addr
  by_cases inside : addr < sectionsEnd
  · have kept : u64 (addr + sectionSize mem addr) = addr + sectionSize mem addr :=
      Nat.mod_eq_of_lt (by omega)
    simp only [findSectionBody, if_pos inside, reads_bind, reads_ite, reads_pure,
      value_readSectionSize, sectionSize_u32, kept, List.mem_append, ite_self,
      List.append_nil] at fetched
    refine ⟨inside, ?_⟩
    rcases fetched with size | fetched
    · obtain ⟨i, bound, rfl⟩ := (mem_reads_readLe ..).mp size
      exact Or.inl ⟨i, bound, bus_bus_add addr i⟩
    · by_cases short : sectionSize mem addr < sizeofSectionHeader
      · simp [short] at fetched
      by_cases long : addr + sectionSize mem addr > sectionsEnd
      · simp [long] at fetched
      rw [if_neg short, if_neg long] at fetched
      have byte := List.mem_singleton.mp fetched
      have four : sizeofSectionHeader = 4 := rfl
      exact Or.inr ⟨byte.trans (bus_bus_add addr 3), by omega⟩
  · simp [findSectionBody, inside] at fetched

theorem size_mem_reads_findSectionBody (inside : addr < sectionsEnd) (i : Nat) (bound : i < 3) :
    bus (addr + i) ∈ reads mem (findSectionBody type sectionsEnd addr) := by
  simp only [findSectionBody, if_pos inside, reads_bind, List.mem_append, readSectionSize,
    mem_reads_readLe]
  exact Or.inl ⟨i, bound, (bus_bus_add addr i).symm⟩

end Sections

/-! ## File headers -/

section Files

variable {mem : Mem} {type : UInt8} {name : Option EfiGuid} {eov addr target : Nat}

theorem mem_reads_fileSize :
    target ∈ reads mem (readFileSize (u32 addr)) ↔ ∃ i < 3, target = bus (addr + 20 + i) := by
  have same (i : Nat) : bus (u32 addr + 20 + i) = bus (addr + 20 + i) := by
    rw [Nat.add_assoc, Nat.add_assoc]
    exact bus_bus_add addr (20 + i)
  simp only [readFileSize, mem_reads_readLe, same]

theorem mem_reads_fileName :
    target ∈ reads mem (readFileName (u32 addr)) ↔ ∃ i < 16, target = bus (addr + i) := by
  have same (i : Nat) : bus (u32 addr + i) = bus (addr + i) := bus_bus_add addr i
  simp only [readFileName, mem_reads_readGuid, same]

theorem mem_reads_fileType :
    target ∈ reads mem (readFileType (u32 addr)) ↔ target = bus (addr + 18) := by
  have same : bus (u32 addr + 18) = bus (addr + 18) := bus_bus_add addr 18
  simp only [readFileType, reads_readByte, List.mem_singleton, same]

/-- A byte of one of the three fields a pass looks at. -/
def HeaderByte (addr target : Nat) : Prop := ∃ i < 23, target = bus (addr + i)

theorem headerByte_of_field {mem : Mem} {addr target : Nat}
    (field : target ∈ reads mem (readFileSize (u32 addr)) ∨
      target ∈ reads mem (readFileName (u32 addr)) ∨
      target ∈ reads mem (readFileType (u32 addr))) : HeaderByte addr target := by
  rcases field with size | name | type
  · obtain ⟨i, bound, rfl⟩ := mem_reads_fileSize.mp size
    exact ⟨20 + i, by omega, by rw [Nat.add_assoc]⟩
  · obtain ⟨i, bound, rfl⟩ := mem_reads_fileName.mp name
    exact ⟨i, by omega, rfl⟩
  · exact ⟨18, by omega, mem_reads_fileType.mp type⟩

theorem mem_reads_typeTest {α : Type} {found other : α}
    (fetched : target ∈ reads mem (do
      if (← readFileType (u32 addr)) = type then return found
      return other)) : HeaderByte addr target := by
  simp only [reads_bind, reads_ite, reads_pure, ite_self, List.append_nil] at fetched
  exact headerByte_of_field (Or.inr (Or.inr fetched))

theorem mem_reads_getFileSectionBody
    (fetched : target ∈ reads mem (getFileSectionBody type name eov addr)) :
    addr < eov ∧ HeaderByte addr target := by
  by_cases inside : addr < eov
  · refine ⟨inside, ?_⟩
    simp only [getFileSectionBody, if_pos inside] at fetched
    rw [reads_bind, List.mem_append, reads_bind, List.mem_append, reads_ite] at fetched
    rcases fetched with size | nameText | fetched
    · exact headerByte_of_field (Or.inl size)
    · exact headerByte_of_field (Or.inr (Or.inl nameText))
    · split at fetched
      · cases fetched
      cases name with
      | none => exact mem_reads_typeTest fetched
      | some wanted =>
          simp only [reads_bind, reads_pure, value_pure, List.mem_append,
            List.not_mem_nil, false_or] at fetched
          rcases fetched with nameAgain | fetched
          · exact headerByte_of_field (Or.inr (Or.inl nameAgain))
          · have typed : compareGuids wanted (fileName mem addr) = true ∧
                target ∈ reads mem (readFileType (u32 addr)) := by simpa using fetched
            exact headerByte_of_field (Or.inr (Or.inr typed.2))
  · simp [getFileSectionBody, inside] at fetched

theorem mem_reads_findNextFileBody
    (fetched : target ∈ reads mem (findNextFileBody type eov addr)) :
    addr < eov ∧ HeaderByte addr target := by
  by_cases inside : addr < eov
  · refine ⟨inside, ?_⟩
    simp only [findNextFileBody, if_pos inside] at fetched
    rw [reads_bind, List.mem_append, reads_bind, List.mem_append, reads_ite] at fetched
    rcases fetched with size | nameText | fetched
    · exact headerByte_of_field (Or.inl size)
    · exact headerByte_of_field (Or.inr (Or.inl nameText))
    · split at fetched
      · cases fetched
      exact mem_reads_typeTest fetched
  · simp [findNextFileBody, inside] at fetched

theorem header_mem_reads_getFileSectionBody (inside : addr < eov) (i : Nat)
    (field : i < 16 ∨ (20 ≤ i ∧ i < 23)) :
    bus (addr + i) ∈ reads mem (getFileSectionBody type name eov addr) := by
  simp only [getFileSectionBody, if_pos inside, reads_bind, List.mem_append]
  rcases field with low | ⟨low, high⟩
  · exact Or.inr (Or.inl (mem_reads_fileName.mpr ⟨i, low, rfl⟩))
  · exact Or.inl (mem_reads_fileSize.mpr ⟨i - 20, by omega, by congr 1; omega⟩)

end Files

/-! ## Walks inside the volume -/

section Lookup

variable (mem : Mem) (base : Nat) (sectionType_ type : UInt8) (name : Option EfiGuid)

def InVolume (target : Nat) : Prop := base ≤ target ∧ target < base + fvLength mem base

/-- No header on the chain of files runs over the end of the volume, and none of
the searched file's sections runs over the end of the file or starts below the
volume. -/
def HeadersFit : Prop :=
  (∀ addr, Scanned mem type name (endOfVolume mem base) (firstFile mem base) addr →
    addr < endOfVolume mem base → addr + 23 ≤ endOfVolume mem base) ∧
  ∀ file, Scanned mem type name (endOfVolume mem base) (firstFile mem base) file →
    file < endOfVolume mem base → file + fileSize mem file ≤ endOfVolume mem base →
    Selects mem type name file →
      ∀ addr, SectionScanned mem sectionType_ (file + fileSize mem file)
        (roundUp 4 (u32 (file + sizeofFileHeader))) addr →
        addr < file + fileSize mem file → base ≤ addr ∧ addr + 3 ≤ file + fileSize mem file

/-- Every byte the three loops fetch is a byte of the volume, the section loop's
also of the searched file, and memories that agree on the volume give the same
outcome at every fuel. -/
structure ReadsOnlyVolume : Prop where
  files : ∀ addr, Reaches (getFileSectionStep mem type name (endOfVolume mem base))
    (firstFile mem base) addr →
    ∀ target ∈ reads mem (getFileSectionBody type name (endOfVolume mem base) addr),
      InVolume mem base target
  sections : ∀ file eof, Returns (getFileSectionStep mem type name (endOfVolume mem base))
    (firstFile mem base) (.found file eof) →
    ∀ addr, Reaches (findSectionStep mem sectionType_ eof)
      (alignAddr (u32 (file + sizeofFileHeader)) 4) addr →
      ∀ target ∈ reads mem (findSectionBody sectionType_ eof addr),
        InVolume mem base target ∧ target < eof
  handles : ∀ addr, Reaches (findNextFileStep mem type (endOfVolume mem base))
    (firstFile mem base) addr →
    ∀ target ∈ reads mem (findNextFileBody type (endOfVolume mem base) addr),
      InVolume mem base target
  outcome : ∀ other, AgreeOn (InVolume mem base) mem other → ∀ fuel,
    getFileSection mem base sectionType_ type name fuel =
      getFileSection other base sectionType_ type name fuel ∧
    ∀ stackAddr, peiFfsFindNextFile mem stackAddr type base (some null) fuel =
      peiFfsFindNextFile other stackAddr type base (some null) fuel

end Lookup

section Bounds

variable {mem : Mem} {base : Nat} {sectionType_ type : UInt8} {name : Option EfiGuid}

theorem returns_found_iff {eov start : Nat} (below : eov ≤ 2 ^ 32) (file eof : Nat) :
    Returns (getFileSectionStep mem type name eov) start (.found file eof) ↔
      Scanned mem type name eov start file ∧ file < eov ∧ file + fileSize mem file ≤ eov ∧
        Selects mem type name file ∧ eof = file + fileSize mem file := by
  have step (addr : Nat) : getFileSectionStep mem type name eov addr = .done (.found file eof) ↔
      addr < eov ∧ addr + fileSize mem addr ≤ eov ∧ Selects mem type name addr ∧
        addr = file ∧ addr + fileSize mem addr = eof := by
    rcases getFileSectionStep_cases mem type name addr below with
      ⟨past, pass⟩ | ⟨_, long, pass⟩ | ⟨inside, fits, selected, pass⟩ | ⟨_, _, skipped, pass⟩
    · simp [pass, Nat.not_lt.mpr past]
    · simp [pass, Nat.not_le.mpr long]
    · simp [pass, inside, fits, selected]
    · simp [pass, skipped]
  constructor
  · intro success
    obtain ⟨addr, reached, left⟩ := success.exit
    obtain ⟨inside, fits, selected, rfl, rfl⟩ := (step addr).mp left
    exact ⟨(reaches_iff_scanned below).mp reached, inside, fits, selected, rfl⟩
  · intro found
    obtain ⟨scanned, inside, fits, selected, rfl⟩ := found
    have reached := (reaches_iff_scanned below).mpr scanned
    rw [reached.returns_iff]
    exact returns_done ((step file).mpr ⟨inside, fits, selected, rfl, rfl⟩)

/-- A header whose name and size are fetched inside a volume does not run over
its end: an aligned header that wraps has the top byte of memory in its name. -/
theorem header_fits_of_reads {eov addr : Nat} (below : eov < 2 ^ 32) (aligned : 8 ∣ addr)
    (inside : addr < eov) (fields : ∀ i, i < 16 ∨ (20 ≤ i ∧ i < 23) → bus (addr + i) < eov) :
    addr + 23 ≤ eov := by
  have top := fields 22 (by omega)
  have name := fields (2 ^ 32 - 1 - addr)
  by_cases wraps : addr + 22 < 2 ^ 32
  · rw [bus_of_lt wraps] at top
    omega
  · have last := name (by omega)
    rw [bus_of_lt (by omega)] at last
    omega

theorem alignAddr_u32_four (addr : Nat) : alignAddr (u32 addr) 4 = roundUp 4 (u32 addr) := by
  have small : u32 addr < 2 ^ 32 := Nat.mod_lt _ (by norm_num)
  exact alignAddr_four (u32 addr) (by omega)

theorem headersFit_of_reads (below : base + fvLength mem base < 2 ^ 32)
    (inside : ReadsOnlyVolume mem base sectionType_ type name) :
    HeadersFit mem base sectionType_ type name := by
  have limit := endOfVolume_of_lt below
  have eovBelow : endOfVolume mem base ≤ 2 ^ 32 := by omega
  refine ⟨?_, ?_⟩
  · intro addr scanned before
    apply header_fits_of_reads (by omega) (scanned.aligned (firstFile_aligned (by omega))) before
    intro i field
    have fetched := inside.files addr ((reaches_iff_scanned eovBelow).mpr scanned) _
      (header_mem_reads_getFileSectionBody before i field)
    rw [limit]
    exact fetched.2
  · intro file scanned before fits selected addr later short
    have found := (returns_found_iff eovBelow file _).mpr ⟨scanned, before, fits, selected, rfl⟩
    have reached : Reaches (findSectionStep mem sectionType_ (file + fileSize mem file))
        (alignAddr (u32 (file + sizeofFileHeader)) 4) addr := by
      rw [alignAddr_u32_four]
      exact (reaches_iff_sectionScanned (by omega)).mpr later
    have fetched (i : Nat) (bound : i < 3) := inside.sections file _ found addr reached _
      (size_mem_reads_findSectionBody short i bound)
    have low := (fetched 0 (by omega)).1.1
    have middle := (fetched 1 (by omega)).2
    have high := (fetched 2 (by omega)).2
    simp only [bus] at low middle high
    omega

theorem Scanned.base_le {addr : Nat} (below : base + fvLength mem base < 2 ^ 32)
    (scanned : Scanned mem type name (endOfVolume mem base) (firstFile mem base) addr) :
    base ≤ addr := by
  have start := scanned.start_le
  have step := le_roundUp (by norm_num : 0 < 8) (base + fvHeaderLength mem base)
  rw [firstFile_of_lt (by omega)] at start
  omega

theorem HeadersFit.header_inside {addr target : Nat}
    (fit : HeadersFit mem base sectionType_ type name)
    (below : base + fvLength mem base < 2 ^ 32)
    (scanned : Scanned mem type name (endOfVolume mem base) (firstFile mem base) addr)
    (before : addr < endOfVolume mem base) (byte : HeaderByte addr target) :
    InVolume mem base target := by
  have limit := endOfVolume_of_lt below
  have room := fit.1 addr scanned before
  have low := Scanned.base_le below scanned
  obtain ⟨i, bound, rfl⟩ := byte
  rw [bus_of_lt (by omega)]
  exact ⟨by omega, by omega⟩

theorem HeadersFit.section_inside {file eof addr target : Nat}
    (fit : HeadersFit mem base sectionType_ type name)
    (below : base + fvLength mem base < 2 ^ 32)
    (found : Returns (getFileSectionStep mem type name (endOfVolume mem base))
      (firstFile mem base) (.found file eof))
    (reached : Reaches (findSectionStep mem sectionType_ eof)
      (alignAddr (u32 (file + sizeofFileHeader)) 4) addr)
    (fetched : target ∈ reads mem (findSectionBody sectionType_ eof addr)) :
    InVolume mem base target ∧ target < eof := by
  have limit := endOfVolume_of_lt below
  have eovBelow : endOfVolume mem base ≤ 2 ^ 32 := by omega
  obtain ⟨scanned, before, fits, selected, rfl⟩ := (returns_found_iff eovBelow file eof).mp found
  rw [alignAddr_u32_four] at reached
  have later := (reaches_iff_sectionScanned (by omega)).mp reached
  obtain ⟨inside, byte⟩ := mem_reads_findSectionBody fetched (by omega)
  obtain ⟨low, high⟩ := fit.2 file scanned before fits selected addr later inside
  unfold InVolume
  rcases byte with ⟨i, bound, rfl⟩ | ⟨rfl, room⟩
  · rw [bus_of_lt (by omega)]
    omega
  · rw [bus_of_lt (by omega)]
    omega

/-! ### The outcome -/

section Outcome

variable {other : Mem}

theorem same_of_inVolume (below : base + fvLength mem base < 2 ^ 32)
    (agree : AgreeOn (InVolume mem base) mem other) {target : Nat}
    (inside : InVolume mem base target) : mem target = other target := by
  have small : bus target = target := bus_of_lt (by unfold InVolume at inside; omega)
  have same := agree target (by rw [small]; exact inside)
  simpa only [byteAt, small] using same

theorem volumeHeader_agree (below : base + fvLength mem base < 2 ^ 32)
    (header : 64 ≤ fvHeaderLength mem base) (room : fvHeaderLength mem base ≤ fvLength mem base)
    (agree : AgreeOn (InVolume mem base) mem other) :
    endOfVolume other base = endOfVolume mem base ∧ firstFile other base = firstFile mem base := by
  have field (offset count : Nat) (early : offset + count ≤ 64) :
      leAt mem (base + offset) count = leAt other (base + offset) count := by
    apply leAt_agree agree
    intro i bound
    rw [bus_of_lt (by omega)]
    unfold InVolume
    omega
  have lengths : fvLength mem base = fvLength other base := field 32 8 (by omega)
  have headers : fvHeaderLength mem base = fvHeaderLength other base := field 48 2 (by omega)
  exact ⟨by rw [endOfVolume, endOfVolume, lengths], by rw [firstFile, firstFile, headers]⟩

theorem HeadersFit.outcome (fit : HeadersFit mem base sectionType_ type name)
    (below : base + fvLength mem base < 2 ^ 32) (header : 64 ≤ fvHeaderLength mem base)
    (room : fvHeaderLength mem base ≤ fvLength mem base)
    (agree : AgreeOn (InVolume mem base) mem other) (fuel : Nat) :
    getFileSection mem base sectionType_ type name fuel =
      getFileSection other base sectionType_ type name fuel := by
  have limit := endOfVolume_of_lt below
  obtain ⟨ending, beginning⟩ := volumeHeader_agree below header room agree
  have eovBelow : endOfVolume mem base ≤ 2 ^ 32 := by omega
  have heads : ∀ addr, Reaches (getFileSectionStep mem type name (endOfVolume mem base))
      (firstFile mem base) addr →
      ∀ target ∈ reads mem (getFileSectionBody type name (endOfVolume mem base) addr),
        mem target = other target := by
    intro addr reached target fetched
    obtain ⟨before, byte⟩ := mem_reads_getFileSectionBody fetched
    have scanned := (reaches_iff_scanned eovBelow).mp reached
    exact same_of_inVolume below agree (fit.header_inside below scanned before byte)
  have files : run (getFileSectionStep mem type name (endOfVolume mem base)) fuel
      (firstFile mem base) =
      run (getFileSectionStep other type name (endOfVolume mem base)) fuel
        (firstFile mem base) :=
    run_congr_of_reads mem other (getFileSectionBody type name (endOfVolume mem base)) heads fuel
  rw [getFileSection, getFileSection, ending, beginning, ← files]
  cases outcome : run (getFileSectionStep mem type name (endOfVolume mem base)) fuel
      (firstFile mem base) with
  | none => rfl
  | some leaving =>
      cases leaving with
      | fail info => rfl
      | found file eof =>
          refine run_congr_of_reads mem other (findSectionBody sectionType_ eof) ?_ fuel
          intro addr reached target fetched
          have inside := fit.section_inside below ⟨fuel, outcome⟩ reached fetched
          exact same_of_inVolume below agree inside.1

theorem HeadersFit.handleOutcome (fit : HeadersFit mem base sectionType_ type name)
    (below : base + fvLength mem base < 2 ^ 32) (header : 64 ≤ fvHeaderLength mem base)
    (room : fvHeaderLength mem base ≤ fvLength mem base)
    (agree : AgreeOn (InVolume mem base) mem other) (fuel stackAddr : Nat) :
    peiFfsFindNextFile mem stackAddr type base (some null) fuel =
      peiFfsFindNextFile other stackAddr type base (some null) fuel := by
  have limit := endOfVolume_of_lt below
  obtain ⟨ending, beginning⟩ := volumeHeader_agree below header room agree
  have eovBelow : endOfVolume mem base ≤ 2 ^ 32 := by omega
  have heads : ∀ addr, Reaches (findNextFileStep mem type (endOfVolume mem base))
      (firstFile mem base) addr →
      ∀ target ∈ reads mem (findNextFileBody type (endOfVolume mem base) addr),
        mem target = other target := by
    intro addr reached target fetched
    obtain ⟨before, byte⟩ := mem_reads_findNextFileBody fetched
    have scanned := (reaches_iff_scanned eovBelow).mp
      ((reaches_findNextFileStep_iff ..).mp reached)
    exact same_of_inVolume below agree (fit.header_inside below scanned.named before byte)
  have files : run (findNextFileStep mem type (endOfVolume mem base)) fuel
      (firstFile mem base) =
      run (findNextFileStep other type (endOfVolume mem base)) fuel (firstFile mem base) :=
    run_congr_of_reads mem other (findNextFileBody type (endOfVolume mem base)) heads fuel
  simp only [peiFfsFindNextFile, if_true, ending, beginning, files]

end Outcome

end Bounds

/-- A lookup reads the volume only, and depends on it only, exactly when the
headers it comes to fit. -/
theorem readsOnlyVolume_iff (mem : Mem) (base : Nat) (sectionType_ type : UInt8)
    (name : Option EfiGuid) (header : 64 ≤ fvHeaderLength mem base)
    (room : fvHeaderLength mem base ≤ fvLength mem base)
    (below : base + fvLength mem base < 2 ^ 32) :
    ReadsOnlyVolume mem base sectionType_ type name ↔
      HeadersFit mem base sectionType_ type name := by
  refine ⟨headersFit_of_reads below, ?_⟩
  intro fit
  have limit := endOfVolume_of_lt below
  have eovBelow : endOfVolume mem base ≤ 2 ^ 32 := by omega
  refine ⟨?_, ?_, ?_, ?_⟩
  · intro addr reached target fetched
    obtain ⟨before, byte⟩ := mem_reads_getFileSectionBody fetched
    exact fit.header_inside below ((reaches_iff_scanned eovBelow).mp reached) before byte
  · intro file eof found addr reached target fetched
    exact fit.section_inside below found reached fetched
  · intro addr reached target fetched
    obtain ⟨before, byte⟩ := mem_reads_findNextFileBody fetched
    have scanned := (reaches_iff_scanned eovBelow).mp
      ((reaches_findNextFileStep_iff ..).mp reached)
    exact fit.header_inside below scanned.named before byte
  · intro other agree fuel
    exact ⟨fit.outcome below header room agree fuel,
      fun stackAddr => fit.handleOutcome below header room agree fuel stackAddr⟩

def tightVolume (beyond : UInt8) : Mem :=
  fun addr =>
    if 0x1048 ≤ addr then beyond
    else
      place 0x1000 (List.replicate 32 0 ++ [0x48, 0, 0, 0, 0, 0, 0, 0, 0x5f, 0x46, 0x56, 0x48] ++
        [0, 0, 0, 0, 0x40, 0]) addr

theorem readsOnlyVolume_iff_tightVolume :
    ReadsOnlyVolume (tightVolume 0) 0x1000 efiSectionTe efiFvFiletypePeim none ↔
      HeadersFit (tightVolume 0) 0x1000 efiSectionTe efiFvFiletypePeim none :=
  readsOnlyVolume_iff (tightVolume 0) 0x1000 efiSectionTe efiFvFiletypePeim none
    (by decide) (by decide) (by decide)

/-- The header at the last eight bytes of the volume gets its type and size from
the bytes after it, and they decide the outcome. -/
theorem outcome_depends_beyond_volume :
    fvHeaderLength (tightVolume 0) 0x1000 = 64 ∧ fvLength (tightVolume 0) 0x1000 = 72 ∧
      AgreeOn (InVolume (tightVolume 0) 0x1000) (tightVolume 0) (tightVolume 0x06) ∧
      peiFfsFindNextFile (tightVolume 0) 0 efiFvFiletypePeim 0x1000 (some null) 9 = none ∧
      peiFfsFindNextFile (tightVolume 0x06) 0 efiFvFiletypePeim 0x1000 (some null) 9 =
        some (.volumeCorrupted, some null) ∧
      ¬ ReadsOnlyVolume (tightVolume 0) 0x1000 efiSectionTe efiFvFiletypePeim none := by
  have agree : AgreeOn (InVolume (tightVolume 0) 0x1000) (tightVolume 0) (tightVolume 0x06) := by
    intro addr inside
    have length : fvLength (tightVolume 0) 0x1000 = 72 := by decide
    rw [InVolume, length] at inside
    have early : ¬ 0x1048 ≤ bus addr := by omega
    simp only [byteAt, tightVolume, if_neg early]
  have before : peiFfsFindNextFile (tightVolume 0) 0 efiFvFiletypePeim 0x1000 (some null) 9 =
      none := by decide
  have after : peiFfsFindNextFile (tightVolume 0x06) 0 efiFvFiletypePeim 0x1000 (some null) 9 =
      some (.volumeCorrupted, some null) := by decide
  refine ⟨by decide, by decide, agree, before, after, ?_⟩
  intro inside
  have same := (inside.outcome _ agree 9).2 0
  rw [before, after] at same
  cases same

end ArcFirmware.ReadBounds
