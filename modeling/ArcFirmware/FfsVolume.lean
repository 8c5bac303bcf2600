import ArcFirmware.FileChain

/-!
# File lookup over well-formed volumes

A volume is a header, files packed at 8-byte boundaries and erased flash up to
its length.  Both file loops select the first file that matches.  Past the last
file they take the erased bytes for headers of `2 ^ 24 - 1` bytes, so a search
that nothing matches is reported as not found only for some amounts of free
space.
-/

set_option autoImplicit false

namespace ArcFirmware.FfsVolume

open ArcFirmware.Memory ArcFirmware.Loop ArcFirmware.Layout ArcFirmware.Edk2
  ArcFirmware.UtilsLib ArcFirmware.PeiServices ArcFirmware.FileChain

structure FileHdr where
  name : EfiGuid
  type : UInt8
  size : Nat
  size_ge : 24 ≤ size
  size_lt : size < 2 ^ 24

abbrev fileStarts : Nat → List FileHdr → List (Nat × FileHdr) := starts 8 FileHdr.size

abbrev fileCursor : Nat → List FileHdr → Nat := cursor 8 FileHdr.size

/-- The volume header reaches at least over the fields that the walks read. -/
structure Volume where
  base : Nat
  headerLength : Nat
  length : Nat
  files : List FileHdr
  aligned : 8 ∣ base
  header_ge : 50 ≤ headerLength
  header_lt : headerLength < 2 ^ 16
  header_le : headerLength ≤ length
  below : base + length ≤ 2 ^ 32
  fits : ∀ entry ∈ fileStarts (roundUp 8 (base + headerLength)) files,
    entry.1 + entry.2.size ≤ base + length

namespace Volume

def first (volume : Volume) : Nat := roundUp 8 (volume.base + volume.headerLength)

def eov (volume : Volume) : Nat := volume.base + volume.length

def free (volume : Volume) : Nat := fileCursor volume.first volume.files

/-- Amount of free space; zero also when the last file ends in the volume's last
eight bytes. -/
def freeLength (volume : Volume) : Nat := volume.eov - volume.free

def entries (volume : Volume) : List (Nat × FileHdr) := fileStarts volume.first volume.files

end Volume

def FilesAt (mem : Mem) (start : Nat) (files : List FileHdr) : Prop :=
  ∀ entry ∈ fileStarts start files, fileName mem entry.1 = entry.2.name ∧
    fileType mem entry.1 = entry.2.type ∧ fileSize mem entry.1 = entry.2.size

structure VolumeAt (mem : Mem) (volume : Volume) : Prop where
  length : fvLength mem volume.base = volume.length
  header : fvHeaderLength mem volume.base = volume.headerLength
  files : FilesAt mem volume.first volume.files
  erased : ∀ addr, volume.free ≤ addr → addr < volume.eov → byteAt mem addr = 0xff

/-- The files a search is after. -/
def FileHdr.Matches (type : UInt8) (name : Option EfiGuid) (file : FileHdr) : Prop :=
  (∀ wanted, name = some wanted → file.name = wanted) ∧ file.type = type

theorem FileHdr.matches_iff (type : UInt8) (name : Option EfiGuid) (file : FileHdr) :
    (name = none ∨ name = some file.name) ∧ file.type = type ↔ file.Matches type name := by
  unfold FileHdr.Matches
  cases name with
  | none => simp
  | some wanted => simp [eq_comm]

instance (type : UInt8) (name : Option EfiGuid) (file : FileHdr) :
    Decidable (file.Matches type name) :=
  decidable_of_iff ((name = none ∨ name = some file.name) ∧ file.type = type)
    (FileHdr.matches_iff type name file)

def firstMatch (start : Nat) (files : List FileHdr) (type : UInt8) (name : Option EfiGuid) :
    Option (Nat × FileHdr) :=
  (fileStarts start files).find? fun entry => entry.2.Matches type name

/-- A search searches the sections of the first file that matches, or comes back
with `EFI_NOT_FOUND`; without a name the service returns the same file. -/
def DecodesVolume (mem : Mem) (volume : Volume) (type : UInt8) (name : Option EfiGuid) : Prop :=
  match firstMatch volume.first volume.files type name with
  | some (addr, file) =>
      (∀ sectionType result, GetFileSectionReturns mem volume.base sectionType type name result ↔
        FindSectionReturns mem sectionType (u32 (addr + sizeofFileHeader)) (addr + file.size)
          result) ∧
      (name = none → volume.base ≠ null → ∀ stackAddr status after,
        FindNextFileReturns mem stackAddr type volume.base null status after ↔
          status = .success ∧ after = addr)
  | none =>
      (∀ sectionType, ∃ line,
        GetFileSectionReturns mem volume.base sectionType type name (null, ⟨.notFound, line⟩)) ∧
      (name = none → volume.base ≠ null → ∀ stackAddr status after,
        FindNextFileReturns mem stackAddr type volume.base null status after ↔
          status = .notFound ∧ after = null)

/-! ## The walk over the files -/

section Walk

variable {mem : Mem} {type : UInt8} {name : Option EfiGuid} {eov : Nat}

theorem selects_iff_matches {addr : Nat} {file : FileHdr} (sameName : fileName mem addr = file.name)
    (sameType : fileType mem addr = file.type) :
    Selects mem type name addr ↔ file.Matches type name := by
  rw [Selects, FileHdr.Matches, sameName, sameType]

theorem FilesAt.tail {start : Nat} {file : FileHdr} {rest : List FileHdr}
    (holds : FilesAt mem start (file :: rest)) :
    FilesAt mem (roundUp 8 (start + file.size)) rest :=
  fun entry member => holds entry (List.mem_cons_of_mem _ member)

theorem walk_selects (files : List FileHdr) (start : Nat) (holds : FilesAt mem start files)
    (fits : ∀ entry ∈ fileStarts start files, entry.1 + entry.2.size ≤ eov)
    (below : eov ≤ 2 ^ 32) :
    match firstMatch start files type name with
    | some (addr, file) =>
        Returns (getFileSectionStep mem type name eov) start (.found addr (addr + file.size))
    | none => Reaches (getFileSectionStep mem type name eov) start (fileCursor start files) := by
  induction files generalizing start with
  | nil => exact .refl
  | cons file rest ih =>
      obtain ⟨sameName, sameType, size⟩ : fileName mem start = file.name ∧
          fileType mem start = file.type ∧ fileSize mem start = file.size :=
        holds (start, file) (List.mem_cons_self ..)
      have room : start + file.size ≤ eov := fits (start, file) (List.mem_cons_self ..)
      have large := file.size_ge
      have selected : Selects mem type name start ↔ file.Matches type name :=
        selects_iff_matches sameName sameType
      have step : getFileSectionStep mem type name eov start =
          if Selects mem type name start then .done (.found start (start + file.size))
          else .next (roundUp 8 (start + file.size)) := by
        rw [getFileSectionStep_below below (by omega), size, if_neg (by omega)]
      by_cases found : file.Matches type name
      · have answer : firstMatch start (file :: rest) type name = some (start, file) := by
          simp [firstMatch, fileStarts, starts, found]
        rw [answer]
        rw [if_pos (selected.mpr found)] at step
        exact returns_done step
      · have answer : firstMatch start (file :: rest) type name =
            firstMatch (roundUp 8 (start + file.size)) rest type name := by
          simp [firstMatch, fileStarts, starts, found]
        rw [if_neg (mt selected.mp found)] at step
        have later := ih (roundUp 8 (start + file.size)) holds.tail
          fun entry member => fits entry (List.mem_cons_of_mem _ member)
        rw [answer]
        cases outcome : firstMatch (roundUp 8 (start + file.size)) rest type name with
        | none =>
            rw [outcome] at later
            exact later.head step
        | some entry =>
            rw [outcome] at later
            exact (returns_next_iff step _).mpr later

/-! ## The walk over free space -/

theorem leAt_erased (count addr : Nat) (bytes : ∀ i < count, byteAt mem (addr + i) = 0xff) :
    leAt mem addr count = 256 ^ count - 1 := by
  induction count generalizing addr with
  | zero => rfl
  | succ count ih =>
      have head := bytes 0 (by omega)
      have tail := ih (addr + 1) fun i bound => by
        rw [Nat.add_assoc, Nat.add_comm 1 i]
        exact bytes (i + 1) (by omega)
      have positive : 0 < 256 ^ count := Nat.pow_pos (by norm_num)
      have ones : (0xff : UInt8).toNat = 255 := rfl
      rw [Nat.add_zero] at head
      rw [leAt, head, tail, ones, pow_succ]
      omega

theorem fileSize_erased {addr : Nat} (bytes : ∀ i < 3, byteAt mem (addr + 20 + i) = 0xff) :
    fileSize mem addr = 0xffffff := leAt_erased 3 (addr + 20) bytes

/-- An erased header is passed over, `2 ^ 24` bytes at a time, unless it runs over
the end of the volume. -/
theorem step_erased {addr : Nat} (below : eov ≤ 2 ^ 32) (inside : addr < eov)
    (aligned : 8 ∣ addr) (size : fileSize mem addr = 0xffffff)
    (skipped : addr + 0xffffff ≤ eov → ¬ Selects mem type name addr) :
    getFileSectionStep mem type name eov addr =
      if eov < addr + 0xffffff then .done (.fail ⟨.volumeCorrupted, 224⟩)
      else .next (addr + 0x1000000) := by
  have landed : roundUp 8 (addr + 0xffffff) = addr + 0x1000000 := by
    unfold roundUp
    omega
  rw [getFileSectionStep_below below inside, size, landed]
  by_cases long : eov < addr + 0xffffff
  · rw [if_pos long, if_pos long]
  · rw [if_neg long, if_neg long, if_neg (skipped (by omega))]

theorem reaches_next_erased {head : Nat} (below : eov ≤ 2 ^ 32) (real : type ≠ 0xff)
    (aligned : 8 ∣ head) (room : head + 0x1000000 ≤ eov)
    (erased : ∀ addr, head ≤ addr → addr < eov → byteAt mem addr = 0xff) :
    getFileSectionStep mem type name eov head = .next (head + 0x1000000) := by
  have size : fileSize mem head = 0xffffff :=
    fileSize_erased fun i bound => erased (head + 20 + i) (by omega) (by omega)
  have typeByte : fileType mem head = 0xff := erased (head + 18) (by omega) (by omega)
  rw [step_erased below (by omega) aligned size
    fun _ selected => real (selected.2.symm.trans typeByte), if_neg (by omega)]

theorem reaches_last_erased (below : eov ≤ 2 ^ 32) (real : type ≠ 0xff) (count start : Nat)
    (aligned : 8 ∣ start) (room : start + 0x1000000 * count ≤ eov)
    (erased : ∀ addr, start ≤ addr → addr < eov → byteAt mem addr = 0xff) :
    Reaches (getFileSectionStep mem type name eov) start (start + 0x1000000 * count) := by
  induction count generalizing start with
  | zero => exact .refl
  | succ count ih =>
      rw [Nat.mul_succ, Nat.add_comm (0x1000000 * count), ← Nat.add_assoc] at room ⊢
      have step : getFileSectionStep mem type name eov start = .next (start + 0x1000000) :=
        reaches_next_erased below real aligned (by omega) erased
      have later := ih (start + 0x1000000) (by omega) room
        fun addr low high => erased addr (by omega) high
      exact later.head step

theorem returns_notFound_erased (below : eov ≤ 2 ^ 32) (real : type ≠ 0xff) (start : Nat)
    (aligned : 8 ∣ start)
    (erased : ∀ addr, start ≤ addr → addr < eov → byteAt mem addr = 0xff)
    (amount : (eov - start) % 0x1000000 = 0 ∨ (eov - start) % 0x1000000 = 0xffffff) :
    Returns (getFileSectionStep mem type name eov) start (.fail ⟨.notFound, 241⟩) := by
  by_cases past : eov ≤ start
  · exact returns_done (getFileSectionStep_past past)
  · have split := Nat.div_add_mod (eov - start) 0x1000000
    have reached : Reaches (getFileSectionStep mem type name eov) start
        (start + 0x1000000 * ((eov - start) / 0x1000000)) :=
      reaches_last_erased below real _ start aligned (by omega) erased
    generalize headEq : start + 0x1000000 * ((eov - start) / 0x1000000) = head at reached
    rw [reached.returns_iff]
    rcases amount with none | one
    · exact returns_done (getFileSectionStep_past (by omega))
    · have size : fileSize mem head = 0xffffff :=
        fileSize_erased fun i bound => erased (head + 20 + i) (by omega) (by omega)
      have typeByte : fileType mem head = 0xff := erased (head + 18) (by omega) (by omega)
      have step : getFileSectionStep mem type name eov head = .next (head + 0x1000000) := by
        rw [step_erased below (by omega) (by omega) size
          fun _ selected => real (selected.2.symm.trans typeByte), if_neg (by omega)]
      rw [returns_next_iff step]
      exact returns_done (getFileSectionStep_past (by omega))

/-- With any other amount of free space the last erased header runs over the end of the volume;
the bytes beyond it are taken erased too. -/
theorem returns_corrupted_erased (below : eov ≤ 2 ^ 32) (real : type ≠ 0xff) (start : Nat)
    (aligned : 8 ∣ start)
    (erased : ∀ addr, start ≤ addr → addr < eov + 22 → byteAt mem addr = 0xff)
    (some_ : (eov - start) % 0x1000000 ≠ 0) (less : (eov - start) % 0x1000000 ≠ 0xffffff) :
    Returns (getFileSectionStep mem type name eov) start (.fail ⟨.volumeCorrupted, 224⟩) := by
  have split := Nat.div_add_mod (eov - start) 0x1000000
  have reached : Reaches (getFileSectionStep mem type name eov) start
      (start + 0x1000000 * ((eov - start) / 0x1000000)) :=
    reaches_last_erased below real _ start aligned (by omega)
      fun addr low high => erased addr low (by omega)
  generalize headEq : start + 0x1000000 * ((eov - start) / 0x1000000) = head at reached
  rw [reached.returns_iff]
  have size : fileSize mem head = 0xffffff :=
    fileSize_erased fun i bound => erased (head + 20 + i) (by omega) (by omega)
  apply returns_done
  rw [step_erased below (by omega) (by omega) size (by omega), if_pos (by omega)]

end Walk

/-! ## Volumes in memory -/

section Present

variable {mem : Mem} {volume : Volume}

theorem Volume.eov_le (volume : Volume) : volume.eov ≤ 2 ^ 32 := volume.below

theorem Volume.header_below (volume : Volume) : volume.base + 50 ≤ volume.eov := by
  have large := volume.header_ge
  have room := volume.header_le
  unfold Volume.eov
  omega

theorem Volume.header_before (volume : Volume) : volume.base + 50 ≤ volume.first := by
  have large := volume.header_ge
  have step := le_roundUp (by norm_num : 0 < 8) (volume.base + volume.headerLength)
  unfold Volume.first
  omega

theorem Volume.first_aligned (volume : Volume) : 8 ∣ volume.first := dvd_roundUp _ _

theorem Volume.free_aligned (volume : Volume) : 8 ∣ volume.free :=
  cursor_aligned volume.files volume.first volume.first_aligned

theorem VolumeAt.endOfVolume_eq (present : VolumeAt mem volume) :
    endOfVolume mem volume.base = volume.eov := by
  have below := volume.below
  rw [endOfVolume, present.length]
  exact Nat.mod_eq_of_lt (by omega)

theorem VolumeAt.firstFile_eq (present : VolumeAt mem volume) :
    firstFile mem volume.base = volume.first := by
  have below := volume.eov_le
  have room := volume.header_below
  rw [firstFile_of_lt (by omega), present.header, Volume.first]

theorem VolumeAt.walk (present : VolumeAt mem volume) (type : UInt8) (name : Option EfiGuid) :
    match firstMatch volume.first volume.files type name with
    | some (addr, file) =>
        Returns (getFileSectionStep mem type name (endOfVolume mem volume.base))
          (firstFile mem volume.base) (.found addr (addr + file.size))
    | none =>
        Reaches (getFileSectionStep mem type name (endOfVolume mem volume.base))
          (firstFile mem volume.base) volume.free := by
  rw [present.endOfVolume_eq, present.firstFile_eq]
  exact walk_selects volume.files volume.first present.files volume.fits volume.eov_le

theorem decodesVolume_of_selected {type : UInt8} {name : Option EfiGuid}
    (present : VolumeAt mem volume)
    (selected : (firstMatch volume.first volume.files type name).isSome) :
    DecodesVolume mem volume type name := by
  have walk := present.walk type name
  unfold DecodesVolume
  cases outcome : firstMatch volume.first volume.files type name with
  | none => simp [outcome] at selected
  | some entry =>
      rw [outcome] at walk
      refine ⟨?_, ?_⟩
      · intro sectionType result
        exact getFileSectionReturns_found_iff result walk
      · intro unnamed real stackAddr status after
        subst unnamed
        exact findNextFileReturns_of_returns real status after walk

theorem decodesVolume_of_free {type : UInt8} {name : Option EfiGuid}
    (present : VolumeAt mem volume) (real : type ≠ 0xff)
    (absent : firstMatch volume.first volume.files type name = none)
    (amount : volume.freeLength % 0x1000000 = 0 ∨ volume.freeLength % 0x1000000 = 0xffffff) :
    DecodesVolume mem volume type name := by
  have walk := present.walk type name
  rw [absent] at walk
  have ends : Returns (getFileSectionStep mem type name (endOfVolume mem volume.base))
      (firstFile mem volume.base) (.fail ⟨.notFound, 241⟩) := by
    rw [walk.returns_iff, present.endOfVolume_eq]
    exact returns_notFound_erased volume.eov_le real volume.free volume.free_aligned
      present.erased amount
  unfold DecodesVolume
  rw [absent]
  refine ⟨?_, ?_⟩
  · intro sectionType
    exact ⟨241, (getFileSectionReturns_iff ..).mpr ⟨_, ends, rfl⟩⟩
  · intro unnamed mapped stackAddr status after
    subst unnamed
    exact findNextFileReturns_of_returns mapped status after ends

/-! ## Erased bytes past the volume -/

/-- Erased flash after the volume, and in its zero vector for a volume that ends
at the top of memory and is read around it. -/
def eraseBeyond (mem : Mem) (volume : Volume) : Mem :=
  fun addr => if addr < volume.base + 22 ∨ volume.eov ≤ addr then 0xff else mem addr

theorem byteAt_eraseBeyond_inside {addr : Nat} (low : volume.base + 22 ≤ addr)
    (high : addr < volume.eov) : byteAt (eraseBeyond mem volume) addr = byteAt mem addr := by
  have below := volume.eov_le
  have outside : ¬ (addr < volume.base + 22 ∨ volume.eov ≤ addr) := by omega
  simp only [byteAt, bus_of_lt (show addr < 2 ^ 32 by omega), eraseBeyond, if_neg outside]

theorem byteAt_eraseBeyond_past {addr : Nat} (low : volume.eov ≤ addr)
    (high : addr < volume.eov + 22) : byteAt (eraseBeyond mem volume) addr = 0xff := by
  have below := volume.eov_le
  have outside : bus addr < volume.base + 22 ∨ volume.eov ≤ bus addr := by
    unfold bus
    omega
  simp only [byteAt, eraseBeyond, if_pos outside]

theorem volumeAt_eraseBeyond (present : VolumeAt mem volume) :
    VolumeAt (eraseBeyond mem volume) volume := by
  have before := volume.header_before
  have below := volume.header_below
  have word (addr count : Nat) (low : volume.base + 22 ≤ addr)
      (high : addr + count ≤ volume.eov) :
      leAt (eraseBeyond mem volume) addr count = leAt mem addr count := by
    apply leAt_congr
    intro i bound
    exact byteAt_eraseBeyond_inside (by omega) (by omega)
  refine ⟨?_, ?_, ?_, ?_⟩
  · rw [← present.length]
    exact word (volume.base + 32) 8 (by omega) (by omega)
  · rw [← present.header]
    exact word (volume.base + 48) 2 (by omega) (by omega)
  · intro entry member
    obtain ⟨sameName, sameType, size⟩ := present.files entry member
    have low := (starts_bounds (by norm_num) volume.files volume.first entry member).1
    have high : entry.1 + entry.2.size ≤ volume.eov := volume.fits entry member
    have large := entry.2.size_ge
    refine ⟨?_, ?_, ?_⟩
    · rw [← sameName]
      apply guidAt_congr
      intro i bound
      exact byteAt_eraseBeyond_inside (by omega) (by omega)
    · rw [← sameType]
      exact byteAt_eraseBeyond_inside (by omega) (by omega)
    · rw [← size]
      exact word (entry.1 + 20) 3 (by omega) (by omega)
  · intro addr low high
    have start : volume.first ≤ volume.free := le_cursor (by norm_num) volume.files volume.first
    rw [byteAt_eraseBeyond_inside (by omega) high]
    exact present.erased addr low high

end Present

/-- The lookups decode a volume, whatever the bytes around its headers are,
exactly when a file matches or the free space is a multiple of `2 ^ 24` bytes
long, up to one missing byte. -/
theorem decodesVolume_iff (flash : Mem) (volume : Volume) (type : UInt8) (name : Option EfiGuid)
    (present : VolumeAt flash volume) (real : type ≠ 0xff) :
    (∀ mem, VolumeAt mem volume → DecodesVolume mem volume type name) ↔
      (firstMatch volume.first volume.files type name).isSome ∨
        volume.freeLength % 0x1000000 = 0 ∨ volume.freeLength % 0x1000000 = 0xffffff := by
  constructor
  · intro decodes
    by_contra bad
    rw [not_or, not_or] at bad
    obtain ⟨unmatched, some_, less⟩ := bad
    have absent : firstMatch volume.first volume.files type name = none := by
      simpa using unmatched
    have still := volumeAt_eraseBeyond present
    have walk := still.walk type name
    rw [absent] at walk
    have ends : Returns (getFileSectionStep (eraseBeyond flash volume) type name
        (endOfVolume (eraseBeyond flash volume) volume.base))
        (firstFile (eraseBeyond flash volume) volume.base) (.fail ⟨.volumeCorrupted, 224⟩) := by
      rw [walk.returns_iff, still.endOfVolume_eq]
      apply returns_corrupted_erased volume.eov_le real volume.free volume.free_aligned ?_ some_ less
      intro addr low high
      rcases Nat.lt_or_ge addr volume.eov with inside | past
      · exact still.erased addr low inside
      · exact byteAt_eraseBeyond_past past high
    have decoded := decodes _ still
    unfold DecodesVolume at decoded
    rw [absent] at decoded
    obtain ⟨line, success⟩ := decoded.1 efiSectionTe
    have corrupted : GetFileSectionReturns (eraseBeyond flash volume) volume.base efiSectionTe type
        name (null, ⟨.volumeCorrupted, 224⟩) :=
      (getFileSectionReturns_iff ..).mpr ⟨_, ends, rfl⟩
    have same : (⟨.notFound, line⟩ : StatusInfo) = ⟨.volumeCorrupted, 224⟩ :=
      congrArg Prod.snd (getFileSectionReturns_unique success corrupted)
    cases same
  · intro condition mem here
    by_cases selected : (firstMatch volume.first volume.files type name).isSome
    · exact decodesVolume_of_selected here selected
    · exact decodesVolume_of_free here real (by simpa using selected)
        (condition.resolve_left selected)

def peimFlash : Mem :=
  fun addr =>
    if 0x1060 ≤ addr then 0xff
    else
      place 0x1000 (List.replicate 32 0 ++ [0xa0, 0, 0, 0, 0, 0, 0, 0, 0x5f, 0x46, 0x56, 0x48] ++
        [0, 0, 0, 0, 0x48, 0] ++ List.replicate 40 0 ++ [0x06, 0, 0x18, 0, 0, 0]) addr

def peimName : EfiGuid := ⟨0, 0, 0, Vector.replicate 8 0⟩

def peimVolume : Volume where
  base := 0x1000
  headerLength := 72
  length := 160
  files := [⟨peimName, efiFvFiletypePeim, 24, by decide, by decide⟩]
  aligned := by decide
  header_ge := by decide
  header_lt := by decide
  header_le := by decide
  below := by decide
  fits := by decide

theorem peimVolume_at : VolumeAt peimFlash peimVolume := by
  refine ⟨by decide, by decide, ?_, ?_⟩
  · intro entry member
    cases List.mem_singleton.mp member
    exact ⟨(compareGuids_iff _ _).mp (by decide), by decide, by decide⟩
  intro addr low high
  have start : peimVolume.free = 0x1060 := by decide
  have limit := peimVolume.eov_le
  have erased : 0x1060 ≤ bus addr := by
    rw [bus_of_lt (by omega)]
    omega
  simp only [byteAt, peimFlash, if_pos erased]

theorem decodesVolume_iff_peimVolume :
    (∀ mem, VolumeAt mem peimVolume → DecodesVolume mem peimVolume efiFvFiletypeDxeCore none) ↔
      (firstMatch peimVolume.first peimVolume.files efiFvFiletypeDxeCore none).isSome ∨
        peimVolume.freeLength % 0x1000000 = 0 ∨ peimVolume.freeLength % 0x1000000 = 0xffffff :=
  decodesVolume_iff peimFlash peimVolume efiFvFiletypeDxeCore none peimVolume_at (by decide)

theorem erased_space_reported_corrupted :
    VolumeAt peimFlash peimVolume ∧
      firstMatch peimVolume.first peimVolume.files efiFvFiletypeDxeCore none = none ∧
      GetFileSectionReturns peimFlash 0x1000 efiSectionTe efiFvFiletypeDxeCore none
        (null, ⟨.volumeCorrupted, 224⟩) ∧
      FindNextFileReturns peimFlash 0 efiFvFiletypeDxeCore 0x1000 null .volumeCorrupted null ∧
      ¬ DecodesVolume peimFlash peimVolume efiFvFiletypeDxeCore none := by
  have absent : firstMatch peimVolume.first peimVolume.files efiFvFiletypeDxeCore none = none := by
    decide
  have corrupted : GetFileSectionReturns peimFlash 0x1000 efiSectionTe efiFvFiletypeDxeCore none
      (null, ⟨.volumeCorrupted, 224⟩) := ⟨3, by decide⟩
  refine ⟨peimVolume_at, absent, corrupted, ⟨3, by decide⟩, ?_⟩
  intro decoded
  unfold DecodesVolume at decoded
  rw [absent] at decoded
  obtain ⟨line, success⟩ := decoded.1 efiSectionTe
  have same : (⟨.notFound, line⟩ : StatusInfo) = ⟨.volumeCorrupted, 224⟩ :=
    congrArg Prod.snd (getFileSectionReturns_unique success corrupted)
  cases same

end ArcFirmware.FfsVolume
