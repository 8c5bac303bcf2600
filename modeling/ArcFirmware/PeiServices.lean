import ArcFirmware.UtilsLib

/-!
# PeiServices: the file services

`PeiFfsFindNextFile`, `PeiFfsFindSectionData`, `PeiFfsGetFileInfo` and
`PeiFfsFindNextVolume`.  The file loop is written a second time in the source;
`findNextFileStep_eq_map` says that it is the loop of `GetFileSection` without a
name, left with a handle instead of a section search.
-/

set_option autoImplicit false

namespace ArcFirmware.PeiServices

open ArcFirmware.Memory ArcFirmware.Reader ArcFirmware.Loop ArcFirmware.Edk2
  ArcFirmware.UtilsLib

def maxCoreFv : Nat := 2

/-- `VolumeHandle` is `none` for a `NULL` pointer; `handles` are the handles in
`PEI_CORE_CONTEXT.Fv`. -/
def peiFfsFindNextVolume (handles : Fin maxCoreFv → Nat) (instance_ : Nat)
    (volumeHandle : Option Nat) : EfiStatus × Option Nat :=
  match volumeHandle with
  | none => (.invalidParameter, none)
  | some handle =>
      if bound : instance_ < maxCoreFv then (.success, some (handles ⟨instance_, bound⟩))
      else (.notFound, some handle)

def findNextFileBody (searchType : UInt8) (eov addr : Nat) :
    ReadProg (Step Nat (EfiStatus × Option Nat)) := do
  if addr < eov then
    let file := u32 addr
    let eof := u64 (addr + (← readFileSize file))
    let _ ← readFileName file
    if eof > eov then
      return .done (.volumeCorrupted, none)
    if (← readFileType file) = searchType then
      return .done (.success, some file)
    return .next (alignAddr eof 8)
  else
    return .done (.notFound, none)

def findNextFileStep (mem : Mem) (searchType : UInt8) (eov addr : Nat) :
    Step Nat (EfiStatus × Option Nat) :=
  value mem (findNextFileBody searchType eov addr)

/-- `stackAddr` is what the uninitialised local `Addr` holds when the call starts:
with a handle, the next address is computed from it and not from the handle.
`fileHandle` is `none` for a `NULL` pointer, otherwise the handle it points to;
the result carries the handle after the call. -/
def peiFfsFindNextFile (mem : Mem) (stackAddr : Nat) (searchType : UInt8) (fvHandle : Nat)
    (fileHandle : Option Nat) (fuel : Nat) : Option (EfiStatus × Option Nat) :=
  match fileHandle with
  | none => some (.invalidParameter, none)
  | some handle =>
      if fvHandle = null then some (.invalidParameter, some handle)
      else
        let addr :=
          if handle = null then firstFile mem fvHandle
          else alignAddr (u64 (stackAddr + fileSize mem handle)) 8
        match run (findNextFileStep mem searchType (endOfVolume mem fvHandle)) fuel addr with
        | none => none
        | some (status, written) => some (status, some (written.getD handle))

def FindNextFileReturns (mem : Mem) (stackAddr : Nat) (searchType : UInt8)
    (fvHandle handle : Nat) (status : EfiStatus) (after : Nat) : Prop :=
  ∃ fuel, peiFfsFindNextFile mem stackAddr searchType fvHandle (some handle) fuel =
    some (status, some after)

/-- `sectionDataGiven` is false for a `NULL` `SectionData`; it is written on every path that
searches. -/
def peiFfsFindSectionData (mem : Mem) (sectionType : UInt8) (fileHandle : Nat)
    (sectionDataGiven : Bool) (fuel : Nat) : Option (EfiStatus × Option Nat) :=
  if fileHandle = null ∨ sectionDataGiven = false then some (.invalidParameter, none)
  else
    let eof := u64 (fileHandle + fileSize mem fileHandle)
    match findSection mem sectionType (u32 (fileHandle + sizeofFileHeader)) eof fuel with
    | none => none
    | some (section_, info) => some (info.status, some section_)

structure FvFileInfo where
  fileName : EfiGuid
  fileType : UInt8
  fileAttributes : Nat
  buffer : Nat
  bufferSize : Nat
  deriving DecidableEq, Repr

def ffsAttribLargeFile : UInt8 := 0x01

def fileAttributes (mem : Mem) (header : Nat) : UInt8 := byteAt mem (header + 19)

def isFfsFile2 (mem : Mem) (header : Nat) : Bool :=
  fileAttributes mem header &&& ffsAttribLargeFile == ffsAttribLargeFile

def fileInfoOf (mem : Mem) (file : Nat) : FvFileInfo where
  fileName := fileName mem file
  fileType := fileType mem file
  fileAttributes := (fileAttributes mem file).toNat
  buffer := u32 (file + sizeofFileHeader)
  bufferSize := u32 (fileSize mem file + 2 ^ 32 - sizeofFileHeader)

/-- `stackFile` is what the local `File` holds when `IS_FFS_FILE2` is applied to it:
`FileHandle` is assigned to it only afterwards.  `infoGiven` is false for a `NULL`
`FileInfo`. -/
def peiFfsGetFileInfo (mem : Mem) (stackFile fileHandle : Nat) (infoGiven : Bool) :
    EfiStatus × Option FvFileInfo :=
  if fileHandle = null ∨ infoGiven = false then (.invalidParameter, none)
  else if isFfsFile2 mem stackFile = true then (.unsupported, none)
  else (.success, some (fileInfoOf mem fileHandle))

/-! ## The two file loops -/

def handleOfExit : FileExit → EfiStatus × Option Nat
  | .fail info => (info.status, none)
  | .found file _ => (.success, some file)

theorem findNextFileStep_eq (mem : Mem) (searchType : UInt8) (eov addr : Nat) :
    findNextFileStep mem searchType eov addr =
      if addr < eov then
        if eov < u64 (addr + fileSize mem addr) then .done (.volumeCorrupted, none)
        else if fileType mem addr = searchType then .done (.success, some (u32 addr))
        else .next (alignAddr (u64 (addr + fileSize mem addr)) 8)
      else .done (.notFound, none) := by
  simp [findNextFileStep, findNextFileBody]

theorem findNextFileStep_eq_map (mem : Mem) (searchType : UInt8) (eov addr : Nat) :
    findNextFileStep mem searchType eov addr =
      (getFileSectionStep mem searchType none eov addr).map handleOfExit := by
  rw [findNextFileStep_eq, getFileSectionStep_eq]
  by_cases inside : addr < eov
  · by_cases long : eov < u64 (addr + fileSize mem addr)
    · simp [inside, long, Step.map, handleOfExit]
    · by_cases found : fileType mem addr = searchType
      · simp [inside, long, found, Selects, Step.map, handleOfExit]
      · simp [inside, long, found, Selects, Step.map]
  · simp [inside, Step.map, handleOfExit]

/-- The loop of the service is the file loop of `GetFileSection`. -/
theorem run_findNextFileStep (mem : Mem) (searchType : UInt8) (eov fuel addr : Nat) :
    run (findNextFileStep mem searchType eov) fuel addr =
      (run (getFileSectionStep mem searchType none eov) fuel addr).map handleOfExit := by
  rw [← run_map]
  congr 1
  funext state
  exact findNextFileStep_eq_map mem searchType eov state

theorem reaches_findNextFileStep_iff (mem : Mem) (searchType : UInt8) (eov start addr : Nat) :
    Reaches (findNextFileStep mem searchType eov) start addr ↔
      Reaches (getFileSectionStep mem searchType none eov) start addr := by
  rw [← reaches_map_iff (getFileSectionStep mem searchType none eov) handleOfExit]
  have same : findNextFileStep mem searchType eov =
      fun state => (getFileSectionStep mem searchType none eov state).map handleOfExit :=
    funext (findNextFileStep_eq_map mem searchType eov)
  rw [same]

theorem findNextFileReturns_iff (mem : Mem) (stackAddr : Nat) (searchType : UInt8)
    (fvHandle handle : Nat) (status : EfiStatus) (after : Nat) (volume : fvHandle ≠ null) :
    FindNextFileReturns mem stackAddr searchType fvHandle handle status after ↔
      ∃ leaving, Returns (getFileSectionStep mem searchType none (endOfVolume mem fvHandle))
        (if handle = null then firstFile mem fvHandle
          else alignAddr (u64 (stackAddr + fileSize mem handle)) 8) leaving ∧
          (handleOfExit leaving).1 = status ∧ (handleOfExit leaving).2.getD handle = after := by
  unfold FindNextFileReturns peiFfsFindNextFile Returns
  simp only [if_neg volume, run_findNextFileStep]
  generalize (if handle = null then firstFile mem fvHandle
    else alignAddr (u64 (stackAddr + fileSize mem handle)) 8) = start
  constructor
  · intro success
    obtain ⟨fuel, success⟩ := success
    cases outcome : run (getFileSectionStep mem searchType none (endOfVolume mem fvHandle))
        fuel start with
    | none => simp [outcome] at success
    | some leaving =>
        simp only [outcome, Option.map_some, Option.some.injEq, Prod.mk.injEq] at success
        exact ⟨leaving, ⟨fuel, outcome⟩, success⟩
  · intro success
    obtain ⟨leaving, ⟨fuel, outcome⟩, rfl, rfl⟩ := success
    exact ⟨fuel, by rw [outcome]; rfl⟩

theorem findNextFileReturns_first_iff (mem : Mem) (stackAddr : Nat) (searchType : UInt8)
    (fvHandle : Nat) (status : EfiStatus) (after : Nat) (volume : fvHandle ≠ null) :
    FindNextFileReturns mem stackAddr searchType fvHandle null status after ↔
      ∃ leaving, Returns (getFileSectionStep mem searchType none (endOfVolume mem fvHandle))
        (firstFile mem fvHandle) leaving ∧ (handleOfExit leaving).1 = status ∧
          (handleOfExit leaving).2.getD null = after := by
  rw [findNextFileReturns_iff mem stackAddr searchType fvHandle null status after volume,
    if_pos rfl]

end ArcFirmware.PeiServices
