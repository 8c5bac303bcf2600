import ArcFirmware.EntryPoints
import ArcFirmware.FfsVolume
import ArcFirmware.PeiPhase

/-!
# DxeIpl: the last PEIM

`DxeIplInit` installs the PPI behind which `DxeIplMain` finds the DXE core, maps
its image and computes its entry point.  The call of that entry point is commented
out in the source, so the function ends with an error or in a dead loop.
-/

set_option autoImplicit false

namespace ArcFirmware.DxeIplMain

open ArcFirmware.Memory ArcFirmware.Loop ArcFirmware.Reader ArcFirmware.Edk2 ArcFirmware.UtilsLib
  ArcFirmware.FileChain ArcFirmware.FfsVolume ArcFirmware.PeiServices ArcFirmware.PpiServices
  ArcFirmware.DispatchPeims ArcFirmware.PeiPhase ArcFirmware.DxeIpl ArcFirmware.EntryPoints

/-! ## The functions -/

def dxeFvInstance : Nat := 1

/-- What locals hold before they are assigned: `Addr` of `PeiFfsFindNextFile`, `File`
of `PeiFfsGetFileInfo` and `Fv` of `DxeIplMain`. -/
structure IplStack where
  addr : Nat
  file : Nat
  fv : Nat

inductive IplExit where
  | returned (status : EfiStatus)
  | deadLoop
  deriving DecidableEq, Repr

/-- How `DxeIplMain` ends, and the DXE core that it has mapped before. -/
structure IplResult where
  exit : IplExit
  dxeCore : Option LoadedImage
  deriving DecidableEq, Repr

/-- The mapped image; `some none` is `CpuDeadLoop`. -/
def loadAndRunDxeCore (mem : Mem) (file fuel : Nat) : Option (Option LoadedImage) :=
  match peiLoadFile mem file true fuel with
  | none => none
  | some (status, image) => if status ≠ .success then some none else some image

def dxeIplMain (mem : Mem) (handles : Fin maxCoreFv → Nat) (stack : IplStack) (fuel : Nat) :
    Option IplResult :=
  let (status, fv) := peiFfsFindNextVolume handles dxeFvInstance (some stack.fv)
  if status ≠ .success then some ⟨.returned status, none⟩
  else
    match peiFfsFindNextFile mem stack.addr efiFvFiletypeDxeCore (fv.getD null) (some null) fuel with
    | none => none
    | some (status, file) =>
        if status ≠ .success then some ⟨.returned status, none⟩
        else if (peiFfsGetFileInfo mem stack.file (file.getD null) true).1 = .success then
          match loadAndRunDxeCore mem (file.getD null) fuel with
          | none => none
          | some none => some ⟨.deadLoop, none⟩
          | some (some image) => some ⟨.returned .loadError, some image⟩
        else some ⟨.returned .loadError, none⟩

def DxeIplReturns (mem : Mem) (handles : Fin maxCoreFv → Nat) (stack : IplStack)
    (result : IplResult) : Prop :=
  ∃ fuel, dxeIplMain mem handles stack fuel = some result

/-- `DxeIplInit`: one install call; the image of the module lies at `desc`. -/
def dxeIplInit (pcdBootFvBase : Nat) (state : PeiState) (desc fuel : Nat) :
    Option (EfiStatus × PeiState) :=
  peiInstallPpi pcdBootFvBase state desc fuel

/-! ## Lookups with more passes -/

section Mono

variable {mem : Mem} {fuel more : Nat}

theorem findNextFile_mono {stackAddr fvHandle : Nat} {type : UInt8} {fileHandle : Option Nat}
    {result : EfiStatus × Option Nat}
    (success : peiFfsFindNextFile mem stackAddr type fvHandle fileHandle fuel = some result)
    (enough : fuel ≤ more) :
    peiFfsFindNextFile mem stackAddr type fvHandle fileHandle more = some result := by
  cases fileHandle with
  | none => exact success
  | some handle =>
      unfold peiFfsFindNextFile at success ⊢
      by_cases unmapped : fvHandle = null
      · simpa only [if_pos unmapped] using success
      · simp only [if_neg unmapped] at success ⊢
        generalize (if handle = null then firstFile mem fvHandle
          else alignAddr (u64 (stackAddr + fileSize mem handle)) 8) = start at success ⊢
        cases outcome : run (findNextFileStep mem type (endOfVolume mem fvHandle)) fuel start with
        | none => simp [outcome] at success
        | some leaving => rwa [run_mono _ _ _ _ _ outcome enough, ← outcome]

theorem loadFile_mono {file : Nat} {result : EfiStatus × Option LoadedImage}
    (success : peiLoadFile mem file true fuel = some result) (enough : fuel ≤ more) :
    peiLoadFile mem file true more = some result := by
  unfold peiLoadFile peiFfsFindSectionData at success ⊢
  rw [if_neg (by decide)] at success ⊢
  by_cases missing : file = null
  · simpa only [missing, true_or, if_true] using success
  · simp only [missing, Bool.true_eq_false, or_self, if_false] at success ⊢
    cases found : findSection mem efiSectionPe32 (u32 (file + sizeofFileHeader))
        (u64 (file + fileSize mem file)) fuel with
    | none => simp [found] at success
    | some section_ =>
        have later := run_mono _ _ _ _ _ found enough
        rw [found] at success
        rwa [findSection, later]

end Mono

/-! ## How the function ends -/

section Outcome

variable {mem : Mem} {stack : IplStack}

theorem findNextVolume_dxe (handles : Fin maxCoreFv → Nat) (before : Nat) :
    peiFfsFindNextVolume handles dxeFvInstance (some before) =
      (.success, some (handles ⟨1, by decide⟩)) := rfl

theorem handle_of_findNextFile {stackAddr fv fuel : Nat} {type : UInt8} {status : EfiStatus}
    {file : Option Nat} (mapped : fv ≠ null)
    (searched : peiFfsFindNextFile mem stackAddr type fv (some null) fuel = some (status, file)) :
    ∃ handle, file = some handle := by
  unfold peiFfsFindNextFile at searched
  simp only [if_neg mapped, if_true] at searched
  cases outcome : run (findNextFileStep mem type (endOfVolume mem fv)) fuel (firstFile mem fv) with
  | none => simp [outcome] at searched
  | some leaving =>
      simp only [outcome, Option.some.injEq, Prod.mk.injEq] at searched
      exact ⟨_, searched.2.symm⟩

/-- The ways through `DxeIplMain`, one for each of its ends. -/
inductive IplOutcome (mem : Mem) (fv : Nat) (stack : IplStack) : IplResult → Prop where
  | unmapped (missing : fv = null) : IplOutcome mem fv stack ⟨.returned .invalidParameter, none⟩
  | noFile {status : EfiStatus} {after : Nat} (mapped : fv ≠ null)
      (searched : FindNextFileReturns mem stack.addr efiFvFiletypeDxeCore fv null status after)
      (error : status ≠ .success) : IplOutcome mem fv stack ⟨.returned status, none⟩
  | noInfo {file : Nat} (mapped : fv ≠ null)
      (found : FindNextFileReturns mem stack.addr efiFvFiletypeDxeCore fv null .success file)
      (refused : (peiFfsGetFileInfo mem stack.file file true).1 ≠ .success) :
      IplOutcome mem fv stack ⟨.returned .loadError, none⟩
  | dead {file : Nat} {status : EfiStatus} {image : Option LoadedImage} (mapped : fv ≠ null)
      (found : FindNextFileReturns mem stack.addr efiFvFiletypeDxeCore fv null .success file)
      (info : (peiFfsGetFileInfo mem stack.file file true).1 = .success)
      (loaded : LoadFileReturns mem file true status image) (error : status ≠ .success) :
      IplOutcome mem fv stack ⟨.deadLoop, none⟩
  | core {file : Nat} {image : LoadedImage} (mapped : fv ≠ null)
      (found : FindNextFileReturns mem stack.addr efiFvFiletypeDxeCore fv null .success file)
      (info : (peiFfsGetFileInfo mem stack.file file true).1 = .success)
      (loaded : LoadFileReturns mem file true .success (some image)) :
      IplOutcome mem fv stack ⟨.returned .loadError, some image⟩

theorem outcome_of_returns {handles : Fin maxCoreFv → Nat} {result : IplResult}
    (returned : DxeIplReturns mem handles stack result) :
    IplOutcome mem (handles ⟨1, by decide⟩) stack result := by
  obtain ⟨fuel, success⟩ := returned
  simp only [dxeIplMain, findNextVolume_dxe, ne_eq, not_true_eq_false, if_false,
    Option.getD_some] at success
  generalize handles ⟨1, by decide⟩ = fv at success ⊢
  by_cases mapped : fv = null
  · simp only [peiFfsFindNextFile, if_pos mapped] at success
    cases success
    exact .unmapped mapped
  · cases searched : peiFfsFindNextFile mem stack.addr efiFvFiletypeDxeCore fv (some null) fuel with
    | none => simp [searched] at success
    | some answer =>
        obtain ⟨status, file⟩ := answer
        obtain ⟨file, rfl⟩ := handle_of_findNextFile mapped searched
        simp only [searched, Option.getD_some] at success
        by_cases found : status = .success
        · subst found
          simp only [not_true_eq_false, if_false] at success
          by_cases info : (peiFfsGetFileInfo mem stack.file file true).1 = .success
          · simp only [if_pos info, loadAndRunDxeCore] at success
            cases load : peiLoadFile mem file true fuel with
            | none => simp [load] at success
            | some loaded =>
                obtain ⟨status, image⟩ := loaded
                by_cases error : status = .success
                · subst error
                  obtain ⟨_, filled, rfl, _⟩ := loaded_of_loadFile ⟨fuel, load⟩
                  simp only [load, ne_eq, not_true_eq_false, if_false, Option.some.injEq] at success
                  subst success
                  exact .core mapped ⟨fuel, searched⟩ info ⟨fuel, load⟩
                · simp only [load, ne_eq, error, not_false_eq_true, if_true,
                    Option.some.injEq] at success
                  subst success
                  exact .dead mapped ⟨fuel, searched⟩ info ⟨fuel, load⟩ error
          · simp only [if_neg info, Option.some.injEq] at success
            subst success
            exact .noInfo mapped ⟨fuel, searched⟩ info
        · simp only [found, not_false_eq_true, if_true, Option.some.injEq] at success
          subst success
          exact .noFile mapped ⟨fuel, searched⟩ found

theorem returns_of_outcome {handles : Fin maxCoreFv → Nat} {result : IplResult}
    (outcome : IplOutcome mem (handles ⟨1, by decide⟩) stack result) :
    DxeIplReturns mem handles stack result := by
  unfold DxeIplReturns dxeIplMain
  simp only [findNextVolume_dxe, ne_eq, not_true_eq_false, if_false, Option.getD_some]
  generalize handles ⟨1, by decide⟩ = fv at outcome ⊢
  cases outcome with
  | unmapped missing =>
      refine ⟨0, ?_⟩
      simp [peiFfsFindNextFile, missing]
  | noFile mapped searched error =>
      obtain ⟨fuel, searched⟩ := searched
      exact ⟨fuel, by simp only [searched, error, not_false_eq_true, if_true]⟩
  | noInfo mapped found refused =>
      obtain ⟨fuel, found⟩ := found
      exact ⟨fuel, by simp only [found, not_true_eq_false, if_false, Option.getD_some, refused]⟩
  | dead mapped found info loaded error =>
      obtain ⟨fuel, found⟩ := found
      obtain ⟨more, loaded⟩ := loaded
      have first := findNextFile_mono found (le_max_left fuel more)
      have second := loadFile_mono loaded (le_max_right fuel more)
      refine ⟨max fuel more, ?_⟩
      simp only [first, not_true_eq_false, if_false, Option.getD_some, info, if_true,
        loadAndRunDxeCore, second, ne_eq, error, not_false_eq_true]
  | core mapped found info loaded =>
      obtain ⟨fuel, found⟩ := found
      obtain ⟨more, loaded⟩ := loaded
      have first := findNextFile_mono found (le_max_left fuel more)
      have second := loadFile_mono loaded (le_max_right fuel more)
      refine ⟨max fuel more, ?_⟩
      simp only [first, not_true_eq_false, if_false, Option.getD_some, info, if_true,
        loadAndRunDxeCore, second, ne_eq]

end Outcome

/-! ## Over a volume -/

section Volumes

variable {mem : Mem} {volume : Volume} {stack : IplStack}

theorem decodesVolume_of_amount {type : UInt8} (present : VolumeAt mem volume) (real : type ≠ 0xff)
    (amount : (firstMatch volume.first volume.files type none).isSome ∨
      volume.freeLength % 0x1000000 = 0 ∨ volume.freeLength % 0x1000000 = 0xffffff) :
    DecodesVolume mem volume type none := by
  by_cases selected : (firstMatch volume.first volume.files type none).isSome
  · exact decodesVolume_of_selected present selected
  · exact decodesVolume_of_free present real (by simpa using selected)
      (amount.resolve_left selected)

/-- A file that is found has an address, so its handle is refused by the stack only. -/
theorem getFileInfo_success_iff (mem : Mem) (stack : IplStack) {addr : Nat} (real : addr ≠ null) :
    (peiFfsGetFileInfo mem stack.file addr true).1 = .success ↔
      isFfsFile2 mem stack.file = false := by
  unfold peiFfsGetFileInfo
  rw [if_neg (by simp [real])]
  cases large : isFfsFile2 mem stack.file with
  | true => simp
  | false => simp

theorem firstMatch_real {type : UInt8} {name : Option EfiGuid} {addr : Nat} {file : FileHdr}
    (found : firstMatch volume.first volume.files type name = some (addr, file)) :
    addr ≠ null := by
  have listed := List.mem_of_find?_eq_some found
  have low := (Layout.starts_bounds (by norm_num) volume.files volume.first _ listed).1
  have before := volume.header_before
  unfold null
  omega

/-- What a load leaves: the entry point of the core is computed and not called. -/
def loadEnd (status : EfiStatus) (image : Option LoadedImage) : IplResult :=
  if status = .success then ⟨.returned .loadError, image⟩ else ⟨.deadLoop, none⟩

/-- The ends of `DxeIplMain` with the first DXE core of a volume. -/
def IplEnds (mem : Mem) (stack : IplStack) : Option (Nat × FileHdr) → IplResult → Prop
  | none, result => result = ⟨.returned .notFound, none⟩
  | some (addr, _), result =>
      if isFfsFile2 mem stack.file then result = ⟨.returned .loadError, none⟩
      else ∃ status image, LoadFileReturns mem addr true status image ∧ result = loadEnd status image

theorem outcome_iff_of_refused {fv addr : Nat} (mapped : fv ≠ null)
    (refused : (peiFfsGetFileInfo mem stack.file addr true).1 ≠ .success)
    (searched : ∀ status after, FindNextFileReturns mem stack.addr efiFvFiletypeDxeCore fv null
      status after ↔ status = .success ∧ after = addr) (result : IplResult) :
    IplOutcome mem fv stack result ↔ result = ⟨.returned .loadError, none⟩ := by
  constructor
  · intro outcome
    cases outcome with
    | unmapped missing => exact absurd missing mapped
    | noFile _ other error => exact absurd ((searched _ _).mp other).1 error
    | noInfo _ _ _ => rfl
    | dead _ other accepted _ _ =>
        rw [((searched _ _).mp other).2] at accepted
        exact absurd accepted refused
    | core _ other accepted _ =>
        rw [((searched _ _).mp other).2] at accepted
        exact absurd accepted refused
  · rintro rfl
    exact .noInfo mapped ((searched .success addr).mpr ⟨rfl, rfl⟩) refused

theorem outcome_iff_of_accepted {fv addr : Nat} (mapped : fv ≠ null)
    (accepted : (peiFfsGetFileInfo mem stack.file addr true).1 = .success)
    (searched : ∀ status after, FindNextFileReturns mem stack.addr efiFvFiletypeDxeCore fv null
      status after ↔ status = .success ∧ after = addr) (result : IplResult) :
    IplOutcome mem fv stack result ↔
      ∃ status image, LoadFileReturns mem addr true status image ∧ result = loadEnd status image := by
  have found := (searched .success addr).mpr ⟨rfl, rfl⟩
  constructor
  · intro outcome
    cases outcome with
    | unmapped missing => exact absurd missing mapped
    | noFile _ other error => exact absurd ((searched _ _).mp other).1 error
    | noInfo _ other refused =>
        rw [((searched _ _).mp other).2] at refused
        exact absurd accepted refused
    | dead _ other _ loaded error =>
        rw [((searched _ _).mp other).2] at loaded
        exact ⟨_, _, loaded, (if_neg error).symm⟩
    | core _ other _ loaded =>
        rw [((searched _ _).mp other).2] at loaded
        exact ⟨_, _, loaded, (if_pos rfl).symm⟩
  · rintro ⟨status, image, loaded, rfl⟩
    unfold loadEnd
    by_cases error : status = .success
    · subst error
      obtain ⟨fuel, load⟩ := loaded
      obtain ⟨_, filled, rfl, _⟩ := loaded_of_loadFile ⟨fuel, load⟩
      rw [if_pos rfl]
      exact .core mapped found accepted ⟨fuel, load⟩
    · rw [if_neg error]
      exact .dead mapped found accepted loaded error

theorem outcome_iff_of_absent {fv : Nat} (mapped : fv ≠ null)
    (searched : ∀ status after, FindNextFileReturns mem stack.addr efiFvFiletypeDxeCore fv null
      status after ↔ status = .notFound ∧ after = null) (result : IplResult) :
    IplOutcome mem fv stack result ↔ IplEnds mem stack none result := by
  have error : EfiStatus.notFound ≠ .success := by decide
  constructor
  · intro outcome
    cases outcome with
    | unmapped missing => exact absurd missing mapped
    | noFile _ other _ =>
        rw [((searched _ _).mp other).1]
        rfl
    | noInfo _ other _ => exact absurd ((searched _ _).mp other).1 error.symm
    | dead _ other _ _ _ => exact absurd ((searched _ _).mp other).1 error.symm
    | core _ other _ _ => exact absurd ((searched _ _).mp other).1 error.symm
  · rintro rfl
    exact .noFile mapped ((searched .notFound null).mpr ⟨rfl, rfl⟩) error

theorem returns_iff_ends {handles : Fin maxCoreFv → Nat} (present : VolumeAt mem volume)
    (mapped : volume.base ≠ null) (second : handles ⟨1, by decide⟩ = volume.base)
    (amount : (firstMatch volume.first volume.files efiFvFiletypeDxeCore none).isSome ∨
      volume.freeLength % 0x1000000 = 0 ∨ volume.freeLength % 0x1000000 = 0xffffff)
    (result : IplResult) :
    DxeIplReturns mem handles stack result ↔
      IplEnds mem stack (firstMatch volume.first volume.files efiFvFiletypeDxeCore none) result := by
  have decodes : DecodesVolume mem volume efiFvFiletypeDxeCore none :=
    decodesVolume_of_amount present (by decide) amount
  have ways : DxeIplReturns mem handles stack result ↔ IplOutcome mem volume.base stack result := by
    rw [← second]
    exact ⟨outcome_of_returns, returns_of_outcome⟩
  rw [ways]
  unfold DecodesVolume at decodes
  cases found : firstMatch volume.first volume.files efiFvFiletypeDxeCore none with
  | none =>
      rw [found] at decodes
      exact outcome_iff_of_absent mapped (decodes.2 rfl mapped stack.addr) result
  | some entry =>
      rw [found] at decodes
      have searched := decodes.2 rfl mapped stack.addr
      have info := getFileInfo_success_iff mem stack (firstMatch_real found)
      cases large : isFfsFile2 mem stack.file with
      | true =>
          simp only [IplEnds, large, if_true]
          exact outcome_iff_of_refused mapped (by simp [info, large]) searched result
      | false =>
          simp only [IplEnds, large, Bool.false_eq_true, if_false]
          exact outcome_iff_of_accepted mapped (info.mpr large) searched result

end Volumes

end ArcFirmware.DxeIplMain
