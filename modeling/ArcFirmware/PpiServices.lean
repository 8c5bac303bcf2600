import ArcFirmware.Lib.Loop
import ArcFirmware.FileChain

/-!
# PeiServices: the PPI database

`PeiInstallPpi`, `PeiLocatePpi` and what they call.  Descriptors and interfaces
are in memory; the pool and its counters are objects of the core that no
descriptor points into.  `PEI_CORE_CONTEXT` and the pool are allocated
statically, so a state is one memory and one database.
-/

set_option autoImplicit false

namespace ArcFirmware.PpiServices

open ArcFirmware.Memory ArcFirmware.Loop ArcFirmware.Edk2 ArcFirmware.UtilsLib

/-! ## Descriptors -/

def ppiDescriptorPic : Nat := 0x00000001
def ppiDescriptorPpi : Nat := 0x00000010
def ppiDescriptorTerminateList : Nat := 0x80000000

def sizeofPpiDescriptor : Nat := 12

def descFlags (mem : Mem) (desc : Nat) : Nat := leAt mem desc 4

def descGuid (mem : Mem) (desc : Nat) : Nat := leAt mem (desc + 4) 4

def descPpi (mem : Mem) (desc : Nat) : Nat := leAt mem (desc + 8) 4

def ppiEntry (mem : Mem) (ppi : Nat) : Nat := leAt mem ppi 4

def hasPpiFlag (mem : Mem) (desc : Nat) : Bool := descFlags mem desc &&& ppiDescriptorPpi != 0

def isPicPpi (mem : Mem) (desc : Nat) : Bool :=
  descFlags mem desc &&& ppiDescriptorPic == ppiDescriptorPic

def isLastPpi (mem : Mem) (desc : Nat) : Bool :=
  descFlags mem desc &&& ppiDescriptorTerminateList == ppiDescriptorTerminateList

/-! ## Installing -/

/-- `PEI_PPI_LIST`: the counters and the pool of descriptor pointers. -/
structure PpiList where
  currentCount : Nat
  maxCount : Nat
  ppiPtrs : Nat → Nat

structure PeiState where
  mem : Mem
  ppiList : PpiList

def calcPeimFixup (mem : Mem) (pcdBootFvBase fuel : Nat) : Option (Nat × EfiStatus) :=
  (getFileSection mem pcdBootFvBase efiSectionFreeformSubtypeGuid efiFvFiletypePeim none fuel).map
    fun result => (u32 result.1, result.2.status)

def fixupPpi (mem : Mem) (desc peimFixup : Nat) : Mem :=
  let ppi := u32 (descPpi mem desc + peimFixup)
  let mem := storeLe mem (desc + 8) 4 ppi
  let mem := storeLe mem ppi 4 (u32 (ppiEntry mem ppi + peimFixup))
  storeLe mem (desc + 4) 4 (u32 (descGuid mem desc + peimFixup))

/-- Variables of the installing loop; `desc` is the advancing `PpiList`. -/
structure InstallLoop where
  state : PeiState
  desc : Nat
  idx : Nat
  peimFixup : Nat

abbrev InstallStep := Step InstallLoop (Option (EfiStatus × PeiState))

/-- The `err` path. -/
def rejectList (lastCount : Nat) (status : EfiStatus) (state : PeiState) : InstallStep :=
  .done (some (status, { state with
    ppiList := { state.ppiList with currentCount := lastCount } }))

/-- `PpiPtrs[Idx].Ppi = PpiList` and `CurrentCount++`. -/
def PpiList.push (ppiList : PpiList) (idx desc : Nat) : PpiList :=
  { ppiList with
    currentCount := u32 (ppiList.currentCount + 1)
    ppiPtrs := Function.update ppiList.ppiPtrs idx desc }

/-- The part of a pass after the flags are accepted and the fixup is known.  The
terminator flag is fetched again, after the descriptor has been relocated. -/
def acceptPpi (lastCount peimFixup : Nat) (vars : InstallLoop) : InstallStep :=
  let ppiList := vars.state.ppiList.push vars.idx vars.desc
  let mem := fixupPpi vars.state.mem (ppiList.ppiPtrs vars.idx) peimFixup
  if isLastPpi mem vars.desc then .done (some (.success, ⟨mem, ppiList⟩))
  else if u32 (vars.idx + 1) ≥ ppiList.maxCount then
    rejectList lastCount .notFound ⟨mem, ppiList⟩
  else
    .next ⟨⟨mem, ppiList⟩, u32 (vars.desc + sizeofPpiDescriptor), u32 (vars.idx + 1), peimFixup⟩

/-- One pass of the installing loop; it is left with `none` when the fixup lookup
takes more than `fuel` passes. -/
def installStep (pcdBootFvBase fuel lastCount : Nat) (vars : InstallLoop) : InstallStep :=
  if hasPpiFlag vars.state.mem vars.desc = false then
    rejectList lastCount .invalidParameter vars.state
  else if vars.peimFixup = 0 ∧ isPicPpi vars.state.mem vars.desc then
    match calcPeimFixup vars.state.mem pcdBootFvBase fuel with
    | none => .done none
    | some (peimFixup, status) =>
        if status ≠ .success then rejectList lastCount status vars.state
        else acceptPpi lastCount peimFixup vars
  else acceptPpi lastCount vars.peimFixup vars

def peiInstallPpi (pcdBootFvBase : Nat) (state : PeiState) (desc fuel : Nat) :
    Option (EfiStatus × PeiState) :=
  if desc = null then some (.invalidParameter, state)
  else if state.ppiList.currentCount ≥ state.ppiList.maxCount then some (.notFound, state)
  else
    (run (installStep pcdBootFvBase fuel state.ppiList.currentCount) fuel
      ⟨state, desc, state.ppiList.currentCount, 0⟩).join

def InstallPpiReturns (pcdBootFvBase : Nat) (state : PeiState) (desc : Nat) (status : EfiStatus)
    (after : PeiState) : Prop :=
  ∃ fuel, peiInstallPpi pcdBootFvBase state desc fuel = some (status, after)

/-! ## Locating -/

/-- What a call returns and what it has written through its two pointers. -/
structure LocateResult where
  status : EfiStatus
  ppiDescriptor : Option Nat
  ppi : Option Nat
  deriving DecidableEq, Repr

def locateStep (state : PeiState) (guid : EfiGuid) (instance_ : Nat) (wantsDescriptor : Bool)
    (vars : Nat × Nat) : Step (Nat × Nat) LocateResult :=
  let (idx, tmpInstance) := vars
  if idx < state.ppiList.currentCount then
    let tmpPpiDesc := state.ppiList.ppiPtrs idx
    if tmpPpiDesc = null then .next (u32 (idx + 1), tmpInstance)
    else if compareGuids guid (guidAt state.mem (descGuid state.mem tmpPpiDesc)) = false then
      .next (u32 (idx + 1), tmpInstance)
    else if tmpInstance ≠ instance_ then .next (u32 (idx + 1), u32 (tmpInstance + 1))
    else
      .done ⟨.success, if wantsDescriptor then some tmpPpiDesc else none,
        some (descPpi state.mem tmpPpiDesc)⟩
  else .done ⟨.notFound, none, none⟩

/-- `guid` is `none` for a `NULL` pointer; `wantsDescriptor` and `wantsPpi` say
which of the two output pointers are given. -/
def peiLocatePpi (state : PeiState) (guid : Option EfiGuid) (instance_ : Nat)
    (wantsDescriptor wantsPpi : Bool) (fuel : Nat) : Option LocateResult :=
  match guid with
  | none => some ⟨.invalidParameter, none, none⟩
  | some guid =>
      if wantsPpi = false then some ⟨.invalidParameter, none, none⟩
      else run (locateStep state guid instance_ wantsDescriptor) fuel (0, 0)

def LocatePpiReturns (state : PeiState) (guid : Option EfiGuid) (instance_ : Nat)
    (wantsDescriptor wantsPpi : Bool) (result : LocateResult) : Prop :=
  ∃ fuel, peiLocatePpi state guid instance_ wantsDescriptor wantsPpi fuel = some result

end ArcFirmware.PpiServices
