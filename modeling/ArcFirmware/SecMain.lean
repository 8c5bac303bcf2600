import ArcFirmware.UtilsLib

/-!
# SecMain: the boot decision

`SecMain` up to the call of the PEI core.  The locals of its frame are bytes of a
stack whose earlier contents are arbitrary; `flash` is the memory that the volume
is looked up in.  `CopyMem` and `CompareGuid` are known by what `BaseMemoryLib`
documents of them.
-/

set_option autoImplicit false

namespace ArcFirmware.SecMain

open ArcFirmware.Memory ArcFirmware.Edk2 ArcFirmware.UtilsLib

/-- `EFI_FVH_SIGNATURE`, the characters `_FVH`. -/
def efiFvhSignature : Nat := 0x4856465f

def efiFirmwareFileSystem2Guid : EfiGuid :=
  ⟨0x8c8ce578, 0x8a3d, 0x4f1c, #v[0x99, 0x35, 0x89, 0x61, 0x85, 0xc3, 0x2d, 0xd3]⟩

def fvFileSystemGuid (mem : Mem) (volume : Nat) : EfiGuid := guidAt mem (volume + 16)

def fvSignature (mem : Mem) (volume : Nat) : Nat := leAt mem (volume + 40) 4

/-! ## What the function is given -/

/-- The two library functions that are called; the first memory of `copyMem` is
the one that is written. -/
structure BaseMemoryLib where
  copyMem : Mem → Nat → Mem → Nat → Nat → Mem
  compareGuid : EfiGuid → EfiGuid → Bool
  copied : ∀ before dest source src length, length ≤ 2 ^ 32 →
    Copied before dest source src length (copyMem before dest source src length)
  compared : ∀ first second, compareGuid first second = true ↔ first = second

structure SecPcds where
  bootFvBase : UInt32
  peiTemporaryRamBase : UInt32
  peiTemporaryRamSize : UInt32

/-- Where the compiler has put the two header copies.  `FV_HEADER` ends with the
two bytes of `HeaderLength` and the padding of the ABI. -/
structure SecFrame where
  bootFv : Nat
  bootFvHdr : Nat
  sizeofFvHeader : Nat
  covers : 50 ≤ sizeofFvHeader
  padded : sizeofFvHeader ≤ 56
  apart : Apart bootFvHdr sizeofFvHeader bootFv 64

/-! ## What it hands over -/

structure EfiSecPeiHandOff where
  dataSize : UInt16
  bootFirmwareVolumeBase : UInt32
  bootFirmwareVolumeSize : UInt32
  temporaryRamBase : UInt32
  temporaryRamSize : UInt32
  peiTemporaryRamBase : UInt32
  peiTemporaryRamSize : UInt32
  stackBase : UInt32
  stackSize : UInt32
  deriving DecidableEq, Repr

def sizeofSecPeiHandOff : UInt16 := 36

def secData (pcds : SecPcds) (fvSize : UInt32) : EfiSecPeiHandOff where
  dataSize := sizeofSecPeiHandOff
  bootFirmwareVolumeBase := pcds.bootFvBase
  bootFirmwareVolumeSize := fvSize
  temporaryRamBase := pcds.peiTemporaryRamBase
  temporaryRamSize := pcds.peiTemporaryRamSize
  peiTemporaryRamBase := pcds.peiTemporaryRamBase
  peiTemporaryRamSize := pcds.peiTemporaryRamSize >>> 1
  stackBase := pcds.peiTemporaryRamBase + pcds.peiTemporaryRamSize >>> 1
  stackSize := pcds.peiTemporaryRamSize >>> 1

structure SecCall where
  peiEp : Nat
  secData : EfiSecPeiHandOff
  deriving DecidableEq, Repr

/-! ## The function -/

section Body

variable (lib : BaseMemoryLib) (pcds : SecPcds) (frame : SecFrame) (flash stack : Mem)

def isValidBootFv (bootFv : Nat) : Bool :=
  lib.compareGuid (fvFileSystemGuid stack bootFv) efiFirmwareFileSystem2Guid

/-- The stack after the two copies.  The second one is as long as the first copy
says, whatever the sizes of the two locals. -/
def copyBootFv : Mem :=
  let stack := lib.copyMem stack frame.bootFvHdr flash pcds.bootFvBase.toNat frame.sizeofFvHeader
  lib.copyMem stack frame.bootFv stack frame.bootFvHdr (fvHeaderLength stack frame.bootFvHdr)

/-- `some none` is a halt; `none` is a lookup that takes more than `fuel` passes. -/
def secMain (fuel : Nat) : Option (Option SecCall) :=
  let stack := copyBootFv lib pcds frame flash stack
  if fvSignature stack frame.bootFv ≠ efiFvhSignature then some none
  else if isValidBootFv lib stack frame.bootFv = false then some none
  else
    let fvSize := UInt32.ofNat (fvLength stack frame.bootFv)
    match getTeEntryPoint flash pcds.bootFvBase.toNat efiFvFiletypePeiCore none fuel with
    | none => none
    | some (peiEp, _) => if peiEp = null then some none else some (some ⟨peiEp, secData pcds fvSize⟩)

def SecCalls (call : SecCall) : Prop :=
  ∃ fuel, secMain lib pcds frame flash stack fuel = some (some call)

end Body

end ArcFirmware.SecMain
