import ArcFirmware.BootDecision

/-!
# The length of SEC's second header copy

`SecMain` copies as many bytes as the header says from one local to another.
The header counts its block map, the source local does not hold one and the
destination has room for a single entry.
-/

set_option autoImplicit false

namespace ArcFirmware.HeaderCopies

open ArcFirmware.Memory ArcFirmware.Edk2 ArcFirmware.SecMain ArcFirmware.FileChain
  ArcFirmware.BootDecision

/-! ## Block maps -/

/-- `sizeof(EFI_FIRMWARE_VOLUME_HEADER)`, with its one block-map entry. -/
def sizeofFirmwareVolumeHeader : Nat := 64

def IsTerminator (mem : Mem) (entry : Nat) : Prop :=
  leAt mem entry 4 = 0 ∧ leAt mem (entry + 4) 4 = 0

def BlockMapAt (mem : Mem) : Nat → Nat → Prop
  | _, 0 => False
  | addr, 1 => IsTerminator mem addr
  | addr, entries + 2 => ¬ IsTerminator mem addr ∧ BlockMapAt mem (addr + 8) (entries + 1)

theorem BlockMapAt.positive {mem : Mem} {addr entries : Nat}
    (blockMap : BlockMapAt mem addr entries) : 1 ≤ entries := by
  cases entries with
  | zero => exact blockMap.elim
  | succ entries => omega

/-- A header that passes the checks of `SecMain` and counts its block map. -/
structure WellFormedHeader (flash : Mem) (volume entries : Nat) : Prop where
  accepted : Accepts flash volume
  blockMap : BlockMapAt flash (volume + 56) entries
  headerLength : fvHeaderLength flash volume = 56 + 8 * entries

/-! ## The copies -/

section Copies

variable (lib : BaseMemoryLib) (pcds : SecPcds) (frame : SecFrame) (flash stack : Mem)

def copyBootFvHdr : Mem :=
  lib.copyMem stack frame.bootFvHdr flash pcds.bootFvBase.toNat frame.sizeofFvHeader

def secondCopyLength : Nat :=
  fvHeaderLength (copyBootFvHdr lib pcds frame flash stack) frame.bootFvHdr

/-- The second call of `CopyMem` in `SecMain`, and its length. -/
theorem copyBootFv_eq :
    copyBootFv lib pcds frame flash stack =
      lib.copyMem (copyBootFvHdr lib pcds frame flash stack) frame.bootFv
        (copyBootFvHdr lib pcds frame flash stack) frame.bootFvHdr
        (secondCopyLength lib pcds frame flash stack) := rfl

structure CopyInside : Prop where
  source : secondCopyLength lib pcds frame flash stack ≤ frame.sizeofFvHeader
  dest : secondCopyLength lib pcds frame flash stack ≤ sizeofFirmwareVolumeHeader

theorem secondCopyLength_eq :
    secondCopyLength lib pcds frame flash stack = fvHeaderLength flash pcds.bootFvBase.toNat := by
  have covers := frame.covers
  have padded := frame.padded
  have first := lib.copied stack frame.bootFvHdr flash pcds.bootFvBase.toNat frame.sizeofFvHeader
    (by omega)
  apply leAt_congr
  intro i small
  rw [Nat.add_assoc, Nat.add_assoc]
  exact first.inside (48 + i) (by omega)

/-- No header keeps the second copy inside its source; its destination holds it
only when the block map is the terminator alone. -/
theorem secondCopy_overruns (entries : Nat)
    (header : WellFormedHeader flash pcds.bootFvBase.toNat entries) :
    ¬ CopyInside lib pcds frame flash stack ∧
      (secondCopyLength lib pcds frame flash stack ≤ sizeofFirmwareVolumeHeader ↔
        entries = 1) := by
  have padded := frame.padded
  have positive := header.blockMap.positive
  have counted := header.headerLength
  have length := secondCopyLength_eq lib pcds frame flash stack
  have room : sizeofFirmwareVolumeHeader = 64 := rfl
  refine ⟨?_, by omega⟩
  intro inside
  have source := inside.source
  omega

end Copies

def builtHeader : Mem :=
  place 0x1000 (List.replicate 16 0 ++
    [0x78, 0xe5, 0x8c, 0x8c, 0x3d, 0x8a, 0x1c, 0x4f] ++
    [0x99, 0x35, 0x89, 0x61, 0x85, 0xc3, 0x2d, 0xd3] ++ [0, 0, 1, 0, 0, 0, 0, 0] ++
    [0x5f, 0x46, 0x56, 0x48, 0, 0, 0, 0, 72, 0] ++ List.replicate 6 0 ++
    [0x10, 0, 0, 0, 0, 0x10, 0, 0] ++ List.replicate 8 0)

theorem builtHeader_wellFormed : WellFormedHeader builtHeader 0x1000 2 := by
  refine ⟨⟨by decide +kernel, by decide +kernel⟩, ⟨?_, ?_⟩, by decide +kernel⟩
  · intro ended
    have blocks := ended.1
    revert blocks
    decide +kernel
  · exact ⟨by decide +kernel, by decide +kernel⟩

theorem secondCopy_overruns_builtHeader :
    ¬ CopyInside flatMemoryLib shortPcds lowFrame builtHeader (fun _ => 0) ∧
      (secondCopyLength flatMemoryLib shortPcds lowFrame builtHeader (fun _ => 0) ≤
        sizeofFirmwareVolumeHeader ↔ 2 = 1) :=
  secondCopy_overruns flatMemoryLib shortPcds lowFrame builtHeader (fun _ => 0) 2
    builtHeader_wellFormed

/-- The 72 bytes of the header are copied out of an object of 52 into one of 64. -/
theorem builtHeader_copied_beyond :
    WellFormedHeader builtHeader 0x1000 2 ∧
      secondCopyLength flatMemoryLib shortPcds lowFrame builtHeader (fun _ => 0) = 72 ∧
      lowFrame.sizeofFvHeader = 52 ∧ sizeofFirmwareVolumeHeader = 64 ∧
      ¬ CopyInside flatMemoryLib shortPcds lowFrame builtHeader (fun _ => 0) := by
  have length : secondCopyLength flatMemoryLib shortPcds lowFrame builtHeader (fun _ => 0) =
      72 := by decide +kernel
  refine ⟨builtHeader_wellFormed, length, rfl, rfl, ?_⟩
  intro inside
  have dest := inside.dest
  rw [length] at dest
  revert dest
  decide

end ArcFirmware.HeaderCopies
