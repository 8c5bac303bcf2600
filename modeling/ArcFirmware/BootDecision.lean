import ArcFirmware.FileChain
import ArcFirmware.SecMain

/-!
# Whether the boot decision is the flash's

The header that `SecMain` checks is a copy as long as the header itself says.
What lies above that length comes from the stack, so the decision is the flash's
exactly when the length covers the checked fields, or when flash settles the
matter without them.
-/

set_option autoImplicit false

namespace ArcFirmware.BootDecision

open ArcFirmware.Memory ArcFirmware.Edk2 ArcFirmware.UtilsLib ArcFirmware.FileChain
  ArcFirmware.SecMain

/-! ## The checked fields -/

def Accepts (mem : Mem) (volume : Nat) : Prop :=
  fvSignature mem volume = efiFvhSignature ∧
    fvFileSystemGuid mem volume = efiFirmwareFileSystem2Guid

/-- The offsets of `FileSystemGuid` and `Signature`. -/
def Checked (offset : Nat) : Prop := (16 ≤ offset ∧ offset < 32) ∨ (40 ≤ offset ∧ offset < 44)

theorem Checked.lt {offset : Nat} (checked : Checked offset) : offset < 44 := by
  unfold Checked at checked
  omega

def checkedFields : Mem :=
  place 16 ([0x78, 0xe5, 0x8c, 0x8c, 0x3d, 0x8a, 0x1c, 0x4f] ++
    [0x99, 0x35, 0x89, 0x61, 0x85, 0xc3, 0x2d, 0xd3] ++ List.replicate 8 0 ++
    [0x5f, 0x46, 0x56, 0x48])

theorem checkedFields_signature : leAt checkedFields (0 + 40) 4 = efiFvhSignature := by
  decide +kernel

theorem checkedFields_guid : guidAt checkedFields (0 + 16) = efiFirmwareFileSystem2Guid := by
  decide +kernel

theorem accepts_iff (mem : Mem) (volume : Nat) :
    Accepts mem volume ↔
      ∀ offset, Checked offset → byteAt mem (volume + offset) = byteAt checkedFields offset := by
  rw [Accepts, fvSignature, fvFileSystemGuid, ← checkedFields_signature, ← checkedFields_guid]
  constructor
  · intro accepted offset checked
    obtain ⟨signature, guid⟩ := accepted
    rcases checked with ⟨low, high⟩ | ⟨low, high⟩
    · have byte := byteAt_eq_of_guidAt_eq guid (offset - 16) (by omega)
      rwa [Nat.add_assoc, Nat.add_assoc, Nat.add_sub_cancel' low, Nat.zero_add] at byte
    · have byte := byteAt_eq_of_leAt_eq _ _ _ _ 4 signature (offset - 40) (by omega)
      rwa [Nat.add_assoc, Nat.add_assoc, Nat.add_sub_cancel' low, Nat.zero_add] at byte
  · intro bytes
    refine ⟨?_, ?_⟩
    · apply leAt_congr
      intro i bound
      have byte := bytes (40 + i) (Or.inr ⟨by omega, by omega⟩)
      rwa [← Nat.add_assoc, ← Nat.zero_add (40 + i), ← Nat.add_assoc] at byte
    · apply guidAt_congr
      intro i bound
      have byte := bytes (16 + i) (Or.inl ⟨by omega, by omega⟩)
      rwa [← Nat.add_assoc, ← Nat.zero_add (16 + i), ← Nat.add_assoc] at byte

/-! ## The copy -/

section Copy

variable (lib : BaseMemoryLib) (pcds : SecPcds) (frame : SecFrame) (flash stack : Mem)

/-- Of the copied header the first `HeaderLength` bytes come from flash and the
others are those that the stack held. -/
theorem byteAt_copyBootFv (offset : Nat) (bound : offset < 44) :
    byteAt (copyBootFv lib pcds frame flash stack) (frame.bootFv + offset) =
      if offset < fvHeaderLength flash pcds.bootFvBase.toNat then
        byteAt flash (pcds.bootFvBase.toNat + offset)
      else byteAt stack (frame.bootFv + offset) := by
  have covers := frame.covers
  have padded := frame.padded
  have first := lib.copied stack frame.bootFvHdr flash pcds.bootFvBase.toNat frame.sizeofFvHeader
    (by omega)
  rw [copyBootFv]
  generalize lib.copyMem stack frame.bootFvHdr flash pcds.bootFvBase.toNat frame.sizeofFvHeader =
    copy at first
  have length : fvHeaderLength copy frame.bootFvHdr =
      fvHeaderLength flash pcds.bootFvBase.toNat := by
    apply leAt_congr
    intro i small
    rw [Nat.add_assoc, Nat.add_assoc]
    exact first.inside (48 + i) (by omega)
  have short := fvHeaderLength_lt flash pcds.bootFvBase.toNat
  have second := lib.copied copy frame.bootFv copy frame.bootFvHdr
    (fvHeaderLength copy frame.bootFvHdr) (by omega)
  rw [length] at second ⊢
  by_cases copied : offset < fvHeaderLength flash pcds.bootFvBase.toNat
  · rw [if_pos copied, second.inside offset copied]
    exact first.inside offset (by omega)
  · rw [if_neg copied, second.outside, first.outside]
    · intro i small
      exact frame.apart i small offset (by omega)
    · intro i small same
      unfold bus at same
      omega

theorem accepts_copy_iff :
    Accepts (copyBootFv lib pcds frame flash stack) frame.bootFv ↔
      ∀ offset, Checked offset →
        (if offset < fvHeaderLength flash pcds.bootFvBase.toNat then
          byteAt flash (pcds.bootFvBase.toNat + offset)
        else byteAt stack (frame.bootFv + offset)) = byteAt checkedFields offset := by
  rw [accepts_iff]
  constructor
  · intro bytes offset checked
    rw [← byteAt_copyBootFv lib pcds frame flash stack offset checked.lt]
    exact bytes offset checked
  · intro bytes offset checked
    rw [byteAt_copyBootFv lib pcds frame flash stack offset checked.lt]
    exact bytes offset checked

theorem copied_header (covered : 44 ≤ fvHeaderLength flash pcds.bootFvBase.toNat) :
    (Accepts (copyBootFv lib pcds frame flash stack) frame.bootFv ↔
        Accepts flash pcds.bootFvBase.toNat) ∧
      fvLength (copyBootFv lib pcds frame flash stack) frame.bootFv =
        fvLength flash pcds.bootFvBase.toNat := by
  have byte (offset : Nat) (bound : offset < 44) :
      byteAt (copyBootFv lib pcds frame flash stack) (frame.bootFv + offset) =
        byteAt flash (pcds.bootFvBase.toNat + offset) := by
    rw [byteAt_copyBootFv lib pcds frame flash stack offset bound, if_pos (by omega)]
  refine ⟨?_, ?_⟩
  · rw [accepts_iff, accepts_iff]
    refine forall₂_congr fun offset checked => ?_
    rw [byte offset checked.lt]
  · apply leAt_congr
    intro i small
    rw [Nat.add_assoc, Nat.add_assoc]
    exact byte (32 + i) (by omega)

end Copy

/-! ## The decision -/

section Decision

variable (lib : BaseMemoryLib) (pcds : SecPcds) (frame : SecFrame) (flash : Mem)

/-- A TE section of a PEI core is found at `ptr`. -/
def CoreAt (ptr : Nat) : Prop :=
  ptr ≠ null ∧ ∃ info, GetFileSectionReturns flash pcds.bootFvBase.toNat efiSectionTe
    efiFvFiletypePeiCore none (ptr, info)

/-- A byte of the checked fields that is copied from flash is wrong there. -/
def Rejects : Prop :=
  ∃ offset < fvHeaderLength flash pcds.bootFvBase.toNat, Checked offset ∧
    byteAt flash (pcds.bootFvBase.toNat + offset) ≠ byteAt checkedFields offset

theorem CoreAt.unique {first second : Nat} (left : CoreAt pcds flash first)
    (right : CoreAt pcds flash second) : first = second := by
  obtain ⟨_, _, left⟩ := left
  obtain ⟨_, _, right⟩ := right
  exact congrArg Prod.fst (getFileSectionReturns_unique left right)

theorem CoreAt.entry {ptr : Nat} (core : CoreAt pcds flash ptr) :
    ∃ info, GetTeEntryPointReturns flash pcds.bootFvBase.toNat efiFvFiletypePeiCore none
      (teEntryPoint flash ptr, info) := by
  obtain ⟨real, info, section_⟩ := core
  exact ⟨info, (getTeEntryPointReturns_iff _ _ _ _ _ _).mpr ⟨ptr, section_, (if_neg real).symm⟩⟩

theorem secCalls_iff (stack : Mem) (call : SecCall) :
    SecCalls lib pcds frame flash stack call ↔
      Accepts (copyBootFv lib pcds frame flash stack) frame.bootFv ∧
        ∃ ptr, CoreAt pcds flash ptr ∧ teEntryPoint flash ptr ≠ null ∧
          call = ⟨teEntryPoint flash ptr, secData pcds (UInt32.ofNat
            (fvLength (copyBootFv lib pcds frame flash stack) frame.bootFv))⟩ := by
  have valid : isValidBootFv lib (copyBootFv lib pcds frame flash stack) frame.bootFv = true ↔
      fvFileSystemGuid (copyBootFv lib pcds frame flash stack) frame.bootFv =
        efiFirmwareFileSystem2Guid := lib.compared _ _
  unfold SecCalls secMain Accepts
  generalize copyBootFv lib pcds frame flash stack = copy at valid ⊢
  rw [← valid]
  constructor
  · intro success
    obtain ⟨fuel, success⟩ := success
    by_cases signature : fvSignature copy frame.bootFv = efiFvhSignature
    · by_cases guid : isValidBootFv lib copy frame.bootFv = true
      · rw [if_neg (not_not.mpr signature), if_neg (by rw [guid]; decide)] at success
        cases found : getTeEntryPoint flash pcds.bootFvBase.toNat efiFvFiletypePeiCore none fuel with
        | none => simp [found] at success
        | some result =>
            obtain ⟨peiEp, info⟩ := result
            by_cases missing : peiEp = null
            · simp [found, missing] at success
            · simp only [found, if_neg missing, Option.some.injEq] at success
              obtain ⟨ptr, section_, rfl⟩ :=
                (getTeEntryPointReturns_iff _ _ _ _ _ _).mp ⟨fuel, found⟩
              have real : ptr ≠ null := by
                intro absent
                exact missing (if_pos absent)
              rw [if_neg real] at missing success
              exact ⟨⟨signature, guid⟩, ptr, ⟨real, info, section_⟩, missing, success.symm⟩
      · rw [if_neg (not_not.mpr signature), if_pos (by simpa using guid)] at success
        cases success
    · rw [if_pos signature] at success
      cases success
  · intro success
    obtain ⟨⟨signature, guid⟩, ptr, core, callable, rfl⟩ := success
    obtain ⟨info, fuel, found⟩ := core.entry pcds flash
    refine ⟨fuel, ?_⟩
    rw [if_neg (not_not.mpr signature), if_neg (by rw [guid]; decide), found]
    simp only [if_neg callable]

theorem not_accepts_of_rejects (rejects : Rejects pcds flash) :
    ¬ Accepts flash pcds.bootFvBase.toNat ∧
      ∀ stack, ¬ Accepts (copyBootFv lib pcds frame flash stack) frame.bootFv := by
  obtain ⟨offset, copied, checked, wrong⟩ := rejects
  refine ⟨?_, ?_⟩
  · intro accepted
    exact wrong ((accepts_iff _ _).mp accepted offset checked)
  · intro stack accepted
    have byte := (accepts_copy_iff lib pcds frame flash stack).mp accepted offset checked
    rw [if_pos copied] at byte
    exact wrong byte

/-- Without a wrong byte in flash, the stack can supply what is not copied. -/
theorem accepts_of_not_rejects (right : ¬ Rejects pcds flash) :
    Accepts (copyBootFv lib pcds frame flash
      (copyBytes (fun _ => 0) frame.bootFv checkedFields 0 44)) frame.bootFv := by
  rw [accepts_copy_iff]
  intro offset checked
  by_cases copied : offset < fvHeaderLength flash pcds.bootFvBase.toNat
  · rw [if_pos copied]
    by_contra wrong
    exact right ⟨offset, copied, checked, wrong⟩
  · rw [if_neg copied, (copied_copyBytes _ _ _ _ 44 (by omega)).inside offset checked.lt,
      Nat.zero_add]

theorem not_accepts_of_short (short : fvHeaderLength flash pcds.bootFvBase.toNat < 44) :
    ¬ Accepts (copyBootFv lib pcds frame flash fun _ => 0) frame.bootFv := by
  intro accepted
  have byte := (accepts_copy_iff lib pcds frame flash fun _ => 0).mp accepted 43
    (Or.inr ⟨by omega, by omega⟩)
  rw [if_neg (by omega)] at byte
  have zero : (0 : UInt8) = byteAt checkedFields 43 := byte
  exact absurd zero (by decide)

/-- The decision, the entry point and the volume size are those of the flash. -/
structure FlashDecides : Prop where
  decision : ∀ stack, (∃ call, SecCalls lib pcds frame flash stack call) ↔
    Accepts flash pcds.bootFvBase.toNat ∧ ∃ ptr, CoreAt pcds flash ptr
  entry : ∀ stack call, SecCalls lib pcds frame flash stack call →
    ∃ info, GetTeEntryPointReturns flash pcds.bootFvBase.toNat efiFvFiletypePeiCore none
      (call.peiEp, info)
  size : ∀ stack call, SecCalls lib pcds frame flash stack call →
    call.secData.bootFirmwareVolumeSize = UInt32.ofNat (fvLength flash pcds.bootFvBase.toNat)
  alike : ∀ stack other call, SecCalls lib pcds frame flash stack call →
    SecCalls lib pcds frame flash other call

theorem flashDecides_of_silent (silent : ∀ stack call, ¬ SecCalls lib pcds frame flash stack call)
    (refused : ¬ (Accepts flash pcds.bootFvBase.toNat ∧ ∃ ptr, CoreAt pcds flash ptr)) :
    FlashDecides lib pcds frame flash where
  decision := by
    intro stack
    refine ⟨?_, fun boots => absurd boots refused⟩
    intro called
    obtain ⟨call, called⟩ := called
    exact absurd called (silent stack call)
  entry := fun stack call called => absurd called (silent stack call)
  size := fun stack call called => absurd called (silent stack call)
  alike := fun stack _ call called => absurd called (silent stack call)

theorem flashDecides_of_covered {ptr : Nat}
    (covered : 44 ≤ fvHeaderLength flash pcds.bootFvBase.toNat) (core : CoreAt pcds flash ptr)
    (callable : teEntryPoint flash ptr ≠ null) : FlashDecides lib pcds frame flash := by
  have calls (stack : Mem) (call : SecCall) : SecCalls lib pcds frame flash stack call ↔
      Accepts flash pcds.bootFvBase.toNat ∧ call = ⟨teEntryPoint flash ptr,
        secData pcds (UInt32.ofNat (fvLength flash pcds.bootFvBase.toNat))⟩ := by
    obtain ⟨accepts, size⟩ := copied_header lib pcds frame flash stack covered
    rw [secCalls_iff, accepts, size]
    refine and_congr_right fun _ => ⟨?_, fun same => ⟨ptr, core, callable, same⟩⟩
    intro found
    obtain ⟨other, otherCore, _, same⟩ := found
    rwa [otherCore.unique pcds flash core] at same
  refine ⟨?_, ?_, ?_, ?_⟩
  · intro stack
    constructor
    · intro called
      obtain ⟨call, called⟩ := called
      exact ⟨((calls stack call).mp called).1, ptr, core⟩
    · intro boots
      exact ⟨_, (calls stack _).mpr ⟨boots.1, rfl⟩⟩
  · intro stack call called
    obtain ⟨_, rfl⟩ := (calls stack call).mp called
    exact core.entry pcds flash
  · intro stack call called
    obtain ⟨_, rfl⟩ := (calls stack call).mp called
    rfl
  · intro stack other call called
    exact (calls other call).mpr ((calls stack call).mp called)

/-- When the decision is the flash's. -/
theorem flashDecides_iff :
    FlashDecides lib pcds frame flash ↔
      ∀ ptr, CoreAt pcds flash ptr →
        Rejects pcds flash ∨
        (44 ≤ fvHeaderLength flash pcds.bootFvBase.toNat ∧ teEntryPoint flash ptr ≠ null) ∨
        (teEntryPoint flash ptr = null ∧ ¬ Accepts flash pcds.bootFvBase.toNat) := by
  constructor
  · intro decides ptr core
    by_contra otherwise
    simp only [not_or, not_and, not_not] at otherwise
    obtain ⟨right, short, null_⟩ := otherwise
    by_cases callable : teEntryPoint flash ptr = null
    · obtain ⟨call, called⟩ := (decides.decision fun _ => 0).mpr ⟨null_ callable, ptr, core⟩
      obtain ⟨_, other, otherCore, real, _⟩ := (secCalls_iff lib pcds frame flash _ _).mp called
      rw [otherCore.unique pcds flash core] at real
      exact real callable
    · have below : fvHeaderLength flash pcds.bootFvBase.toNat < 44 := by
        by_contra covered
        exact callable (short (by omega))
      have called := (secCalls_iff lib pcds frame flash _ _).mpr
        ⟨accepts_of_not_rejects lib pcds frame flash right, ptr, core, callable, rfl⟩
      have again := decides.alike _ (fun _ => 0) _ called
      exact not_accepts_of_short lib pcds frame flash below
        ((secCalls_iff lib pcds frame flash _ _).mp again).1
  · intro condition
    by_cases missing : ∃ ptr, CoreAt pcds flash ptr
    · obtain ⟨ptr, core⟩ := missing
      rcases condition ptr core with rejects | ⟨covered, callable⟩ | ⟨null_, refused⟩
      · obtain ⟨refused, never⟩ := not_accepts_of_rejects lib pcds frame flash rejects
        apply flashDecides_of_silent
        · intro stack call called
          exact never stack ((secCalls_iff lib pcds frame flash _ _).mp called).1
        · exact fun boots => refused boots.1
      · exact flashDecides_of_covered lib pcds frame flash covered core callable
      · apply flashDecides_of_silent
        · intro stack call called
          obtain ⟨_, other, otherCore, real, _⟩ :=
            (secCalls_iff lib pcds frame flash _ _).mp called
          rw [otherCore.unique pcds flash core] at real
          exact real null_
        · exact fun boots => refused boots.1
    · apply flashDecides_of_silent
      · intro stack call called
        obtain ⟨_, ptr, core, _⟩ := (secCalls_iff lib pcds frame flash _ _).mp called
        exact missing ⟨ptr, core⟩
      · exact fun boots => missing boots.2

end Decision

/-! ## A header that is too short -/

def flatMemoryLib : BaseMemoryLib where
  copyMem := copyBytes
  compareGuid := fun first second => first = second
  copied := copied_copyBytes
  compared := fun _ _ => decide_eq_true_iff

def shortPcds : SecPcds := ⟨0x1000, 0x8000, 0x4000⟩

def lowFrame : SecFrame where
  bootFv := 0x9000
  bootFvHdr := 0x9040
  sizeofFvHeader := 52
  covers := by decide
  padded := by decide
  apart := (apart_of_below (by decide) (by decide)).symm

/-- A correct boot volume, but for a `HeaderLength` of 40: the signature is not
copied.  The PEI core file begins at 0x1028 and its TE section at 0x1040. -/
def shortHeader : Mem :=
  place 0x1000 (List.replicate 16 0 ++
    [0x78, 0xe5, 0x8c, 0x8c, 0x3d, 0x8a, 0x1c, 0x4f] ++
    [0x99, 0x35, 0x89, 0x61, 0x85, 0xc3, 0x2d, 0xd3] ++ [0x6c, 0, 0, 0, 0, 0, 0, 0] ++
    [0x5f, 0x46, 0x56, 0x48, 0, 0, 0, 0, 40, 0] ++ List.replicate 8 0 ++
    [0x04, 0, 0x44, 0, 0, 0, 0x2c, 0, 0, 0x12])

/-- The same volume with a `HeaderLength` of 56: the file begins at 0x1038, its section at 0x1050. -/
def fullHeader : Mem :=
  place 0x1000 (List.replicate 16 0 ++
    [0x78, 0xe5, 0x8c, 0x8c, 0x3d, 0x8a, 0x1c, 0x4f] ++
    [0x99, 0x35, 0x89, 0x61, 0x85, 0xc3, 0x2d, 0xd3] ++ [0x7c, 0, 0, 0, 0, 0, 0, 0] ++
    [0x5f, 0x46, 0x56, 0x48, 0, 0, 0, 0, 56, 0] ++ List.replicate 24 0 ++
    [0x04, 0, 0x44, 0, 0, 0, 0x2c, 0, 0, 0x12])

theorem flashDecides_iff_fullHeader :
    FlashDecides flatMemoryLib shortPcds lowFrame fullHeader ∧
      ∀ stack, ∃ call, SecCalls flatMemoryLib shortPcds lowFrame fullHeader stack call := by
  have signature : fvSignature fullHeader 0x1000 = efiFvhSignature := by decide +kernel
  have guid : fvFileSystemGuid fullHeader 0x1000 = efiFirmwareFileSystem2Guid := by
    decide +kernel
  have found : getFileSection fullHeader 0x1000 efiSectionTe efiFvFiletypePeiCore none 3 =
      some (0x1050, ⟨.success, 183⟩) := by decide +kernel
  have core : CoreAt shortPcds fullHeader 0x1050 := ⟨by decide, _, 3, found⟩
  have covered : 44 ≤ fvHeaderLength fullHeader shortPcds.bootFvBase.toNat := by decide +kernel
  have callable : teEntryPoint fullHeader 0x1050 ≠ null := by decide +kernel
  have decides : FlashDecides flatMemoryLib shortPcds lowFrame fullHeader := by
    refine (flashDecides_iff flatMemoryLib shortPcds lowFrame fullHeader).mpr fun ptr found => ?_
    rw [found.unique shortPcds fullHeader core]
    exact .inr (.inl ⟨covered, callable⟩)
  exact ⟨decides, fun stack => (decides.decision stack).mpr ⟨⟨signature, guid⟩, _, core⟩⟩

/-- SEC calls the core over a stack that happens to hold the signature and halts
over a stack of zeros. -/
theorem shortHeader_decided_by_stack :
    Accepts shortHeader 0x1000 ∧ CoreAt shortPcds shortHeader 0x1040 ∧
      (∃ stack call, SecCalls flatMemoryLib shortPcds lowFrame shortHeader stack call) ∧
      secMain flatMemoryLib shortPcds lowFrame shortHeader (fun _ => 0) 3 = some none ∧
      ¬ FlashDecides flatMemoryLib shortPcds lowFrame shortHeader := by
  have signature : fvSignature shortHeader 0x1000 = efiFvhSignature := by decide +kernel
  have guid : fvFileSystemGuid shortHeader 0x1000 = efiFirmwareFileSystem2Guid := by
    decide +kernel
  have found : getFileSection shortHeader 0x1000 efiSectionTe efiFvFiletypePeiCore none 3 =
      some (0x1040, ⟨.success, 183⟩) := by decide +kernel
  have core : CoreAt shortPcds shortHeader 0x1040 := ⟨by decide, _, 3, found⟩
  have signed : secMain flatMemoryLib shortPcds lowFrame shortHeader
      (copyBytes (fun _ => 0) 0x9000 checkedFields 0 44) 3 =
      some (some ⟨0x106c, secData shortPcds 0x6c⟩) := by decide +kernel
  have zeros : secMain flatMemoryLib shortPcds lowFrame shortHeader (fun _ => 0) 3 =
      some none := by decide +kernel
  refine ⟨⟨signature, guid⟩, core, ⟨_, _, 3, signed⟩, zeros, ?_⟩
  intro decides
  have called := decides.alike _ (fun _ => 0) _ ⟨3, signed⟩
  have short : fvHeaderLength shortHeader shortPcds.bootFvBase.toNat < 44 := by decide +kernel
  exact not_accepts_of_short flatMemoryLib shortPcds lowFrame shortHeader short
    ((secCalls_iff flatMemoryLib shortPcds lowFrame shortHeader _ _).mp called).1

end ArcFirmware.BootDecision
