import ArcFirmware.Lib.Assembly
import ArcFirmware.Lib.Device
import Mathlib.Logic.Function.Basic

/-!
# The reset entry

`SecEntry.S`: the instructions from reset to the call of `SecMain`, on a core whose
auxiliary registers are a device.  Each cache and the DSP extension is probed by a
build register and set up in a block that ends at a label of its own; the lines
after the blocks establish the stack.
-/

set_option autoImplicit false

namespace ArcFirmware.SecEntry

open ArcFirmware.Port ArcFirmware.OnDevice ArcFirmware.Assembly

/-! ## Registers -/

def arcAuxIcIvic : UInt32 := 0x10
def arcAuxIcCtrl : UInt32 := 0x11
def arcBcrIcBuild : UInt32 := 0x77

def arcAuxDcIvdc : UInt32 := 0x47
def arcAuxDcCtrl : UInt32 := 0x48
def arcBcrDcBuild : UInt32 := 0x72
def arcBcrSlc : UInt32 := 0xce

def arcAuxDspBuild : UInt32 := 0x7a
def arcAuxDspCtrl : UInt32 := 0x59f
def arcAuxSlcCtrl : UInt32 := 0x903

def statusAdBit : UInt32 := 19

def sysInitSpAddr : UInt32 := 0x80000f30

inductive Reg where
  | r5
  | sp
  | fp
  deriving DecidableEq, Repr

/-- The core registers that the code names, and what `flag` has written last. -/
structure Core where
  r5 : UInt32
  sp : UInt32
  fp : UInt32
  status : Option UInt32
  deriving DecidableEq, Repr

def Core.get (core : Core) : Reg → UInt32
  | .r5 => core.r5
  | .sp => core.sp
  | .fp => core.fp

def Core.set (core : Core) (reg : Reg) (value : UInt32) : Core :=
  match reg with
  | .r5 => { core with r5 := value }
  | .sp => { core with sp := value }
  | .fp => { core with fp := value }

/-! ## Instructions -/

inductive Symbol where
  | secMain
  deriving DecidableEq, Repr

inductive Operand where
  | reg (source : Reg)
  | imm (value : UInt32)
  deriving DecidableEq, Repr

inductive Op where
  | lr (dest : Reg) (aux : UInt32)
  | sr (source : Reg) (aux : UInt32)
  | breq (source : Reg) (value : UInt32) (target : Nat)
  | bset (dest source : Reg) (bit : UInt32)
  | bclr (dest source : Reg) (bit : UInt32)
  | bmsk (dest source : Reg) (bit : UInt32)
  | mov (dest : Reg) (source : Operand)
  | nop
  | flag (value : UInt32)
  | bl (target : Symbol)
  | sleep
  deriving DecidableEq, Repr

def Core.operand (core : Core) : Operand → UInt32
  | .reg source => core.get source
  | .imm value => value

abbrev AuxProg := PortProg UInt32 UInt32

def step (op : Op) (core : Core) : AuxProg (Flow Nat Symbol Core) :=
  match op with
  | .lr dest aux => do
      return .next (core.set dest (← input aux))
  | .sr source aux => do
      output aux (core.get source)
      return .next core
  | .breq source value target =>
      return if core.get source = value then .jump target core else .next core
  | .bset dest source bit => return .next (core.set dest (core.get source ||| 1 <<< bit))
  | .bclr dest source bit => return .next (core.set dest (core.get source &&& ~~~(1 <<< bit)))
  | .bmsk dest source bit => return .next (core.set dest (core.get source &&& (1 <<< (bit + 1) - 1)))
  | .mov dest source => return .next (core.set dest (core.operand source))
  | .nop => return .next core
  | .flag value => return .next { core with status := some value }
  | .bl target => return .call target core
  | .sleep => return .stop core

/-! ## The code -/

def icacheBlock : List Op :=
  [.lr .r5 arcBcrIcBuild, .breq .r5 0 1, .lr .r5 arcAuxIcCtrl, .bset .r5 .r5 0,
    .sr .r5 arcAuxIcCtrl, .mov .r5 (.imm 1), .sr .r5 arcAuxIcIvic, .nop, .nop, .nop]

def dcacheBlock : List Op :=
  [.lr .r5 arcBcrDcBuild, .breq .r5 0 1, .lr .r5 arcAuxDcCtrl, .bclr .r5 .r5 6, .bset .r5 .r5 0,
    .sr .r5 arcAuxDcCtrl, .mov .r5 (.imm 1), .sr .r5 arcAuxDcIvdc]

def slcBlock : List Op :=
  [.lr .r5 arcBcrSlc, .breq .r5 0 1, .lr .r5 arcAuxSlcCtrl, .bclr .r5 .r5 6, .bclr .r5 .r5 0,
    .sr .r5 arcAuxSlcCtrl]

def dspBlock : List Op :=
  [.lr .r5 arcAuxDspBuild, .bmsk .r5 .r5 7, .breq .r5 0 1, .mov .r5 (.imm 0),
    .sr .r5 arcAuxDspCtrl]

/-- With `__ARC_UNALIGNED__` the code enables unaligned accesses. -/
def stackBlock (unaligned : Bool) : List Op :=
  (if unaligned then [.flag (1 <<< statusAdBit)] else []) ++
    [.mov .sp (.imm sysInitSpAddr), .mov .fp (.reg .sp), .bl .secMain, .sleep]

def moduleEntryPoint (unaligned : Bool) : List (Line Nat Op) :=
  icacheBlock.map .instr ++ .label 1 ::
    (dcacheBlock.map .instr ++ .label 1 ::
      (slcBlock.map .instr ++ .label 1 ::
        (dspBlock.map .instr ++ .label 1 :: (stackBlock unaligned).map .instr)))

def runEntry (unaligned : Bool) (pc : Nat) (core : Core) : AuxProg (Exit Symbol Core) :=
  execute step (moduleEntryPoint unaligned) ((moduleEntryPoint unaligned).length + 1) pc core

/-! ## The auxiliary registers -/

abbrev AuxFile := UInt32 → UInt32

abbrev AuxTrace := List (Event UInt32 UInt32)

def auxDevice : Device UInt32 UInt32 AuxFile where
  answer aux source := aux source
  write aux target value := Function.update aux target value

def runBlock (ops : List Op) (core : Core) (aux : AuxFile) : AuxTrace × Option Core :=
  serve auxDevice (block step ops core) aux

/-! ### One instruction of a block -/

section Instructions

variable (rest : List Op) (core : Core) (aux : AuxFile) (dest source : Reg) (value : UInt32)

theorem runBlock_lr (register : UInt32) :
    runBlock (.lr dest register :: rest) core aux =
      (.read register (aux register) :: (runBlock rest (core.set dest (aux register)) aux).1,
        (runBlock rest (core.set dest (aux register)) aux).2) := rfl

theorem runBlock_bmsk (bit : UInt32) :
    runBlock (.bmsk dest source bit :: rest) core aux =
      runBlock rest (core.set dest (core.get source &&& (1 <<< (bit + 1) - 1))) aux := rfl

theorem runBlock_breq (target : Nat) :
    runBlock (.breq source value target :: rest) core aux =
      if core.get source = value then ([], some core) else runBlock rest core aux := by
  rw [runBlock, block, step]
  by_cases same : core.get source = value
  · rw [if_pos same, if_pos same]
    rfl
  · rw [if_neg same, if_neg same]
    rfl

@[simp] theorem get_set (reg : Reg) : (core.set reg value).get reg = value := by
  cases reg <;> rfl

end Instructions

/-! ### The blocks -/

/-- What the code sets up, where the core has it. -/
inductive AuxUnit where
  | icache
  | dcache
  | slc
  | dsp
  deriving DecidableEq, Repr

def AuxUnit.build : AuxUnit → UInt32
  | .icache => arcBcrIcBuild
  | .dcache => arcBcrDcBuild
  | .slc => arcBcrSlc
  | .dsp => arcAuxDspBuild

def AuxUnit.controls : AuxUnit → List UInt32
  | .icache => [arcAuxIcCtrl, arcAuxIcIvic]
  | .dcache => [arcAuxDcCtrl, arcAuxDcIvdc]
  | .slc => [arcAuxSlcCtrl]
  | .dsp => [arcAuxDspCtrl]

/-- Of the DSP build register only the version counts. -/
def AuxUnit.Present (aux : AuxFile) (unit : AuxUnit) : Prop :=
  match unit with
  | .dsp => aux unit.build &&& 0xff ≠ 0
  | _ => aux unit.build ≠ 0

instance (aux : AuxFile) (unit : AuxUnit) : Decidable (unit.Present aux) := by
  cases unit <;> exact inferInstanceAs (Decidable (_ ≠ _))

/-- The accesses that set a unit up. -/
def AuxUnit.setup (aux : AuxFile) : AuxUnit → AuxTrace
  | .icache => [.read arcAuxIcCtrl (aux arcAuxIcCtrl),
      .write arcAuxIcCtrl (aux arcAuxIcCtrl ||| 1), .write arcAuxIcIvic 1]
  | .dcache => [.read arcAuxDcCtrl (aux arcAuxDcCtrl),
      .write arcAuxDcCtrl (aux arcAuxDcCtrl &&& ~~~0x40 ||| 1), .write arcAuxDcIvdc 1]
  | .slc => [.read arcAuxSlcCtrl (aux arcAuxSlcCtrl),
      .write arcAuxSlcCtrl (aux arcAuxSlcCtrl &&& ~~~0x40 &&& ~~~1)]
  | .dsp => [.write arcAuxDspCtrl 0]

def AuxUnit.trace (aux : AuxFile) (unit : AuxUnit) : AuxTrace :=
  .read unit.build (aux unit.build) :: if unit.Present aux then unit.setup aux else []

theorem trace_of_present {aux : AuxFile} (unit : AuxUnit) (present : unit.Present aux) :
    unit.trace aux = .read unit.build (aux unit.build) :: unit.setup aux := by
  rw [AuxUnit.trace, if_pos present]

theorem trace_of_absent {aux : AuxFile} (unit : AuxUnit) (absent : ¬ unit.Present aux) :
    unit.trace aux = [.read unit.build (aux unit.build)] := by
  rw [AuxUnit.trace, if_neg absent]

/-- A block sets up a unit, and changes no core register but `r5`. -/
def Leaves (ops : List Op) (unit : AuxUnit) : Prop :=
  ∀ core aux, ∃ value, runBlock ops core aux = (unit.trace aux, some (core.set .r5 value))

theorem icache_leaves : Leaves icacheBlock .icache := by
  intro core aux
  rw [icacheBlock, runBlock_lr, runBlock_breq, get_set]
  by_cases absent : aux arcBcrIcBuild = 0
  · rw [if_pos absent, trace_of_absent .icache fun present => present absent]
    exact ⟨_, rfl⟩
  · rw [if_neg absent, trace_of_present .icache absent]
    exact ⟨1, rfl⟩

theorem dcache_leaves : Leaves dcacheBlock .dcache := by
  intro core aux
  rw [dcacheBlock, runBlock_lr, runBlock_breq, get_set]
  by_cases absent : aux arcBcrDcBuild = 0
  · rw [if_pos absent, trace_of_absent .dcache fun present => present absent]
    exact ⟨_, rfl⟩
  · rw [if_neg absent, trace_of_present .dcache absent]
    exact ⟨1, rfl⟩

theorem slc_leaves : Leaves slcBlock .slc := by
  intro core aux
  rw [slcBlock, runBlock_lr, runBlock_breq, get_set]
  by_cases absent : aux arcBcrSlc = 0
  · rw [if_pos absent, trace_of_absent .slc fun present => present absent]
    exact ⟨_, rfl⟩
  · rw [if_neg absent, trace_of_present .slc absent]
    exact ⟨_, rfl⟩

theorem dsp_leaves : Leaves dspBlock .dsp := by
  intro core aux
  have mask : (1 : UInt32) <<< ((7 : UInt32) + 1) - 1 = 0xff := by decide
  rw [dspBlock, runBlock_lr, runBlock_bmsk, runBlock_breq, get_set, get_set, mask]
  by_cases absent : aux arcAuxDspBuild &&& 0xff = 0
  · rw [if_pos absent, trace_of_absent .dsp fun present => present absent]
    exact ⟨_, rfl⟩
  · rw [if_neg absent, trace_of_present .dsp absent]
    exact ⟨0, rfl⟩

/-! ### One block after the other -/

def Op.stays : Op → Bool
  | .breq _ _ target => target == 1
  | .bl _ => false
  | .sleep => false
  | _ => true

theorem returns_step {op : Op} (stays : op.stays = true) (core : Core) :
    Returns (StaysIn 1) (step op core) := by
  cases op with
  | breq source value target =>
      rw [step]
      split
      · exact beq_iff_eq.mp stays
      · trivial
  | lr dest aux => exact fun _ => trivial
  | bl target => cases stays
  | sleep => cases stays
  | sr source aux => trivial
  | bset dest source bit => trivial
  | bclr dest source bit => trivial
  | bmsk dest source bit => trivial
  | mov dest source => trivial
  | nop => trivial
  | flag value => trivial

def entered (unaligned : Bool) (core : Core) : Core where
  r5 := core.r5
  sp := sysInitSpAddr
  fp := sysInitSpAddr
  status := if unaligned then some (1 <<< statusAdBit) else core.status

/-- From its first line some code makes these accesses and calls `SecMain`. -/
def Enters (unaligned : Bool) (code : List (Line Nat Op)) (trace : AuxFile → AuxTrace) : Prop :=
  ∀ pc core aux, ∃ value, serve auxDevice (follow step code pc none core) aux =
    (trace aux,
      some (.call .secMain (pc + code.length - 1) (entered unaligned (core.set .r5 value))))

theorem stack_enters (unaligned : Bool) :
    Enters unaligned ((stackBlock unaligned).map .instr) fun _ => [] := by
  intro pc core aux
  refine ⟨core.r5, ?_⟩
  cases unaligned <;> rfl

theorem Enters.block {unaligned : Bool} {ops : List Op} {unit : AuxUnit}
    {code : List (Line Nat Op)} {trace : AuxFile → AuxTrace} (rest : Enters unaligned code trace)
    (leaves : Leaves ops unit) (stays : ops.all Op.stays = true)
    (apart : ∀ aux, trace (auxDevice.after aux (unit.trace aux)) = trace aux) :
    Enters unaligned (ops.map .instr ++ .label 1 :: code) fun aux => unit.trace aux ++ trace aux := by
  intro pc core aux
  obtain ⟨value, ran⟩ := leaves core aux
  obtain ⟨last, later⟩ := rest (pc + ops.length + 1) (core.set .r5 value)
    (auxDevice.after aux (unit.trace aux))
  have line : pc + ops.length + 1 + code.length - 1 =
      pc + (ops.map Line.instr ++ Line.label 1 :: code).length - 1 := by
    rw [List.length_append, List.length_map, List.length_cons]
    omega
  refine ⟨last, ?_⟩
  rw [follow_block step ops 1 fun op inside now =>
    returns_step (List.all_eq_true.mp stays op inside) now, serve_bind ran, later, apart, line]
  rfl

/-! ### The registers of a unit -/

def register : Event UInt32 UInt32 → UInt32
  | .read source _ => source
  | .write target _ => target

theorem build_not_control (unit other : AuxUnit) : unit.build ∉ other.controls := by
  cases unit <;> cases other <;> decide

theorem controls_apart {unit other : AuxUnit} {control : UInt32} (mine : control ∈ unit.controls)
    (theirs : control ∈ other.controls) : unit = other := by
  have apart : unit = other ∨ (unit.controls.all fun one => !other.controls.contains one) = true := by
    cases unit <;> cases other <;> first | exact .inl rfl | exact .inr (by decide)
  refine apart.resolve_right fun separate => ?_
  have outside := List.all_eq_true.mp separate control mine
  rw [List.contains_iff_mem.mpr theirs] at outside
  cases outside

variable {aux : AuxFile} {unit : AuxUnit} {event : Event UInt32 UInt32}

theorem mem_setup (inside : event ∈ unit.setup aux) : register event ∈ unit.controls := by
  have all : ((unit.setup aux).all fun one => unit.controls.contains (register one)) = true := by
    cases unit <;> rfl
  exact List.contains_iff_mem.mp (List.all_eq_true.mp all event inside)

theorem mem_trace (inside : event ∈ unit.trace aux) :
    event = .read unit.build (aux unit.build) ∨
      unit.Present aux ∧ register event ∈ unit.controls := by
  rw [AuxUnit.trace] at inside
  rcases List.mem_cons.mp inside with probe | setup
  · exact .inl probe
  · by_cases present : unit.Present aux
    · rw [if_pos present] at setup
      exact .inr ⟨present, mem_setup setup⟩
    · rw [if_neg present] at setup
      cases setup

theorem after_of_unwritten {trace : AuxTrace} {control : UInt32}
    (unwritten : ∀ target value, .write target value ∈ trace → target ≠ control) :
    auxDevice.after aux trace control = aux control := by
  induction trace generalizing aux with
  | nil => rfl
  | cons event rest ih =>
      have later := fun start : AuxFile => @ih start fun target value inside =>
        unwritten target value (List.mem_cons_of_mem _ inside)
      cases event with
      | read source answer => exact later aux
      | write target value =>
          have other := unwritten target value List.mem_cons_self
          have here : Function.update aux target value control = aux control :=
            Function.update_of_ne other.symm value aux
          exact (later (Function.update aux target value)).trans here

theorem after_trace_of_ne {control : UInt32} (outside : control ∉ unit.controls) :
    auxDevice.after aux (unit.trace aux) control = aux control := by
  refine after_of_unwritten fun target value inside => ?_
  rintro rfl
  rcases mem_trace inside with probe | ⟨_, control⟩
  · cases probe
  · exact outside control

theorem trace_congr {start : AuxFile} (build : start unit.build = aux unit.build)
    (controls : ∀ control ∈ unit.controls, start control = aux control) :
    unit.trace start = unit.trace aux := by
  have present : unit.Present start ↔ unit.Present aux := by
    cases unit <;> simp only [AuxUnit.Present, build]
  have setup : unit.setup start = unit.setup aux := by
    cases unit with
    | icache => simp only [AuxUnit.setup, controls arcAuxIcCtrl List.mem_cons_self]
    | dcache => simp only [AuxUnit.setup, controls arcAuxDcCtrl List.mem_cons_self]
    | slc => simp only [AuxUnit.setup, controls arcAuxSlcCtrl List.mem_cons_self]
    | dsp => rfl
  simp only [AuxUnit.trace, present, build, setup]

theorem trace_after_trace {other : AuxUnit} (different : other ≠ unit) :
    other.trace (auxDevice.after aux (unit.trace aux)) = other.trace aux := by
  refine trace_congr (after_trace_of_ne (build_not_control other unit)) fun control mine => ?_
  exact after_trace_of_ne fun theirs => different (controls_apart mine theirs)

/-! ## The entry -/

def back (unaligned : Bool) : Nat := (moduleEntryPoint unaligned).length - 1

def units : List AuxUnit := [.icache, .dcache, .slc, .dsp]

theorem traces_after_trace (unit : AuxUnit) (others : List AuxUnit) (apart : unit ∉ others)
    (aux : AuxFile) :
    (others.flatMap fun other => other.trace (auxDevice.after aux (unit.trace aux))) =
      others.flatMap fun other => other.trace aux := by
  induction others with
  | nil => rfl
  | cons other others ih =>
      have different : other ≠ unit := fun same => apart (same ▸ List.mem_cons_self)
      rw [List.flatMap_cons, List.flatMap_cons, trace_after_trace different,
        ih fun inside => apart (List.mem_cons_of_mem _ inside)]

theorem entry_enters (unaligned : Bool) :
    Enters unaligned (moduleEntryPoint unaligned)
      fun aux => units.flatMap fun unit => unit.trace aux := by
  have dsp := (stack_enters unaligned).block dsp_leaves rfl fun _ => rfl
  have slc := dsp.block slc_leaves rfl (traces_after_trace .slc [.dsp] (by decide))
  have dcache := slc.block dcache_leaves rfl (traces_after_trace .dcache [.slc, .dsp] (by decide))
  exact dcache.block icache_leaves rfl
    (traces_after_trace .icache [.dcache, .slc, .dsp] (by decide))

def entryTrace (aux : AuxFile) : AuxTrace := units.flatMap fun unit => unit.trace aux

/-- What a unit's registers hold after its block; the second-level cache ends up enabled. -/
def AuxUnit.Settled (aux last : AuxFile) : AuxUnit → Prop
  | .icache => last arcAuxIcCtrl = aux arcAuxIcCtrl ||| 1 ∧ last arcAuxIcIvic = 1
  | .dcache => last arcAuxDcCtrl = aux arcAuxDcCtrl &&& ~~~0x40 ||| 1 ∧ last arcAuxDcIvdc = 1
  | .slc => last arcAuxSlcCtrl = aux arcAuxSlcCtrl &&& ~~~0x40 &&& ~~~1
  | .dsp => last arcAuxDspCtrl = 0

theorem settled_setup (start : AuxFile) :
    unit.Settled aux (auxDevice.after start (unit.setup aux)) := by
  have icache : arcAuxIcCtrl ≠ arcAuxIcIvic := by decide
  have dcache : arcAuxDcCtrl ≠ arcAuxDcIvdc := by decide
  cases unit <;>
    simp [AuxUnit.Settled, AuxUnit.setup, Device.after, Device.step, auxDevice, icache, dcache]

theorem settled_congr {first second : AuxFile} (settled : unit.Settled aux first)
    (same : ∀ control ∈ unit.controls, second control = first control) :
    unit.Settled aux second := by
  cases unit with
  | icache =>
      exact ⟨(same _ List.mem_cons_self).trans settled.1,
        (same _ (List.mem_cons_of_mem _ List.mem_cons_self)).trans settled.2⟩
  | dcache =>
      exact ⟨(same _ List.mem_cons_self).trans settled.1,
        (same _ (List.mem_cons_of_mem _ List.mem_cons_self)).trans settled.2⟩
  | slc => exact (same _ List.mem_cons_self).trans settled
  | dsp => exact (same _ List.mem_cons_self).trans settled

theorem settled_after (present : unit.Present aux) {later : List AuxUnit} (apart : unit ∉ later)
    (start : AuxFile) :
    unit.Settled aux (auxDevice.after start
      (unit.trace aux ++ later.flatMap fun other => other.trace aux)) := by
  rw [after_append, trace_of_present unit present]
  have here : unit.Settled aux (auxDevice.after start (unit.setup aux)) := settled_setup start
  refine settled_congr here fun control mine => ?_
  refine after_of_unwritten fun target value inside => ?_
  rintro rfl
  obtain ⟨other, member, inside⟩ := List.mem_flatMap.mp inside
  rcases mem_trace inside with probe | ⟨_, theirs⟩
  · cases probe
  · exact apart (controls_apart mine theirs ▸ member)

theorem settled_entry (present : unit.Present aux) :
    unit.Settled aux (auxDevice.after aux (entryTrace aux)) := by
  have split (early late : List AuxUnit) (whole : units = early ++ unit :: late)
      (apart : unit ∉ late) : unit.Settled aux (auxDevice.after aux (entryTrace aux)) := by
    rw [entryTrace, whole, List.flatMap_append, List.flatMap_cons, after_append]
    exact settled_after present apart _
  cases unit with
  | icache => exact split [] [.dcache, .slc, .dsp] rfl (by decide)
  | dcache => exact split [.icache] [.slc, .dsp] rfl (by decide)
  | slc => exact split [.icache, .dcache] [.dsp] rfl (by decide)
  | dsp => exact split [.icache, .dcache, .slc] [] rfl (by decide)

/-- The entry on a core with such registers, at any point of it: a unit that is not there is not
touched, what belongs to no unit that is there keeps its value, and the entry only ends in the
call of `SecMain`, with the stack established and the units set up. -/
structure EntryLaw (unaligned : Bool) (aux : AuxFile) (start : Core) (trace : AuxTrace)
    (outcome : Option (Exit Symbol Core)) : Prop where
  untouched : ∀ unit : AuxUnit, ¬ unit.Present aux → ∀ event ∈ trace, register event ∉ unit.controls
  kept : ∀ control, (∀ unit : AuxUnit, control ∈ unit.controls → ¬ unit.Present aux) →
    auxDevice.after aux trace control = aux control
  enters : ∀ exit, outcome = some exit →
    (∃ value, exit =
      .call .secMain (back unaligned) (entered unaligned (start.set .r5 value))) ∧
    ∀ unit : AuxUnit, unit.Present aux → unit.Settled aux (auxDevice.after aux trace)

theorem serve_runEntry (unaligned : Bool) (start : Core) (aux : AuxFile) :
    ∃ value, serve auxDevice (runEntry unaligned 0 start) aux =
      (entryTrace aux,
        some (.call .secMain (back unaligned) (entered unaligned (start.set .r5 value)))) := by
  obtain ⟨value, ran⟩ := entry_enters unaligned 0 start aux
  rw [Nat.zero_add] at ran
  refine ⟨value, ?_⟩
  rw [runEntry, execute_eq_follow step _ _ 0 start (Nat.lt_succ_of_le (Nat.sub_le _ _))]
  exact ran

theorem entryLaw_of_runs {unaligned : Bool} {start : Core} {trace : AuxTrace}
    {outcome : Option (Exit Symbol Core)} (run : Runs (runEntry unaligned 0 start) trace outcome)
    (answered : auxDevice.Answers aux trace) : EntryLaw unaligned aux start trace outcome := by
  obtain ⟨inside, returned⟩ := serve_of_runs run answered
  obtain ⟨value, ran⟩ := serve_runEntry unaligned start aux
  rw [ran] at inside
  have access (event : Event UInt32 UInt32) (member : event ∈ trace) :
      ∃ unit : AuxUnit, event = .read unit.build (aux unit.build) ∨
        unit.Present aux ∧ register event ∈ unit.controls := by
    obtain ⟨unit, _, mine⟩ := List.mem_flatMap.mp (inside.subset member)
    exact ⟨unit, mem_trace mine⟩
  refine ⟨fun unit absent event member control => ?_, fun control others => ?_, fun exit same => ?_⟩
  · obtain ⟨other, probe | ⟨present, mine⟩⟩ := access event member
    · rw [probe] at control
      exact build_not_control other unit control
    · exact absent (controls_apart control mine ▸ present)
  · refine after_of_unwritten fun target value member => ?_
    rintro rfl
    obtain ⟨unit, probe | ⟨present, mine⟩⟩ := access _ member
    · cases probe
    · exact others unit mine present
  · have whole := (returned exit same).symm.trans ran
    obtain ⟨rfl, exits⟩ := Prod.mk.inj whole
    exact ⟨⟨value, Option.some.inj exits⟩, fun unit present => settled_entry present⟩

/-- The entry reaches `SecMain`; should that return, the core sleeps without another access. -/
theorem moduleEntryPoint_enters (unaligned : Bool) (aux : AuxFile) (start : Core) :
    (∃ trace exit, Runs (runEntry unaligned 0 start) trace (some exit) ∧
        auxDevice.Answers aux trace) ∧
      (∀ trace outcome, Runs (runEntry unaligned 0 start) trace outcome →
        auxDevice.Answers aux trace → EntryLaw unaligned aux start trace outcome) ∧
      ∀ core, runEntry unaligned (back unaligned) core = pure (.stop core) := by
  refine ⟨?_, fun _ _ run answered => entryLaw_of_runs run answered, fun core => ?_⟩
  · obtain ⟨value, ran⟩ := serve_runEntry unaligned start aux
    have served := runs_serve auxDevice (runEntry unaligned 0 start) aux
    rw [ran] at served
    exact ⟨_, _, served⟩
  · cases unaligned <;> rfl

end ArcFirmware.SecEntry
