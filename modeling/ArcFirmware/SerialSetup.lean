import ArcFirmware.Uart16550

/-!
# What initialisation leaves in the registers

A returning `SerialPortInitialize` has polled the line status until `TEMT` and
then made seven writes.  Two of the offsets it writes are shared by the divisor
latch and other registers, so what the writes do depends on the DLAB bit that the
driver finds: the interrupt enables of an earlier stage survive when it is set.
-/

set_option autoImplicit false

namespace ArcFirmware.SerialSetup

open ArcFirmware.Edk2 ArcFirmware.Port ArcFirmware.SendQueue ArcFirmware.Ns16550
open ArcFirmware.Uart16550

/-! ## The trace of a returning call -/

def setupWrites (pcds : SerialPcds) : Trace :=
  [.write (accessOf pcds rUartIer) 0,
    .write (accessOf pcds rUartMcr) bUartMcrval,
    .write (accessOf pcds rUartFcr) bUartFcrval,
    .write (accessOf pcds rUartLcr) (lineCtl pcds ||| bUartLcrDlab),
    .write (accessOf pcds rUartDll) (divisor pcds &&& 0xff).toUInt8,
    .write (accessOf pcds rUartDlm) ((divisor pcds >>> 8) &&& 0xff).toUInt8,
    .write (accessOf pcds rUartLcr) (lineCtl pcds)]

def PollsUntilEmpty (pcds : SerialPcds) (polls : Trace) : Prop :=
  ∃ busy answer, polls = busy ++ [.read (accessOf pcds rUartLsr) answer] ∧
    answer &&& bUartLsrTemt ≠ 0 ∧ ∀ event ∈ busy, ∃ shown, event = .read (accessOf pcds rUartLsr) shown

theorem wp_serialPortInitialize (pcds : SerialPcds) (configured : getSerialRegisterBase pcds ≠ 0)
    (fuel : Nat) :
    wp (serialPortInitialize pcds fuel)
      (fun _ after => ∃ polls, after = polls ++ setupWrites pcds ∧ PollsUntilEmpty pcds polls)
      (fun _ => True) [] := by
  rw [serialPortInitialize]
  simp only [if_neg configured]
  rw [wp_bind]
  refine wp_loop (fun _ now => ∀ event ∈ now, ∃ shown,
    event = .read (accessOf pcds rUartLsr) shown) ?_ fuel () (fun _ inside => nomatch inside)
  intro _ now polled
  rw [wp_bind, serialIn_eq, wp_input]
  refine ⟨trivial, fun answer => ⟨trivial, ?_⟩⟩
  by_cases busy : answer &&& bUartLsrTemt = 0
  · rw [if_pos busy, wp_pure]
    refine ⟨trivial, fun event inside => ?_⟩
    rcases List.mem_append.mp inside with before | last
    · exact polled event before
    · exact ⟨answer, List.mem_singleton.mp last⟩
  · rw [if_neg busy, wp_pure]
    refine ⟨trivial, ?_⟩
    change wp _ _ _ _
    by_cases fault : pcds.baudRate * 16 = 0
    · simp only [if_pos fault]
      rw [wp_bind]
      exact trivial
    · simp only [if_neg fault, serialOut_eq]
      simp only [wp_bind, wp_pure, wp_output, true_and, List.append_assoc, List.cons_append,
        List.nil_append]
      exact ⟨now ++ [.read (accessOf pcds rUartLsr) answer], by simp [setupWrites],
        now, answer, rfl, busy, polled⟩

theorem serialPortInitialize_trace (pcds : SerialPcds) (configured : pcds.registerBase ≠ 0)
    (fuel : Nat) (trace : Trace) (result : UInt32)
    (run : Runs (serialPortInitialize pcds fuel) trace (some result)) :
    ∃ polls, trace = polls ++ setupWrites pcds ∧ PollsUntilEmpty pcds polls := by
  have returned := (wp_sound (wp_serialPortInitialize pcds configured fuel) run).2 result rfl
  rwa [List.nil_append] at returned

theorem pollTemt_runs (pcds : SerialPcds) (busy : List UInt8) (answer : UInt8)
    (waits : ∀ shown ∈ busy, shown &&& bUartLsrTemt = 0) (empty : answer &&& bUartLsrTemt ≠ 0) :
    Runs (loop (fun _ : Unit => do
        if (← input (accessOf pcds rUartLsr)) &&& bUartLsrTemt = 0 then
          return .next ()
        return .done ()) (busy.length + 1) ())
      ((busy ++ [answer]).map (.read (accessOf pcds rUartLsr))) (some ()) := by
  induction busy with
  | nil =>
      refine .loop_done 0 (runs_input ?_)
      rw [if_neg empty]
      exact .ret _
  | cons shown rest ih =>
      have later := ih fun later inside => waits later (List.mem_cons_of_mem _ inside)
      change Runs _ ([.read (accessOf pcds rUartLsr) shown] ++ _) _
      refine .loop_next (runs_input ?_) later
      rw [if_pos (waits shown List.mem_cons_self)]
      exact .ret _

/-- A call returns once the device has shown an empty transmitter, unless it divides by zero. -/
theorem serialPortInitialize_runs (pcds : SerialPcds) (configured : getSerialRegisterBase pcds ≠ 0)
    (rate : pcds.baudRate * 16 ≠ 0) (busy : List UInt8) (answer : UInt8)
    (waits : ∀ shown ∈ busy, shown &&& bUartLsrTemt = 0) (empty : answer &&& bUartLsrTemt ≠ 0) :
    Runs (serialPortInitialize pcds (busy.length + 1))
      ((busy ++ [answer]).map (.read (accessOf pcds rUartLsr)) ++ setupWrites pcds)
      (some pcds.registerBase) := by
  rw [serialPortInitialize]
  simp only [if_neg configured, if_neg rate, serialIn_eq, serialOut_eq]
  exact .bind (pollTemt_runs pcds busy answer waits empty)
    (.output (.output (.output (.output (.output (.output (.output (.ret _))))))))

/-! ## The registers after it -/

theorem after_append (regs : Registers) (first second : Trace) :
    regs.after (first ++ second) = (regs.after first).after second :=
  List.foldl_append

theorem after_polls {pcds : SerialPcds} {polls : Trace} (polled : PollsUntilEmpty pcds polls)
    (regs : Registers) : regs.after polls = regs := by
  obtain ⟨busy, answer, rfl, _, reads⟩ := polled
  rw [after_append]
  change regs.after busy = regs
  induction busy with
  | nil => rfl
  | cons event rest ih =>
      obtain ⟨shown, rfl⟩ := reads event List.mem_cons_self
      exact ih fun event inside => reads event (List.mem_cons_of_mem _ inside)

theorem or_dlab (value : UInt8) : (value ||| bUartLcrDlab) &&& bUartLcrDlab ≠ 0 := by
  refine forall_byte ?_ value
  decide +kernel

theorem after_setupWrites (pcds : SerialPcds) (regs : Registers) :
    regs.after (setupWrites pcds) =
      { ier := if regs.dlab then regs.ier else 0
        fcr := bUartFcrval
        lcr := lineCtl pcds
        mcr := bUartMcrval
        dll := (divisor pcds &&& 0xff).toUInt8
        dlm := ((divisor pcds >>> 8) &&& 0xff).toUInt8 } := by
  have latch (ier dll dlm : UInt8) :
      (Registers.mk ier bUartFcrval (lineCtl pcds ||| bUartLcrDlab) bUartMcrval dll dlm).dlab :=
    or_dlab (lineCtl pcds)
  simp only [Registers.after, setupWrites, List.foldl_cons, List.foldl_nil, Registers.step,
    accessOf_offset]
  by_cases entry : regs.dlab
  · have shadowed : regs.write rUartIer 0 = { regs with dlm := 0 } := write_dlm regs 0 entry
    simp only [shadowed, write_mcr, write_fcr, write_lcr, write_dll _ _ (latch _ _ _),
      write_dlm _ _ (latch _ _ _), if_pos entry]
  · simp only [write_ier regs 0 entry, write_mcr, write_fcr, write_lcr,
      write_dll _ _ (latch _ _ _), write_dlm _ _ (latch _ _ _), if_neg entry]

theorem serialPortInitialize_regs (pcds : SerialPcds) (configured : pcds.registerBase ≠ 0)
    (fuel : Nat) (trace : Trace) (result : UInt32)
    (run : Runs (serialPortInitialize pcds fuel) trace (some result)) (regs : Registers) :
    regs.after trace = regs.after (setupWrites pcds) := by
  obtain ⟨polls, rfl, polled⟩ := serialPortInitialize_trace pcds configured fuel trace result run
  rw [after_append, after_polls polled]

/-! ## The transmitter after it -/

/-- A write that reaches the data register only while the latch is open. -/
def Latched (regs : Registers) (before : Trace) : Event Access UInt8 → Prop
  | .read _ _ => True
  | .write target _ => target.offset = rUartTxbuf → (regs.after before).dlab

/-- The low byte of the divisor is the one write to offset 0, and the latch is open by then. -/
theorem setupWrites_latched (pcds : SerialPcds) (regs : Registers) :
    Each (Latched regs) (setupWrites pcds) := by
  have other (before : Trace) (offset : UInt32) (value : UInt8) (shared : offset ≠ rUartTxbuf) :
      Latched regs before (.write (accessOf pcds offset) value) :=
    fun data => absurd data shared
  have opened (before : Trace) (value : UInt8) :
      Latched regs (before ++ [.write (accessOf pcds rUartLcr) (lineCtl pcds ||| bUartLcrDlab)])
        (.write (accessOf pcds rUartDll) value) := by
    intro _
    rw [after_append]
    change ((regs.after before).write rUartLcr (lineCtl pcds ||| bUartLcrDlab)).dlab
    rw [write_lcr]
    exact or_dlab (lineCtl pcds)
  have control := ((each_nil.concat (other _ rUartIer 0 (by decide))).concat
    (other _ rUartMcr bUartMcrval (by decide))).concat (other _ rUartFcr bUartFcrval (by decide))
  have latch := control.concat (other _ rUartLcr (lineCtl pcds ||| bUartLcrDlab) (by decide))
  have low := latch.concat (opened _ (divisor pcds &&& 0xff).toUInt8)
  have high := low.concat
    (other _ rUartDlm ((divisor pcds >>> 8) &&& 0xff).toUInt8 (by decide))
  exact high.concat (other _ rUartLcr (lineCtl pcds) (by decide))

theorem serialPortInitialize_idle (pcds : SerialPcds) (configured : pcds.registerBase ≠ 0)
    (fuel : Nat) (trace : Trace) (result : UInt32) (extended : Nat) (before after : Uart)
    (run : Runs (serialPortInitialize pcds fuel) trace (some result))
    (served : Serves extended before trace after) : Idle after.tx := by
  obtain ⟨polls, rfl, busy, answer, rfl, empty, _⟩ :=
    serialPortInitialize_trace pcds configured fuel trace result run
  obtain ⟨middle, polled, written⟩ := served.split
  have idle : Idle middle.tx := polled.idle_of_temt rfl empty
  have kept : after.tx = middle.tx := written.tx_of_latched idle fun before target value start =>
    setupWrites_latched pcds middle.regs before (.write target value) start
  rwa [kept]

/-! ## The canonical state -/

/-- What initialisation is for: interrupts off, the latch closed, and the configured line
format, modem lines and divisor. -/
structure Canonical (pcds : SerialPcds) (regs : Registers) : Prop where
  interrupts : regs.ier = 0
  latch : ¬ regs.dlab
  format : regs.lcr &&& 0x3f =
    (if pcds.lineControl = 0 then bUartLcr8N1 else pcds.lineControl) &&& 0x3f
  modem : regs.mcr = bUartMcrDtr ||| bUartMcrRts
  divisor : regs.dll.toNat + 256 * regs.dlm.toNat = (divisor pcds).toNat % 2 ^ 16

theorem divisor_bytes (value : UInt32) :
    (value &&& 0xff).toUInt8.toNat + 256 * ((value >>> 8) &&& 0xff).toUInt8.toNat =
      value.toNat % 2 ^ 16 := by
  have mask (word : Nat) : word &&& 255 = word % 256 := Nat.and_two_pow_sub_one_eq_mod word 8
  have low : (value &&& 0xff).toUInt8.toNat = value.toNat % 256 := by
    simp [mask]
  have high : ((value >>> 8) &&& 0xff).toUInt8.toNat = value.toNat / 256 % 256 := by
    simp [mask, Nat.shiftRight_eq_div_pow]
  rw [low, high]
  omega

theorem lineCtl_dlab_iff (pcds : SerialPcds) :
    lineCtl pcds &&& bUartLcrDlab ≠ 0 ↔ pcds.lineControl &&& bUartLcrDlab ≠ 0 := by
  rw [lineCtl]
  by_cases unset : pcds.lineControl = 0
  · rw [if_pos unset, unset]
    decide
  · rw [if_neg unset]

theorem serialPortInitialize_canonical_iff (pcds : SerialPcds) (configured : pcds.registerBase ≠ 0)
    (fuel : Nat) (trace : Trace) (result : UInt32)
    (run : Runs (serialPortInitialize pcds fuel) trace (some result)) (regs : Registers) :
    Canonical pcds (regs.after trace) ↔
      (¬ regs.dlab ∨ regs.ier = 0) ∧ pcds.lineControl &&& bUartLcrDlab = 0 := by
  rw [serialPortInitialize_regs pcds configured fuel trace result run, after_setupWrites]
  constructor
  · intro canonical
    have interrupts := canonical.interrupts
    have latch := canonical.latch
    refine ⟨?_, ?_⟩
    · by_cases entry : regs.dlab
      · rw [if_pos entry] at interrupts
        exact .inr interrupts
      · exact .inl entry
    · by_contra open_
      exact latch ((lineCtl_dlab_iff pcds).mpr open_)
  · intro ⟨entry, closed⟩
    refine ⟨?_, ?_, rfl, rfl, divisor_bytes (divisor pcds)⟩
    · rcases entry with data | quiet
      · exact if_neg data
      · rw [quiet, ite_self]
    · intro latch
      exact (lineCtl_dlab_iff pcds).mp latch closed

def setupTrace (pcds : SerialPcds) : Trace :=
  .read (accessOf pcds rUartLsr) 0x60 :: setupWrites pcds

theorem setupTrace_runs (pcds : SerialPcds) (configured : getSerialRegisterBase pcds ≠ 0)
    (rate : pcds.baudRate * 16 ≠ 0) :
    Runs (serialPortInitialize pcds 1) (setupTrace pcds) (some pcds.registerBase) :=
  serialPortInitialize_runs pcds configured rate [] 0x60 (fun _ inside => nomatch inside) (by decide)

theorem serialPortInitialize_canonical_reset :
    Canonical (infPcds 0x07 64)
      ((Registers.mk 0 0 0 0 0 0).after (setupTrace (infPcds 0x07 64))) :=
  (serialPortInitialize_canonical_iff (infPcds 0x07 64) (by decide) 1 _ _
    (setupTrace_runs (infPcds 0x07 64) (by decide) (by decide)) (Registers.mk 0 0 0 0 0 0)).mpr ⟨.inl (by decide), by decide⟩

/-- An earlier stage left the latch open and the receive interrupt enabled. -/
def handedOver : Registers := Registers.mk 0x01 0 0x83 0 0x12 0

theorem serialPortInitialize_keeps_interrupts :
    Runs (serialPortInitialize (infPcds 0x07 64) 1) (setupTrace (infPcds 0x07 64))
        (some 0xf0005000) ∧
      (handedOver.after (setupTrace (infPcds 0x07 64))).ier = 0x01 ∧
      ¬ Canonical (infPcds 0x07 64) (handedOver.after (setupTrace (infPcds 0x07 64))) := by
  have kept : (handedOver.after (setupTrace (infPcds 0x07 64))).ier = 0x01 := by decide
  refine ⟨setupTrace_runs (infPcds 0x07 64) (by decide) (by decide), kept, fun canonical => ?_⟩
  have cleared := canonical.interrupts
  rw [kept] at cleared
  cases cleared

end ArcFirmware.SerialSetup
