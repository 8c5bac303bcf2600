import ArcFirmware.SerialDelivery
import ArcFirmware.SerialReceive

/-!
# Both directions of the port

Write and read calls in any order, after initialisation, on a device that sends
and receives.  The abstract console is a memory, what has been sent and how much
of the stream has been taken; a call is a function on it.  One invariant of the
device, kept by every event of either kind of call, carries the refinement: what
the calls before have sent is on the line or in the queue, and of the registers
only the RTS bit has moved.
-/

set_option autoImplicit false

namespace ArcFirmware.SerialSession

open ArcFirmware.Memory ArcFirmware.Store ArcFirmware.Edk2 ArcFirmware.Port ArcFirmware.SendQueue
open ArcFirmware.Ns16550 ArcFirmware.Uart16550 ArcFirmware.SerialSetup ArcFirmware.SerialTransmit
open ArcFirmware.SerialDelivery ArcFirmware.SerialReceive

/-! ## Sessions -/

inductive PortCall where
  | write (buffer bytes : Nat)
  | read (buffer : Nat) (bytes : UInt32)
  deriving DecidableEq, Repr

def PortCall.prog (pcds : SerialPcds) (fuel : Nat) (mem : Mem) : PortCall → Driver (Mem × Nat)
  | .write buffer bytes => do
      return (mem, ← serialPortWrite pcds fuel mem buffer bytes)
  | .read buffer bytes => do
      let (mem, result) ← serialPortRead pcds fuel mem buffer bytes
      return (mem, result.toNat)

def session (pcds : SerialPcds) (fuel : Nat) : List PortCall → Mem → Driver (Mem × List Nat)
  | [], mem => return (mem, [])
  | call :: rest, mem => do
      let (mem, result) ← call.prog pcds fuel mem
      let (mem, results) ← session pcds fuel rest mem
      return (mem, result :: results)

/-! ## The console -/

structure Console where
  mem : Mem
  sent : List UInt8
  taken : Nat

def PortCall.data (mem : Mem) : PortCall → List UInt8
  | .write buffer bytes => if buffer = null then [] else bytesAt mem buffer bytes
  | .read _ _ => []

def PortCall.taken : PortCall → Nat
  | .write _ _ => 0
  | .read buffer bytes => if buffer = null then 0 else bytes.toNat

def PortCall.result : PortCall → Nat
  | .write buffer bytes => if buffer = null then 0 else bytes
  | .read buffer bytes => if buffer = null then 0 else bytes.toNat

def PortCall.stored (stream : Nat → UInt8) (now : Console) : PortCall → Mem
  | .write _ _ => now.mem
  | .read buffer bytes =>
      if buffer = null then now.mem
      else storeBytes now.mem buffer (nextBytes stream now.taken bytes.toNat)

def Console.step (stream : Nat → UInt8) (now : Console) (call : PortCall) : Console where
  mem := call.stored stream now
  sent := now.sent ++ call.data now.mem
  taken := now.taken + call.taken

def Console.after (stream : Nat → UInt8) (now : Console) (calls : List PortCall) : Console :=
  calls.foldl (Console.step stream) now

theorem sent_after (stream : Nat → UInt8) (now : Console) (calls : List PortCall) :
    now.sent <+: (now.after stream calls).sent := by
  induction calls generalizing now with
  | nil => exact List.prefix_refl _
  | cons call rest ih => exact (List.prefix_append _ _).trans (ih (now.step stream call))

/-! ## The device under a call -/

/-- From one device to another: `part` has been accepted, nothing lost, and only RTS has moved. -/
structure Carries (pcds : SerialPcds) (before after : Uart) (part : List UInt8) : Prop where
  regs : after.regs = { before.regs with mcr := after.regs.mcr }
  kept : keptBits after.regs.mcr = keptBits before.regs.mcr
  plain : pcds.useHardwareFlowControl = false → after.regs.mcr = before.regs.mcr
  lost : after.tx.lost = before.tx.lost
  accepted : accepted after.tx = accepted before.tx ++ part

theorem Carries.refl (pcds : SerialPcds) (uart : Uart) : Carries pcds uart uart [] :=
  ⟨rfl, rfl, fun _ => rfl, rfl, (List.append_nil _).symm⟩

theorem Carries.trans {pcds : SerialPcds} {first middle last : Uart} {early late : List UInt8}
    (head : Carries pcds first middle early) (tail : Carries pcds middle last late) :
    Carries pcds first last (early ++ late) := by
  refine ⟨?_, tail.kept.trans head.kept, fun off => (tail.plain off).trans (head.plain off),
    tail.lost.trans head.lost, ?_⟩
  · rw [tail.regs, head.regs]
  · rw [tail.accepted, head.accepted, List.append_assoc]

theorem Carries.dlab_iff {pcds : SerialPcds} {before after : Uart} {part : List UInt8}
    (carries : Carries pcds before after part) : after.regs.dlab ↔ before.regs.dlab := by
  rw [carries.regs]
  rfl

theorem Carries.fcr {pcds : SerialPcds} {before after : Uart} {part : List UInt8}
    (carries : Carries pcds before after part) : after.regs.fcr = before.regs.fcr := by
  rw [carries.regs]

theorem mcr_after (regs : Registers) (taken : Nat) (trace : Trace) :
    ((Receiver.mk regs.mcr taken).after trace).mcr = (regs.after trace).mcr := by
  induction trace using List.reverseRecOn with
  | nil => rfl
  | append_singleton history event ih =>
      rw [SerialReceive.after_append, SerialSetup.after_append]
      change (Receiver.step _ event).mcr = (Registers.step _ event).mcr
      cases event with
      | read source answer =>
          rw [Receiver.step, Registers.step, ← ih]
          split <;> rfl
      | write target value =>
          rw [Receiver.step, Registers.step]
          by_cases modem : target.offset = rUartMcr
          · rw [if_pos modem, modem, write_mcr]
          · rw [if_neg modem, ih, Registers.write]
            split_ifs <;> rfl

def Sends : Event Access UInt8 → Prop
  | .read source _ => source.offset = rUartLsr ∨ source.offset = rUartMsr
  | .write target _ => target.offset = rUartTxbuf

theorem within_serialPortWrite (pcds : SerialPcds) (fuel : Nat) (mem : Mem) (buffer bytes : Nat) :
    Within Sends (serialPortWrite pcds fuel mem buffer bytes) := by
  have flush : Within Sends (serialPortFlush pcds fuel (getSerialRegisterBase pcds)) := by
    refine Within.loop (fun _ => ?_) fuel ()
    rw [serialIn_eq]
    refine fun answer => ⟨.inl rfl, ?_⟩
    change Within Sends (if _ then _ else _)
    split <;> trivial
  have wait : Within Sends (serialPortWaitWritable pcds fuel (getSerialRegisterBase pcds)) := by
    refine Within.loop (fun _ => ?_) fuel ()
    rw [serialIn_eq]
    split
    · trivial
    · split
      all_goals
        refine fun answer => ⟨.inr rfl, ?_⟩
        change Within Sends (if _ then _ else _)
        split <;> trivial
  have fill (cursor : Cursor) :
      Within Sends (fillTxFifo pcds fuel mem (getSerialRegisterBase pcds) cursor) := by
    refine Within.loop (fun state => ?_) fuel (0, cursor)
    rw [fillPass]
    split
    · rw [serialOut_eq]
      exact wait.bind fun _ => ⟨rfl, trivial⟩
    · trivial
  rw [serialPortWrite]
  split
  · trivial
  · simp only
    split
    · trivial
    · split
      · exact flush.bind fun _ => trivial
      · refine (Within.loop (fun cursor => ?_) fuel _).bind fun _ => trivial
        rw [sendPass]
        split
        · exact flush.bind fun _ => (fill cursor).bind fun _ => trivial
        · trivial

theorem after_sends (now : Receiver) (trace : Trace) (sends : ∀ event ∈ trace, Sends event) :
    now.after trace = now := by
  induction trace with
  | nil => rfl
  | cons event rest ih =>
      have same : now.step event = now := by
        have one := sends event List.mem_cons_self
        cases event with
        | read source answer =>
            refine if_neg fun data => ?_
            rcases one with line | modem
            · exact rUartLsr_ne_rUartRxbuf (line.symm.trans data)
            · exact absurd (modem.symm.trans data) (by decide)
        | write target value =>
            refine if_neg fun modem => ?_
            exact absurd (one.symm.trans modem) (by decide)
      change (now.step event).after rest = now
      rw [same]
      exact ih fun later inside => sends later (List.mem_cons_of_mem _ inside)

/-- A read call moves RTS, and nothing else of the device that sends. -/
theorem carries_of_allowed {pcds : SerialPcds} {extended : Nat} {kept : UInt8} {before after : Uart}
    {trace : Trace} (served : Serves extended before trace after)
    (allowed : Each (SerialReceive.Allowed pcds kept) trace)
    (same : keptBits before.regs.mcr = kept) : Carries pcds before after [] := by
  induction served with
  | start => exact .refl pcds before
  | drain _ drained ih =>
      have carries := ih allowed
      exact ⟨carries.regs, carries.kept, carries.plain, drained.lost.trans carries.lost,
        drained.accepted.trans carries.accepted⟩
  | read source answer _ _ ih => exact ih allowed.init
  | @write history uart target value _ ih =>
      have carries := ih allowed.init
      obtain ⟨controlled, modem, bits⟩ := allowed.last
      have other : ¬ (rUartMcr = rUartTxbuf ∧ ¬ uart.regs.dlab) := fun data => by cases data.1
      rw [modem, Uart.write, if_neg other, write_mcr]
      refine ⟨?_, bits.trans same.symm, fun off => ?_, carries.lost, carries.accepted⟩
      · rw [carries.regs]
      · rw [controlled] at off
        cases off

/-! ## One call -/

section Calls

variable {pcds : SerialPcds} {stream : Nat → UInt8} {before after : Uart} {now : Console}
  {trace : Trace} {fuel : Nat}

structure CallAt (pcds : SerialPcds) (stream : Nat → UInt8) (before after : Uart) (now : Console)
    (call : PortCall) (trace : Trace) (part : List UInt8) (outcome : Option (Mem × Nat)) : Prop where
  carries : Carries pcds before after part
  started : part <+: call.data now.mem
  returned : ∀ mem result, outcome = some (mem, result) →
    part = call.data now.mem ∧ mem = call.stored stream now ∧ result = call.result ∧
      ((Receiver.mk before.regs.mcr now.taken).after trace).taken = now.taken + call.taken

theorem callAt_write {buffer bytes : Nat} {outcome : Option (Mem × Nat)}
    (configured : getSerialRegisterBase pcds ≠ 0) (data : ¬ before.regs.dlab)
    (fits : fifoSize pcds ≤ txDepth (extendedDepth pcds) before.regs.fcr)
    (run : Runs ((PortCall.write buffer bytes).prog pcds fuel now.mem) trace outcome)
    (served : Serves (extendedDepth pcds) before trace after) :
    ∃ part, CallAt pcds stream before after now (.write buffer bytes) trace part outcome := by
  obtain ⟨inner, ran, mapped⟩ := runs_map_cases run
  have quiet := after_sends ⟨before.regs.mcr, now.taken⟩ trace
    ((within_serialPortWrite pcds fuel now.mem buffer bytes).of_runs ran)
  let call : WriteCall := ⟨now.mem, buffer, bytes⟩
  have ran' : Runs (call.prog pcds fuel) trace inner := ran
  obtain ⟨received, sending, whole⟩ := call_received configured ran' served data fits
  refine ⟨txBytes trace, ⟨?_, sending.sent, ?_⟩⟩
  · have same : after.regs.mcr = before.regs.mcr := congrArg Registers.mcr received.regs
    refine ⟨?_, congrArg keptBits same, fun _ => same, received.lost, received.accepted⟩
    rw [received.regs]
  · rintro mem result rfl
    obtain ⟨value, rfl, same⟩ := mapped _ rfl
    obtain ⟨rfl, rfl⟩ := Prod.mk.inj same
    refine ⟨(whole (Option.some_ne_none result)).1, rfl, ?_, by rw [quiet]; rfl⟩
    rw [PortCall.result]
    by_cases given : buffer = null
    · rw [serialPortWrite, if_pos given] at ran
      rw [if_pos given]
      exact (runs_pure_cases ran).2 result rfl
    · rw [if_neg given]
      have returned := (wp_sound
        (wp_serialPortWrite fuel now.mem buffer bytes given configured) ran).2 result rfl
      exact returned.2.1

theorem callAt_read {buffer : Nat} {bytes : UInt32} {outcome : Option (Mem × Nat)}
    (configured : getSerialRegisterBase pcds ≠ 0)
    (run : Runs ((PortCall.read buffer bytes).prog pcds fuel now.mem) trace outcome)
    (served : Serves (extendedDepth pcds) before trace after)
    (answered : Answers stream ⟨before.regs.mcr, now.taken⟩ trace) :
    CallAt pcds stream before after now (.read buffer bytes) trace [] outcome := by
  obtain ⟨inner, ran, mapped⟩ := runs_map_cases run
  by_cases given : buffer = null
  · rw [serialPortRead, if_pos given] at ran
    obtain ⟨rfl, value⟩ := runs_pure_cases ran
    refine ⟨carries_of_allowed served each_nil rfl, List.nil_prefix, ?_⟩
    rintro mem result rfl
    obtain ⟨⟨last, count⟩, rfl, same⟩ := mapped _ rfl
    obtain ⟨rfl, rfl⟩ := Prod.mk.inj same
    obtain ⟨rfl, rfl⟩ := Prod.mk.inj (value _ rfl)
    rw [PortCall.stored, PortCall.result, PortCall.taken, if_pos given, if_pos given]
    exact ⟨rfl, rfl, rfl, rfl⟩
  · obtain ⟨mid, _⟩ := wp_sound (wp_serialPortRead fuel now.mem buffer bytes given configured) ran
    rw [List.nil_append] at mid
    have carries : Carries pcds before after [] := by
      rcases mid with rfl | ⟨answer, receiving⟩
      · exact carries_of_allowed served each_nil rfl
      · have same := receiving.answer answered
        exact carries_of_allowed served receiving.allowed (congrArg keptBits same.symm)
    refine ⟨carries, List.nil_prefix, ?_⟩
    rintro mem result rfl
    obtain ⟨⟨last, count⟩, rfl, same⟩ := mapped _ rfl
    obtain ⟨rfl, rfl⟩ := Prod.mk.inj same
    obtain ⟨_, _, _, _, rfl, rfl, device⟩ :=
      Returned.shape given configured ⟨⟨fuel, ran⟩, answered⟩
    rw [PortCall.stored, PortCall.result, PortCall.taken, if_neg given, if_neg given]
    exact ⟨rfl, rfl, rfl, congrArg Receiver.taken device⟩

theorem callAt_of_runs {call : PortCall} {outcome : Option (Mem × Nat)}
    (configured : getSerialRegisterBase pcds ≠ 0) (data : ¬ before.regs.dlab)
    (fits : fifoSize pcds ≤ txDepth (extendedDepth pcds) before.regs.fcr)
    (run : Runs (call.prog pcds fuel now.mem) trace outcome)
    (served : Serves (extendedDepth pcds) before trace after)
    (answered : Answers stream ⟨before.regs.mcr, now.taken⟩ trace) :
    ∃ part, CallAt pcds stream before after now call trace part outcome := by
  cases call with
  | write buffer bytes => exact callAt_write configured data fits run served
  | read buffer bytes => exact ⟨[], callAt_read configured run served answered⟩

end Calls

/-! ## Sessions of calls -/

structure Ready (pcds : SerialPcds) (first : Uart) : Prop where
  configured : getSerialRegisterBase pcds ≠ 0
  data : ¬ first.regs.dlab
  fits : fifoSize pcds ≤ txDepth (extendedDepth pcds) first.regs.fcr

/-- A session at any point: the device has accepted a part of what the console sends, and where
the session has returned it reflects the console. -/
structure SessionAt (pcds : SerialPcds) (stream : Nat → UInt8) (first last : Uart) (now : Console)
    (calls : List PortCall) (receiver : Receiver) (part : List UInt8)
    (outcome : Option (Mem × List Nat)) : Prop where
  carries : Carries pcds first last part
  started : part <+: (now.after stream calls).sent
  returned : ∀ mem results, outcome = some (mem, results) →
    part = (now.after stream calls).sent ∧ mem = (now.after stream calls).mem ∧
      results = calls.map PortCall.result ∧ receiver.taken = (now.after stream calls).taken

theorem sessionAt_of_runs {pcds : SerialPcds} {stream : Nat → UInt8} {first before last : Uart}
    {fuel : Nat} (ready : Ready pcds first) (calls : List PortCall) (now : Console) (trace : Trace)
    (outcome : Option (Mem × List Nat)) (carried : Carries pcds first before now.sent)
    (run : Runs (session pcds fuel calls now.mem) trace outcome)
    (served : Serves (extendedDepth pcds) before trace last)
    (answered : Answers stream ⟨before.regs.mcr, now.taken⟩ trace) :
    ∃ part, SessionAt pcds stream first last now calls
      ((Receiver.mk before.regs.mcr now.taken).after trace) part outcome := by
  induction calls generalizing before now trace outcome with
  | nil =>
      obtain ⟨rfl, value⟩ := runs_pure_cases run
      have unread : Each (SerialReceive.Allowed pcds (keptBits before.regs.mcr)) [] := each_nil
      have carries := carried.trans (carries_of_allowed served unread rfl)
      rw [List.append_nil] at carries
      refine ⟨now.sent, carries, List.prefix_refl _, ?_⟩
      rintro mem results rfl
      obtain ⟨rfl, rfl⟩ := Prod.mk.inj (value _ rfl)
      exact ⟨rfl, rfl, rfl, rfl⟩
  | cons call rest ih =>
      have data : ¬ before.regs.dlab := fun latch => ready.data (carried.dlab_iff.mp latch)
      have fits : fifoSize pcds ≤ txDepth (extendedDepth pcds) before.regs.fcr := by
        rw [carried.fcr]
        exact ready.fits
      rcases runs_bind_cases run with ⟨rfl, inside⟩ | ⟨early, late, ⟨mem, result⟩, rfl, head, tail⟩
      · obtain ⟨part, point⟩ := callAt_of_runs ready.configured data fits inside served answered
        refine ⟨now.sent ++ part, carried.trans point.carries, ?_, fun _ _ same => nomatch same⟩
        exact (List.prefix_append_right_inj _ |>.mpr point.started).trans
          (sent_after stream (now.step stream call) rest)
      · obtain ⟨middle, former, latter⟩ := served.split
        obtain ⟨answered, later⟩ := (answers_append _ _ _ _).mp answered
        obtain ⟨part, point⟩ := callAt_of_runs ready.configured data fits head former answered
        obtain ⟨rfl, rfl, rfl, taken⟩ := point.returned mem result rfl
        have receiver : (Receiver.mk before.regs.mcr now.taken).after early =
            ⟨middle.regs.mcr, now.taken + call.taken⟩ := by
          rw [← taken, former.regs, ← mcr_after before.regs now.taken early]
        rw [receiver] at later
        obtain ⟨inner, ran, mapped⟩ := runs_map_cases tail
        obtain ⟨whole, tailAt⟩ := ih (now.step stream call) late inner
          (carried.trans point.carries) ran latter later
        rw [SerialReceive.after_append, receiver]
        refine ⟨whole, tailAt.carries, tailAt.started, ?_⟩
        rintro final results rfl
        obtain ⟨⟨mem, others⟩, rfl, same⟩ := mapped _ rfl
        obtain ⟨rfl, rfl⟩ := Prod.mk.inj same
        obtain ⟨sent, stored, rfl, taken⟩ := tailAt.returned final others rfl
        exact ⟨sent, stored, rfl, taken⟩

/-! ## After initialisation -/

def sessionRegs (pcds : SerialPcds) (found : Registers) (mcr : UInt8) : Registers where
  ier := if found.dlab then found.ier else 0
  fcr := bUartFcrval
  lcr := lineCtl pcds
  mcr := mcr
  dll := (divisor pcds &&& 0xff).toUInt8
  dlm := ((divisor pcds >>> 8) &&& 0xff).toUInt8

def openConsole (mem : Mem) : Console := ⟨mem, [], 0⟩

/-- A session on the port that initialisation found with registers `found` and left as `first`,
at any point of it: `last` is the device there. -/
structure PortLaw (pcds : SerialPcds) (stream : Nat → UInt8) (found : Registers) (first last : Uart)
    (calls : List PortCall) (mem : Mem) (trace : Trace) (outcome : Option (Mem × List Nat)) :
    Prop where
  regs : last.regs = sessionRegs pcds found last.regs.mcr
  modem : keptBits last.regs.mcr = bUartMcrDtr
  plain : pcds.useHardwareFlowControl = false → last.regs.mcr = bUartMcrval
  lost : last.tx.lost = first.tx.lost
  sent : ∃ part, part <+: ((openConsole mem).after stream calls).sent ∧
    accepted last.tx = first.tx.line ++ part ∧
    (outcome ≠ none → part = ((openConsole mem).after stream calls).sent)
  returned : ∀ final results, outcome = some (final, results) →
    final = ((openConsole mem).after stream calls).mem ∧ results = calls.map PortCall.result ∧
      ((Receiver.mk first.regs.mcr 0).after trace).taken =
        ((openConsole mem).after stream calls).taken

section Opened

variable {pcds : SerialPcds} {fuel : Nat} {setup : Trace} {base : UInt32} {found first : Uart}

theorem opened (configured : pcds.registerBase ≠ 0)
    (initialised : Runs (serialPortInitialize pcds fuel) setup (some base))
    (prepared : Serves (extendedDepth pcds) found setup first) :
    first.regs = sessionRegs pcds found.regs bUartMcrval ∧ Idle first.tx := by
  refine ⟨?_, serialPortInitialize_idle pcds configured fuel setup base _ found first initialised
    prepared⟩
  rw [prepared.regs, serialPortInitialize_regs pcds configured fuel setup base initialised,
    after_setupWrites]
  rfl

theorem opened_ready (configured : pcds.registerBase ≠ 0)
    (closed : pcds.lineControl &&& bUartLcrDlab = 0) (fits : fifoSize pcds ≤ 16)
    (regs : first.regs = sessionRegs pcds found.regs bUartMcrval) : Ready pcds first := by
  refine ⟨configured, fun latch => ?_, ?_⟩
  · rw [regs] at latch
    exact (lineCtl_dlab_iff pcds).mp latch closed
  · rw [regs]
    exact fits.trans (Nat.le_of_eq (txDepth_fcrval _).symm)

end Opened

theorem session_portLaw (pcds : SerialPcds) (configured : pcds.registerBase ≠ 0)
    (closed : pcds.lineControl &&& bUartLcrDlab = 0) (fits : fifoSize pcds ≤ 16)
    (polls fuel : Nat) (setup : Trace) (base : UInt32) (found first : Uart)
    (initialised : Runs (serialPortInitialize pcds polls) setup (some base))
    (prepared : Serves (extendedDepth pcds) found setup first) (stream : Nat → UInt8)
    (calls : List PortCall) (mem : Mem) (trace : Trace) (outcome : Option (Mem × List Nat))
    (last : Uart) (run : Runs (session pcds fuel calls mem) trace outcome)
    (served : Serves (extendedDepth pcds) first trace last)
    (answered : Answers stream ⟨first.regs.mcr, 0⟩ trace) :
    PortLaw pcds stream found.regs first last calls mem trace outcome := by
  obtain ⟨regs, idle⟩ := opened configured initialised prepared
  have ready := opened_ready configured closed fits regs
  obtain ⟨part, point⟩ := sessionAt_of_runs ready calls (openConsole mem) trace outcome
    (.refl pcds first) run served answered
  have mcr : first.regs.mcr = bUartMcrval := congrArg Registers.mcr regs
  have kept := point.carries.kept
  refine ⟨?_, ?_, fun off => (point.carries.plain off).trans mcr, point.carries.lost,
    ⟨part, point.started, ?_, fun finished => ?_⟩, fun final results same => ?_⟩
  · rw [point.carries.regs, regs]
    rfl
  · rw [kept, mcr]
    decide
  · rw [point.carries.accepted, accepted_of_idle idle]
  · obtain ⟨⟨final, results⟩, same⟩ := Option.ne_none_iff_exists'.mp finished
    exact (point.returned final results same).1
  · exact (point.returned final results same).2

def echoTrace : Trace :=
  [.read (accessOf (infPcds 0x07 64) rUartMcr) 0x03, .read (accessOf (infPcds 0x07 64) rUartLsr) 0x61,
    .read (accessOf (infPcds 0x07 64) rUartRxbuf) 0x41, .read (accessOf (infPcds 0x07 64) rUartLsr) 0x60,
    .write (accessOf (infPcds 0x07 64) rUartTxbuf) 0x41]

def echoCalls : List PortCall := [.read 0x1000 1, .write 0x1000 1]

def echoUart : Uart := (bootedUart (infPcds 0x07 64)).write 64 rUartTxbuf 0x41

def echoMem : Mem := storeBytes (fun _ => 0) 0x1000 [0x41]

theorem echoTrace_runs :
    Runs (session (infPcds 0x07 64) 3 echoCalls fun _ => 0) echoTrace (some (echoMem, [1, 1])) :=
  .input (.input (.input (.input (.output (.ret _)))))

theorem booted_idle : Idle (bootedUart (infPcds 0x07 64)).tx :=
  ⟨rfl, rfl⟩

theorem echoTrace_served :
    Serves (extendedDepth (infPcds 0x07 64)) (bootedUart (infPcds 0x07 64)) echoTrace echoUart := by
  have modem : Serves (extendedDepth (infPcds 0x07 64)) (bootedUart (infPcds 0x07 64)) _ _ :=
    Serves.start.read (accessOf (infPcds 0x07 64) rUartMcr) 0x03 fun line => absurd line (by decide)
  have ready := modem.read (accessOf (infPcds 0x07 64) rUartLsr) 0x61 fun _ =>
    ⟨iff_of_true (by decide) booted_idle.1, iff_of_true (by decide) booted_idle⟩
  have taken := ready.read (accessOf (infPcds 0x07 64) rUartRxbuf) 0x41 fun line =>
    absurd line (by decide)
  have empty := taken.read (accessOf (infPcds 0x07 64) rUartLsr) 0x60 fun _ =>
    idle_shows _ booted_idle
  exact empty.write (accessOf (infPcds 0x07 64) rUartTxbuf) 0x41

theorem echoTrace_answered : Answers letters ⟨(bootedUart (infPcds 0x07 64)).regs.mcr, 0⟩ echoTrace := by
  simp only [echoTrace, Answers, Answered]
  decide

theorem session_portLaw_echo :
    PortLaw (infPcds 0x07 64) letters resetUart.regs (bootedUart (infPcds 0x07 64)) echoUart echoCalls
      (fun _ => 0) echoTrace (some (echoMem, [1, 1])) :=
  session_portLaw (infPcds 0x07 64) (by decide) (by decide) (by decide) 1 3 _ _ _ _
    (setupTrace_runs (infPcds 0x07 64) (by decide) (by decide)) (booted_serves (infPcds 0x07 64))
    letters echoCalls (fun _ => 0) echoTrace _ echoUart echoTrace_runs echoTrace_served
    echoTrace_answered

/-! ## Reading and writing back -/

def echo (buffer : Nat) (bytes : UInt32) (rounds : Nat) : List PortCall :=
  (List.replicate rounds [.read buffer bytes, .write buffer bytes.toNat]).flatten

theorem after_round (stream : Nat → UInt8) (now : Console) {buffer : Nat} (given : buffer ≠ null)
    (bytes : UInt32) :
    now.after stream [.read buffer bytes, .write buffer bytes.toNat] =
      ⟨storeBytes now.mem buffer (nextBytes stream now.taken bytes.toNat),
        now.sent ++ nextBytes stream now.taken bytes.toNat, now.taken + bytes.toNat⟩ := by
  have length : (nextBytes stream now.taken bytes.toNat).length = bytes.toNat :=
    length_nextBytes now.taken bytes.toNat
  have back := bytesAt_storeBytes_self now.mem buffer (nextBytes stream now.taken bytes.toNat)
    (by rw [length]; exact Nat.le_of_lt bytes.toNat_lt)
  rw [length] at back
  simp only [Console.after, List.foldl_cons, List.foldl_nil, Console.step, PortCall.stored,
    PortCall.data, PortCall.taken, if_neg given, back, List.append_nil, Nat.add_zero]

theorem sent_after_echo (stream : Nat → UInt8) {buffer : Nat} (given : buffer ≠ null)
    (bytes : UInt32) (rounds : Nat) (now : Console) :
    (now.after stream (echo buffer bytes rounds)).sent =
      now.sent ++ nextBytes stream now.taken (rounds * bytes.toNat) := by
  induction rounds generalizing now with
  | zero =>
      rw [Nat.zero_mul]
      exact (List.append_nil _).symm
  | succ rounds ih =>
      have round : now.after stream (echo buffer bytes (rounds + 1)) =
          (now.after stream [.read buffer bytes, .write buffer bytes.toNat]).after stream
            (echo buffer bytes rounds) := rfl
      have count : (rounds + 1) * bytes.toNat = bytes.toNat + rounds * bytes.toNat := by
        rw [Nat.add_mul, Nat.one_mul, Nat.add_comm]
      rw [round, after_round stream now given, ih, count, nextBytes_add, List.append_assoc]

theorem prefix_nextBytes {stream : Nat → UInt8} {start count : Nat} {part : List UInt8}
    (inside : part <+: nextBytes stream start count) :
    ∃ fewer ≤ count, part = nextBytes stream start fewer := by
  have short := inside.length_le
  rw [length_nextBytes] at short
  refine ⟨part.length, short, ?_⟩
  have head : nextBytes stream start part.length <+: nextBytes stream start count := by
    rw [← Nat.add_sub_cancel' short, nextBytes_add]
    exact List.prefix_append _ _
  have same := List.prefix_of_prefix_length_le inside head
    (Nat.le_of_eq (length_nextBytes start part.length).symm)
  exact same.eq_of_length (length_nextBytes start part.length).symm

/-- What an echo sends is what it has received, at every point of a run. -/
theorem echo_sends (pcds : SerialPcds) (configured : pcds.registerBase ≠ 0)
    (closed : pcds.lineControl &&& bUartLcrDlab = 0) (fits : fifoSize pcds ≤ 16)
    (polls fuel : Nat) (setup : Trace) (base : UInt32) (found first : Uart)
    (initialised : Runs (serialPortInitialize pcds polls) setup (some base))
    (prepared : Serves (extendedDepth pcds) found setup first) (stream : Nat → UInt8)
    (buffer : Nat) (given : buffer ≠ null) (bytes : UInt32) (rounds : Nat) (mem : Mem)
    (trace : Trace) (outcome : Option (Mem × List Nat)) (last : Uart)
    (run : Runs (session pcds fuel (echo buffer bytes rounds) mem) trace outcome)
    (served : Serves (extendedDepth pcds) first trace last)
    (answered : Answers stream ⟨first.regs.mcr, 0⟩ trace) :
    last.tx.lost = first.tx.lost ∧ ∃ count, count ≤ rounds * bytes.toNat ∧
      accepted last.tx = first.tx.line ++ nextBytes stream 0 count ∧
      (outcome ≠ none → count = rounds * bytes.toNat) := by
  obtain ⟨regs, idle⟩ := opened configured initialised prepared
  have ready := opened_ready configured closed fits regs
  obtain ⟨part, point⟩ := sessionAt_of_runs ready (echo buffer bytes rounds) (openConsole mem) trace
    outcome (.refl pcds first) run served answered
  have whole := sent_after_echo stream given bytes rounds (openConsole mem)
  have started := point.started
  rw [whole] at started
  obtain ⟨count, bound, rfl⟩ := prefix_nextBytes started
  refine ⟨point.carries.lost, count, bound, ?_, fun finished => ?_⟩
  · rw [point.carries.accepted, accepted_of_idle idle]
    rfl
  · obtain ⟨⟨final, results⟩, same⟩ := Option.ne_none_iff_exists'.mp finished
    have all := (point.returned final results same).1
    rw [whole] at all
    have length := congrArg List.length all
    rw [openConsole, List.nil_append, length_nextBytes, length_nextBytes] at length
    exact length

theorem echo_sends_one :
    echoUart.tx.lost = [] ∧ ∃ count ≤ 1, accepted echoUart.tx = [] ++ nextBytes letters 0 count ∧
      (some (echoMem, [1, 1]) ≠ none → count = 1) :=
  echo_sends (infPcds 0x07 64) (by decide) (by decide) (by decide) 1 3 _ _ _ _
    (setupTrace_runs (infPcds 0x07 64) (by decide) (by decide)) (booted_serves (infPcds 0x07 64))
    letters 0x1000 (by decide) 1 1 (fun _ => 0) echoTrace _ echoUart echoTrace_runs echoTrace_served
    echoTrace_answered

end ArcFirmware.SerialSession
