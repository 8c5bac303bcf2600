import ArcFirmware.SerialSetup
import ArcFirmware.SerialTransmit

/-!
# From the buffers to the line

Initialisation and write calls joined through the device.  A burst has as many
bytes as the write path computes from its configuration; the queue is as deep as
the FIFO control value of initialisation makes it.  Where the first is between
one byte and the second, and initialisation closes the divisor latch, every byte
of every call reaches the line once and in order; elsewhere some run stalls,
drops a byte or writes the latch.
-/

set_option autoImplicit false

namespace ArcFirmware.SerialDelivery

open ArcFirmware.Memory ArcFirmware.Edk2 ArcFirmware.Port ArcFirmware.SendQueue
open ArcFirmware.Ns16550 ArcFirmware.Uart16550 ArcFirmware.SerialSetup ArcFirmware.SerialTransmit

/-! ## Calls and sessions -/

structure WriteCall where
  mem : Mem
  buffer : Nat
  bytes : Nat

def WriteCall.data (call : WriteCall) : List UInt8 :=
  if call.buffer = null then [] else bytesAt call.mem call.buffer call.bytes

def WriteCall.prog (pcds : SerialPcds) (fuel : Nat) (call : WriteCall) : Driver Nat :=
  serialPortWrite pcds fuel call.mem call.buffer call.bytes

def extendedDepth (pcds : SerialPcds) : Nat := pcds.extendedTxFifoSize.toNat

inductive Session (pcds : SerialPcds) (first : Uart) : List WriteCall → Uart → Prop where
  | start : Session pcds first [] first
  | call {calls : List WriteCall} {before after : Uart} {call : WriteCall} {fuel : Nat}
      {trace : Trace} {result : Nat} (prior : Session pcds first calls before)
      (run : Runs (call.prog pcds fuel) trace (some result))
      (served : Serves (extendedDepth pcds) before trace after) :
      Session pcds first (calls ++ [call]) after

def isPoll : Event Access UInt8 → Bool
  | .read source _ => source.offset = rUartLsr
  | .write _ _ => false

def BurstEnds (outcome : Option Nat) : Trace → Prop
  | [] => outcome ≠ none
  | event :: _ => isPoll event = true

/-- A call after others, at any point of it: `first` is the device that initialisation left and
`last` the device at that point.  The line has carried the buffers in order, less the bytes that
are still in the stage and the queue. -/
structure Delivers (depth : Nat) (first : Uart) (calls : List WriteCall) (call : WriteCall)
    (trace : Trace) (outcome : Option Nat) (last : Uart) : Prop where
  bursts : call.data ≠ [] → ∀ older source answer burst newer,
    trace = older ++ .read source answer :: burst ++ newer → source.offset = rUartLsr →
      Emptied answer → (∀ event ∈ burst, isPoll event = false) →
      (txBytes burst).length ≤ depth ∧ (BurstEnds outcome newer → 1 ≤ (txBytes burst).length)
  kept : last.tx.lost = first.tx.lost
  delivered : ∃ sent, sent <+: call.data ∧ (outcome ≠ none → sent = call.data) ∧
    accepted last.tx = first.tx.line ++ (calls.flatMap WriteCall.data ++ sent)

/-- Every run of every call of every session from this device. -/
def Transmits (pcds : SerialPcds) (first : Uart) : Prop :=
  ∀ calls before call fuel trace outcome last, Session pcds first calls before →
    Runs (call.prog pcds fuel) trace outcome →
    Serves (extendedDepth pcds) before trace last →
    Delivers (txDepth (extendedDepth pcds) first.regs.fcr) first calls call trace outcome last

/-! ## The trace of a call -/

theorem wp_call (pcds : SerialPcds) (configured : getSerialRegisterBase pcds ≠ 0) (fuel : Nat)
    (call : WriteCall) :
    wp (call.prog pcds fuel)
      (fun _ after => txBytes after = call.data ∧
        (call.data ≠ [] → 0 < fifoSize pcds → sinceEmpty after ≠ some 0))
      (Sending pcds call.data) [] := by
  rw [WriteCall.prog, WriteCall.data]
  by_cases given : call.buffer = null
  · rw [serialPortWrite, if_pos given, if_pos given, wp_pure]
    exact ⟨sending_nil, rfl, fun some => absurd rfl some⟩
  · rw [if_neg given]
    refine wp_mono ?_ (fun _ holds => holds)
      (wp_serialPortWrite fuel call.mem call.buffer call.bytes given configured)
    intro result after _ returned
    obtain ⟨sent, _, fresh⟩ := returned
    refine ⟨sent, fun some => fresh fun none => some ?_⟩
    rw [none, bytesAt]

theorem sinceEmpty_burst (older : Trace) (source : Access) (answer : UInt8)
    (polled : source.offset = rUartLsr) (empty : Emptied answer) (burst : Trace)
    (quiet : ∀ event ∈ burst, isPoll event = false) :
    sinceEmpty (older ++ .read source answer :: burst) = some (txBytes burst).length := by
  induction burst using List.reverseRecOn with
  | nil => rw [sinceEmpty_concat, observe, if_pos polled, if_pos empty]; rfl
  | append_singleton burst event ih =>
      have counted := ih fun other inside => quiet other (List.mem_append_left _ inside)
      have silent := quiet event (List.mem_append_right _ List.mem_cons_self)
      rw [← List.cons_append, ← List.append_assoc, sinceEmpty_concat, counted, txBytes_append]
      cases event with
      | read other shown =>
          rw [isPoll, decide_eq_false_iff_not] at silent
          rw [observe, if_neg silent, txBytes, txBytes, List.append_nil]
      | write target value =>
          rw [observe, txBytes, txBytes]
          by_cases transmitted : target.offset = rUartTxbuf
          · rw [if_pos transmitted, if_pos transmitted, List.length_append]
            rfl
          · rw [if_neg transmitted, if_neg transmitted, List.append_nil]

theorem sinceEmpty_le (pcds : SerialPcds) (history : Trace) (allowed : Each (Allowed pcds) history)
    (sent : Nat) (counted : sinceEmpty history = some sent) : sent ≤ fifoSize pcds := by
  induction history using List.reverseRecOn generalizing sent with
  | nil => cases counted
  | append_singleton history event ih =>
      cases event with
      | read source answer =>
          rcases sinceEmpty_read_cases counted with ⟨_, _, rfl⟩ | ⟨_, before⟩
          · exact Nat.zero_le _
          · exact ih allowed.init sent before
      | write target value =>
          obtain ⟨transmitted, ⟨fewer, room, before⟩, _⟩ := allowed.last
          rw [sinceEmpty_txbuf _ _ _ transmitted, before] at counted
          cases counted
          exact room

theorem burst_bounds (pcds : SerialPcds) {trace older burst newer : Trace} {source : Access}
    {answer : UInt8} {outcome : Option Nat} (allowed : Each (Allowed pcds) trace)
    (positive : 0 < fifoSize pcds) (fresh : outcome ≠ none → sinceEmpty trace ≠ some 0)
    (split : trace = older ++ .read source answer :: burst ++ newer)
    (polled : source.offset = rUartLsr) (empty : Emptied answer)
    (quiet : ∀ event ∈ burst, isPoll event = false) :
    (txBytes burst).length ≤ fifoSize pcds ∧
      (BurstEnds outcome newer → 1 ≤ (txBytes burst).length) := by
  have counted := sinceEmpty_burst older source answer polled empty burst quiet
  subst split
  constructor
  · refine sinceEmpty_le pcds _ (fun before event start => ?_) _ counted
    exact allowed before event (start.trans (List.prefix_append _ newer))
  · intro ends
    by_contra short
    have nothing : (txBytes burst).length = 0 := by omega
    rw [nothing] at counted
    cases newer with
    | nil =>
        rw [List.append_nil] at fresh
        exact fresh ends counted
    | cons event rest =>
        cases event with
        | write target value => cases ends
        | read other shown =>
            have inside : (older ++ .read source answer :: burst) ++ [.read other shown] <+:
                older ++ .read source answer :: burst ++ .read other shown :: rest :=
              ⟨rest, List.append_cons .. |>.symm⟩
            exact allowed _ _ inside (of_decide_eq_true ends) positive counted

/-! ## The device under a call -/

structure Received (before : Uart) (trace : Trace) (after : Uart) : Prop where
  regs : after.regs = before.regs
  lost : after.tx.lost = before.tx.lost
  accepted : accepted after.tx = accepted before.tx ++ txBytes trace
  waiting : ∀ sent, sinceEmpty trace = some sent → after.tx.waiting.length ≤ sent

/-- The queue never holds more than the monitor counts, so the FIFO size bounds it. -/
theorem received_of_serves {pcds : SerialPcds} {extended : Nat} {before after : Uart}
    {trace : Trace} (served : Serves extended before trace after)
    (allowed : Each (Allowed pcds) trace) (data : ¬ before.regs.dlab)
    (fits : fifoSize pcds ≤ txDepth extended before.regs.fcr) : Received before trace after := by
  induction served with
  | start => exact ⟨rfl, rfl, (List.append_nil _).symm, fun _ counted => nomatch counted⟩
  | drain _ drained ih =>
      have received := ih allowed
      refine ⟨received.regs, drained.lost.trans received.lost,
        drained.accepted.trans received.accepted, fun sent counted => ?_⟩
      exact drained.length_waiting_le.trans (received.waiting sent counted)
  | read source answer _ status ih =>
      have received := ih allowed.init
      refine ⟨received.regs, received.lost, ?_, fun sent counted => ?_⟩
      · rw [txBytes_read]
        exact received.accepted
      · rcases sinceEmpty_read_cases counted with ⟨polled, empty, rfl⟩ | ⟨_, counted⟩
        · have drained := (status polled).1.mp empty.2
          rw [drained]
          exact Nat.le_refl _
        · exact received.waiting sent counted
  | @write history uart target value _ ih =>
      have received := ih allowed.init
      obtain ⟨transmitted, ⟨sent, room, counted⟩, _⟩ := allowed.last
      have waiting := received.waiting sent counted
      have depth : uart.tx.waiting.length < txDepth extended uart.regs.fcr := by
        rw [received.regs]
        omega
      have open_ : ¬ uart.regs.dlab := by
        rw [received.regs]
        exact data
      rw [transmitted, write_txbuf open_]
      refine ⟨received.regs, (lost_push value depth).trans received.lost, ?_, ?_⟩
      · rw [accepted_push value depth, received.accepted, txBytes_write _ _ _ transmitted,
          List.append_assoc]
      · intro more counts
        rw [sinceEmpty_txbuf _ _ _ transmitted, counted] at counts
        cases counts
        exact (length_waiting_push_le _ _ _).trans (Nat.succ_le_succ waiting)

theorem call_received {pcds : SerialPcds} {call : WriteCall} {fuel : Nat} {trace : Trace}
    {outcome : Option Nat} {before after : Uart}
    (configured : pcds.registerBase ≠ 0) (run : Runs (call.prog pcds fuel) trace outcome)
    (served : Serves (extendedDepth pcds) before trace after) (data : ¬ before.regs.dlab)
    (fits : fifoSize pcds ≤ txDepth (extendedDepth pcds) before.regs.fcr) :
    Received before trace after ∧ Sending pcds call.data trace ∧
      (outcome ≠ none → txBytes trace = call.data ∧
        (call.data ≠ [] → 0 < fifoSize pcds → sinceEmpty trace ≠ some 0)) := by
  obtain ⟨sending, returned⟩ := wp_sound (wp_call pcds configured fuel call) run
  rw [List.nil_append] at sending
  refine ⟨received_of_serves served sending.allowed data fits, sending, fun finished => ?_⟩
  obtain ⟨result, same⟩ := Option.ne_none_iff_exists'.mp finished
  have whole := returned result same
  rwa [List.nil_append] at whole

theorem Session.received {pcds : SerialPcds} {first last : Uart} {calls : List WriteCall}
    (session : Session pcds first calls last) (configured : pcds.registerBase ≠ 0)
    (data : ¬ first.regs.dlab)
    (fits : fifoSize pcds ≤ txDepth (extendedDepth pcds) first.regs.fcr) :
    last.regs = first.regs ∧ last.tx.lost = first.tx.lost ∧
      accepted last.tx = accepted first.tx ++ calls.flatMap WriteCall.data := by
  induction session with
  | start => exact ⟨rfl, rfl, (List.append_nil _).symm⟩
  | @call calls before after call fuel trace result _ run served ih =>
      obtain ⟨regs, lost, sent⟩ := ih
      have now : ¬ before.regs.dlab := by rwa [regs]
      have room : fifoSize pcds ≤ txDepth (extendedDepth pcds) before.regs.fcr := by rwa [regs]
      obtain ⟨received, _, returned⟩ := call_received configured run served now room
      refine ⟨received.regs.trans regs, received.lost.trans lost, ?_⟩
      rw [received.accepted, sent, (returned (Option.some_ne_none result)).1, List.flatMap_append,
        List.flatMap_singleton, List.append_assoc]

theorem transmits_of_fits (pcds : SerialPcds) (first : Uart) (configured : pcds.registerBase ≠ 0)
    (idle : Idle first.tx) (data : ¬ first.regs.dlab) (positive : 0 < fifoSize pcds)
    (fits : fifoSize pcds ≤ txDepth (extendedDepth pcds) first.regs.fcr) :
    Transmits pcds first := by
  intro calls before call fuel trace outcome last session run served
  obtain ⟨regs, lost, sent⟩ := session.received configured data fits
  have now : ¬ before.regs.dlab := by rwa [regs]
  have room : fifoSize pcds ≤ txDepth (extendedDepth pcds) before.regs.fcr := by rwa [regs]
  obtain ⟨received, sending, returned⟩ := call_received configured run served now room
  refine ⟨?_, received.lost.trans lost, txBytes trace, sending.sent, ?_, ?_⟩
  · intro some older source answer burst newer split polled empty quiet
    obtain ⟨upper, lower⟩ := burst_bounds pcds sending.allowed positive
      (fun finished => (returned finished).2 some positive) split polled empty quiet
    exact ⟨upper.trans fits, lower⟩
  · exact fun finished => (returned finished).1
  · rw [received.accepted, sent, accepted_of_idle idle, List.append_assoc]

/-! ## Calls of one burst -/

def handshake (pcds : SerialPcds) : Trace :=
  if pcds.useHardwareFlowControl then [.read (accessOf pcds rUartMsr) 0x30] else []

def sendEvents (pcds : SerialPcds) (values : List UInt8) : Trace :=
  values.flatMap fun value => handshake pcds ++ [.write (accessOf pcds rUartTxbuf) value]

def burstTrace (pcds : SerialPcds) (values : List UInt8) : Trace :=
  [.read (accessOf pcds rUartLsr) 0x60] ++ sendEvents pcds values

theorem flush_runs (pcds : SerialPcds) (fuel : Nat) :
    Runs (serialPortFlush pcds (fuel + 1) (getSerialRegisterBase pcds))
      [.read (accessOf pcds rUartLsr) 0x60] (some ()) := by
  rw [serialPortFlush]
  refine .loop_done fuel ?_
  rw [serialIn_eq]
  exact .input (.ret (Loop.Step.done ()))

theorem wait_runs (pcds : SerialPcds) (fuel : Nat) :
    Runs (serialPortWaitWritable pcds (fuel + 1) (getSerialRegisterBase pcds)) (handshake pcds)
      (some ()) := by
  rw [serialPortWaitWritable]
  refine .loop_done fuel ?_
  rw [serialIn_eq, handshake]
  by_cases controlled : pcds.useHardwareFlowControl = true
  · rw [if_pos controlled, controlled, if_neg (by decide)]
    by_cases detect : pcds.detectCable = true
    · rw [if_pos detect]
      exact .input (.ret (Loop.Step.done ()))
    · rw [if_neg detect]
      exact .input (.ret (Loop.Step.done ()))
  · rw [if_neg controlled, Bool.eq_false_iff.mpr controlled, if_pos Bool.not_false]
    exact .ret (Loop.Step.done ())

theorem fill_runs (pcds : SerialPcds) (fuel passes : Nat) (mem : Mem) (bytes index buffer : Nat)
    (enough : bytes < passes) (room : index + bytes ≤ fifoSize pcds) :
    Runs (loop (fillPass pcds (fuel + 1) mem (getSerialRegisterBase pcds)) passes
        (index, ⟨buffer, bytes⟩))
      (sendEvents pcds (bytesAt mem buffer bytes)) (some ⟨buffer + bytes, 0⟩) := by
  induction bytes generalizing index buffer passes with
  | zero =>
      obtain ⟨spare, rfl⟩ := Nat.exists_eq_succ_of_ne_zero (Nat.ne_zero_of_lt enough)
      refine .loop_done spare ?_
      rw [fillPass, if_neg fun pending => pending.2 rfl]
      exact .ret _
  | succ bytes ih =>
      obtain ⟨spare, rfl⟩ := Nat.exists_eq_succ_of_ne_zero (Nat.ne_zero_of_lt enough)
      have pass : Runs (fillPass pcds (fuel + 1) mem (getSerialRegisterBase pcds)
          (index, ⟨buffer, bytes + 1⟩))
          (handshake pcds ++ [.write (accessOf pcds rUartTxbuf) (byteAt mem buffer)])
          (some (.next (index + 1, ⟨buffer + 1, bytes⟩))) := by
        rw [fillPass, if_pos ⟨by omega, Nat.succ_ne_zero bytes⟩, serialOut_eq]
        exact .bind (wait_runs pcds fuel) (.output (.ret _))
      have rest := ih spare (index + 1) (buffer + 1) (by omega) (by omega)
      rw [Nat.add_assoc buffer, Nat.add_comm 1 bytes] at rest
      exact .loop_next pass rest

theorem burst_runs (pcds : SerialPcds) (configured : getSerialRegisterBase pcds ≠ 0)
    (mem : Mem) (buffer bytes : Nat) (given : buffer ≠ null) (pending : bytes ≠ 0)
    (room : bytes ≤ fifoSize pcds) :
    Runs (serialPortWrite pcds (bytes + 2) mem buffer bytes)
      (burstTrace pcds (bytesAt mem buffer bytes)) (some bytes) := by
  rw [serialPortWrite, if_neg given]
  simp only [if_neg configured, if_neg pending]
  have filled := fill_runs pcds (bytes + 1) (bytes + 2) mem bytes 0 buffer (by omega) (by omega)
  have sent : Runs (sendPass pcds (bytes + 2) mem (getSerialRegisterBase pcds) ⟨buffer, bytes⟩)
      (burstTrace pcds (bytesAt mem buffer bytes)) (some (.next ⟨buffer + bytes, 0⟩)) := by
    rw [sendPass, if_pos pending, burstTrace,
      ← List.append_nil (sendEvents pcds (bytesAt mem buffer bytes))]
    exact .bind (flush_runs pcds (bytes + 1)) (.bind filled (.ret _))
  have ended : Runs (sendPass pcds (bytes + 2) mem (getSerialRegisterBase pcds) ⟨buffer + bytes, 0⟩)
      [] (some (.done ())) := by
    rw [sendPass, if_neg fun more => more rfl]
    exact .ret _
  have looped := Runs.loop_next sent (.loop_done bytes ended)
  rw [← List.append_nil (burstTrace pcds (bytesAt mem buffer bytes)), ← List.append_nil (_ ++ [])]
  exact .bind looped (.ret bytes)

/-! ## Runs that do not deliver -/

theorem idle_shows (uart : Uart) (idle : Idle uart.tx) : ShowsStatus uart 0x60 :=
  ⟨iff_of_true (by decide) idle.1, iff_of_true (by decide) idle⟩

theorem handshake_unpolled (pcds : SerialPcds) :
    ∀ source answer, .read source answer ∈ handshake pcds → source.offset ≠ rUartLsr := by
  intro source answer inside
  rw [handshake] at inside
  by_cases controlled : pcds.useHardwareFlowControl = true
  · rw [if_pos controlled] at inside
    cases List.mem_singleton.mp inside
    exact rUartMsr_ne_rUartLsr
  · rw [if_neg controlled] at inside
    cases inside

theorem sendEvents_unpolled (pcds : SerialPcds) (values : List UInt8) :
    ∀ source answer, .read source answer ∈ sendEvents pcds values → source.offset ≠ rUartLsr := by
  intro source answer inside
  obtain ⟨value, _, inside⟩ := List.mem_flatMap.mp inside
  rcases List.mem_append.mp inside with shaken | sent
  · exact handshake_unpolled pcds source answer shaken
  · cases List.mem_singleton.mp sent

theorem burst_served (pcds : SerialPcds) (extended : Nat) (uart : Uart) (idle : Idle uart.tx)
    (values : List UInt8) :
    Serves extended uart (burstTrace pcds values) (uart.after extended (sendEvents pcds values)) :=
  (Serves.start.read (accessOf pcds rUartLsr) 0x60 fun _ => idle_shows uart idle).undrained _
    (sendEvents_unpolled pcds values)

theorem after_sendEvents_cons (pcds : SerialPcds) (extended : Nat) (uart : Uart) (value : UInt8)
    (rest : List UInt8) :
    uart.after extended (sendEvents pcds (value :: rest)) =
      (uart.write extended rUartTxbuf value).after extended (sendEvents pcds rest) := by
  have quiet : (handshake pcds).foldl (Uart.step extended) uart = uart := by
    rw [handshake]
    by_cases controlled : pcds.useHardwareFlowControl = true
    · rw [if_pos controlled]
      rfl
    · rw [if_neg controlled]
      rfl
  rw [Uart.after, sendEvents, List.flatMap_cons, List.foldl_append, List.foldl_append, quiet]
  rfl

theorem after_sendEvents (pcds : SerialPcds) (extended : Nat) (uart : Uart)
    (data : ¬ uart.regs.dlab) (values : List UInt8) :
    uart.after extended (sendEvents pcds values) =
      { uart with tx := pushAll (txDepth extended uart.regs.fcr) values uart.tx } := by
  induction values generalizing uart with
  | nil => rfl
  | cons value rest ih =>
      rw [after_sendEvents_cons, write_txbuf data]
      exact ih { uart with tx := push (txDepth extended uart.regs.fcr) value uart.tx } data

section Failures

variable (pcds : SerialPcds) (first : Uart)

def zeros (bytes : Nat) : WriteCall := ⟨fun _ => 0, 1, bytes⟩

theorem zeros_given (bytes : Nat) : (zeros bytes).buffer ≠ null :=
  Nat.one_ne_zero

theorem zeros_run (configured : pcds.registerBase ≠ 0) (bytes : Nat) (pending : bytes ≠ 0)
    (room : bytes ≤ fifoSize pcds) :
    Runs ((zeros bytes).prog pcds (bytes + 2))
      (burstTrace pcds (bytesAt (zeros bytes).mem 1 bytes)) (some bytes) :=
  burst_runs pcds configured (zeros bytes).mem 1 bytes (zeros_given bytes) pending room

theorem not_transmits_unconfigured (absent : pcds.registerBase = 0) : ¬ Transmits pcds first := by
  intro transmits
  let held := (first.tx.shift.toList ++ first.tx.waiting).length
  have run : Runs ((zeros (held + 1)).prog pcds 0) [] (some 0) := by
    have unset : getSerialRegisterBase pcds = 0 := absent
    rw [WriteCall.prog, serialPortWrite, if_neg (zeros_given _)]
    simp only [if_pos unset]
    exact .ret 0
  obtain ⟨sent, _, whole, same⟩ := (transmits [] first (zeros (held + 1)) 0 [] (some 0) first
    .start run .start).delivered
  rw [accepted, whole (Option.some_ne_none 0), List.flatMap_nil, List.nil_append] at same
  have length := congrArg List.length (List.append_cancel_left same)
  rw [WriteCall.data, if_neg (zeros_given _), length_bytesAt] at length
  exact absurd length (Nat.ne_of_lt (Nat.lt_succ_self held))

theorem not_transmits_stalled (configured : pcds.registerBase ≠ 0) (idle : Idle first.tx)
    (none_ : fifoSize pcds = 0) : ¬ Transmits pcds first := by
  intro transmits
  let poll : Event Access UInt8 := .read (accessOf pcds rUartLsr) 0x60
  have set : getSerialRegisterBase pcds ≠ 0 := configured
  have stuck : Runs (sendPass pcds 2 (fun _ => 0) (getSerialRegisterBase pcds) ⟨1, 1⟩) [poll]
      (some (.next ⟨1, 1⟩)) := by
    have filled : Runs (fillTxFifo pcds 2 (fun _ => 0) (getSerialRegisterBase pcds) ⟨1, 1⟩) []
        (some ⟨1, 1⟩) := by
      refine .loop_done 1 ?_
      rw [fillPass, if_neg fun room => by omega]
      exact .ret _
    rw [sendPass, if_pos (by decide)]
    exact .bind (flush_runs pcds 1) (.bind filled (.ret _))
  have polled : Runs (sendPass pcds 2 (fun _ => 0) (getSerialRegisterBase pcds) ⟨1, 1⟩) [poll]
      none := by
    rw [sendPass, if_pos (by decide)]
    exact .bind (flush_runs pcds 1) (.stop _)
  have run : Runs ((zeros 1).prog pcds 2) [poll, poll] none := by
    rw [WriteCall.prog, serialPortWrite, if_neg (by decide)]
    simp only [if_neg set]
    rw [if_neg (by decide)]
    exact .inside (.bind stuck (.inside polled _)) _
  have served : Serves (extendedDepth pcds) first [poll, poll] first :=
    (Serves.start.read _ 0x60 fun _ => idle_shows first idle).read _ 0x60 fun _ =>
      idle_shows first idle
  have bounds := (transmits [] first (zeros 1) 2 _ none first .start run served).bursts
    (by decide) [] _ 0x60 [] [poll] rfl rfl (by decide) (fun _ inside => absurd inside List.not_mem_nil)
  exact absurd (bounds.2 (by rfl)) (by decide)

theorem not_transmits_latched (configured : pcds.registerBase ≠ 0) (idle : Idle first.tx)
    (positive : 0 < fifoSize pcds) (latch : first.regs.dlab) : ¬ Transmits pcds first := by
  intro transmits
  obtain ⟨sent, _, whole, same⟩ := (transmits [] first (zeros 1) _ _ _ _ .start
    (zeros_run pcds configured 1 Nat.one_ne_zero positive)
    (burst_served pcds _ first idle _)).delivered
  rw [whole (Option.some_ne_none 1), bytesAt, bytesAt, after_sendEvents_cons, write_latch latch,
    ← accepted_of_idle idle] at same
  exact absurd (List.self_eq_append_right.mp same) (by decide)

theorem not_transmits_overrun (configured : pcds.registerBase ≠ 0) (idle : Idle first.tx)
    (data : ¬ first.regs.dlab)
    (tooLong : txDepth (extendedDepth pcds) first.regs.fcr < fifoSize pcds) :
    ¬ Transmits pcds first := by
  intro transmits
  let depth := txDepth (extendedDepth pcds) first.regs.fcr
  have kept := (transmits [] first (zeros (depth + 1)) _ _ _ _ .start
    (zeros_run pcds configured (depth + 1) (Nat.succ_ne_zero depth) tooLong)
    (burst_served pcds _ first idle _)).kept
  have lost := length_lost_pushAll depth (bytesAt (zeros (depth + 1)).mem 1 (depth + 1)) first.tx
    (by rw [idle.1]; exact Nat.zero_le _)
  rw [after_sendEvents pcds _ first data] at kept
  rw [kept, length_bytesAt] at lost
  omega

end Failures

/-! ## Initialisation and calls together -/

/-- The FIFO control value of initialisation selects 16 bytes whatever the configuration. -/
theorem txDepth_fcrval (extended : Nat) : txDepth extended bUartFcrval = 16 := by
  rw [txDepth, if_neg (by decide), if_pos (by decide)]

theorem fifoSize_fits_iff (pcds : SerialPcds) : (0 < fifoSize pcds ∧ fifoSize pcds ≤ 16) ↔
    (pcds.fifoControl &&& bUartFcrFifoe = 0 ∨ pcds.fifoControl &&& bUartFcrFifo64 = 0 ∨
      1 ≤ pcds.extendedTxFifoSize.toNat ∧ pcds.extendedTxFifoSize.toNat ≤ 16) := by
  rw [fifoSize]
  by_cases enabled : pcds.fifoControl &&& bUartFcrFifoe = 0
  · rw [if_neg (not_not.mpr enabled)]
    exact iff_of_true ⟨by omega, by omega⟩ (.inl enabled)
  · rw [if_pos enabled]
    by_cases short : pcds.fifoControl &&& bUartFcrFifo64 = 0
    · rw [if_pos short]
      exact iff_of_true ⟨by omega, by omega⟩ (.inr (.inl short))
    · rw [if_neg short]
      constructor
      · exact fun bounds => .inr (.inr bounds)
      · intro fits
        rcases fits with disabled | plain | bounds
        · exact absurd disabled enabled
        · exact absurd plain short
        · exact bounds

theorem serialPortInitialize_transmits_iff (pcds : SerialPcds) (fuel : Nat) (trace : Trace)
    (result : UInt32) (before after : Uart)
    (run : Runs (serialPortInitialize pcds fuel) trace (some result))
    (served : Serves (extendedDepth pcds) before trace after) :
    Transmits pcds after ↔
      pcds.registerBase ≠ 0 ∧ pcds.lineControl &&& bUartLcrDlab = 0 ∧
        (pcds.fifoControl &&& bUartFcrFifoe = 0 ∨ pcds.fifoControl &&& bUartFcrFifo64 = 0 ∨
          1 ≤ pcds.extendedTxFifoSize.toNat ∧ pcds.extendedTxFifoSize.toNat ≤ 16) := by
  by_cases absent : pcds.registerBase = 0
  · exact iff_of_false (not_transmits_unconfigured pcds after absent) fun fits => fits.1 absent
  have idle := serialPortInitialize_idle pcds absent fuel trace result _ before after run served
  have regs := served.regs
  rw [serialPortInitialize_regs pcds absent fuel trace result run, after_setupWrites] at regs
  have depth : txDepth (extendedDepth pcds) after.regs.fcr = 16 := by
    rw [regs]
    exact txDepth_fcrval _
  have latch : after.regs.dlab ↔ pcds.lineControl &&& bUartLcrDlab ≠ 0 := by
    rw [regs]
    exact lineCtl_dlab_iff pcds
  rw [← fifoSize_fits_iff]
  constructor
  · intro transmits
    have positive : 0 < fifoSize pcds := by
      by_contra none_
      exact not_transmits_stalled pcds after absent idle (by omega) transmits
    have closed : ¬ after.regs.dlab := fun opened =>
      not_transmits_latched pcds after absent idle positive opened transmits
    refine ⟨absent, not_not.mp (mt latch.mpr closed), positive, ?_⟩
    by_contra tooLong
    exact not_transmits_overrun pcds after absent idle closed (by omega) transmits
  · intro condition
    obtain ⟨_, closed, positive, fits⟩ := condition
    refine transmits_of_fits pcds after absent idle (fun opened => latch.mp opened closed) positive ?_
    rw [depth]
    exact fits

def resetUart : Uart where
  regs := Registers.mk 0 0 0 0 0 0
  tx := ⟨[], none, [], []⟩

def bootedUart (pcds : SerialPcds) : Uart :=
  resetUart.after (extendedDepth pcds) (setupWrites pcds)

theorem booted_serves (pcds : SerialPcds) :
    Serves (extendedDepth pcds) resetUart (setupTrace pcds) (bootedUart pcds) :=
  (Serves.start.read (accessOf pcds rUartLsr) 0x60
    fun _ => idle_shows resetUart ⟨rfl, rfl⟩).undrained (setupWrites pcds) (by
      intro source answer inside
      simp [setupWrites] at inside)

theorem serialPortInitialize_transmits_sixteen : Transmits (infPcds 0x07 64) (bootedUart (infPcds 0x07 64)) :=
  (serialPortInitialize_transmits_iff (infPcds 0x07 64) 1 _ _ resetUart _
    (setupTrace_runs (infPcds 0x07 64) (by decide) (by decide))
    (booted_serves (infPcds 0x07 64))).mpr ⟨by decide, by decide, .inr (.inl (by decide))⟩

/-- With the 64-byte mode configured, bursts of 64 meet a queue of 16. -/
theorem transmit_overruns_extended :
    Runs (serialPortInitialize (infPcds 0x21 64) 1) (setupTrace (infPcds 0x21 64))
        (some 0xf0005000) ∧
      Serves (extendedDepth (infPcds 0x21 64)) resetUart (setupTrace (infPcds 0x21 64))
        (bootedUart (infPcds 0x21 64)) ∧
      ¬ Transmits (infPcds 0x21 64) (bootedUart (infPcds 0x21 64)) := by
  have run := setupTrace_runs (infPcds 0x21 64) (by decide) (by decide)
  have served := booted_serves (infPcds 0x21 64)
  refine ⟨run, served, ?_⟩
  exact not_transmits_overrun (infPcds 0x21 64) _ (by decide)
    (serialPortInitialize_idle _ (by decide) 1 _ _ _ _ _ run served) (by decide) (by decide)

end ArcFirmware.SerialDelivery
