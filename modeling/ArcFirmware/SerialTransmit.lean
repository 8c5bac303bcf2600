import ArcFirmware.Ns16550
import Mathlib.Data.List.Induction

/-!
# What a write call sends

The trace of `SerialPortWrite` against a device that answers as it likes.  The
monitor `sinceEmpty` counts the bytes sent since the transmitter was last seen
empty; one invariant of the trace, kept by both polls and both loops, carries the
order of the bytes, the length of a burst and the flow control.
-/

set_option autoImplicit false

namespace ArcFirmware.SerialTransmit

open ArcFirmware.Memory ArcFirmware.Edk2 ArcFirmware.Port ArcFirmware.Ns16550

/-! ## Reading a trace -/

def txBytes : Trace → List UInt8
  | [] => []
  | .read _ _ :: rest => txBytes rest
  | .write target value :: rest =>
      if target.offset = rUartTxbuf then value :: txBytes rest else txBytes rest

theorem txBytes_append (first second : Trace) :
    txBytes (first ++ second) = txBytes first ++ txBytes second := by
  induction first with
  | nil => rfl
  | cons event rest ih =>
      cases event with
      | read source answer => exact ih
      | write target value =>
          rw [List.cons_append, txBytes, txBytes]
          by_cases transmitted : target.offset = rUartTxbuf
          · rw [if_pos transmitted, if_pos transmitted, ih, List.cons_append]
          · rw [if_neg transmitted, if_neg transmitted, ih]

@[simp] theorem txBytes_read (history : Trace) (source : Access) (answer : UInt8) :
    txBytes (history ++ [.read source answer]) = txBytes history := by
  rw [txBytes_append]
  exact List.append_nil _

theorem txBytes_write (history : Trace) (target : Access) (value : UInt8)
    (transmitted : target.offset = rUartTxbuf) :
    txBytes (history ++ [.write target value]) = txBytes history ++ [value] := by
  rw [txBytes_append, txBytes, if_pos transmitted, txBytes]

def Emptied (answer : UInt8) : Prop :=
  answer &&& bUartLsrTemt ≠ 0 ∧ answer &&& bUartLsrTxrdy ≠ 0

theorem emptied_iff (answer : UInt8) : Emptied answer ↔ answer &&& flushMask = flushMask := by
  rw [Emptied]
  refine forall_byte ?_ answer
  decide +kernel

instance (answer : UInt8) : Decidable (Emptied answer) :=
  inferInstanceAs (Decidable (_ ∧ _))

/-- One event of the monitor: `none` while the transmitter has not been seen empty. -/
def observe (since : Option Nat) : Event Access UInt8 → Option Nat
  | .read source answer =>
      if source.offset = rUartLsr then
        if Emptied answer then some 0 else none
      else since
  | .write target _ =>
      if target.offset = rUartTxbuf then since.map (· + 1) else since

/-- Bytes sent since the last LSR answer, when that answer showed an empty transmitter. -/
def sinceEmpty (history : Trace) : Option Nat := history.foldl observe none

@[simp] theorem sinceEmpty_concat (history : Trace) (event : Event Access UInt8) :
    sinceEmpty (history ++ [event]) = observe (sinceEmpty history) event := by
  simp only [sinceEmpty, List.foldl_append, List.foldl_cons, List.foldl_nil]

theorem rUartMsr_ne_rUartLsr : rUartMsr ≠ rUartLsr := by
  decide

section Monitor

variable (history : Trace) (pcds : SerialPcds) (value : UInt8)

theorem sinceEmpty_lsr : sinceEmpty (history ++ [.read (accessOf pcds rUartLsr) value]) =
    if Emptied value then some 0 else none := by
  rw [sinceEmpty_concat, observe, accessOf_offset, if_pos rfl]

theorem sinceEmpty_msr : sinceEmpty (history ++ [.read (accessOf pcds rUartMsr) value]) =
    sinceEmpty history := by
  rw [sinceEmpty_concat, observe, accessOf_offset, if_neg rUartMsr_ne_rUartLsr]

theorem sinceEmpty_txbuf (target : Access) (transmitted : target.offset = rUartTxbuf) :
    sinceEmpty (history ++ [.write target value]) = (sinceEmpty history).map (· + 1) := by
  rw [sinceEmpty_concat, observe, if_pos transmitted]

end Monitor

theorem sinceEmpty_read_cases {history : Trace} {source : Access} {answer : UInt8} {sent : Nat}
    (counted : sinceEmpty (history ++ [.read source answer]) = some sent) :
    (source.offset = rUartLsr ∧ Emptied answer ∧ sent = 0) ∨
      (source.offset ≠ rUartLsr ∧ sinceEmpty history = some sent) := by
  rw [sinceEmpty_concat, observe] at counted
  by_cases polled : source.offset = rUartLsr
  · rw [if_pos polled] at counted
    by_cases empty : Emptied answer
    · rw [if_pos empty] at counted
      exact .inl ⟨polled, empty, (Option.some.inj counted).symm⟩
    · rw [if_neg empty] at counted
      cases counted
  · rw [if_neg polled] at counted
    exact .inr ⟨polled, counted⟩

theorem sinceEmpty_write_cases {history : Trace} {target : Access} {value : UInt8} {sent : Nat}
    (counted : sinceEmpty (history ++ [.write target value]) = some sent) :
    (target.offset = rUartTxbuf ∧ ∃ fewer, sinceEmpty history = some fewer ∧ fewer + 1 = sent) ∨
      (target.offset ≠ rUartTxbuf ∧ sinceEmpty history = some sent) := by
  rw [sinceEmpty_concat, observe] at counted
  by_cases transmitted : target.offset = rUartTxbuf
  · rw [if_pos transmitted, Option.map_eq_some_iff] at counted
    exact .inl ⟨transmitted, counted⟩
  · rw [if_neg transmitted] at counted
    exact .inr ⟨transmitted, counted⟩

/-- A history that ends with a burst: an LSR answer with both bits set and, after it, no other
LSR answer and so many bytes. -/
def EndsWithBurst (history : Trace) (sent : Nat) : Prop :=
  ∃ older source answer burst, history = older ++ .read source answer :: burst ∧
    source.offset = rUartLsr ∧ Emptied answer ∧
    (∀ source answer, .read source answer ∈ burst → source.offset ≠ rUartLsr) ∧
    (txBytes burst).length = sent

theorem EndsWithBurst.concat {history : Trace} {sent : Nat} (ends : EndsWithBurst history sent)
    (event : Event Access UInt8)
    (other : ∀ source answer, event = .read source answer → source.offset ≠ rUartLsr) :
    EndsWithBurst (history ++ [event]) (sent + (txBytes [event]).length) := by
  obtain ⟨older, first, shown, burst, rfl, line, empty, quiet, length⟩ := ends
  refine ⟨older, first, shown, burst ++ [event], by simp, line, empty, ?_, ?_⟩
  · intro source answer inside
    rcases List.mem_append.mp inside with before | last
    · exact quiet source answer before
    · exact other source answer (List.mem_singleton.mp last).symm
  · rw [txBytes_append, List.length_append, length]

theorem endsWithBurst_of_sinceEmpty (history : Trace) (sent : Nat)
    (counted : sinceEmpty history = some sent) : EndsWithBurst history sent := by
  induction history using List.reverseRecOn generalizing sent with
  | nil => cases counted
  | append_singleton history event ih =>
      cases event with
      | read source answer =>
          rcases sinceEmpty_read_cases counted with ⟨polled, empty, rfl⟩ | ⟨other, before⟩
          · exact ⟨history, source, answer, [], rfl, polled, empty, by simp, rfl⟩
          · refine (ih sent before).concat _ ?_
            intro source value same
            cases same
            exact other
      | write target value =>
          have longer (fewer : Nat) (before : sinceEmpty history = some fewer) :=
            (ih fewer before).concat (.write target value) (fun _ _ same => nomatch same)
          rcases sinceEmpty_write_cases counted with ⟨transmitted, fewer, before, rfl⟩ | ⟨other, before⟩
          · have ends := longer fewer before
            rwa [txBytes, if_pos transmitted] at ends
          · have ends := longer sent before
            rwa [txBytes, if_neg other] at ends

/-! ## Flow control -/

inductive Action where
  | wait
  | transmit
  deriving DecidableEq, Repr

/-- The two tables that document `SerialPortWaitWritable`. -/
def documentedAction (detectCable dsr cts : Bool) : Action :=
  match detectCable, dsr, cts with
  | true, false, false => .wait
  | true, false, true => .wait
  | true, true, false => .wait
  | true, true, true => .transmit
  | false, false, false => .transmit
  | false, false, true => .transmit
  | false, true, false => .wait
  | false, true, true => .transmit

/-- An MSR answer after which the table says to transmit. -/
def Permits (pcds : SerialPcds) (answer : UInt8) : Prop :=
  documentedAction pcds.detectCable (answer &&& bUartMsrDsr ≠ 0) (answer &&& bUartMsrCts ≠ 0) =
    .transmit

theorem documentedAction_detect (answer : UInt8) :
    documentedAction true (answer &&& bUartMsrDsr ≠ 0) (answer &&& bUartMsrCts ≠ 0) = .transmit ↔
      answer &&& bUartIsWritable = bUartIsWritable := by
  refine forall_byte ?_ answer
  decide +kernel

theorem documentedAction_plain (answer : UInt8) :
    documentedAction false (answer &&& bUartMsrDsr ≠ 0) (answer &&& bUartMsrCts ≠ 0) = .transmit ↔
      answer &&& bUartIsWritable ≠ bUartMsrDsr := by
  refine forall_byte ?_ answer
  decide +kernel

def Cleared (pcds : SerialPcds) (history : Trace) : Prop :=
  pcds.useHardwareFlowControl = true → ∃ older source answer,
    history = older ++ [.read source answer] ∧ source.offset = rUartMsr ∧ Permits pcds answer

/-! ## The trace invariant -/

/-- What an event of a write call requires of the trace before it.  A poll of the LSR that
follows an empty transmitter comes after at least one byte, unless bursts have no bytes. -/
def Allowed (pcds : SerialPcds) (before : Trace) : Event Access UInt8 → Prop
  | .read source _ =>
      source.offset = rUartLsr → 0 < fifoSize pcds → sinceEmpty before ≠ some 0
  | .write target _ =>
      target.offset = rUartTxbuf ∧ (∃ sent < fifoSize pcds, sinceEmpty before = some sent) ∧
        Cleared pcds before

/-- The trace of a call that is to send `data`, at any point of the run. -/
structure Sending (pcds : SerialPcds) (data : List UInt8) (history : Trace) : Prop where
  allowed : Each (Allowed pcds) history
  sent : txBytes history <+: data

variable {pcds : SerialPcds} {data : List UInt8} {history : Trace}

theorem sending_nil : Sending pcds data [] :=
  ⟨each_nil, List.nil_prefix⟩

theorem Sending.read (sending : Sending pcds data history) (source : Access) (answer : UInt8)
    (fresh : source.offset = rUartLsr → 0 < fifoSize pcds → sinceEmpty history ≠ some 0) :
    Sending pcds data (history ++ [.read source answer]) := by
  refine ⟨sending.allowed.concat fresh, ?_⟩
  rw [txBytes_read]
  exact sending.sent

theorem Sending.write (sending : Sending pcds data history) (value : UInt8) (sent : Nat)
    (room : sent < fifoSize pcds) (counted : sinceEmpty history = some sent)
    (cleared : Cleared pcds history) (next : txBytes history ++ [value] <+: data) :
    Sending pcds data (history ++ [.write (accessOf pcds rUartTxbuf) value]) := by
  refine ⟨sending.allowed.concat ⟨rfl, ⟨sent, room, counted⟩, cleared⟩, ?_⟩
  rw [txBytes_write _ _ _ rfl]
  exact next

theorem wp_serialPortFlush (fuel : Nat) (start : Sending pcds data history)
    (fresh : 0 < fifoSize pcds → sinceEmpty history ≠ some 0) :
    wp (serialPortFlush pcds fuel (getSerialRegisterBase pcds))
      (fun _ after => Sending pcds data after ∧ txBytes after = txBytes history ∧
        sinceEmpty after = some 0)
      (Sending pcds data) history := by
  refine wp_loop (fun _ now => Sending pcds data now ∧ txBytes now = txBytes history ∧
    (0 < fifoSize pcds → sinceEmpty now ≠ some 0)) ?_ fuel () ⟨start, rfl, fresh⟩
  intro _ now ⟨sending, same, fresh⟩
  rw [wp_bind, serialIn_eq, wp_input]
  refine ⟨sending, fun answer => ?_⟩
  have polled := sending.read (accessOf pcds rUartLsr) answer (fun _ => fresh)
  have quiet := (txBytes_read now (accessOf pcds rUartLsr) answer).trans same
  refine ⟨polled, ?_⟩
  by_cases busy : answer &&& flushMask ≠ flushMask
  · have waiting : ¬ Emptied answer := fun empty => busy ((emptied_iff answer).mp empty)
    rw [if_pos busy, wp_pure]
    refine ⟨polled, polled, quiet, fun _ => ?_⟩
    rw [sinceEmpty_lsr, if_neg waiting]
    exact nofun
  · have empty : Emptied answer := (emptied_iff answer).mpr (not_not.mp busy)
    rw [if_neg busy, wp_pure]
    refine ⟨polled, polled, quiet, ?_⟩
    rw [sinceEmpty_lsr, if_pos empty]

theorem wp_pollMsr (ready : UInt8 → Prop) [DecidablePred ready]
    (documented : ∀ answer, ready answer → Permits pcds answer) (first : Trace)
    (start : Sending pcds data history) (same : txBytes history = txBytes first)
    (counted : sinceEmpty history = sinceEmpty first) :
    wp (serialIn pcds (getSerialRegisterBase pcds) rUartMsr >>= fun answer =>
        if ready answer then pure (Loop.Step.done ()) else pure (Loop.Step.next ()))
      (Passed
        (fun _ after => Sending pcds data after ∧ txBytes after = txBytes first ∧
          sinceEmpty after = sinceEmpty first)
        (fun _ after => Sending pcds data after ∧ txBytes after = txBytes first ∧
          sinceEmpty after = sinceEmpty first ∧ Cleared pcds after))
      (Sending pcds data) history := by
  rw [wp_bind, serialIn_eq, wp_input]
  refine ⟨start, fun answer => ?_⟩
  have polled := start.read (accessOf pcds rUartMsr) answer
    (fun line => absurd line rUartMsr_ne_rUartLsr)
  have quiet := (txBytes_read history (accessOf pcds rUartMsr) answer).trans same
  have unmoved := (sinceEmpty_msr history pcds answer).trans counted
  refine ⟨polled, ?_⟩
  by_cases writable : ready answer
  · rw [if_pos writable, wp_pure]
    exact ⟨polled, polled, quiet, unmoved, fun _ =>
      ⟨history, _, answer, rfl, rfl, documented answer writable⟩⟩
  · rw [if_neg writable, wp_pure]
    exact ⟨polled, polled, quiet, unmoved⟩

theorem wp_serialPortWaitWritable (fuel : Nat) (start : Sending pcds data history) :
    wp (serialPortWaitWritable pcds fuel (getSerialRegisterBase pcds))
      (fun _ after => Sending pcds data after ∧ txBytes after = txBytes history ∧
        sinceEmpty after = sinceEmpty history ∧ Cleared pcds after)
      (Sending pcds data) history := by
  refine wp_loop (fun _ now => Sending pcds data now ∧ txBytes now = txBytes history ∧
    sinceEmpty now = sinceEmpty history) ?_ fuel () ⟨start, rfl, rfl⟩
  intro _ now ⟨sending, same, counted⟩
  by_cases free : (!pcds.useHardwareFlowControl) = true
  · rw [if_pos free, wp_pure]
    refine ⟨sending, sending, same, counted, fun controlled => ?_⟩
    rw [controlled] at free
    cases free
  · rw [if_neg free]
    by_cases detect : pcds.detectCable = true
    · rw [if_pos detect]
      refine wp_pollMsr (fun answer => answer &&& bUartIsWritable = bUartIsWritable) ?_ history
        sending same counted
      intro answer writable
      rw [Permits, detect]
      exact (documentedAction_detect answer).mpr writable
    · rw [if_neg detect]
      refine wp_pollMsr (fun answer => answer &&& bUartIsWritable ≠ bUartMsrDsr) ?_ history
        sending same counted
      intro answer writable
      rw [Permits, Bool.eq_false_iff.mpr detect]
      exact (documentedAction_plain answer).mpr writable

theorem bytesAt_pos (mem : Mem) (addr count : Nat) (some : count ≠ 0) :
    bytesAt mem addr count = byteAt mem addr :: bytesAt mem (addr + 1) (count - 1) := by
  obtain ⟨fewer, rfl⟩ := Nat.exists_eq_succ_of_ne_zero some
  rfl

theorem wp_fillTxFifo (fuel : Nat) (mem : Mem) (cursor : Cursor) (pending : cursor.bytes ≠ 0)
    (start : Sending pcds data history)
    (split : txBytes history ++ bytesAt mem cursor.buffer cursor.bytes = data)
    (empty : sinceEmpty history = some 0) :
    wp (fillTxFifo pcds fuel mem (getSerialRegisterBase pcds) cursor)
      (fun left after => Sending pcds data after ∧
        txBytes after ++ bytesAt mem left.buffer left.bytes = data ∧
        (0 < fifoSize pcds → sinceEmpty after ≠ some 0))
      (Sending pcds data) history := by
  refine wp_loop (fun state now => Sending pcds data now ∧
    txBytes now ++ bytesAt mem state.2.buffer state.2.bytes = data ∧
    sinceEmpty now = some state.1 ∧ (state.1 = 0 → state.2.bytes ≠ 0)) ?_ fuel (0, cursor)
    ⟨start, split, empty, fun _ => pending⟩
  intro ⟨index, cursor⟩ now ⟨sending, split, counted, first⟩
  rw [fillPass]
  by_cases room : index < fifoSize pcds ∧ cursor.bytes ≠ 0
  · rw [if_pos room, wp_bind]
    refine wp_mono ?_ (fun _ holds => holds) (wp_serialPortWaitWritable fuel sending)
    intro _ clear _ ⟨sending, same, unmoved, cleared⟩
    rw [wp_bind, serialOut_eq, wp_output]
    have rest := bytesAt_pos mem cursor.buffer cursor.bytes room.2
    have written : txBytes clear ++ [byteAt mem cursor.buffer] ++
        bytesAt mem (cursor.buffer + 1) (cursor.bytes - 1) = data := by
      rw [List.append_assoc, List.singleton_append, ← rest, same]
      exact split
    have sent := sending.write (byteAt mem cursor.buffer) index room.1 (unmoved.trans counted)
      cleared ⟨_, written⟩
    refine ⟨sending, sent, sent, sent, ?_, ?_, ?_⟩
    · rw [txBytes_write _ _ _ rfl]
      exact written
    · rw [sinceEmpty_txbuf _ _ _ rfl, unmoved, counted]
      rfl
    · exact fun zero => absurd zero (Nat.succ_ne_zero index)
  · rw [if_neg room, wp_pure]
    refine ⟨sending, sending, split, fun positive => ?_⟩
    rw [counted]
    intro zero
    have start : index = 0 := Option.some.inj zero
    exact room ⟨by omega, first start⟩

theorem wp_serialPortWrite (fuel : Nat) (mem : Mem) (buffer bytes : Nat) (given : buffer ≠ null)
    (configured : getSerialRegisterBase pcds ≠ 0) :
    wp (serialPortWrite pcds fuel mem buffer bytes)
      (fun result after => txBytes after = bytesAt mem buffer bytes ∧ result = bytes ∧
        (bytes ≠ 0 → 0 < fifoSize pcds → sinceEmpty after ≠ some 0))
      (Sending pcds (bytesAt mem buffer bytes)) [] := by
  have start : Sending pcds (bytesAt mem buffer bytes) [] := sending_nil
  have unseen : 0 < fifoSize pcds → sinceEmpty [] ≠ some 0 := fun _ => nofun
  rw [serialPortWrite, if_neg given]
  simp only [if_neg configured]
  by_cases none : bytes = 0
  · rw [if_pos none, wp_bind]
    refine wp_mono ?_ (fun _ holds => holds) (wp_serialPortFlush fuel start unseen)
    intro _ after _ ⟨sending, same, _⟩
    subst none
    exact ⟨sending, same, rfl, fun some => absurd rfl some⟩
  · rw [if_neg none, wp_bind]
    refine wp_loop (fun (cursor : Cursor) now => Sending pcds (bytesAt mem buffer bytes) now ∧
      txBytes now ++ bytesAt mem cursor.buffer cursor.bytes = bytesAt mem buffer bytes ∧
      (0 < fifoSize pcds → sinceEmpty now ≠ some 0)) ?_ fuel ⟨buffer, bytes⟩ ⟨start, rfl, unseen⟩
    intro cursor now ⟨sending, split, fresh⟩
    rw [sendPass]
    by_cases pending : cursor.bytes ≠ 0
    · rw [if_pos pending, wp_bind]
      refine wp_mono ?_ (fun _ holds => holds) (wp_serialPortFlush fuel sending fresh)
      intro _ flushed _ ⟨sending, same, empty⟩
      rw [wp_bind]
      refine wp_mono ?_ (fun _ holds => holds)
        (wp_fillTxFifo fuel mem cursor pending sending (by rw [same, split]) empty)
      intro left filled _ burst
      exact ⟨burst.1, burst⟩
    · rw [if_neg pending, wp_pure]
      rw [not_not.mp pending, bytesAt, List.append_nil] at split
      exact ⟨sending, sending, split, rfl, fun _ => fresh⟩

/-! ## Every run of a call -/

structure SendsBuffer (pcds : SerialPcds) (mem : Mem) (buffer bytes : Nat) (trace : Trace)
    (outcome : Option Nat) : Prop where
  inOrder : txBytes trace <+: bytesAt mem buffer bytes
  returned : ∀ result, outcome = some result →
    txBytes trace = bytesAt mem buffer bytes ∧ result = bytes
  bursts : ∀ before target value, before ++ [.write target value] <+: trace →
    ∃ sent < fifoSize pcds, EndsWithBurst before sent
  permitted : pcds.useHardwareFlowControl = true →
    ∀ before target value, before ++ [.write target value] <+: trace →
      ∃ older source answer, before = older ++ [.read source answer] ∧
        source.offset = rUartMsr ∧ Permits pcds answer

theorem serialPortWrite_sendsBuffer (pcds : SerialPcds) (configured : pcds.registerBase ≠ 0)
    (fuel : Nat) (mem : Mem) (buffer bytes : Nat) (given : buffer ≠ null)
    (trace : Trace) (outcome : Option Nat)
    (run : Runs (serialPortWrite pcds fuel mem buffer bytes) trace outcome) :
    SendsBuffer pcds mem buffer bytes trace outcome := by
  obtain ⟨sending, returned⟩ :=
    wp_sound (wp_serialPortWrite fuel mem buffer bytes given configured) run
  rw [List.nil_append] at sending
  refine ⟨sending.sent, ?_, ?_, ?_⟩
  · intro result finished
    have whole := returned result finished
    rw [List.nil_append] at whole
    exact ⟨whole.1, whole.2.1⟩
  · intro before target value inside
    obtain ⟨_, ⟨sent, room, counted⟩, _⟩ := sending.allowed before _ inside
    exact ⟨sent, room, endsWithBurst_of_sinceEmpty before sent counted⟩
  · intro controlled before target value inside
    exact (sending.allowed before _ inside).2.2 controlled

def modemPcds : SerialPcds :=
  { infPcds 0x01 0 with useHardwareFlowControl := true, detectCable := true }

/-- Two bytes to a transmitter that is busy at first and a peer that pauses between them. -/
def pausedTrace : Trace :=
  [.read (accessOf modemPcds rUartLsr) 0x20, .read (accessOf modemPcds rUartLsr) 0x60,
    .read (accessOf modemPcds rUartMsr) 0x30, .write (accessOf modemPcds rUartTxbuf) 0x41,
    .read (accessOf modemPcds rUartMsr) 0x20, .read (accessOf modemPcds rUartMsr) 0x30,
    .write (accessOf modemPcds rUartTxbuf) 0x42]

theorem pausedTrace_runs :
    Runs (serialPortWrite modemPcds 3 (fun addr => UInt8.ofNat addr) 0x41 2) pausedTrace
      (some 2) :=
  .input (.input (.input (.output (.input (.input (.output (.ret 2)))))))

theorem serialPortWrite_sendsBuffer_paused :
    SendsBuffer modemPcds (fun addr => UInt8.ofNat addr) 0x41 2 pausedTrace (some 2) :=
  serialPortWrite_sendsBuffer modemPcds (by decide) 3 _ 0x41 2 (by decide) pausedTrace (some 2)
    pausedTrace_runs

end ArcFirmware.SerialTransmit
