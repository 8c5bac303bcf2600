import ArcFirmware.SerialSession
import ArcFirmware.Lib.Progress

/-!
# Calls that return

Every wait of the driver is a poll of one register, and a device is patient with
a call when it refuses none of its polls more than so many times in a row.  On
such a device a call returns, except where the source cannot: a baud rate that
divides by zero, and a FIFO size of zero with bytes to send.
-/

set_option autoImplicit false

namespace ArcFirmware.SerialProgress

open ArcFirmware.Memory ArcFirmware.Edk2 ArcFirmware.Port ArcFirmware.Progress ArcFirmware.Ns16550
open ArcFirmware.SerialSetup ArcFirmware.SerialTransmit ArcFirmware.SerialReceive
open ArcFirmware.SerialSession

/-! ## Polls -/

/-- A register that is read again until an answer passes. -/
structure Poll where
  register : UInt32
  passes : UInt8 → Bool

def Poll.count (poll : Poll) (refused : Nat) : Event Access UInt8 → Nat
  | .read source answer =>
      if source.offset = poll.register then
        if poll.passes answer then 0 else refused + 1
      else refused
  | .write _ _ => refused

def Poll.refusals (poll : Poll) (history : Trace) : Nat := history.foldl poll.count 0

def idlePoll : Poll := ⟨rUartLsr, fun answer => answer &&& bUartLsrTemt != 0⟩

def flushPoll : Poll := ⟨rUartLsr, fun answer => answer &&& flushMask == flushMask⟩

def writablePoll (pcds : SerialPcds) : Poll where
  register := rUartMsr
  passes answer :=
    if pcds.detectCable then answer &&& bUartIsWritable == bUartIsWritable
    else answer &&& bUartIsWritable != bUartMsrDsr

def readablePoll : Poll := ⟨rUartLsr, fun answer => answer &&& bUartLsrRxrdy != 0⟩

theorem refusals_concat (poll : Poll) (history : Trace) (event : Event Access UInt8) :
    poll.refusals (history ++ [event]) = poll.count (poll.refusals history) event := by
  rw [Poll.refusals, List.foldl_append]
  rfl

theorem refusals_refused {poll : Poll} {answer : UInt8} (refused : poll.passes answer = false)
    (pcds : SerialPcds) (history : Trace) :
    poll.refusals (history ++ [.read (accessOf pcds poll.register) answer]) =
      poll.refusals history + 1 := by
  rw [refusals_concat, Poll.count, accessOf_offset, if_pos rfl, refused]
  rfl

theorem refusals_write (poll : Poll) (history : Trace) (target : Access) (value : UInt8) :
    poll.refusals (history ++ [.write target value]) = poll.refusals history :=
  refusals_concat poll history (.write target value)

/-- No poll of these has been refused more often in a row. -/
def Patient (polls : List Poll) (bound : Nat) (history : Trace) : Prop :=
  ∀ poll ∈ polls, poll.refusals history ≤ bound

theorem patient_nil (polls : List Poll) (bound : Nat) : Patient polls bound [] :=
  fun _ _ => Nat.zero_le bound

/-! ## The waits -/

section Waits

variable {pcds : SerialPcds} {polls : List Poll} {bound fuel : Nat} {history : Trace}

theorem ends_poll {poll : Poll} (asked : poll ∈ polls) (enough : bound < fuel)
    (start : Patient polls bound history) :
    Ends (Patient polls bound)
      (loop (fun _ : Unit => do
        if poll.passes (← input (accessOf pcds poll.register)) then
          return .done ()
        return .next ()) fuel ())
      (fun _ => Patient polls bound) history := by
  refine ends_loop (fun left _ now => Patient polls bound now ∧ left + poll.refusals now = bound) ?_
    (Nat.lt_of_le_of_lt (Nat.sub_le bound (poll.refusals history)) enough)
    ⟨start, Nat.sub_add_cancel (start poll asked)⟩
  rintro left _ now ⟨patient, room⟩
  rw [ends_bind, ends_input]
  intro answer alive
  cases passes : poll.passes answer with
  | true => exact alive
  | false =>
      -- the refusal is one of those that the device has left
      have one := refusals_refused passes pcds now
      have within := alive poll asked
      exact ⟨left - 1, by omega, alive, by omega⟩

theorem ends_serialPortFlush (asked : flushPoll ∈ polls) (enough : bound < fuel)
    (start : Patient polls bound history) :
    Ends (Patient polls bound) (serialPortFlush pcds fuel (getSerialRegisterBase pcds))
      (fun _ => Patient polls bound) history := by
  have wait := @ends_poll pcds polls bound fuel history flushPoll asked enough start
  rw [serialPortFlush]
  convert wait using 3
  rw [serialIn_eq]
  congr 1
  funext answer
  simp only [flushPoll, beq_iff_eq, ite_not]

theorem ends_serialPortWaitWritable (asked : writablePoll pcds ∈ polls) (enough : bound < fuel)
    (start : Patient polls bound history) :
    Ends (Patient polls bound) (serialPortWaitWritable pcds fuel (getSerialRegisterBase pcds))
      (fun _ => Patient polls bound) history := by
  have wait := @ends_poll pcds polls bound fuel history _ asked enough start
  rw [serialPortWaitWritable]
  by_cases free : (!pcds.useHardwareFlowControl) = true
  · refine ends_loop (fun _ _ => Patient polls bound) ?_ enough start
    intro left _ now patient
    rw [if_pos free]
    exact patient
  · simp only [if_neg free]
    by_cases detect : pcds.detectCable = true
    · convert wait using 3
      rw [if_pos detect, serialIn_eq]
      congr 1
      funext answer
      simp only [writablePoll, if_pos detect, beq_iff_eq]
    · convert wait using 3
      rw [if_neg detect, serialIn_eq]
      congr 1
      funext answer
      simp only [writablePoll, if_neg detect, bne_iff_ne]

theorem ends_controlRts (value : UInt8) (start : Patient polls bound history) :
    Ends (Patient polls bound) (controlRts pcds (getSerialRegisterBase pcds) value)
      (fun _ after => Patient polls bound after ∧
        ∀ poll : Poll, poll.refusals after = poll.refusals history) history := by
  rw [controlRts]
  by_cases controlled : pcds.useHardwareFlowControl = true
  · rw [if_pos controlled, serialOut_eq, ends_output]
    exact fun alive => ⟨alive, fun poll => refusals_write poll history _ value⟩
  · rw [if_neg controlled, ends_pure]
    exact ⟨start, fun _ => rfl⟩

theorem ends_waitReadable (asked : readablePoll ∈ polls) (enough : bound < fuel) (mcr : UInt8)
    (start : Patient polls bound history) :
    Ends (Patient polls bound) (waitReadable pcds fuel (getSerialRegisterBase pcds) mcr)
      (fun _ => Patient polls bound) history := by
  refine ends_loop (fun left _ now => Patient polls bound now ∧
      left + readablePoll.refusals now = bound) ?_
    (Nat.lt_of_le_of_lt (Nat.sub_le bound (readablePoll.refusals history)) enough)
    ⟨start, Nat.sub_add_cancel (start readablePoll asked)⟩
  rintro left _ now ⟨patient, room⟩
  rw [ends_bind, serialIn_eq, ends_input]
  intro answer alive
  by_cases empty : answer &&& bUartLsrRxrdy = 0
  · rw [if_pos empty]
    have refused : readablePoll.passes answer = false := bne_eq_false_iff_eq.mpr empty
    have one : readablePoll.refusals (now ++ [.read (accessOf pcds rUartLsr) answer]) =
        readablePoll.refusals now + 1 := refusals_refused refused pcds now
    refine ends_seq (ends_controlRts _ alive) fun _ after ⟨patient, same⟩ => ?_
    have within := patient readablePoll asked
    rw [same, one] at within
    refine ⟨left - 1, by omega, patient, ?_⟩
    rw [same, one]
    omega
  · rw [if_neg empty]
    exact alive

end Waits

/-! ## Calls -/

section Calls

variable {pcds : SerialPcds} {bound fuel : Nat} {history : Trace}

def sendPolls (pcds : SerialPcds) : List Poll := [flushPoll, writablePoll pcds]

def receivePolls : List Poll := [readablePoll]

theorem ends_fillTxFifo (enough : bound < fuel) (room : fifoSize pcds ≠ 0) (mem : Mem)
    (cursor : Cursor) (pending : cursor.bytes ≠ 0) (short : cursor.bytes < fuel)
    (start : Patient (sendPolls pcds) bound history) :
    Ends (Patient (sendPolls pcds) bound)
      (fillTxFifo pcds fuel mem (getSerialRegisterBase pcds) cursor)
      (fun last after => last.bytes < cursor.bytes ∧ Patient (sendPolls pcds) bound after)
      history := by
  refine ends_loop (fun left state now => left = state.2.bytes ∧
      state.1 + state.2.bytes = cursor.bytes ∧ Patient (sendPolls pcds) bound now) ?_ short
    ⟨rfl, Nat.zero_add _, start⟩
  rintro _ ⟨index, now⟩ before ⟨rfl, whole, patient⟩
  replace whole : index + now.bytes = cursor.bytes := whole
  rw [fillPass]
  by_cases more : index < fifoSize pcds ∧ now.bytes ≠ 0
  · rw [if_pos more]
    refine ends_seq (ends_serialPortWaitWritable (by simp [sendPolls]) enough patient)
      fun _ _ _ => ?_
    rw [ends_bind, serialOut_eq, ends_output]
    intro alive
    have fewer : now.bytes - 1 < now.bytes := Nat.sub_one_lt more.2
    have rest : index + 1 + (now.bytes - 1) = cursor.bytes := by omega
    exact ⟨now.bytes - 1, fewer, rfl, rest, alive⟩
  · rw [if_neg more, ends_pure]
    exact ⟨by omega, patient⟩

theorem ends_sendLoop (enough : bound < fuel) (room : fifoSize pcds ≠ 0) (mem : Mem)
    (cursor : Cursor) (short : cursor.bytes < fuel)
    (start : Patient (sendPolls pcds) bound history) :
    Ends (Patient (sendPolls pcds) bound)
      (loop (sendPass pcds fuel mem (getSerialRegisterBase pcds)) fuel cursor)
      (fun _ _ => True) history := by
  refine ends_loop (fun left (now : Cursor) after => left = now.bytes ∧ now.bytes < fuel ∧
    Patient (sendPolls pcds) bound after) ?_ short ⟨rfl, short, start⟩
  rintro _ now before ⟨rfl, short, patient⟩
  rw [sendPass]
  by_cases more : now.bytes ≠ 0
  · rw [if_pos more]
    refine ends_seq (ends_serialPortFlush (by simp [sendPolls]) enough patient)
      fun _ _ flushed => ?_
    refine ends_seq (ends_fillTxFifo enough room mem now more short flushed)
      fun last _ burst => ?_
    exact ⟨last.bytes, burst.1, rfl, burst.1.trans short, burst.2⟩
  · rw [if_neg more]
    trivial

theorem ends_readLoop (enough : bound < fuel) (mcr : UInt8) (state : Reading)
    (short : state.bytes.toNat < fuel) (start : Patient receivePolls bound history) :
    Ends (Patient receivePolls bound)
      (loop (readPass pcds fuel (getSerialRegisterBase pcds) mcr) fuel state)
      (fun _ _ => True) history := by
  refine ends_loop (fun left (now : Reading) after => left = now.bytes.toNat ∧
    Patient receivePolls bound after) ?_ short ⟨rfl, start⟩
  rintro _ now before ⟨rfl, patient⟩
  rw [readPass]
  by_cases more : now.bytes ≠ 0
  · rw [if_pos more]
    refine ends_seq (ends_waitReadable (by simp [receivePolls]) enough mcr patient)
      fun _ _ ready => ?_
    refine ends_seq (ends_controlRts mcr ready) fun _ _ _ => ?_
    rw [ends_bind, serialIn_eq, ends_input]
    intro byte alive
    have fewer := toNat_pred more
    exact ⟨(now.bytes - 1).toNat, by omega, rfl, alive⟩
  · rw [if_neg more]
    trivial

theorem ends_serialPortWrite (enough : bound < fuel) (mem : Mem) (buffer bytes : Nat)
    (short : bytes < fuel)
    (room : pcds.registerBase ≠ 0 → buffer ≠ null → bytes ≠ 0 → fifoSize pcds ≠ 0) :
    Ends (Patient (sendPolls pcds) bound) (serialPortWrite pcds fuel mem buffer bytes)
      (fun _ _ => True) [] := by
  rw [serialPortWrite]
  by_cases given : buffer = null
  · rw [if_pos given]
    trivial
  rw [if_neg given]
  by_cases configured : getSerialRegisterBase pcds = 0
  · simp only [if_pos configured]
    trivial
  simp only [if_neg configured]
  by_cases none_ : bytes = 0
  · rw [if_pos none_]
    exact ends_seq (ends_serialPortFlush (by simp [sendPolls]) enough (patient_nil _ _))
      fun _ _ _ => trivial
  · rw [if_neg none_]
    have sends := ends_sendLoop enough (room configured given none_) mem ⟨buffer, bytes⟩ short
      (patient_nil _ _)
    exact ends_seq sends fun _ _ _ => trivial

theorem ends_serialPortRead (enough : bound < fuel) (mem : Mem) (buffer : Nat) (bytes : UInt32)
    (short : bytes.toNat < fuel) :
    Ends (Patient receivePolls bound) (serialPortRead pcds fuel mem buffer bytes)
      (fun _ _ => True) [] := by
  rw [serialPortRead]
  by_cases given : buffer = null
  · rw [if_pos given]
    trivial
  rw [if_neg given]
  by_cases configured : getSerialRegisterBase pcds = 0
  · simp only [if_pos configured]
    trivial
  simp only [if_neg configured]
  rw [ends_bind, serialIn_eq, ends_input]
  intro answer alive
  exact ends_seq (ends_readLoop enough _ ⟨mem, buffer, bytes, 0⟩ short alive) fun _ _ _ => trivial

theorem ends_serialPortInitialize (enough : bound < fuel)
    (rate : pcds.registerBase ≠ 0 → pcds.baudRate * 16 ≠ 0) :
    Ends (Patient [idlePoll] bound) (serialPortInitialize pcds fuel) (fun _ _ => True) [] := by
  rw [serialPortInitialize]
  by_cases configured : getSerialRegisterBase pcds = 0
  · simp only [if_pos configured]
    trivial
  simp only [if_neg configured]
  have wait := @ends_poll pcds [idlePoll] bound fuel [] idlePoll (by simp) enough (patient_nil _ _)
  have polls : Ends (Patient [idlePoll] bound)
      (loop (fun _ : Unit => do
        if (← serialIn pcds (getSerialRegisterBase pcds) rUartLsr) &&& bUartLsrTemt = 0 then
          return .next ()
        return .done ()) fuel ())
      (fun _ => Patient [idlePoll] bound) [] := by
    convert wait using 3
    rw [serialIn_eq]
    congr 1
    funext answer
    simp only [idlePoll, bne_iff_ne, ite_not]
  refine ends_seq polls fun _ after patient => ?_
  have divides : pcds.baudRate * 16 ≠ 0 := rate configured
  change Ends _ _ _ _
  simp only [if_neg divides, serialOut_eq]
  simp only [ends_bind, ends_pure, ends_output, implies_true]

/-! ## Calls that do not return -/

/-- Without room in the FIFO the bytes stay, whatever the device answers. -/
theorem wp_sendLoop_stalled (full : fifoSize pcds = 0) (mem : Mem) (cursor : Cursor)
    (pending : cursor.bytes ≠ 0) :
    wp (loop (sendPass pcds fuel mem (getSerialRegisterBase pcds)) fuel cursor)
      (fun _ _ => False) (fun _ => True) history := by
  refine wp_loop (fun (now : Cursor) _ => now.bytes ≠ 0) ?_ fuel cursor pending
  intro now before more
  have burst (after : Trace) : wp (fillTxFifo pcds fuel mem (getSerialRegisterBase pcds) now)
      (fun last _ => last.bytes ≠ 0) (fun _ => True) after := by
    refine wp_loop (fun (state : Nat × Cursor) _ => state.2.bytes ≠ 0) ?_ fuel (0, now) more
    rintro ⟨index, now⟩ _ left
    rw [fillPass, if_neg fun room => absurd room.1 (by omega)]
    exact ⟨trivial, left⟩
  rw [sendPass, if_pos more]
  refine wp_seq (wp_always _ _) fun _ after _ => ?_
  exact wp_seq (burst after) fun last _ left => ⟨trivial, left⟩

theorem not_runs_write (configured : pcds.registerBase ≠ 0) (full : fifoSize pcds = 0) (mem : Mem)
    {buffer bytes : Nat} (given : buffer ≠ null) (pending : bytes ≠ 0) (trace : Trace)
    (result : Nat) : ¬ Runs (serialPortWrite pcds fuel mem buffer bytes) trace (some result) := by
  intro run
  have stalled : wp (serialPortWrite pcds fuel mem buffer bytes) (fun _ _ => False)
      (fun _ => True) [] := by
    have set : getSerialRegisterBase pcds ≠ 0 := configured
    rw [serialPortWrite, if_neg given]
    simp only [if_neg set]
    rw [if_neg pending]
    exact wp_seq (wp_sendLoop_stalled full mem ⟨buffer, bytes⟩ pending) fun _ _ => False.elim
  exact (wp_sound stalled run).2 result rfl

theorem not_runs_initialize (configured : pcds.registerBase ≠ 0) (rate : pcds.baudRate * 16 = 0)
    (trace : Trace) (result : UInt32) :
    ¬ Runs (serialPortInitialize pcds fuel) trace (some result) := by
  intro run
  have fault : wp (serialPortInitialize pcds fuel) (fun _ _ => False) (fun _ => True) [] := by
    have set : getSerialRegisterBase pcds ≠ 0 := configured
    rw [serialPortInitialize]
    simp only [if_neg set]
    refine wp_seq (wp_always _ _) fun _ after _ => ?_
    simp only [if_pos rate]
    exact trivial
  exact (wp_sound fault run).2 result rfl

end Calls

/-! ## Sessions -/

def PortCall.polls (pcds : SerialPcds) : PortCall → List Poll
  | .write _ _ => sendPolls pcds
  | .read _ _ => receivePolls

def PortCall.count : PortCall → Nat
  | .write _ bytes => bytes
  | .read _ bytes => bytes.toNat

def PortCall.Sends : PortCall → Prop
  | .write buffer bytes => buffer ≠ null ∧ bytes ≠ 0
  | .read _ _ => False

/-- Initialisation and calls after it. -/
def console (pcds : SerialPcds) (fuel : Nat) (calls : List PortCall) (mem : Mem) :
    Driver (Mem × List Nat) := do
  let _ ← serialPortInitialize pcds fuel
  session pcds fuel calls mem

def PatientOn (polls : List Poll) (bound : Nat) (trace : Trace) : Prop :=
  ∀ before, before <+: trace → Patient polls bound before

/-- On the part of the trace that is a call's, the device is patient with that call. -/
def PatientSession (pcds : SerialPcds) (fuel bound : Nat) : List PortCall → Mem → Trace → Prop
  | [], _, _ => True
  | call :: rest, mem, trace => ∀ first second outcome, trace = first ++ second →
      Completes (call.prog pcds fuel mem) first outcome →
        PatientOn (PortCall.polls pcds call) bound first ∧
          ∀ after result, outcome = some (after, result) → PatientSession pcds fuel bound rest after second

def PatientConsole (pcds : SerialPcds) (fuel bound : Nat) (calls : List PortCall) (mem : Mem)
    (trace : Trace) : Prop :=
  ∀ first second outcome, trace = first ++ second →
    Completes (serialPortInitialize pcds fuel) first outcome →
      PatientOn [idlePoll] bound first ∧
        (outcome ≠ none → PatientSession pcds fuel bound calls mem second)

section Sessions

variable {pcds : SerialPcds} {bound fuel : Nat}

theorem returns_of_ends {α : Type} {polls : List Poll} {prog : Driver α}
    (ends : Ends (Patient polls bound) prog (fun _ _ => True) []) {trace : Trace}
    {outcome : Option α} (complete : Completes prog trace outcome)
    (patient : PatientOn polls bound trace) : outcome ≠ none := by
  obtain ⟨value, rfl, _⟩ := ends_sound ends complete patient
  exact Option.some_ne_none value

theorem ends_call (enough : bound < fuel) (mem : Mem) (call : PortCall)
    (short : PortCall.count call < fuel)
    (room : pcds.registerBase ≠ 0 → PortCall.Sends call → fifoSize pcds ≠ 0) :
    Ends (Patient (PortCall.polls pcds call) bound) (call.prog pcds fuel mem) (fun _ _ => True)
      [] := by
  cases call with
  | write buffer bytes =>
      exact ends_seq (ends_serialPortWrite enough mem buffer bytes short
        fun configured given pending => room configured ⟨given, pending⟩) fun _ _ _ => trivial
  | read buffer bytes =>
      exact ends_seq (ends_serialPortRead enough mem buffer bytes short) fun _ _ _ => trivial

theorem session_returns (enough : bound < fuel) (calls : List PortCall)
    (short : ∀ call ∈ calls, PortCall.count call < fuel)
    (room : pcds.registerBase ≠ 0 → ∀ call ∈ calls, PortCall.Sends call → fifoSize pcds ≠ 0)
    (mem : Mem) (trace : Trace) (outcome : Option (Mem × List Nat))
    (complete : Completes (session pcds fuel calls mem) trace outcome)
    (patient : PatientSession pcds fuel bound calls mem trace) : outcome ≠ none := by
  induction calls generalizing mem trace outcome with
  | nil =>
      cases complete
      exact Option.some_ne_none _
  | cons call rest ih =>
      have here : call ∈ call :: rest := List.mem_cons_self ..
      have ends := ends_call enough mem call (short call here)
        fun configured => room configured call here
      obtain ⟨halted, rfl⟩ | ⟨first, second, ⟨after, result⟩, rfl, head, tail⟩ :=
        completes_bind complete
      · have own := (patient trace [] none (List.append_nil trace).symm halted).1
        exact absurd rfl (returns_of_ends ends halted own)
      have later := (patient first second _ rfl head).2 after result rfl
      have others (outcome : Option (Mem × List Nat)) (trace : Trace)
          (complete : Completes (session pcds fuel rest after) trace outcome)
          (patient : PatientSession pcds fuel bound rest after trace) : outcome ≠ none :=
        ih (fun call inside => short call (List.mem_cons_of_mem _ inside))
          (fun configured call inside => room configured call (List.mem_cons_of_mem _ inside))
          after trace outcome complete patient
      obtain ⟨halted, rfl⟩ | ⟨calls, last, ⟨final, results⟩, rfl, _, done⟩ := completes_bind tail
      · exact absurd rfl (others none second halted later)
      · cases done
        exact Option.some_ne_none _

theorem session_stalls (configured : pcds.registerBase ≠ 0) (full : fifoSize pcds = 0)
    (calls : List PortCall) (sends : ∃ call ∈ calls, PortCall.Sends call) (mem : Mem) (trace : Trace)
    (outcome : Option (Mem × List Nat))
    (complete : Completes (session pcds fuel calls mem) trace outcome) : outcome = none := by
  induction calls generalizing mem trace outcome with
  | nil =>
      obtain ⟨call, inside, _⟩ := sends
      cases inside
  | cons call rest ih =>
      obtain ⟨_, rfl⟩ | ⟨first, second, ⟨after, result⟩, rfl, head, tail⟩ := completes_bind complete
      · rfl
      obtain ⟨one, inside, sending⟩ := sends
      rcases List.mem_cons.mp inside with rfl | later
      · cases one with
        | write buffer bytes =>
            obtain ⟨inner, run, returned⟩ := runs_map_cases head.runs
            obtain ⟨count, rfl, _⟩ := returned _ rfl
            exact absurd run (not_runs_write configured full mem sending.1 sending.2 first count)
        | read buffer bytes => exact sending.elim
      · obtain ⟨_, rfl⟩ | ⟨calls, last, ⟨final, results⟩, rfl, rested, done⟩ := completes_bind tail
        · rfl
        · have stopped := ih ⟨one, later, sending⟩ after calls _ rested
          cases stopped

/-- When a console returns, and what a write does that has no room to send. -/
structure ConsoleReturns (pcds : SerialPcds) (calls : List PortCall)
    (outcome : Option (Mem × List Nat)) : Prop where
  returns : outcome ≠ none ↔ pcds.registerBase = 0 ∨ pcds.baudRate * 16 ≠ 0 ∧
    (fifoSize pcds ≠ 0 ∨ ∀ call ∈ calls, ¬ PortCall.Sends call)
  stalls : pcds.registerBase ≠ 0 → fifoSize pcds = 0 → ∀ fuel mem buffer bytes, buffer ≠ null →
    bytes ≠ 0 → ∀ trace result, ¬ Runs (serialPortWrite pcds fuel mem buffer bytes) trace (some result)

theorem console_returns_iff (pcds : SerialPcds) (bound fuel : Nat) (enough : bound < fuel)
    (calls : List PortCall) (short : ∀ call ∈ calls, PortCall.count call < fuel) (mem : Mem)
    (trace : Trace) (outcome : Option (Mem × List Nat))
    (complete : Completes (console pcds fuel calls mem) trace outcome)
    (patient : PatientConsole pcds fuel bound calls mem trace) :
    ConsoleReturns pcds calls outcome := by
  refine ⟨?_, fun configured full _ mem _ _ given pending trace result =>
    not_runs_write configured full mem given pending trace result⟩
  have parts := completes_bind complete
  constructor
  · intro returned
    obtain ⟨_, rfl⟩ | ⟨first, second, base, rfl, setup, rest⟩ := parts
    · exact absurd rfl returned
    by_cases configured : pcds.registerBase = 0
    · exact .inl configured
    refine .inr ⟨fun rate => not_runs_initialize configured rate first base setup.runs, ?_⟩
    by_cases full : fifoSize pcds = 0
    · refine .inr fun call inside sends => returned ?_
      exact session_stalls configured full calls ⟨call, inside, sends⟩ mem second outcome rest
    · exact .inl full
  · intro able
    have rate (configured : pcds.registerBase ≠ 0) : pcds.baudRate * 16 ≠ 0 := by tauto
    have room (configured : pcds.registerBase ≠ 0) (call : PortCall) (inside : call ∈ calls)
        (sends : PortCall.Sends call) : fifoSize pcds ≠ 0 := by
      obtain unset | ⟨_, open_ | silent⟩ := able
      · exact absurd unset configured
      · exact open_
      · exact absurd sends (silent call inside)
    have ends := ends_serialPortInitialize enough rate
    obtain ⟨halted, rfl⟩ | ⟨first, second, base, rfl, setup, rest⟩ := parts
    · have own := (patient trace [] none (List.append_nil trace).symm halted).1
      exact absurd rfl (returns_of_ends ends halted own)
    · have later := (patient first second _ rfl setup).2 (Option.some_ne_none base)
      exact session_returns enough calls short room mem second outcome rest later

/-! ## A board -/

def Poll.refuses (poll : Poll) : Event Access UInt8 → Bool
  | .read source answer => source.offset == poll.register && !poll.passes answer
  | .write _ _ => false

theorem refusals_le_countP (poll : Poll) (history : Trace) :
    poll.refusals history ≤ history.countP poll.refuses := by
  induction history using List.reverseRecOn with
  | nil => exact Nat.le_refl 0
  | append_singleton history event ih =>
      rw [refusals_concat, List.countP_append, List.countP_singleton]
      cases event with
      | read source answer =>
          rw [Poll.count, Poll.refuses]
          by_cases asked : source.offset = poll.register
          · cases passes : poll.passes answer with
            | true => simp [asked]
            | false => simpa [asked] using ih
          · simpa [asked] using ih
      | write target value => exact ih

theorem patientOn_of_seldom {polls : List Poll} {part trace : Trace}
    (seldom : ∀ poll ∈ polls, trace.countP poll.refuses ≤ bound) (inside : part.Sublist trace) :
    PatientOn polls bound part := by
  intro before begins poll asked
  have few : before.countP poll.refuses ≤ trace.countP poll.refuses :=
    (begins.sublist.trans inside).countP_le
  exact (refusals_le_countP poll before).trans (few.trans (seldom poll asked))

theorem patientSession_of_seldom {trace : Trace}
    (seldom : ∀ poll ∈ sendPolls pcds ++ receivePolls, trace.countP poll.refuses ≤ bound)
    (calls : List PortCall) (mem : Mem) (rest : Trace) (inside : rest.Sublist trace) :
    PatientSession pcds fuel bound calls mem rest := by
  induction calls generalizing mem rest with
  | nil => trivial
  | cons call calls ih =>
      rintro first second outcome rfl _
      refine ⟨patientOn_of_seldom ?_ ((List.sublist_append_left first second).trans inside), ?_⟩
      · intro poll asked
        refine seldom poll ?_
        cases call with
        | write buffer bytes => exact List.mem_append_left _ asked
        | read buffer bytes => exact List.mem_append_right _ asked
      · intro after result _
        exact ih after second ((List.sublist_append_right first second).trans inside)

theorem patientConsole_of_seldom {trace : Trace} (idle : trace.countP idlePoll.refuses ≤ bound)
    (seldom : ∀ poll ∈ sendPolls pcds ++ receivePolls, trace.countP poll.refuses ≤ bound)
    (calls : List PortCall) (mem : Mem) : PatientConsole pcds fuel bound calls mem trace := by
  rintro first second outcome rfl _
  refine ⟨patientOn_of_seldom ?_ (List.sublist_append_left first second), fun _ => ?_⟩
  · intro poll asked
    rwa [List.mem_singleton.mp asked]
  · exact patientSession_of_seldom seldom calls mem second (List.sublist_append_right first second)

end Sessions

def busyTrace : Trace :=
  [0x01, 0x01, 0x61].map (Event.read (accessOf (infPcds 0x07 64) rUartLsr)) ++
    setupWrites (infPcds 0x07 64) ++ echoTrace

theorem busyTrace_completes :
    Completes (console (infPcds 0x07 64) 3 echoCalls fun _ => 0) busyTrace
      (some (echoMem, [1, 1])) := by
  have busy (shown : UInt8) (inside : shown ∈ [0x01, 0x01]) : shown &&& bUartLsrTemt = 0 := by
    simp only [List.mem_cons, List.not_mem_nil, or_false, or_self] at inside
    rw [inside]
    rfl
  have setup := serialPortInitialize_runs (infPcds 0x07 64) (by decide) (by decide) [0x01, 0x01] 0x61
    busy (by decide)
  exact completes_of_runs (.bind setup echoTrace_runs)

theorem console_returns_iff_busy :
    ConsoleReturns (infPcds 0x07 64) echoCalls (some (echoMem, [1, 1])) :=
  console_returns_iff (infPcds 0x07 64) 2 3 (by decide) echoCalls (by decide) (fun _ => 0) busyTrace
    _ busyTrace_completes
    (patientConsole_of_seldom (by decide) (by decide) echoCalls _)

end ArcFirmware.SerialProgress
