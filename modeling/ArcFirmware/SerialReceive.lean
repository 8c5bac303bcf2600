import ArcFirmware.Lib.Store
import ArcFirmware.Ns16550
import Mathlib.Data.List.Induction

/-!
# What a read call takes

The trace of `SerialPortRead` against a device with a receive stream.  What the
device answers at the line status is its arrival schedule, and every returning
call is the list of its arrivals: polls until a byte is ready, then the byte.
The shape of the trace gives what is stored, and that two calls one after the
other are one longer call on the same schedule.
-/

set_option autoImplicit false

namespace ArcFirmware.SerialReceive

open ArcFirmware.Memory ArcFirmware.Store ArcFirmware.Edk2 ArcFirmware.Port ArcFirmware.Ns16550

/-! ## The device -/

/-- The receive side: the modem control register and how much of the stream has been taken. -/
structure Receiver where
  mcr : UInt8
  taken : Nat
  deriving DecidableEq, Repr

def Receiver.step (now : Receiver) : Event Access UInt8 → Receiver
  | .read source _ => if source.offset = rUartRxbuf then { now with taken := now.taken + 1 } else now
  | .write target value => if target.offset = rUartMcr then { now with mcr := value } else now

def Receiver.after (now : Receiver) (trace : Trace) : Receiver := trace.foldl Receiver.step now

/-- The MCR reads as it was written and RXBUF as the next byte; other answers are free. -/
def Answered (stream : Nat → UInt8) (now : Receiver) : Event Access UInt8 → Prop
  | .read source answer =>
      (source.offset = rUartMcr → answer = now.mcr) ∧
        (source.offset = rUartRxbuf → answer = stream now.taken)
  | .write _ _ => True

def Answers (stream : Nat → UInt8) : Receiver → Trace → Prop
  | _, [] => True
  | now, event :: rest => Answered stream now event ∧ Answers stream (now.step event) rest

def nextBytes (stream : Nat → UInt8) : Nat → Nat → List UInt8
  | _, 0 => []
  | start, count + 1 => stream start :: nextBytes stream (start + 1) count

theorem after_append (now : Receiver) (first second : Trace) :
    now.after (first ++ second) = (now.after first).after second :=
  List.foldl_append

theorem answers_append (stream : Nat → UInt8) (now : Receiver) (first second : Trace) :
    Answers stream now (first ++ second) ↔
      Answers stream now first ∧ Answers stream (now.after first) second := by
  induction first generalizing now with
  | nil =>
      rw [List.nil_append, Answers, true_and]
      rfl
  | cons event rest ih =>
      rw [List.cons_append, Answers, Answers, ih, and_assoc]
      rfl

/-! ## Arrivals -/

/-- One byte as the driver sees it come: polls without `RXRDY`, one with it, and the byte. -/
structure Arrival where
  busy : List UInt8
  ready : UInt8
  byte : UInt8
  waits : ∀ answer ∈ busy, answer &&& bUartLsrRxrdy = 0
  shows : ready &&& bUartLsrRxrdy ≠ 0

def rtsWrite (pcds : SerialPcds) (value : UInt8) : Trace :=
  if pcds.useHardwareFlowControl then [.write (accessOf pcds rUartMcr) value] else []

def pollTrace (pcds : SerialPcds) (kept : UInt8) (busy : List UInt8) : Trace :=
  busy.flatMap fun answer =>
    .read (accessOf pcds rUartLsr) answer :: rtsWrite pcds (kept ||| bUartMcrRts)

def arrivalTrace (pcds : SerialPcds) (kept : UInt8) (arrival : Arrival) : Trace :=
  pollTrace pcds kept arrival.busy ++ (.read (accessOf pcds rUartLsr) arrival.ready ::
    (rtsWrite pcds kept ++ [.read (accessOf pcds rUartRxbuf) arrival.byte]))

def readTrace (pcds : SerialPcds) (kept : UInt8) (arrivals : List Arrival) : Trace :=
  arrivals.flatMap (arrivalTrace pcds kept)

theorem readTrace_append (pcds : SerialPcds) (kept : UInt8) (early late : List Arrival) :
    readTrace pcds kept (early ++ late) = readTrace pcds kept early ++ readTrace pcds kept late :=
  List.flatMap_append

def keptBits (mcr : UInt8) : UInt8 := mcr &&& ~~~bUartMcrRts

theorem keptBits_or_rts (mcr : UInt8) : keptBits (mcr ||| bUartMcrRts) = keptBits mcr := by
  refine forall_byte ?_ mcr
  decide +kernel

theorem keptBits_keptBits (mcr : UInt8) : keptBits (keptBits mcr) = keptBits mcr := by
  refine forall_byte ?_ mcr
  decide +kernel

theorem keptBits_rts (mcr : UInt8) : keptBits mcr &&& bUartMcrRts = 0 := by
  refine forall_byte ?_ mcr
  decide +kernel

/-! ## Every point of a run -/

def Allowed (pcds : SerialPcds) (kept : UInt8) (before : Trace) : Event Access UInt8 → Prop
  | .read source _ => source.offset = rUartRxbuf → ∃ older status,
      before = older ++ .read (accessOf pcds rUartLsr) status :: rtsWrite pcds kept ∧
        status &&& bUartLsrRxrdy ≠ 0
  | .write target value => pcds.useHardwareFlowControl = true ∧ target.offset = rUartMcr ∧
      keptBits value = kept

/-- The trace of a call that has read `answer` at the MCR, at any point of the run. -/
structure Receiving (pcds : SerialPcds) (answer : UInt8) (history : Trace) : Prop where
  opened : ∃ rest, history = .read (accessOf pcds rUartMcr) answer :: rest
  allowed : Each (Allowed pcds (keptBits answer)) history

section Rules

variable {pcds : SerialPcds} {answer : UInt8} {history : Trace}

theorem Receiving.concat (receiving : Receiving pcds answer history) (event : Event Access UInt8)
    (permitted : Allowed pcds (keptBits answer) history event) :
    Receiving pcds answer (history ++ [event]) := by
  obtain ⟨rest, rfl⟩ := receiving.opened
  exact ⟨⟨rest ++ [event], rfl⟩, receiving.allowed.concat permitted⟩

theorem rUartMcr_ne_rUartRxbuf : rUartMcr ≠ rUartRxbuf := by
  decide

theorem rUartLsr_ne_rUartRxbuf : rUartLsr ≠ rUartRxbuf := by
  decide

theorem receiving_start : Receiving pcds answer [.read (accessOf pcds rUartMcr) answer] := by
  refine ⟨⟨[], rfl⟩, ?_⟩
  rw [← List.nil_append [Event.read _ _]]
  exact each_nil.concat fun data => absurd data rUartMcr_ne_rUartRxbuf

theorem wp_controlRts (value : UInt8) (same : keptBits value = keptBits answer)
    (start : Receiving pcds answer history) :
    wp (controlRts pcds (getSerialRegisterBase pcds) value)
      (fun _ after => Receiving pcds answer after ∧ after = history ++ rtsWrite pcds value)
      (Receiving pcds answer) history := by
  rw [controlRts, rtsWrite]
  by_cases controlled : pcds.useHardwareFlowControl = true
  · rw [if_pos controlled, if_pos controlled, serialOut_eq, wp_output]
    have written := start.concat (.write (accessOf pcds rUartMcr) value) ⟨controlled, rfl, same⟩
    exact ⟨start, written, written, rfl⟩
  · rw [if_neg controlled, if_neg controlled, wp_pure]
    exact ⟨start, start, (List.append_nil history).symm⟩

theorem wp_waitReadable (fuel : Nat) (start : Receiving pcds answer history) :
    wp (waitReadable pcds fuel (getSerialRegisterBase pcds) (keptBits answer))
      (fun _ after => Receiving pcds answer after ∧ ∃ busy ready,
        (∀ shown ∈ busy, shown &&& bUartLsrRxrdy = 0) ∧ ready &&& bUartLsrRxrdy ≠ 0 ∧
          after = history ++ pollTrace pcds (keptBits answer) busy ++
            [.read (accessOf pcds rUartLsr) ready])
      (Receiving pcds answer) history := by
  refine wp_loop (fun _ now => Receiving pcds answer now ∧ ∃ busy,
    (∀ shown ∈ busy, shown &&& bUartLsrRxrdy = 0) ∧
      now = history ++ pollTrace pcds (keptBits answer) busy) ?_ fuel ()
    ⟨start, [], fun _ inside => (nomatch inside), (List.append_nil history).symm⟩
  rintro _ _ ⟨receiving, busy, waits, rfl⟩
  rw [wp_bind, serialIn_eq, wp_input]
  refine ⟨receiving, fun shown => ?_⟩
  have polled := receiving.concat (.read (accessOf pcds rUartLsr) shown)
    fun data => absurd data rUartLsr_ne_rUartRxbuf
  refine ⟨polled, ?_⟩
  by_cases empty : shown &&& bUartLsrRxrdy = 0
  · rw [if_pos empty, wp_bind]
    have same : keptBits (keptBits answer ||| bUartMcrRts) = keptBits answer := by
      rw [keptBits_or_rts, keptBits_keptBits]
    refine wp_mono ?_ (fun _ holds => holds) (wp_controlRts _ same polled)
    rintro _ _ _ ⟨raised, rfl⟩
    rw [wp_pure]
    refine ⟨raised, raised, busy ++ [shown], ?_, ?_⟩
    · intro one inside
      rcases List.mem_append.mp inside with before | last
      · exact waits one before
      · rwa [List.mem_singleton.mp last]
    · simp [pollTrace]
  · rw [if_neg empty, wp_pure]
    exact ⟨polled, polled, busy, shown, waits, empty, rfl⟩

structure Progress (pcds : SerialPcds) (answer : UInt8) (mem : Mem) (buffer : Nat) (bytes : UInt32)
    (arrivals : List Arrival) (state : Reading) (history : Trace) : Prop where
  receiving : Receiving pcds answer history
  trace : history = .read (accessOf pcds rUartMcr) answer ::
    readTrace pcds (keptBits answer) arrivals
  mem : state.mem = storeBytes mem buffer (arrivals.map Arrival.byte)
  buffer : state.buffer = buffer + arrivals.length
  left : state.bytes.toNat + arrivals.length = bytes.toNat
  result : state.result.toNat = arrivals.length

theorem toNat_pred {value : UInt32} (nonzero : value ≠ 0) : (value - 1).toNat + 1 = value.toNat := by
  have positive := toNat_pos nonzero
  have fewer : (value - 1).toNat = value.toNat - 1 :=
    UInt32.toNat_sub_of_le value 1 (UInt32.le_iff_toNat_le.mpr positive)
  omega

theorem wp_readPass {mem : Mem} {buffer : Nat} {bytes : UInt32} {arrivals : List Arrival}
    {state : Reading} (fuel : Nat) (pending : state.bytes ≠ 0)
    (progress : Progress pcds answer mem buffer bytes arrivals state history) :
    wp (readPass pcds fuel (getSerialRegisterBase pcds) (keptBits answer) state)
      (fun step after => ∃ next arrival, step = .next next ∧
        Progress pcds answer mem buffer bytes (arrivals ++ [arrival]) next after)
      (Receiving pcds answer) history := by
  rw [readPass, if_pos pending, wp_bind]
  refine wp_mono ?_ (fun _ holds => holds) (wp_waitReadable fuel progress.receiving)
  rintro _ _ _ ⟨receiving, busy, ready, waits, shows, rfl⟩
  rw [wp_bind]
  refine wp_mono ?_ (fun _ holds => holds) (wp_controlRts _ (keptBits_keptBits answer) receiving)
  rintro _ _ _ ⟨cleared, rfl⟩
  rw [wp_bind, serialIn_eq, wp_input]
  refine ⟨cleared, fun byte => ?_⟩
  have taken := cleared.concat (.read (accessOf pcds rUartRxbuf) byte) fun _ =>
    ⟨_, ready, by rw [List.append_assoc, List.singleton_append], shows⟩
  have fewer := toNat_pred pending
  have length (arrival : Arrival) : (arrivals ++ [arrival]).length = arrivals.length + 1 :=
    List.length_append
  rw [wp_pure]
  refine ⟨taken, taken, _, ⟨busy, ready, byte, waits, shows⟩, rfl, taken, ?_, ?_, ?_, ?_, ?_⟩
  · rw [progress.trace, readTrace_append]
    simp [readTrace, arrivalTrace]
  · rw [List.map_append, storeBytes_append, ← progress.mem, progress.buffer, List.length_map]
    rfl
  · rw [progress.buffer, List.length_append, Nat.add_assoc]
    rfl
  · have left := progress.left
    rw [length]
    change (state.bytes - 1).toNat + _ = _
    omega
  · have word := bytes.toNat_lt
    have left := progress.left
    have result := progress.result
    have one : (1 : UInt32).toNat = 1 := rfl
    rw [UInt32.toNat_add, one, length]
    omega

theorem wp_readLoop (fuel : Nat) (mem : Mem) (buffer : Nat) (bytes : UInt32) :
    wp (loop (readPass pcds fuel (getSerialRegisterBase pcds) (keptBits answer)) fuel
        ⟨mem, buffer, bytes, 0⟩)
      (fun last after => ∃ arrivals, arrivals.length = bytes.toNat ∧
        after = .read (accessOf pcds rUartMcr) answer ::
          readTrace pcds (keptBits answer) arrivals ∧
        last.mem = storeBytes mem buffer (arrivals.map Arrival.byte) ∧ last.result = bytes)
      (Receiving pcds answer) [.read (accessOf pcds rUartMcr) answer] := by
  refine wp_loop (fun state now => ∃ arrivals,
    Progress pcds answer mem buffer bytes arrivals state now) ?_ fuel ⟨mem, buffer, bytes, 0⟩
    ⟨[], receiving_start, rfl, rfl, rfl, rfl, rfl⟩
  rintro state now ⟨arrivals, progress⟩
  by_cases pending : state.bytes ≠ 0
  · refine wp_mono ?_ (fun _ holds => holds) (wp_readPass fuel pending progress)
    rintro _ after _ ⟨next, arrival, rfl, further⟩
    exact ⟨_, further⟩
  · have none : state.bytes.toNat = 0 := congrArg UInt32.toNat (not_not.mp pending)
    have left := progress.left
    rw [readPass, if_neg pending, wp_pure]
    refine ⟨progress.receiving, arrivals, by omega, progress.trace, progress.mem, ?_⟩
    apply UInt32.toNat_inj.mp
    rw [progress.result]
    omega

theorem wp_serialPortRead (fuel : Nat) (mem : Mem) (buffer : Nat) (bytes : UInt32)
    (given : buffer ≠ null) (configured : getSerialRegisterBase pcds ≠ 0) :
    wp (serialPortRead pcds fuel mem buffer bytes)
      (fun outcome after => ∃ answer arrivals, arrivals.length = bytes.toNat ∧
        after = .read (accessOf pcds rUartMcr) answer ::
          readTrace pcds (keptBits answer) arrivals ∧
        outcome = (storeBytes mem buffer (arrivals.map Arrival.byte), bytes))
      (fun now => now = [] ∨ ∃ answer, Receiving pcds answer now) [] := by
  rw [serialPortRead, if_neg given]
  simp only [if_neg configured]
  rw [wp_bind, serialIn_eq, wp_input]
  refine ⟨.inl rfl, fun answer => ⟨.inr ⟨answer, receiving_start⟩, ?_⟩⟩
  rw [wp_bind]
  refine wp_mono ?_ (fun _ receiving => .inr ⟨answer, receiving⟩) (wp_readLoop fuel mem buffer bytes)
  rintro last after receiving ⟨arrivals, length, trace, stored, result⟩
  rw [wp_pure]
  exact ⟨.inr ⟨answer, receiving⟩, answer, arrivals, length, trace, by rw [stored, result]⟩

end Rules

/-! ## Runs from arrivals -/

section Runs

variable (pcds : SerialPcds) (kept : UInt8)

theorem controlRts_runs (value : UInt8) :
    Runs (controlRts pcds (getSerialRegisterBase pcds) value) (rtsWrite pcds value) (some ()) := by
  rw [controlRts, rtsWrite]
  by_cases controlled : pcds.useHardwareFlowControl = true
  · rw [if_pos controlled, if_pos controlled, serialOut_eq]
    exact .output (.ret ())
  · rw [if_neg controlled, if_neg controlled]
    exact .ret ()

theorem waitReadable_runs (busy : List UInt8) (ready : UInt8)
    (waits : ∀ answer ∈ busy, answer &&& bUartLsrRxrdy = 0) (shows : ready &&& bUartLsrRxrdy ≠ 0)
    {fuel : Nat} (enough : busy.length < fuel) :
    Runs (waitReadable pcds fuel (getSerialRegisterBase pcds) kept)
      (pollTrace pcds kept busy ++ [.read (accessOf pcds rUartLsr) ready]) (some ()) := by
  rw [waitReadable]
  simp only [serialIn_eq]
  induction busy generalizing fuel with
  | nil =>
      obtain ⟨rest, rfl⟩ : ∃ rest, fuel = rest + 1 := ⟨fuel - 1, by omega⟩
      refine .loop_done rest (runs_input ?_)
      rw [if_neg shows]
      exact .ret _
  | cons answer busy ih =>
      rw [List.length_cons] at enough
      obtain ⟨rest, rfl⟩ : ∃ rest, fuel = rest + 1 := ⟨fuel - 1, by omega⟩
      have later := ih (fun one inside => waits one (List.mem_cons_of_mem _ inside))
        (show busy.length < rest by omega)
      rw [pollTrace, List.flatMap_cons, List.append_assoc]
      refine .loop_next (runs_input ?_) later
      rw [if_pos (waits answer List.mem_cons_self), ← List.append_nil (rtsWrite pcds _)]
      exact .bind (controlRts_runs pcds _) (.ret _)

theorem readPass_runs (arrival : Arrival) (state : Reading) (pending : state.bytes ≠ 0) {fuel : Nat}
    (enough : arrival.busy.length < fuel) :
    Runs (readPass pcds fuel (getSerialRegisterBase pcds) kept state)
      (arrivalTrace pcds kept arrival)
      (some (.next ⟨Function.update state.mem (bus state.buffer) arrival.byte, state.buffer + 1,
        state.bytes - 1, state.result + 1⟩)) := by
  have polled := waitReadable_runs pcds kept arrival.busy arrival.ready arrival.waits arrival.shows
    enough
  rw [readPass, if_pos pending, arrivalTrace, List.append_cons]
  refine .bind polled (.bind (controlRts_runs pcds kept) ?_)
  rw [serialIn_eq]
  exact runs_input (.ret _)

theorem readLoop_runs (fuel : Nat) (arrivals : List Arrival) (state : Reading)
    (length : arrivals.length = state.bytes.toNat)
    (enough : ∀ arrival ∈ arrivals, arrival.busy.length < fuel) {passes : Nat}
    (room : arrivals.length < passes) :
    ∃ last, last.mem = storeBytes state.mem state.buffer (arrivals.map Arrival.byte) ∧
      last.result = state.result + UInt32.ofNat arrivals.length ∧
      Runs (loop (readPass pcds fuel (getSerialRegisterBase pcds) kept) passes state)
        (readTrace pcds kept arrivals) (some last) := by
  induction arrivals generalizing state passes with
  | nil =>
      obtain ⟨rest, rfl⟩ : ∃ rest, passes = rest + 1 := ⟨passes - 1, by omega⟩
      have none : state.bytes = 0 := UInt32.toNat_inj.mp length.symm
      refine ⟨{ state with bytes := state.bytes - 1 }, rfl, ?_, .loop_done rest ?_⟩
      · exact (UInt32.add_zero _).symm
      · rw [readPass, if_neg (not_not.mpr none)]
        exact .ret _
  | cons arrival arrivals ih =>
      rw [List.length_cons] at length room
      obtain ⟨rest, rfl⟩ : ∃ rest, passes = rest + 1 := ⟨passes - 1, by omega⟩
      have pending : state.bytes ≠ 0 := by
        intro zero
        rw [zero] at length
        cases length
      have fewer := toNat_pred pending
      obtain ⟨last, mem, result, run⟩ := ih ⟨Function.update state.mem (bus state.buffer) arrival.byte,
        state.buffer + 1, state.bytes - 1, state.result + 1⟩
        (show arrivals.length = (state.bytes - 1).toNat by omega)
        (fun later inside => enough later (List.mem_cons_of_mem _ inside))
        (show arrivals.length < rest by omega)
      have pass := readPass_runs pcds kept arrival state pending (enough arrival List.mem_cons_self)
      refine ⟨last, mem, ?_, .loop_next pass run⟩
      rw [result, List.length_cons, UInt32.ofNat_add, UInt32.add_assoc,
        UInt32.add_comm (UInt32.ofNat arrivals.length)]
      rfl

theorem exists_busy_bound (arrivals : List Arrival) :
    ∃ bound, ∀ arrival ∈ arrivals, arrival.busy.length < bound := by
  induction arrivals with
  | nil => exact ⟨0, fun _ inside => nomatch inside⟩
  | cons arrival arrivals ih =>
      obtain ⟨bound, busy⟩ := ih
      refine ⟨bound + arrival.busy.length + 1, ?_⟩
      intro one inside
      rcases List.mem_cons.mp inside with rfl | later
      · omega
      · have small := busy one later
        omega

theorem serialPortRead_runs (mem : Mem) (buffer : Nat) (bytes : UInt32) (given : buffer ≠ null)
    (configured : getSerialRegisterBase pcds ≠ 0) (answer : UInt8) (arrivals : List Arrival)
    (length : arrivals.length = bytes.toNat) :
    ∃ fuel, Runs (serialPortRead pcds fuel mem buffer bytes)
      (.read (accessOf pcds rUartMcr) answer :: readTrace pcds (keptBits answer) arrivals)
      (some (storeBytes mem buffer (arrivals.map Arrival.byte), bytes)) := by
  obtain ⟨bound, busy⟩ := exists_busy_bound arrivals
  obtain ⟨last, stored, result, run⟩ := readLoop_runs pcds (keptBits answer)
    (bound + arrivals.length + 1) arrivals ⟨mem, buffer, bytes, 0⟩ length
    (fun arrival inside => by have small := busy arrival inside; omega)
    (show arrivals.length < bound + arrivals.length + 1 by omega)
  have count : last.result = bytes := by
    rw [result, length, UInt32.ofNat_toNat]
    exact UInt32.zero_add bytes
  refine ⟨bound + arrivals.length + 1, ?_⟩
  rw [serialPortRead, if_neg given]
  simp only [if_neg configured]
  rw [serialIn_eq]
  refine runs_input ?_
  rw [← List.append_nil (readTrace _ _ _)]
  refine .bind run ?_
  rw [stored, count]
  exact .ret _

end Runs

/-! ## The device after a trace -/

section Device

variable (pcds : SerialPcds) (kept : UInt8)

theorem after_rtsWrite (now : Receiver) (value : UInt8) :
    now.after (rtsWrite pcds value) =
      if pcds.useHardwareFlowControl then { now with mcr := value } else now := by
  rw [rtsWrite]
  by_cases controlled : pcds.useHardwareFlowControl = true
  · rw [if_pos controlled, if_pos controlled]
    rfl
  · rw [if_neg controlled, if_neg controlled]
    rfl

theorem after_pollTrace (now : Receiver) (busy : List UInt8) :
    (now.after (pollTrace pcds kept busy)).taken = now.taken ∧
      (pcds.useHardwareFlowControl = false → now.after (pollTrace pcds kept busy) = now) := by
  induction busy generalizing now with
  | nil => exact ⟨rfl, fun _ => rfl⟩
  | cons answer busy ih =>
      have polled : now.after (pollTrace pcds kept (answer :: busy)) =
          (now.after (rtsWrite pcds (kept ||| bUartMcrRts))).after (pollTrace pcds kept busy) := by
        rw [← after_append]
        rfl
      rw [polled, after_rtsWrite]
      obtain ⟨taken, plain⟩ := ih (if pcds.useHardwareFlowControl then
        { now with mcr := kept ||| bUartMcrRts } else now)
      refine ⟨?_, fun off => ?_⟩
      · rw [taken]
        split <;> rfl
      · rw [plain off, off]
        rfl

theorem after_arrivalTrace (now : Receiver) (arrival : Arrival) :
    now.after (arrivalTrace pcds kept arrival) =
      ⟨if pcds.useHardwareFlowControl then kept else now.mcr, now.taken + 1⟩ := by
  obtain ⟨taken, plain⟩ := after_pollTrace pcds kept now arrival.busy
  rw [arrivalTrace, after_append]
  change ((now.after (pollTrace pcds kept arrival.busy)).after
    (rtsWrite pcds kept ++ [.read (accessOf pcds rUartRxbuf) arrival.byte])) = _
  rw [after_append, after_rtsWrite, ← taken]
  by_cases controlled : pcds.useHardwareFlowControl = true
  · rw [if_pos controlled, if_pos controlled]
    rfl
  · rw [if_neg controlled, if_neg controlled, plain (Bool.eq_false_iff.mpr controlled)]
    rfl

theorem after_readTrace (now : Receiver) (arrivals : List Arrival) :
    now.after (readTrace pcds kept arrivals) =
      ⟨if pcds.useHardwareFlowControl = true ∧ arrivals.length ≠ 0 then kept else now.mcr,
        now.taken + arrivals.length⟩ := by
  induction arrivals generalizing now with
  | nil =>
      rw [if_neg fun both => both.2 rfl]
      rfl
  | cons arrival arrivals ih =>
      rw [readTrace, List.flatMap_cons, after_append, after_arrivalTrace]
      change (Receiver.mk _ _).after (readTrace pcds kept arrivals) = _
      rw [ih, List.length_cons, Nat.add_assoc, Nat.add_comm 1]
      by_cases controlled : pcds.useHardwareFlowControl = true
      · rw [if_pos controlled, ite_self, if_pos ⟨controlled, Nat.succ_ne_zero _⟩]
      · rw [if_neg controlled, if_neg fun both => controlled both.1,
          if_neg fun both => controlled both.1]

theorem byte_of_answers {stream : Nat → UInt8} {now : Receiver} {arrival : Arrival}
    (answered : Answers stream now (arrivalTrace pcds kept arrival)) :
    arrival.byte = stream now.taken := by
  rw [arrivalTrace, answers_append, Answers, answers_append] at answered
  obtain ⟨_, _, _, ⟨_, data⟩, _⟩ := answered
  rw [data rfl, after_rtsWrite, ← (after_pollTrace pcds kept now arrival.busy).1]
  split <;> rfl

theorem bytes_of_answers {stream : Nat → UInt8} {now : Receiver} {arrivals : List Arrival}
    (answered : Answers stream now (readTrace pcds kept arrivals)) :
    arrivals.map Arrival.byte = nextBytes stream now.taken arrivals.length := by
  induction arrivals generalizing now with
  | nil => rfl
  | cons arrival arrivals ih =>
      rw [readTrace, List.flatMap_cons, answers_append, after_arrivalTrace] at answered
      rw [List.map_cons, byte_of_answers pcds kept answered.1, ih answered.2]
      rfl

end Device

/-! ## A call at every point -/

/-- What a call does to a device that has a stream, at any point of the run. -/
structure ReadsStream (pcds : SerialPcds) (stream : Nat → UInt8) (first : Receiver) (mem : Mem)
    (buffer : Nat) (bytes : UInt32) (trace : Trace) (outcome : Option (Mem × UInt32)) : Prop where
  returned : ∀ last result, outcome = some (last, result) →
    last = storeBytes mem buffer (nextBytes stream first.taken bytes.toNat) ∧
      (first.after trace).taken = first.taken + bytes.toNat ∧ result = bytes
  ready : ∀ before source answer, before ++ [.read source answer] <+: trace →
    source.offset = rUartRxbuf → ∃ older line status between,
      before = older ++ .read line status :: between ∧ line.offset = rUartLsr ∧
        status &&& bUartLsrRxrdy ≠ 0 ∧
        ∀ event ∈ between, ∃ target value, event = .write target value
  kept : ∀ before, before <+: trace → keptBits (first.after before).mcr = keptBits first.mcr
  cleared : pcds.useHardwareFlowControl = true →
    ∀ before source answer, before ++ [.read source answer] <+: trace →
      source.offset = rUartRxbuf → (first.after before).mcr &&& bUartMcrRts = 0
  unwritten : pcds.useHardwareFlowControl = false →
    ∀ target value, .write target value ∈ trace → target.offset ≠ rUartMcr

section Points

variable {pcds : SerialPcds} {stream : Nat → UInt8} {first : Receiver} {trace : Trace}

theorem Receiving.answer {answer : UInt8} (receiving : Receiving pcds answer trace)
    (answered : Answers stream first trace) : answer = first.mcr := by
  obtain ⟨rest, rfl⟩ := receiving.opened
  exact answered.1.1 rfl

theorem keptBits_after {kept : UInt8} (same : keptBits first.mcr = kept)
    (allowed : Each (Allowed pcds kept) trace) : keptBits (first.after trace).mcr = kept := by
  induction trace using List.reverseRecOn with
  | nil => exact same
  | append_singleton history event ih =>
      have before := ih allowed.init
      have last := allowed.last
      rw [after_append]
      cases event with
      | read source answer =>
          change keptBits (Receiver.step _ (.read source answer)).mcr = kept
          rw [Receiver.step]
          split
          · exact before
          · exact before
      | write target value =>
          change keptBits (Receiver.step _ (.write target value)).mcr = kept
          rw [Receiver.step, if_pos last.2.1]
          exact last.2.2

theorem rtsWrite_writes (value : UInt8) :
    ∀ event ∈ rtsWrite pcds value, ∃ target word, event = .write target word := by
  intro event inside
  rw [rtsWrite] at inside
  split at inside
  · exact ⟨_, _, List.mem_singleton.mp inside⟩
  · cases inside

end Points

section Calls

variable {pcds : SerialPcds} {stream : Nat → UInt8} {first : Receiver} {mem : Mem} {buffer : Nat}
  {bytes : UInt32} {trace : Trace}

structure Returned (pcds : SerialPcds) (stream : Nat → UInt8) (first : Receiver) (mem : Mem)
    (buffer : Nat) (bytes : UInt32) (trace : Trace) (last : Mem) (result : UInt32) : Prop where
  run : ∃ fuel, Runs (serialPortRead pcds fuel mem buffer bytes) trace (some (last, result))
  answered : Answers stream first trace

def mcrAfter (pcds : SerialPcds) (mcr : UInt8) (count : Nat) : UInt8 :=
  if pcds.useHardwareFlowControl = true ∧ count ≠ 0 then keptBits mcr else mcr

theorem Returned.shape {last : Mem} {result : UInt32} (given : buffer ≠ null)
    (configured : getSerialRegisterBase pcds ≠ 0)
    (call : Returned pcds stream first mem buffer bytes trace last result) :
    ∃ arrivals, arrivals.length = bytes.toNat ∧
      trace = .read (accessOf pcds rUartMcr) first.mcr ::
        readTrace pcds (keptBits first.mcr) arrivals ∧
      arrivals.map Arrival.byte = nextBytes stream first.taken bytes.toNat ∧
      last = storeBytes mem buffer (nextBytes stream first.taken bytes.toNat) ∧ result = bytes ∧
      first.after trace =
        ⟨mcrAfter pcds first.mcr bytes.toNat, first.taken + bytes.toNat⟩ := by
  obtain ⟨fuel, run⟩ := call.run
  obtain ⟨answer, arrivals, length, shape, outcome⟩ :=
    (wp_sound (wp_serialPortRead fuel mem buffer bytes given configured) run).2 _ rfl
  rw [List.nil_append] at shape
  subst shape
  obtain ⟨⟨register, _⟩, answered⟩ := call.answered
  obtain rfl : answer = first.mcr := register rfl
  have values : arrivals.map Arrival.byte = nextBytes stream first.taken arrivals.length :=
    bytes_of_answers pcds _ answered
  obtain ⟨rfl, rfl⟩ := Prod.mk.inj outcome
  rw [length] at values
  refine ⟨arrivals, length, rfl, values, by rw [values], rfl, ?_⟩
  change first.after (readTrace pcds (keptBits first.mcr) arrivals) = _
  rw [after_readTrace, length]
  rfl

/-! ## Two calls -/

def lineAnswer : Event Access UInt8 → Option UInt8
  | .read source answer => if source.offset = rUartLsr then some answer else none
  | .write _ _ => none

def lineAnswers (trace : Trace) : List UInt8 := trace.filterMap lineAnswer

/-- One call does what two did: on the same schedule it returns with the same bytes and the same
device, and on any other it returns with nothing else. -/
structure SameAsOne (pcds : SerialPcds) (stream : Nat → UInt8) (first : Receiver) (mem : Mem)
    (buffer : Nat) (total : UInt32) (joined : Trace) (last : Mem) : Prop where
  returns : ∃ trace, Returned pcds stream first mem buffer total trace last total ∧
    lineAnswers trace = lineAnswers joined ∧ first.after trace = first.after joined
  agrees : ∀ trace other result, Returned pcds stream first mem buffer total trace other result →
    other = last ∧ first.after trace = first.after joined

theorem length_nextBytes (start count : Nat) : (nextBytes stream start count).length = count := by
  induction count generalizing start with
  | zero => rfl
  | succ count ih => rw [nextBytes, List.length_cons, ih]

theorem nextBytes_add (start some more : Nat) :
    nextBytes stream start (some + more) =
      nextBytes stream start some ++ nextBytes stream (start + some) more := by
  induction some generalizing start with
  | zero => rw [Nat.zero_add]; rfl
  | succ some ih =>
      rw [Nat.add_right_comm, nextBytes, ih, nextBytes, List.cons_append, Nat.add_assoc start,
        Nat.add_comm 1 some]

theorem keptBits_mcrAfter (mcr : UInt8) (count : Nat) :
    keptBits (mcrAfter pcds mcr count) = keptBits mcr := by
  rw [mcrAfter]
  split
  · exact keptBits_keptBits mcr
  · rfl

theorem mcrAfter_add (mcr : UInt8) (some more : Nat) :
    mcrAfter pcds (mcrAfter pcds mcr some) more = mcrAfter pcds mcr (some + more) := by
  by_cases controlled : pcds.useHardwareFlowControl = true
  · cases some with
    | zero =>
        have none : mcrAfter pcds mcr 0 = mcr := if_neg fun both => both.2 rfl
        rw [none, Nat.zero_add]
    | succ some =>
        have lowered (count : Nat) : mcrAfter pcds mcr (count + 1) = keptBits mcr :=
          if_pos ⟨controlled, Nat.succ_ne_zero count⟩
        rw [lowered, Nat.add_right_comm, lowered, mcrAfter, keptBits_keptBits, ite_self]
  · have plain (mcr : UInt8) (count : Nat) : mcrAfter pcds mcr count = mcr :=
      if_neg fun both => controlled both.1
    rw [plain, plain, plain]

theorem reads_compose {n m total : UInt32} {t₁ t₂ : Trace} {mem₁ mem₂ : Mem} {r₁ r₂ : UInt32}
    (given : buffer ≠ null) (configured : getSerialRegisterBase pcds ≠ 0)
    (sum : total.toNat = n.toNat + m.toNat)
    (head : Returned pcds stream first mem buffer n t₁ mem₁ r₁)
    (tail : Returned pcds stream (first.after t₁) mem₁ (buffer + n.toNat) m t₂ mem₂ r₂) :
    SameAsOne pcds stream first mem buffer total (t₁ ++ t₂) mem₂ := by
  have later : buffer + n.toNat ≠ null := fun zero => given (Nat.eq_zero_of_add_eq_zero zero).1
  obtain ⟨early, lengthHead, traceHead, valuesHead, storedHead, -, deviceHead⟩ :=
    head.shape given configured
  obtain ⟨late, lengthTail, traceTail, valuesTail, storedTail, -, deviceTail⟩ :=
    tail.shape later configured
  have values : nextBytes stream first.taken total.toNat =
      nextBytes stream first.taken n.toNat ++ nextBytes stream (first.after t₁).taken m.toNat := by
    rw [sum, nextBytes_add, deviceHead]
  have stored : storeBytes mem buffer (nextBytes stream first.taken total.toNat) = mem₂ := by
    rw [values, storeBytes_append, length_nextBytes, ← storedHead, ← storedTail]
  have device : first.after (t₁ ++ t₂) =
      ⟨mcrAfter pcds first.mcr total.toNat, first.taken + total.toNat⟩ := by
    rw [after_append, deviceTail, deviceHead, mcrAfter_add, sum, Nat.add_assoc]
  have agrees (trace : Trace) (other : Mem) (result : UInt32)
      (call : Returned pcds stream first mem buffer total trace other result) :
      other = mem₂ ∧ first.after trace = first.after (t₁ ++ t₂) := by
    obtain ⟨_, _, _, _, same, -, after⟩ := call.shape given configured
    exact ⟨same.trans stored, after.trans device.symm⟩
  have kept : keptBits (first.after t₁).mcr = keptBits first.mcr := by
    rw [deviceHead, keptBits_mcrAfter]
  have count : (early ++ late).length = total.toNat := by
    rw [List.length_append, lengthHead, lengthTail, sum]
  have bytes : (early ++ late).map Arrival.byte = nextBytes stream first.taken total.toNat := by
    rw [List.map_append, valuesHead, valuesTail, values]
  obtain ⟨fuel, run⟩ :=
    serialPortRead_runs pcds mem buffer total given configured first.mcr (early ++ late) count
  rw [bytes, stored, readTrace_append, ← List.cons_append, ← traceHead] at run
  have answered : Answers stream first (t₁ ++ readTrace pcds (keptBits first.mcr) late) := by
    have rest := tail.answered
    rw [traceTail, kept] at rest
    exact (answers_append _ _ _ _).mpr ⟨head.answered, rest.2⟩
  have call : Returned pcds stream first mem buffer total
      (t₁ ++ readTrace pcds (keptBits first.mcr) late) mem₂ total := ⟨⟨fuel, run⟩, answered⟩
  refine ⟨⟨_, call, ?_, (agrees _ _ _ call).2⟩, agrees⟩
  rw [traceTail, kept, lineAnswers, lineAnswers, List.filterMap_append, List.filterMap_append]
  rfl

end Calls

/-! ## Every run of a call -/

/-- The conditions on single events give those on the device at every point. -/
theorem readsStream_of_receiving {pcds : SerialPcds} {stream : Nat → UInt8} {first : Receiver}
    {mem : Mem} {buffer : Nat} {bytes : UInt32} {trace : Trace} {outcome : Option (Mem × UInt32)}
    (answered : Answers stream first trace)
    (allowed : Each (Allowed pcds (keptBits first.mcr)) trace)
    (returned : ∀ last result, outcome = some (last, result) →
      last = storeBytes mem buffer (nextBytes stream first.taken bytes.toNat) ∧
        (first.after trace).taken = first.taken + bytes.toNat ∧ result = bytes) :
    ReadsStream pcds stream first mem buffer bytes trace outcome := by
  refine ⟨returned, ?_, ?_, ?_, ?_⟩
  · intro before source answer inside data
    obtain ⟨older, status, shape, shows⟩ := allowed before _ inside data
    exact ⟨older, _, status, _, shape, rfl, shows, rtsWrite_writes _⟩
  · intro before inside
    exact keptBits_after rfl (allowed.of_prefix inside)
  · intro controlled before source answer inside data
    obtain ⟨older, status, rfl, _⟩ := allowed before _ inside data
    rw [after_append]
    change ((first.after older).after (rtsWrite pcds (keptBits first.mcr))).mcr &&& _ = 0
    rw [after_rtsWrite, if_pos controlled]
    exact keptBits_rts first.mcr
  · intro plain target value inside
    obtain ⟨before, rest, rfl⟩ := List.append_of_mem inside
    obtain ⟨controlled, _, _⟩ := allowed before (.write target value) ⟨rest, by simp⟩
    rw [plain] at controlled
    cases controlled

theorem readsStream (pcds : SerialPcds) (configured : getSerialRegisterBase pcds ≠ 0)
    (stream : Nat → UInt8) (first : Receiver) (mem : Mem) (buffer : Nat) (given : buffer ≠ null)
    (bytes : UInt32) (fuel : Nat) (trace : Trace) (outcome : Option (Mem × UInt32))
    (run : Runs (serialPortRead pcds fuel mem buffer bytes) trace outcome)
    (answered : Answers stream first trace) :
    ReadsStream pcds stream first mem buffer bytes trace outcome := by
  obtain ⟨mid, _⟩ := wp_sound (wp_serialPortRead fuel mem buffer bytes given configured) run
  rw [List.nil_append] at mid
  have allowed : Each (Allowed pcds (keptBits first.mcr)) trace := by
    rcases mid with rfl | ⟨answer, receiving⟩
    · exact each_nil
    · rw [← receiving.answer answered]
      exact receiving.allowed
  refine readsStream_of_receiving answered allowed ?_
  rintro last result rfl
  have call : Returned pcds stream first mem buffer bytes trace last result :=
    ⟨⟨fuel, run⟩, answered⟩
  obtain ⟨_, _, _, _, stored, same, device⟩ := call.shape given configured
  exact ⟨stored, by rw [device], same⟩

theorem serialPortRead_unconfigured (pcds : SerialPcds) (missing : pcds.registerBase = 0)
    (fuel : Nat) (mem : Mem) (buffer : Nat) (bytes : UInt32) :
    serialPortRead pcds fuel mem buffer bytes = pure (mem, 0) := by
  rw [serialPortRead]
  split
  · rfl
  · exact if_pos missing

theorem serialPortRead_delivers (pcds : SerialPcds) (configured : pcds.registerBase ≠ 0)
    (stream : Nat → UInt8) (first : Receiver) (mem : Mem) (buffer : Nat) (given : buffer ≠ null)
    (n : UInt32) :
    (∀ fuel trace outcome, Runs (serialPortRead pcds fuel mem buffer n) trace outcome →
        Answers stream first trace → ReadsStream pcds stream first mem buffer n trace outcome) ∧
      ∀ m total, total.toNat = n.toNat + m.toNat → ∀ t₁ mem₁ r₁ t₂ mem₂ r₂,
        Returned pcds stream first mem buffer n t₁ mem₁ r₁ →
        Returned pcds stream (first.after t₁) mem₁ (buffer + n.toNat) m t₂ mem₂ r₂ →
        SameAsOne pcds stream first mem buffer total (t₁ ++ t₂) mem₂ := by
  refine ⟨readsStream pcds configured stream first mem buffer given n, ?_⟩
  intro m total sum t₁ mem₁ r₁ t₂ mem₂ r₂ head tail
  exact reads_compose given configured sum head tail

def receivePcds : SerialPcds :=
  { infPcds 0x01 0 with useHardwareFlowControl := true }

def letters (index : Nat) : UInt8 := UInt8.ofNat (0x41 + index)

def lateByte : Arrival :=
  ⟨[0x60], 0x61, 0x41, List.forall_mem_singleton.mpr rfl, by decide⟩

def promptByte : Arrival := ⟨[], 0x61, 0x42, List.forall_mem_nil _, by decide⟩

def lateTrace : Trace :=
  [.read (accessOf receivePcds rUartMcr) 0x03, .read (accessOf receivePcds rUartLsr) 0x60,
    .write (accessOf receivePcds rUartMcr) 0x03, .read (accessOf receivePcds rUartLsr) 0x61,
    .write (accessOf receivePcds rUartMcr) 0x01, .read (accessOf receivePcds rUartRxbuf) 0x41]

def promptTrace : Trace :=
  [.read (accessOf receivePcds rUartMcr) 0x01, .read (accessOf receivePcds rUartLsr) 0x61,
    .write (accessOf receivePcds rUartMcr) 0x01, .read (accessOf receivePcds rUartRxbuf) 0x42]

theorem lateTrace_runs (mem : Mem) (buffer : Nat) (given : buffer ≠ null) :
    ∃ fuel, Runs (serialPortRead receivePcds fuel mem buffer 1) lateTrace
      (some (storeBytes mem buffer [0x41], 1)) :=
  serialPortRead_runs receivePcds mem buffer 1 given (by decide) 0x03 [lateByte] rfl

theorem promptTrace_runs (mem : Mem) (buffer : Nat) (given : buffer ≠ null) :
    ∃ fuel, Runs (serialPortRead receivePcds fuel mem buffer 1) promptTrace
      (some (storeBytes mem buffer [0x42], 1)) :=
  serialPortRead_runs receivePcds mem buffer 1 given (by decide) 0x01 [promptByte] rfl

theorem lateTrace_answers : Answers letters ⟨0x03, 0⟩ lateTrace := by
  simp only [lateTrace, Answers, Answered]
  decide

theorem promptTrace_answers :
    Answers letters ((Receiver.mk 0x03 0).after lateTrace) promptTrace := by
  simp only [promptTrace, Answers, Answered]
  decide

theorem serialPortRead_delivers_lateByte :
    ReadsStream receivePcds letters ⟨0x03, 0⟩ (fun _ => 0) 0x1000 1 lateTrace
        (some (storeBytes (fun _ => 0) 0x1000 [0x41], 1)) ∧
      SameAsOne receivePcds letters ⟨0x03, 0⟩ (fun _ => 0) 0x1000 2 (lateTrace ++ promptTrace)
        (storeBytes (storeBytes (fun _ => 0) 0x1000 [0x41]) 0x1001 [0x42]) := by
  obtain ⟨fuel, late⟩ := lateTrace_runs (fun _ => 0) 0x1000 (by decide)
  have prompt := promptTrace_runs (storeBytes (fun _ => 0) 0x1000 [0x41]) 0x1001 (by decide)
  obtain ⟨reads, composes⟩ := serialPortRead_delivers receivePcds (by decide) letters ⟨0x03, 0⟩
    (fun _ => 0) 0x1000 (by decide) 1
  exact ⟨reads fuel lateTrace _ late lateTrace_answers,
    composes 1 2 rfl lateTrace _ 1 promptTrace _ 1 ⟨⟨fuel, late⟩, lateTrace_answers⟩
      ⟨prompt, promptTrace_answers⟩⟩

end ArcFirmware.SerialReceive
