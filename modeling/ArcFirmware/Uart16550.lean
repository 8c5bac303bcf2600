import ArcFirmware.Lib.SendQueue
import ArcFirmware.Ns16550

/-!
# The device behind the driver

A 16550 as its register file and its transmitter.  The DLAB bit of the line
control register decides what offsets 0 and 1 address; the depth of the transmit
queue is the one the FIFO control register selects.  `Serves` relates a trace of
the driver to the device before and after it: the line status is answered from
the state of the transmitter, every other answer is free, and bytes leave the
queue at any pace between two accesses.
-/

set_option autoImplicit false

namespace ArcFirmware.Uart16550

open ArcFirmware.Port ArcFirmware.SendQueue ArcFirmware.Ns16550

/-! ## Registers -/

structure Registers where
  ier : UInt8
  fcr : UInt8
  lcr : UInt8
  mcr : UInt8
  dll : UInt8
  dlm : UInt8
  deriving DecidableEq, Repr

def Registers.dlab (regs : Registers) : Prop := regs.lcr &&& bUartLcrDlab ≠ 0

instance (regs : Registers) : Decidable regs.dlab :=
  inferInstanceAs (Decidable (_ ≠ _))

def Registers.write (regs : Registers) (offset : UInt32) (value : UInt8) : Registers :=
  if offset = rUartDll then
    if regs.dlab then { regs with dll := value } else regs
  else if offset = rUartDlm then
    if regs.dlab then { regs with dlm := value } else { regs with ier := value }
  else if offset = rUartFcr then { regs with fcr := value }
  else if offset = rUartLcr then { regs with lcr := value }
  else if offset = rUartMcr then { regs with mcr := value }
  else regs

def Registers.step (regs : Registers) : Event Access UInt8 → Registers
  | .read _ _ => regs
  | .write target value => regs.write target.offset value

def Registers.after (regs : Registers) (trace : Trace) : Registers := trace.foldl Registers.step regs

section Offsets

variable (regs : Registers) (value : UInt8)

theorem write_dll (latch : regs.dlab) :
    regs.write rUartDll value = { regs with dll := value } := by
  rw [Registers.write, if_pos rfl, if_pos latch]

theorem write_dlm (latch : regs.dlab) :
    regs.write rUartDlm value = { regs with dlm := value } := by
  rw [Registers.write, if_neg (by decide), if_pos rfl, if_pos latch]

theorem write_ier (data : ¬ regs.dlab) :
    regs.write rUartIer value = { regs with ier := value } := by
  rw [Registers.write, if_neg (by decide), if_pos (by rfl), if_neg data]

theorem write_fcr : regs.write rUartFcr value = { regs with fcr := value } := by
  rw [Registers.write, if_neg (by decide), if_neg (by decide), if_pos rfl]

theorem write_lcr : regs.write rUartLcr value = { regs with lcr := value } := by
  rw [Registers.write, if_neg (by decide), if_neg (by decide), if_neg (by decide), if_pos rfl]

theorem write_mcr : regs.write rUartMcr value = { regs with mcr := value } := by
  rw [Registers.write, if_neg (by decide), if_neg (by decide), if_neg (by decide),
    if_neg (by decide), if_pos rfl]

end Offsets

/-! ## Transmitter -/

/-- Depth of the transmit FIFO; `extended` is that of the 64-byte mode. -/
def txDepth (extended : Nat) (fcr : UInt8) : Nat :=
  if fcr &&& bUartFcrFifoe = 0 then 1
  else if fcr &&& bUartFcrFifo64 = 0 then 16
  else extended

structure Uart where
  regs : Registers
  tx : Sender UInt8
  deriving DecidableEq, Repr

def ShowsStatus (uart : Uart) (answer : UInt8) : Prop :=
  (answer &&& bUartLsrTxrdy ≠ 0 ↔ uart.tx.waiting = []) ∧
    (answer &&& bUartLsrTemt ≠ 0 ↔ Idle uart.tx)

def Uart.write (extended : Nat) (uart : Uart) (offset : UInt32) (value : UInt8) : Uart :=
  if offset = rUartTxbuf ∧ ¬ uart.regs.dlab then
    { uart with tx := push (txDepth extended uart.regs.fcr) value uart.tx }
  else
    { uart with regs := uart.regs.write offset value }

/-- The device before and after a trace, with whatever it drains in between. -/
inductive Serves (extended : Nat) (first : Uart) : Trace → Uart → Prop where
  | start : Serves extended first [] first
  | drain {trace : Trace} {uart : Uart} {tx : Sender UInt8}
      (prior : Serves extended first trace uart) (drained : Drains uart.tx tx) :
      Serves extended first trace { uart with tx := tx }
  | read {trace : Trace} {uart : Uart} (source : Access) (answer : UInt8)
      (prior : Serves extended first trace uart)
      (status : source.offset = rUartLsr → ShowsStatus uart answer) :
      Serves extended first (trace ++ [.read source answer]) uart
  | write {trace : Trace} {uart : Uart} (target : Access) (value : UInt8)
      (prior : Serves extended first trace uart) :
      Serves extended first (trace ++ [.write target value])
        (uart.write extended target.offset value)

def Uart.step (extended : Nat) (uart : Uart) : Event Access UInt8 → Uart
  | .read _ _ => uart
  | .write target value => uart.write extended target.offset value

def Uart.after (extended : Nat) (uart : Uart) (trace : Trace) : Uart :=
  trace.foldl (Uart.step extended) uart

theorem Serves.undrained {extended : Nat} {first uart : Uart} {trace : Trace}
    (prior : Serves extended first trace uart) (more : Trace)
    (unpolled : ∀ source answer, .read source answer ∈ more → source.offset ≠ rUartLsr) :
    Serves extended first (trace ++ more) (uart.after extended more) := by
  induction more generalizing trace uart with
  | nil =>
      rw [List.append_nil]
      exact prior
  | cons event rest ih =>
      rw [List.append_cons]
      refine ih ?_ fun source answer inside => unpolled source answer (List.mem_cons_of_mem _ inside)
      cases event with
      | read source answer =>
          exact prior.read source answer fun polled =>
            absurd polled (unpolled source answer List.mem_cons_self)
      | write target value => exact prior.write target value

/-! ## What a write changes -/

section Writes

variable {extended : Nat} {uart : Uart}

theorem write_txbuf (data : ¬ uart.regs.dlab) (value : UInt8) :
    uart.write extended rUartTxbuf value =
      { uart with tx := push (txDepth extended uart.regs.fcr) value uart.tx } := by
  rw [Uart.write, if_pos ⟨rfl, data⟩]

theorem write_latch (latch : uart.regs.dlab) (value : UInt8) :
    uart.write extended rUartTxbuf value =
      { uart with regs := uart.regs.write rUartTxbuf value } := by
  rw [Uart.write, if_neg fun data => data.2 latch]

theorem regs_write (offset : UInt32) (value : UInt8) :
    (uart.write extended offset value).regs = uart.regs.write offset value := by
  rw [Uart.write]
  by_cases data : offset = rUartTxbuf ∧ ¬ uart.regs.dlab
  · have low : offset = rUartDll := data.1
    rw [if_pos data, Registers.write, if_pos low, if_neg data.2]
  · rw [if_neg data]

theorem Serves.regs {first last : Uart} {trace : Trace} (served : Serves extended first trace last) :
    last.regs = first.regs.after trace := by
  induction served with
  | start => rfl
  | drain _ _ ih => exact ih
  | read source answer _ _ ih =>
      rw [Registers.after, List.foldl_append]
      exact ih
  | write target value _ ih =>
      rw [Registers.after, List.foldl_append, regs_write, ih]
      rfl

end Writes

/-! ## Runs of the device -/

theorem Serves.split {extended : Nat} {first last : Uart} {older newer : Trace}
    (served : Serves extended first (older ++ newer) last) :
    ∃ middle, Serves extended first older middle ∧ Serves extended middle newer last := by
  generalize whole : older ++ newer = trace at served
  induction served generalizing newer with
  | start =>
      obtain ⟨rfl, rfl⟩ := List.append_eq_nil_iff.mp whole
      exact ⟨first, .start, .start⟩
  | drain _ drained ih =>
      obtain ⟨middle, head, tail⟩ := ih whole
      exact ⟨middle, head, tail.drain drained⟩
  | read source answer prior status ih =>
      rcases append_eq_concat whole with ⟨rfl, rfl⟩ | ⟨rest, rfl, before⟩
      · exact ⟨_, prior.read source answer status, .start⟩
      · obtain ⟨middle, head, tail⟩ := ih before
        exact ⟨middle, head, tail.read source answer status⟩
  | write target value prior ih =>
      rcases append_eq_concat whole with ⟨rfl, rfl⟩ | ⟨rest, rfl, before⟩
      · exact ⟨_, prior.write target value, .start⟩
      · obtain ⟨middle, head, tail⟩ := ih before
        exact ⟨middle, head, tail.write target value⟩

theorem Serves.idle_of_temt {extended : Nat} {first last : Uart} {older : Trace} {source : Access}
    {answer : UInt8} (served : Serves extended first (older ++ [.read source answer]) last)
    (polled : source.offset = rUartLsr) (empty : answer &&& bUartLsrTemt ≠ 0) : Idle last.tx := by
  generalize whole : older ++ [.read source answer] = trace at served
  induction served with
  | start => exact absurd whole (List.append_ne_nil_of_right_ne_nil _ (List.cons_ne_nil _ _))
  | drain _ drained ih =>
      have idle := ih whole
      rw [drained.eq_of_idle idle]
      exact idle
  | read source answer _ status _ =>
      cases (List.append_inj' whole rfl).2
      exact (status polled).2.mp empty
  | write target value _ _ => cases (List.append_inj' whole rfl).2

theorem Serves.tx_of_latched {extended : Nat} {first last : Uart} {trace : Trace}
    (served : Serves extended first trace last) (idle : Idle first.tx)
    (latched : ∀ before target value, before ++ [.write target value] <+: trace →
      target.offset = rUartTxbuf → (first.regs.after before).dlab) : last.tx = first.tx := by
  induction served with
  | start => rfl
  | drain _ drained ih =>
      have same := ih latched
      rw [← same] at idle
      exact (drained.eq_of_idle idle).trans same
  | read source answer _ _ ih =>
      exact ih fun before target value start => latched before target value
        (start.trans (List.prefix_append _ _))
  | @write history uart target value prior ih =>
      have same := ih fun before other word start => latched before other word
        (start.trans (List.prefix_append _ _))
      by_cases data : target.offset = rUartTxbuf
      · have latch := latched history target value (List.prefix_refl _) data
        rw [← prior.regs] at latch
        rw [data, write_latch latch]
        exact same
      · rw [Uart.write, if_neg fun both => data both.1]
        exact same

end ArcFirmware.Uart16550
