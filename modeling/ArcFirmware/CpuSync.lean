import ArcFirmware.Edk2
import ArcFirmware.Lib.Port

/-!
# Synchronization functions

`CpuSync.c`: spin locks and the interlocked operations.  A function is the tree
of the accesses it makes to shared words; the `InternalSync*` primitives are
single accesses.  `ASSERT` reports its line through `DebugAssert`, which may
return or not, and `GetPerformanceCounter` is an input.
-/

set_option autoImplicit false

namespace ArcFirmware.CpuSync

open ArcFirmware.Edk2 ArcFirmware.Port

/-! ## Accesses -/

inductive SyncAccess where
  /-- A plain load or store of the word at an address. -/
  | word (addr : Nat)
  /-- `InternalSyncCompareExchange16`, `32` and `64`; the answer is the old value. -/
  | compareExchange (bits addr compareValue exchangeValue : Nat)
  /-- `InternalSyncIncrement`; the answer is the new value. -/
  | increment (addr : Nat)
  | decrement (addr : Nat)
  | performanceCounter
  | debugAssert
  deriving DecidableEq, Repr

abbrev SyncEvent := Event SyncAccess Nat

abbrev Sync := PortProg SyncAccess Nat

/-- The PCD, what `GetPerformanceCounterProperties` answers, and whether `DebugAssert` returns. -/
structure SyncConfig where
  spinLockTimeout : UInt32
  frequency : UInt64
  counterStart : UInt64
  counterEnd : UInt64
  assertReturns : Bool
  deriving DecidableEq, Repr

def load (addr : Nat) : Sync Nat := input (.word addr)

def store (addr value : Nat) : Sync Unit := output (.word addr) value

def assertAt (config : SyncConfig) (line : Nat) (expression : Bool) : Sync Unit :=
  if expression then pure ()
  else do
    output .debugAssert line
    if config.assertReturns then pure () else .halt

theorem within_assertAt {kind : SyncEvent → Prop} (config : SyncConfig) {line : Nat}
    (reported : kind (.write .debugAssert line)) (expression : Bool) :
    Within kind (assertAt config line expression) := by
  rw [assertAt]
  split
  · trivial
  · refine ⟨reported, ?_⟩
    change Within kind (if _ then _ else _)
    split <;> trivial

/-! ## Interlocked operations -/

section Interlocked

variable (config : SyncConfig)

def interlockedIncrement (value : Nat) : Sync Nat := do
  assertAt config 247 (value != null)
  input (.increment value)

def interlockedDecrement (value : Nat) : Sync Nat := do
  assertAt config 271 (value != null)
  input (.decrement value)

def interlockedCompareExchange (bits line value compareValue exchangeValue : Nat) : Sync Nat := do
  assertAt config line (value != null)
  input (.compareExchange bits value compareValue exchangeValue)

def interlockedCompareExchange16 (value compareValue exchangeValue : Nat) : Sync Nat :=
  interlockedCompareExchange config 16 302 value (compareValue % 2 ^ 16) (exchangeValue % 2 ^ 16)

def interlockedCompareExchange32 (value compareValue exchangeValue : Nat) : Sync Nat :=
  interlockedCompareExchange config 32 333 value (u32 compareValue) (u32 exchangeValue)

def interlockedCompareExchange64 (value compareValue exchangeValue : Nat) : Sync Nat :=
  interlockedCompareExchange config 64 363 value (u64 compareValue) (u64 exchangeValue)

/-- `sizeof (*Value)` of a pointer to pointers. -/
def sizeofPointer : Nat := 4

def interlockedCompareExchangePointer (value compareValue exchangeValue : Nat) : Sync Nat :=
  match sizeofPointer with
  | 4 => interlockedCompareExchange32 config value compareValue exchangeValue
  | 8 => interlockedCompareExchange64 config value compareValue exchangeValue
  | _ => do
      assertAt config 411 false
      return null

end Interlocked

/-! ## Spin locks -/

def spinLockReleased : Nat := 1
def spinLockAcquired : Nat := 2

section SpinLocks

variable (config : SyncConfig)

def initializeSpinLock (spinLock : Nat) : Sync Nat := do
  assertAt config 61 (spinLock != null)
  store spinLock spinLockReleased
  return spinLock

def isLockValue (lockValue : Nat) : Bool :=
  spinLockAcquired == lockValue || spinLockReleased == lockValue

def acquireSpinLockOrFail (spinLock : Nat) : Sync Bool := do
  assertAt config 182 (spinLock != null)
  let lockValue ← load spinLock
  assertAt config 185 (isLockValue lockValue)
  return (← interlockedCompareExchangePointer config spinLock spinLockReleased spinLockAcquired) ==
    spinLockReleased

def releaseSpinLock (spinLock : Nat) : Sync Nat := do
  assertAt config 218 (spinLock != null)
  let lockValue ← load spinLock
  assertAt config 221 (isLockValue lockValue)
  store spinLock spinLockReleased
  return spinLock

/-! ## Waiting for a lock -/

def int64 (value : Int) : Int := value.bmod (2 ^ 64)

def timeoutTicks : Nat := u64 (config.frequency.toNat * config.spinLockTimeout.toNat) / 1000000

/-- `Cycle`, from its declaration to the increment. -/
def cycleTicks : Int :=
  let cycle := int64 (config.counterEnd.toNat - config.counterStart.toNat)
  let cycle := if cycle < 0 then int64 (-cycle) else cycle
  int64 (cycle + 1)

def deltaTicks (previous current : Nat) : Int :=
  let delta := int64 ((current : Int) - previous)
  let delta := if config.counterStart > config.counterEnd then int64 (-delta) else delta
  if delta < 0 then int64 (delta + cycleTicks config) else delta

/-- `Total += Delta`. -/
def addTicks (total : Nat) (delta : Int) : Nat := ((total + delta) % 2 ^ 64).toNat

structure Waiting where
  current : Nat
  total : Nat
  deriving DecidableEq, Repr

def spinPass (spinLock : Nat) (_ : Unit) : Sync (Loop.Step Unit Unit) := do
  if ← acquireSpinLockOrFail config spinLock then
    return .done ()
  return .next ()

/-- One pass of the wait with a timeout. -/
def timedPass (spinLock : Nat) (waiting : Waiting) : Sync (Loop.Step Waiting Unit) := do
  if ← acquireSpinLockOrFail config spinLock then
    return .done ()
  let previous := waiting.current
  let current ← input .performanceCounter
  let total := addTicks waiting.total (deltaTicks config previous current)
  assertAt config 150 (decide (total < timeoutTicks config))
  return .next ⟨current, total⟩

def acquireSpinLock (fuel spinLock : Nat) : Sync Nat := do
  if config.spinLockTimeout = 0 then
    loop (spinPass config spinLock) fuel ()
  else if !(← acquireSpinLockOrFail config spinLock) then
    let current ← input .performanceCounter
    loop (timedPass config spinLock) fuel ⟨current, 0⟩
  return spinLock

end SpinLocks

end ArcFirmware.CpuSync
