import ArcFirmware.Edk2
import ArcFirmware.Lib.Port

/-!
# The 16550 serial port driver

`Ns16550.c`: register access by PCD configuration, the flow-control and flush
polls, initialisation, the transmit path and the receive path.  Every polling
loop takes the fuel it may spend; what the device answers is the environment's
choice.
-/

set_option autoImplicit false

namespace ArcFirmware.Ns16550

open ArcFirmware.Memory ArcFirmware.Edk2 ArcFirmware.Port

/-! ## Register offsets and bit fields -/

def rUartRxbuf : UInt32 := 0
def rUartTxbuf : UInt32 := 0
def rUartDll : UInt32 := 0
def rUartDlm : UInt32 := 1
def rUartIer : UInt32 := 1

def rUartFcr : UInt32 := 2
def bUartFcrFifoe : UInt8 := 0x01
def bUartFcrRxsr : UInt8 := 0x02
def bUartFcrTxsr : UInt8 := 0x08
def bUartFcrFifo64 : UInt8 := 0x20
def bUartFcrval : UInt8 := bUartFcrFifoe ||| bUartFcrRxsr ||| bUartFcrTxsr

def rUartLcr : UInt32 := 3
def bUartLcr8N1 : UInt8 := 0x03
def bUartLcrDlab : UInt8 := 0x80

def rUartMcr : UInt32 := 4
def bUartMcrDtr : UInt8 := 0x01
def bUartMcrRts : UInt8 := 0x02
def bUartMcrval : UInt8 := bUartMcrDtr ||| bUartMcrRts

def rUartLsr : UInt32 := 5
def bUartLsrRxrdy : UInt8 := 0x01
def bUartLsrTxrdy : UInt8 := 0x20
def bUartLsrTemt : UInt8 := 0x40

def rUartMsr : UInt32 := 6
def bUartMsrCts : UInt8 := 0x10
def bUartMsrDsr : UInt8 := 0x20
def bUartIsWritable : UInt8 := bUartMsrDsr ||| bUartMsrCts

@[elab_as_elim] theorem forall_byte {fact : UInt8 → Prop} (table : ∀ bits : Fin 256, fact (UInt8.ofFin bits))
    (value : UInt8) : fact value :=
  table value.toFin

theorem toNat_pos {value : UInt32} (nonzero : value ≠ 0) : 0 < value.toNat :=
  Nat.pos_of_ne_zero fun zero => nonzero (UInt32.toNat_inj.mp zero)

/-! ## Configuration -/

structure SerialPcds where
  useMmio : Bool
  registerAccessWidth : UInt8
  registerStride : UInt32
  registerBase : UInt32
  clockRate : UInt32
  baudRate : UInt32
  lineControl : UInt8
  fifoControl : UInt8
  extendedTxFifoSize : UInt32
  useHardwareFlowControl : Bool
  detectCable : Bool
  deriving DecidableEq, Repr

/-- The values `Ns16550.inf` sets; it leaves the two FIFO values to the packages. -/
def infPcds (fifoControl : UInt8) (extendedTxFifoSize : UInt32) : SerialPcds where
  useMmio := true
  registerAccessWidth := 32
  registerStride := 4
  registerBase := 0xf0005000
  clockRate := 33333333
  baudRate := 115200
  lineControl := 0x03
  fifoControl := fifoControl
  extendedTxFifoSize := extendedTxFifoSize
  useHardwareFlowControl := false
  detectCable := false

def getSerialRegisterBase (pcds : SerialPcds) : UInt32 := pcds.registerBase

/-! ## Register access -/

/-- The `IoLib` primitive of an access; of a 32-bit word the driver uses the low byte. -/
inductive Space where
  | io8
  | mmio8
  | mmio32
  deriving DecidableEq, Repr

/-- One register access: the register it is meant for and the address it goes to. -/
structure Access where
  offset : UInt32
  space : Space
  addr : UInt32
  deriving DecidableEq, Repr

abbrev Driver := PortProg Access UInt8

abbrev Trace := List (Event Access UInt8)

def serialIn (pcds : SerialPcds) (base offset : UInt32) : Driver UInt8 :=
  let addr := base + offset * pcds.registerStride
  if !pcds.useMmio then
    input ⟨offset, .io8, addr⟩
  else if pcds.registerAccessWidth = 32 then
    input ⟨offset, .mmio32, addr⟩
  else
    input ⟨offset, .mmio8, addr⟩

def serialOut (pcds : SerialPcds) (base offset : UInt32) (value : UInt8) : Driver Unit :=
  let addr := base + offset * pcds.registerStride
  if !pcds.useMmio then
    output ⟨offset, .io8, addr⟩ value
  else if pcds.registerAccessWidth = 32 then
    output ⟨offset, .mmio32, addr⟩ value
  else
    output ⟨offset, .mmio8, addr⟩ value

def accessOf (pcds : SerialPcds) (offset : UInt32) : Access where
  offset := offset
  space := if !pcds.useMmio then .io8
    else if pcds.registerAccessWidth = 32 then .mmio32 else .mmio8
  addr := pcds.registerBase + offset * pcds.registerStride

theorem serialIn_eq (pcds : SerialPcds) (offset : UInt32) :
    serialIn pcds (getSerialRegisterBase pcds) offset = input (accessOf pcds offset) := by
  rw [serialIn, accessOf, getSerialRegisterBase]
  by_cases memory : (!pcds.useMmio) = true
  · rw [if_pos memory, if_pos memory]
  · rw [if_neg memory, if_neg memory]
    by_cases wide : pcds.registerAccessWidth = 32
    · rw [if_pos wide, if_pos wide]
    · rw [if_neg wide, if_neg wide]

theorem serialOut_eq (pcds : SerialPcds) (offset : UInt32) (value : UInt8) :
    serialOut pcds (getSerialRegisterBase pcds) offset value =
      output (accessOf pcds offset) value := by
  rw [serialOut, accessOf, getSerialRegisterBase]
  by_cases memory : (!pcds.useMmio) = true
  · rw [if_pos memory, if_pos memory]
  · rw [if_neg memory, if_neg memory]
    by_cases wide : pcds.registerAccessWidth = 32
    · rw [if_pos wide, if_pos wide]
    · rw [if_neg wide, if_neg wide]

@[simp] theorem accessOf_offset (pcds : SerialPcds) (offset : UInt32) :
    (accessOf pcds offset).offset = offset :=
  rfl

/-! ## Polls -/

def serialPortWaitWritable (pcds : SerialPcds) (fuel : Nat) (serialBase : UInt32) : Driver Unit :=
  loop (fun _ : Unit => do
    if !pcds.useHardwareFlowControl then
      return .done ()
    else if pcds.detectCable then
      let bits := (← serialIn pcds serialBase rUartMsr) &&& bUartIsWritable
      if bits = bUartIsWritable then
        return .done ()
      return .next ()
    else
      let bits := (← serialIn pcds serialBase rUartMsr) &&& bUartIsWritable
      if bits ≠ bUartMsrDsr then
        return .done ()
      return .next ()) fuel ()

def flushMask : UInt8 := bUartLsrTemt ||| bUartLsrTxrdy

def serialPortFlush (pcds : SerialPcds) (fuel : Nat) (base : UInt32) : Driver Unit :=
  loop (fun _ : Unit => do
    if (← serialIn pcds base rUartLsr) &&& flushMask ≠ flushMask then
      return .next ()
    return .done ()) fuel ()

/-! ## Initialisation -/

def returnDeviceError : UInt32 := 0x80000007

/-- `Ref_Clk_Rate / Baud_Rate / 16`, rounded to nearest. -/
def divisor (pcds : SerialPcds) : UInt32 :=
  let div := pcds.clockRate / (pcds.baudRate * 16)
  let divRem := pcds.clockRate % (pcds.baudRate * 16)
  if divRem ≥ pcds.baudRate * 8 then div + 1 else div

def lineCtl (pcds : SerialPcds) : UInt8 :=
  if pcds.lineControl = 0 then bUartLcr8N1 else pcds.lineControl

def serialPortInitialize (pcds : SerialPcds) (fuel : Nat) : Driver UInt32 := do
  let base := getSerialRegisterBase pcds
  if base = 0 then
    return returnDeviceError
  loop (fun _ : Unit => do
    if (← serialIn pcds base rUartLsr) &&& bUartLsrTemt = 0 then
      return .next ()
    return .done ()) fuel ()
  -- a baud rate whose product with 16 wraps to zero divides by zero
  if pcds.baudRate * 16 = 0 then
    .halt
  let div := divisor pcds
  serialOut pcds base rUartIer 0
  serialOut pcds base rUartMcr bUartMcrval
  serialOut pcds base rUartFcr bUartFcrval
  serialOut pcds base rUartLcr (lineCtl pcds ||| bUartLcrDlab)
  serialOut pcds base rUartDll (div &&& 0xff).toUInt8
  serialOut pcds base rUartDlm ((div >>> 8) &&& 0xff).toUInt8
  serialOut pcds base rUartLcr (lineCtl pcds)
  return base

/-! ## Transmission -/

/-- Bytes a call sends after it has seen the transmitter empty. -/
def fifoSize (pcds : SerialPcds) : Nat :=
  if pcds.fifoControl &&& bUartFcrFifoe ≠ 0 then
    if pcds.fifoControl &&& bUartFcrFifo64 = 0 then 16 else pcds.extendedTxFifoSize.toNat
  else 1

structure Cursor where
  buffer : Nat
  bytes : Nat
  deriving DecidableEq, Repr

/-- `for (Index = 0; Index < FifoSize && Bytes != 0; Index++, Bytes--)`, one pass. -/
def fillPass (pcds : SerialPcds) (fuel : Nat) (mem : Mem) (base : UInt32) :
    Nat × Cursor → Driver (Loop.Step (Nat × Cursor) Cursor)
  | (index, cursor) => do
    if index < fifoSize pcds ∧ cursor.bytes ≠ 0 then
      serialPortWaitWritable pcds fuel base
      serialOut pcds base rUartTxbuf (byteAt mem cursor.buffer)
      return .next (index + 1, ⟨cursor.buffer + 1, cursor.bytes - 1⟩)
    return .done cursor

def fillTxFifo (pcds : SerialPcds) (fuel : Nat) (mem : Mem) (base : UInt32) (cursor : Cursor) :
    Driver Cursor :=
  loop (fillPass pcds fuel mem base) fuel (0, cursor)

/-- `while (Bytes != 0)`, one pass. -/
def sendPass (pcds : SerialPcds) (fuel : Nat) (mem : Mem) (base : UInt32) (cursor : Cursor) :
    Driver (Loop.Step Cursor Unit) := do
  if cursor.bytes ≠ 0 then
    serialPortFlush pcds fuel base
    return .next (← fillTxFifo pcds fuel mem base cursor)
  return .done ()

def serialPortWrite (pcds : SerialPcds) (fuel : Nat) (mem : Mem) (buffer bytes : Nat) :
    Driver Nat := do
  if buffer = null then
    return 0
  let base := getSerialRegisterBase pcds
  if base = 0 then
    return 0
  if bytes = 0 then
    serialPortFlush pcds fuel base
    return 0
  loop (sendPass pcds fuel mem base) fuel ⟨buffer, bytes⟩
  return bytes

/-! ## Reception -/

def controlRts (pcds : SerialPcds) (base : UInt32) (value : UInt8) : Driver Unit :=
  if pcds.useHardwareFlowControl then
    serialOut pcds base rUartMcr value
  else
    pure ()

/-- `while ((SerialIn(Base, R_UART_LSR) & B_UART_LSR_RXRDY) == 0)`. -/
def waitReadable (pcds : SerialPcds) (fuel : Nat) (base : UInt32) (mcr : UInt8) : Driver Unit :=
  loop (fun _ : Unit => do
    if (← serialIn pcds base rUartLsr) &&& bUartLsrRxrdy = 0 then
      controlRts pcds base (mcr ||| bUartMcrRts)
      return .next ()
    return .done ()) fuel ()

structure Reading where
  mem : Mem
  buffer : Nat
  bytes : UInt32
  result : UInt32

/-- `for (Result = 0; Bytes-- != 0; Result++)`, one pass; the test also decrements a zero. -/
def readPass (pcds : SerialPcds) (fuel : Nat) (base : UInt32) (mcr : UInt8) (state : Reading) :
    Driver (Loop.Step Reading Reading) := do
  let left := state.bytes - 1
  if state.bytes ≠ 0 then
    waitReadable pcds fuel base mcr
    controlRts pcds base mcr
    let byte ← serialIn pcds base rUartRxbuf
    return .next ⟨Function.update state.mem (bus state.buffer) byte, state.buffer + 1, left,
      state.result + 1⟩
  return .done { state with bytes := left }

def serialPortRead (pcds : SerialPcds) (fuel : Nat) (mem : Mem) (buffer : Nat) (bytes : UInt32) :
    Driver (Mem × UInt32) := do
  if buffer = null then
    return (mem, 0)
  let base := getSerialRegisterBase pcds
  if base = 0 then
    return (mem, 0)
  let mcr := (← serialIn pcds base rUartMcr) &&& ~~~bUartMcrRts
  let last ← loop (readPass pcds fuel base mcr) fuel ⟨mem, buffer, bytes, 0⟩
  return (last.mem, last.result)

end ArcFirmware.Ns16550
