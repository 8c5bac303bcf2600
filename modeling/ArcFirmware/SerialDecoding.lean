import ArcFirmware.SerialProgress

/-!
# Registers by their addresses

The devices of the serial results look at the register that an access is meant
for; a device on the bus has only the address.  Where the stride keeps the eight
addresses apart it makes no difference.
-/

set_option autoImplicit false

namespace ArcFirmware.SerialDecoding

open ArcFirmware.Memory ArcFirmware.Edk2 ArcFirmware.Port ArcFirmware.Ns16550
open ArcFirmware.SerialSession ArcFirmware.SerialProgress

/-! ## Decoding -/

def registerAddr (pcds : SerialPcds) (register : Fin 8) : UInt32 :=
  (accessOf pcds (UInt32.ofNat register)).addr

def Apart (pcds : SerialPcds) : Prop :=
  ∀ first second : Fin 8, registerAddr pcds first = registerAddr pcds second → first = second

instance (pcds : SerialPcds) : Decidable (Apart pcds) :=
  inferInstanceAs (Decidable (∀ _ _ : Fin 8, _ → _))

def decode (pcds : SerialPcds) (addr : UInt32) : Option UInt32 :=
  ((List.finRange 8).find? fun register => registerAddr pcds register = addr).map
    fun register : Fin 8 => UInt32.ofNat register

/-- What a device at the addresses sees of an access. -/
def decodeEvent (pcds : SerialPcds) : Event Access UInt8 → Option (Event UInt32 UInt8)
  | .read source answer => (decode pcds source.addr).map fun offset => .read offset answer
  | .write target value => (decode pcds target.addr).map fun offset => .write offset value

def meant : Event Access UInt8 → Event UInt32 UInt8
  | .read source answer => .read source.offset answer
  | .write target value => .write target.offset value

def access : Event Access UInt8 → Access
  | .read source _ => source
  | .write target _ => target

def ToRegister (pcds : SerialPcds) (event : Event Access UInt8) : Prop :=
  ∃ register : Fin 8, access event = accessOf pcds (UInt32.ofNat register)

theorem decode_registerAddr {pcds : SerialPcds} (apart : Apart pcds) (register : Fin 8) :
    decode pcds (registerAddr pcds register) = some (UInt32.ofNat register) := by
  rw [decode]
  cases found : (List.finRange 8).find?
      fun other => registerAddr pcds other = registerAddr pcds register with
  | none =>
      have missed := List.find?_eq_none.mp found register (List.mem_finRange register)
      exact absurd (decide_eq_true rfl) missed
  | some other =>
      have same := List.find?_some found
      rw [apart other register (of_decide_eq_true same), Option.map_some]

theorem decodeEvent_of_toRegister {pcds : SerialPcds} (apart : Apart pcds)
    {event : Event Access UInt8} (toRegister : ToRegister pcds event) :
    decodeEvent pcds event = some (meant event) := by
  obtain ⟨register, same⟩ := toRegister
  have found : decode pcds (access event).addr = some (access event).offset := by
    rw [same, accessOf_offset]
    exact decode_registerAddr apart register
  cases event with
  | read source answer =>
      rw [access] at found
      rw [decodeEvent, found]
      rfl
  | write target value =>
      rw [access] at found
      rw [decodeEvent, found]
      rfl

/-! ## The driver -/

section Driver

variable (pcds : SerialPcds) (fuel : Nat)

theorem within_serialIn (register : Fin 8) : Within (ToRegister pcds)
    (serialIn pcds (getSerialRegisterBase pcds) (UInt32.ofNat register)) := by
  rw [serialIn_eq]
  exact fun answer => ⟨⟨register, rfl⟩, trivial⟩

theorem within_serialOut (register : Fin 8) (value : UInt8) : Within (ToRegister pcds)
    (serialOut pcds (getSerialRegisterBase pcds) (UInt32.ofNat register) value) := by
  rw [serialOut_eq]
  exact ⟨⟨register, rfl⟩, trivial⟩

theorem within_serialPortFlush :
    Within (ToRegister pcds) (serialPortFlush pcds fuel (getSerialRegisterBase pcds)) := by
  refine Within.loop (fun _ => (within_serialIn pcds 5).bind fun answer => ?_) fuel ()
  split <;> trivial

theorem within_serialPortWaitWritable :
    Within (ToRegister pcds) (serialPortWaitWritable pcds fuel (getSerialRegisterBase pcds)) := by
  refine Within.loop (fun _ => ?_) fuel ()
  split
  · trivial
  · split
    all_goals
      refine (within_serialIn pcds 6).bind fun answer => ?_
      simp only
      split <;> trivial

theorem within_serialPortInitialize :
    Within (ToRegister pcds) (serialPortInitialize pcds fuel) := by
  rw [serialPortInitialize]
  simp only
  split
  · trivial
  · refine Within.bind (Within.loop (fun _ => (within_serialIn pcds 5).bind fun answer => ?_) fuel ())
      fun _ => ?_
    · split <;> trivial
    · split
      · trivial
      · refine (within_serialOut pcds 1 _).bind fun _ => (within_serialOut pcds 4 _).bind fun _ => ?_
        refine (within_serialOut pcds 2 _).bind fun _ => (within_serialOut pcds 3 _).bind fun _ => ?_
        refine (within_serialOut pcds 0 _).bind fun _ => (within_serialOut pcds 1 _).bind fun _ => ?_
        exact (within_serialOut pcds 3 _).bind fun _ => trivial

theorem within_serialPortWrite (mem : Mem) (buffer bytes : Nat) :
    Within (ToRegister pcds) (serialPortWrite pcds fuel mem buffer bytes) := by
  have flush := within_serialPortFlush pcds fuel
  have fill (cursor : Cursor) : Within (ToRegister pcds)
      (fillTxFifo pcds fuel mem (getSerialRegisterBase pcds) cursor) := by
    refine Within.loop (fun state => ?_) fuel (0, cursor)
    rw [fillPass]
    split
    · refine (within_serialPortWaitWritable pcds fuel).bind fun _ => ?_
      exact (within_serialOut pcds 0 _).bind fun _ => trivial
    · trivial
  rw [serialPortWrite]
  split
  · trivial
  · simp only
    split
    · trivial
    · split
      · exact flush.bind fun _ => trivial
      · refine (Within.loop (fun cursor => ?_) fuel _).bind fun _ => trivial
        rw [sendPass]
        split
        · exact flush.bind fun _ => (fill cursor).bind fun _ => trivial
        · trivial

theorem within_serialPortRead (mem : Mem) (buffer : Nat) (bytes : UInt32) :
    Within (ToRegister pcds) (serialPortRead pcds fuel mem buffer bytes) := by
  have control (value : UInt8) :
      Within (ToRegister pcds) (controlRts pcds (getSerialRegisterBase pcds) value) := by
    rw [controlRts]
    split
    · exact within_serialOut pcds 4 value
    · trivial
  have wait (mcr : UInt8) : Within (ToRegister pcds)
      (waitReadable pcds fuel (getSerialRegisterBase pcds) mcr) := by
    refine Within.loop (fun _ => (within_serialIn pcds 5).bind fun answer => ?_) fuel ()
    split
    · exact (control _).bind fun _ => trivial
    · trivial
  rw [serialPortRead]
  split
  · trivial
  · simp only
    split
    · trivial
    · refine (within_serialIn pcds 4).bind fun mcr => ?_
      refine (Within.loop (fun state => ?_) fuel _).bind fun _ => trivial
      rw [readPass]
      split
      · refine (wait _).bind fun _ => (control _).bind fun _ => ?_
        exact (within_serialIn pcds 0).bind fun byte => trivial
      · trivial

theorem within_session (calls : List PortCall) (mem : Mem) :
    Within (ToRegister pcds) (session pcds fuel calls mem) := by
  induction calls generalizing mem with
  | nil => trivial
  | cons call rest ih =>
      have one : Within (ToRegister pcds) (call.prog pcds fuel mem) := by
        cases call with
        | write buffer bytes =>
            exact (within_serialPortWrite pcds fuel mem buffer bytes).bind fun _ => trivial
        | read buffer bytes =>
            exact (within_serialPortRead pcds fuel mem buffer bytes).bind fun _ => trivial
      exact one.bind fun answer => (ih answer.1).bind fun _ => trivial

end Driver

/-- In every run of the driver the addresses are decoded to the registers that are meant. -/
theorem console_decoded {pcds : SerialPcds} (apart : Apart pcds) {fuel : Nat} {calls : List PortCall}
    {mem : Mem} {trace : Trace} {outcome : Option (Mem × List Nat)}
    (run : Runs (console pcds fuel calls mem) trace outcome) :
    trace.map (decodeEvent pcds) = trace.map fun event => some (meant event) := by
  have registers : Within (ToRegister pcds) (console pcds fuel calls mem) :=
    (within_serialPortInitialize pcds fuel).bind fun _ => within_session pcds fuel calls mem
  exact List.map_congr_left fun event inside =>
    decodeEvent_of_toRegister apart (registers.of_runs run event inside)

example : Apart (infPcds 0x07 64) := by decide

end ArcFirmware.SerialDecoding
