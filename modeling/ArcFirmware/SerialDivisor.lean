import ArcFirmware.Lib.Rounding
import ArcFirmware.SerialSetup

/-!
# The baud divisor

What `SerialPortInitialize` computes in 32-bit arithmetic and leaves in the
divisor latch, against the nearest integer to `Ref_Clk_Rate / Baud_Rate / 16`.
The two agree up to the fastest rate the clock can give; above it the driver
programs zero, and from 2^28 baud on its products wrap.
-/

set_option autoImplicit false

namespace ArcFirmware.SerialDivisor

open ArcFirmware.Port ArcFirmware.Ns16550 ArcFirmware.Uart16550 ArcFirmware.SerialSetup
open ArcFirmware.Rounding

/-! ## The exact value -/

def nearestDivisor (clock baud : UInt32) : Int :=
  round ((clock.toNat : ℚ) / (16 * baud.toNat))

section Nearest

variable {clock baud : UInt32}

theorem nearestDivisor_eq_half (clock baud : UInt32) :
    nearestDivisor clock baud = round ((clock.toNat : ℚ) / (2 * (8 * baud.toNat : Nat))) := by
  rw [nearestDivisor]
  push_cast
  ring_nf

theorem nearestDivisor_eq (nonzero : baud ≠ 0) :
    nearestDivisor clock baud =
      ((clock.toNat / (2 * (8 * baud.toNat)) +
        if 8 * baud.toNat ≤ clock.toNat % (2 * (8 * baud.toNat)) then 1 else 0 : Nat) : Int) := by
  have positive := toNat_pos nonzero
  rw [nearestDivisor_eq_half, round_div clock.toNat (show 0 < 8 * baud.toNat by omega)]

theorem nearestDivisor_nonneg (nonzero : baud ≠ 0) : 0 ≤ nearestDivisor clock baud := by
  rw [nearestDivisor_eq nonzero]
  exact Int.natCast_nonneg _

theorem nearestDivisor_pos_iff (nonzero : baud ≠ 0) :
    0 < nearestDivisor clock baud ↔ 8 * baud.toNat ≤ clock.toNat := by
  have positive := toNat_pos nonzero
  rw [nearestDivisor_eq_half, round_div_pos_iff clock.toNat (show 0 < 8 * baud.toNat by omega)]

end Nearest

/-! ## The computed value -/

/-- No step of the computation divides by zero or wraps. -/
structure Exact (clock baud : UInt32) : Prop where
  divides : baud * 16 ≠ 0
  product : (baud * 16).toNat = baud.toNat * 16
  halfway : (baud * 8).toNat = baud.toNat * 8
  carry : clock % (baud * 16) ≥ baud * 8 → (clock / (baud * 16)).toNat + 1 < 2 ^ 32

section Arithmetic

variable {clock baud : UInt32}

theorem exact_iff (nonzero : baud ≠ 0) : Exact clock baud ↔ baud.toNat < 2 ^ 28 := by
  have positive := toNat_pos nonzero
  have wrapped : (baud * 16).toNat = baud.toNat * 16 % 2 ^ 32 := UInt32.toNat_mul baud 16
  constructor
  · intro exact
    have product := exact.product
    omega
  · intro small
    have product : (baud * 16).toNat = baud.toNat * 16 := by omega
    refine ⟨fun zero => ?_, product, ?_, fun _ => ?_⟩
    · rw [zero] at product
      have none : (0 : UInt32).toNat = 0 := rfl
      omega
    · have eight : (baud * 8).toNat = baud.toNat * 8 % 2 ^ 32 := UInt32.toNat_mul baud 8
      omega
    · have word := clock.toNat_lt
      have quotient : clock.toNat / (baud.toNat * 16) ≤ clock.toNat / 16 :=
        Nat.div_le_div_left (by omega) (by omega)
      rw [UInt32.toNat_div, product]
      omega

theorem divisor_eq_nearest (pcds : SerialPcds) (nonzero : pcds.baudRate ≠ 0)
    (exact : Exact pcds.clockRate pcds.baudRate) :
    ((divisor pcds).toNat : Int) = nearestDivisor pcds.clockRate pcds.baudRate := by
  have scale : pcds.baudRate.toNat * 16 = 2 * (8 * pcds.baudRate.toNat) := by omega
  have quotient : (pcds.clockRate / (pcds.baudRate * 16)).toNat =
      pcds.clockRate.toNat / (2 * (8 * pcds.baudRate.toNat)) := by
    rw [UInt32.toNat_div, exact.product, scale]
  have halfway : pcds.clockRate % (pcds.baudRate * 16) ≥ pcds.baudRate * 8 ↔
      8 * pcds.baudRate.toNat ≤ pcds.clockRate.toNat % (2 * (8 * pcds.baudRate.toNat)) := by
    rw [ge_iff_le, UInt32.le_iff_toNat_le, UInt32.toNat_mod, exact.product, exact.halfway, scale,
      Nat.mul_comm]
  rw [nearestDivisor_eq nonzero, divisor]
  by_cases upper : pcds.clockRate % (pcds.baudRate * 16) ≥ pcds.baudRate * 8
  · have room := exact.carry upper
    have one : (1 : UInt32).toNat = 1 := rfl
    rw [if_pos upper, if_pos (halfway.mp upper), UInt32.toNat_add, one, Nat.mod_eq_of_lt room,
      quotient]
  · rw [if_neg upper, if_neg fun enough => upper (halfway.mpr enough), quotient, Nat.add_zero]

end Arithmetic

/-! ## What a call leaves in the latch -/

def divisorLatch (regs : Registers) : Nat := regs.dll.toNat + 256 * regs.dlm.toNat

structure BuiltWith (clock baud : UInt32) (pcds : SerialPcds) : Prop where
  clockRate : pcds.clockRate = clock
  baudRate : pcds.baudRate = baud
  configured : pcds.registerBase ≠ 0

theorem divisorLatch_after (pcds : SerialPcds) (configured : pcds.registerBase ≠ 0) (fuel : Nat)
    (trace : Trace) (result : UInt32)
    (run : Runs (serialPortInitialize pcds fuel) trace (some result)) (regs : Registers) :
    divisorLatch (regs.after trace) = (divisor pcds).toNat % 2 ^ 16 := by
  rw [serialPortInitialize_regs pcds configured fuel trace result run, after_setupWrites]
  exact divisor_bytes (divisor pcds)

/-- The best divisor is programmed: every call computes without a fault or a wrap, returns once
the transmitter is empty, and leaves the nearest integer in the latch, but never zero. -/
structure ProgramsBest (clock baud : UInt32) : Prop where
  exact : Exact clock baud
  returns : ∀ pcds, BuiltWith clock baud pcds → ∀ busy answer,
    (∀ shown ∈ busy, shown &&& bUartLsrTemt = 0) → answer &&& bUartLsrTemt ≠ 0 →
    ∃ fuel, Runs (serialPortInitialize pcds fuel)
      ((busy ++ [answer]).map (.read (accessOf pcds rUartLsr)) ++ setupWrites pcds)
      (some pcds.registerBase)
  latched : ∀ pcds, BuiltWith clock baud pcds → ∀ fuel trace result,
    Runs (serialPortInitialize pcds fuel) trace (some result) →
    ∀ regs : Registers, (divisorLatch (regs.after trace) : Int) = max 1 (nearestDivisor clock baud)

section Best

variable {clock baud : UInt32}

def ratePcds (clock baud : UInt32) : SerialPcds :=
  { infPcds 0x07 64 with clockRate := clock, baudRate := baud }

theorem ratePcds_built (clock baud : UInt32) : BuiltWith clock baud (ratePcds clock baud) :=
  ⟨rfl, rfl, show (0xf0005000 : UInt32) ≠ 0 by decide⟩

theorem latch_of_exact (nonzero : baud ≠ 0) (exact : Exact clock baud) {pcds : SerialPcds}
    (built : BuiltWith clock baud pcds) (fuel : Nat) (trace : Trace) (result : UInt32)
    (run : Runs (serialPortInitialize pcds fuel) trace (some result)) (regs : Registers) :
    (divisorLatch (regs.after trace) : Int) = nearestDivisor clock baud % 2 ^ 16 := by
  obtain ⟨rfl, rfl, configured⟩ := built
  rw [divisorLatch_after pcds configured fuel trace result run regs, Int.natCast_mod,
    divisor_eq_nearest pcds nonzero exact]
  rfl

/-- A rate the clock cannot give is programmed as zero, not as one. -/
theorem ProgramsBest.attainable (nonzero : baud ≠ 0) (best : ProgramsBest clock baud) :
    0 < nearestDivisor clock baud := by
  obtain ⟨fuel, run⟩ := best.returns (ratePcds clock baud) (ratePcds_built clock baud) [] 0x60
    (fun _ inside => nomatch inside) (by decide)
  have latched := best.latched _ (ratePcds_built clock baud) fuel _ _ run (Registers.mk 0 0 0 0 0 0)
  rw [latch_of_exact nonzero best.exact (ratePcds_built clock baud) fuel _ _ run] at latched
  have nonneg : 0 ≤ nearestDivisor clock baud := nearestDivisor_nonneg nonzero
  omega

theorem programsBest_of_exact (nonzero : baud ≠ 0) (exact : Exact clock baud)
    (positive : 0 < nearestDivisor clock baud) (fits : nearestDivisor clock baud ≤ 65535) :
    ProgramsBest clock baud := by
  refine ⟨exact, ?_, ?_⟩
  · intro pcds built busy answer waits empty
    have rate : pcds.baudRate * 16 ≠ 0 := by
      rw [built.baudRate]
      exact exact.divides
    exact ⟨_, serialPortInitialize_runs pcds built.configured rate busy answer waits empty⟩
  · intro pcds built fuel trace result run regs
    rw [latch_of_exact nonzero exact built fuel trace result run regs]
    omega

theorem programsBest_iff (clock baud : UInt32) (nonzero : baud ≠ 0)
    (fits : 0 ≤ nearestDivisor clock baud ∧ nearestDivisor clock baud ≤ 65535) :
    ProgramsBest clock baud ↔ baud.toNat < 2 ^ 28 ∧ 8 * baud.toNat ≤ clock.toNat := by
  rw [← exact_iff nonzero, ← nearestDivisor_pos_iff nonzero]
  constructor
  · intro best
    exact ⟨best.exact, best.attainable nonzero⟩
  · intro ⟨exact, positive⟩
    exact programsBest_of_exact nonzero exact positive fits.2

theorem programsBest_board : ProgramsBest 33333333 115200 :=
  (programsBest_iff 33333333 115200 (by decide)
    (by rw [nearestDivisor_eq (by decide)]; decide)).mpr (by decide)

/-- A clock of 1.8432 MHz cannot give 460800 baud: the latch is programmed with zero. -/
theorem fast_rate_stops_generator :
    (460800 : UInt32) ≠ 0 ∧
      (0 ≤ nearestDivisor 1843200 460800 ∧ nearestDivisor 1843200 460800 ≤ 65535) ∧
      (∃ fuel trace, Runs (serialPortInitialize (ratePcds 1843200 460800) fuel) trace
          (some 0xf0005000) ∧
        ∀ regs : Registers, divisorLatch (regs.after trace) = 0) ∧
      ¬ ProgramsBest 1843200 460800 := by
  have none : nearestDivisor 1843200 460800 = 0 := by
    rw [nearestDivisor_eq (by decide)]
    decide
  have exact : Exact 1843200 460800 := (exact_iff (by decide)).mpr (by decide)
  have run := setupTrace_runs (ratePcds 1843200 460800) (by decide) (by decide)
  refine ⟨by decide, ?_, ⟨1, _, run, fun regs => ?_⟩, ?_⟩
  · rw [none]
    decide
  · have latched := latch_of_exact (by decide) exact (ratePcds_built 1843200 460800) 1 _ _ run regs
    rw [none] at latched
    omega
  · intro best
    have positive := best.attainable (by decide)
    omega

end Best

end ArcFirmware.SerialDivisor
