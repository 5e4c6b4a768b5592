import Mosnix.Lib.Mos6502
import Mosnix.Machine

/-!
# The imaginary registers

The compiler for the 6502 passes arguments and keeps temporary values in the bytes `__rc0` to
`__rc31` of the zero page.  The linker script of the kernel puts them at its start.
-/

namespace Mosnix

open Mos6502

/-- The address of the imaginary register `__rc<i>`. -/
def rc (i : ℕ) : Word := BitVec.ofNat 16 i

/-- An imaginary register as an operand. -/
def reg (i : ℕ) : Mode := .abs (rc i)

variable {i j : ℕ}

theorem toNat_rc (hi : i < 32) : (rc i).toNat = i := by
  unfold rc
  bv_omega

/-- Different registers have different addresses. -/
theorem rc_inj (hi : i < 32) (hj : j < 32) : rc i = rc j ↔ i = j := by
  rw [← BitVec.toNat_inj, toNat_rc hi, toNat_rc hj]

/-- The return stack has no register. -/
theorem stackAddr_ne_rc (s : Byte) (hi : i < 32) : Cpu.stackAddr s ≠ rc i := by
  rw [Cpu.stackAddr, rc]
  bv_omega

end Mosnix
