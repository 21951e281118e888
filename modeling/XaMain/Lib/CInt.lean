import XaMain.Lib.Decimal

/-!
# Arithmetic of `int`

The operators of C++ on a 32-bit `int`, with a result for the operands they are defined on.
-/

set_option autoImplicit false

namespace CInt

open Decimal

/-- `a - b` -/
def sub (a b : Int) : Option Int := if FitsInt (a - b) then some (a - b) else none

/-- `a << n`.  The count has to be less than the width of the operand, which must not be negative,
and no bit may be shifted beyond the sign bit. -/
def shl (a n : Int) : Option Int :=
  if 0 ≤ n ∧ n < 32 ∧ 0 ≤ a ∧ a * 2 ^ n.toNat < 2 ^ 32 then some ((a * 2 ^ n.toNat).bmod (2 ^ 32))
  else none

/-- A bit below the sign bit. -/
theorem shl_one {n : Nat} (h : n < 31) : shl 1 n = some (2 ^ n) := by
  have hpow : 2 ^ n ≤ 2 ^ 30 := Nat.pow_le_pow_right (by decide) (by omega)
  have hle : (2 : Int) ^ n ≤ 2 ^ 30 := by exact_mod_cast hpow
  have hpos : (0 : Int) < 2 ^ n := Int.pow_pos (by decide)
  rw [shl, Int.toNat_natCast, Int.one_mul, if_pos (by omega),
    Int.bmod_eq_of_le (by omega) (by omega)]

end CInt
