import Mathlib.Algebra.Order.Ring.Int

/-!
# The type `int`

Values of `int` are integers, and arithmetic on them wraps around at 32 bits.
-/

namespace Lib.CInt

def INT_MAX : Int := 2147483647

/-- The `int` that an integer is converted to. -/
def toInt (n : Int) : Int := Int.bmod n (2 ^ 32)

/-- Addition of two `int`. -/
def addInt (a b : Int) : Int := toInt (a + b)

theorem toInt_eq {n : Int} (hlo : 0 ≤ n) (hhi : n ≤ INT_MAX) : toInt n = n := by
  unfold INT_MAX at hhi
  exact Int.bmod_eq_of_le (by omega) (by omega)

theorem addInt_eq {a b : Int} (hlo : 0 ≤ a + b) (hhi : a + b ≤ INT_MAX) : addInt a b = a + b :=
  toInt_eq hlo hhi

/-- A sum that is too large comes out negative, and is not `-1`. -/
theorem addInt_le {a b : Int} (ha : a ≤ INT_MAX) (hb : b ≤ INT_MAX) (hab : INT_MAX < a + b) :
    addInt a b ≤ -2 := by
  unfold INT_MAX at *
  unfold addInt toInt
  have hdvd := Int.dvd_bmod_sub_self (x := a + b) (m := 2 ^ 32)
  have hlt := Int.bmod_lt (x := a + b) (m := 2 ^ 32) (by decide)
  omega

end Lib.CInt
