import Mathlib.Algebra.Group.Nat.Defs
import Mathlib.Data.Nat.Notation

namespace Cocos.Lib

/-!
# Big integers and numbers

What a `BigInt` goes through on its way to a `Number`.

* `bigIntDiv` — the quotient, cut towards zero; `none` is the `RangeError` of a division by
  zero;
* `toNumber` — `Number` of a `BigInt`, which keeps 53 significant bits: the nearest such
  value, and of two as near the one with an even last bit;
* `toNumber_eq_self` — **it is exact below `2 ^ 53`**.
-/

/-- `a / b` of two `BigInt`s. -/
def bigIntDiv (a b : Int) : Option Int := if b = 0 then none else some (a.tdiv b)

theorem bigIntDiv_of_ne_zero {a b : Int} (h : b ≠ 0) : bigIntDiv a b = some (a.tdiv b) := by
  rw [bigIntDiv, if_neg h]

/-- `Number(n)` of a `BigInt` of magnitude below `2 ^ 1023`; the largest ones are infinite. -/
def toNumber (n : Int) : Int :=
  let unit := 2 ^ (n.natAbs.log2 - 52)
  let low := n.natAbs / unit
  let rest := n.natAbs % unit
  let nearest := if 2 * rest < unit then low else if unit < 2 * rest then low + 1 else low + low % 2
  n.sign * (nearest * unit : Nat)

/-- **A whole number below `2 ^ 53` is a `Number` as it is.** -/
theorem toNumber_eq_self {n : Int} (h : n.natAbs < 2 ^ 53) : toNumber n = n := by
  -- its bits all fit, so the unit of the last place is one
  have hunit : n.natAbs.log2 - 52 = 0 := by
    by_cases hzero : n.natAbs = 0
    · rw [hzero]
      rfl
    · have hlog : n.natAbs.log2 < 53 := (Nat.log2_lt hzero).mpr h
      omega
  simp only [toNumber, hunit, Nat.pow_zero, Nat.div_one, Nat.mod_one, Nat.mul_zero, Nat.lt_one_iff,
    if_true, Nat.mul_one]
  exact Int.sign_mul_natAbs n

end Cocos.Lib
