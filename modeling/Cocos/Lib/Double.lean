import Mathlib.Algebra.Order.Field.Power
import Mathlib.Data.Int.Log
import Mathlib.Data.Rat.Floor
import Mathlib.Tactic.Linarith

namespace Cocos.Lib

/-!
# Numbers of 53 bits

The results of arithmetic on JavaScript numbers.  A number is kept as the rational it stands for,
and the exact result of an operation is rounded to the nearest one.

* `roundEven` — the nearest whole number, and of two as near the even one;
* `toDouble` — the nearest number of 53 significant bits, for values that are not negative;
* `toDouble_le` — **rounding passes no whole number below `2 ^ 53`**;
* `toDouble_mono`, `toDouble_eq_self` — it keeps the order, and numbers of no more than 53 bits;
* `abs_toDouble_sub_le` — and moves no value by more than half a unit of its last place;
* `nearest` — the nearest number on either side of zero, and `toCents`, `toFixed`, a value of two
  decimals scaled to a whole number and written with its two decimals.

The exponent is not bounded: no value that is rounded here is below the smallest number, no sum of
money comes near the largest, and a product past it is only compared with small ones.
-/

/-- The nearest whole number, and of two as near the even one. -/
def roundEven (x : ℚ) : ℤ :=
  let rest := x - ⌊x⌋
  if rest < 1 / 2 then ⌊x⌋ else if 1 / 2 < rest then ⌊x⌋ + 1 else ⌊x⌋ + ⌊x⌋ % 2

/-- What is not above a whole number is not rounded above it. -/
theorem roundEven_le {x : ℚ} {n : ℤ} (h : x ≤ n) : roundEven x ≤ n := by
  have hfloor : ⌊x⌋ ≤ n := Int.floor_le_iff.mpr (by linarith)
  rcases hfloor.eq_or_lt with heq | hlt
  · -- the value is that whole number
    have hx : x - ⌊x⌋ < 1 / 2 := by
      rw [heq]
      linarith
    rw [roundEven, if_pos hx]
    exact hfloor
  · have hparity := Int.emod_two_eq_zero_or_one ⌊x⌋
    simp only [roundEven]
    split_ifs <;> omega

/-- What is not below a whole number is not rounded below it. -/
theorem le_roundEven {x : ℚ} {n : ℤ} (h : n ≤ x) : n ≤ roundEven x := by
  have hfloor : n ≤ ⌊x⌋ := Int.le_floor.mpr h
  have hparity := Int.emod_two_eq_zero_or_one ⌊x⌋
  simp only [roundEven]
  split_ifs <;> omega

@[simp] theorem roundEven_intCast (n : ℤ) : roundEven n = n :=
  le_antisymm (roundEven_le le_rfl) (le_roundEven le_rfl)

/-- **Rounding keeps the order.** -/
theorem roundEven_mono {x y : ℚ} (h : x ≤ y) : roundEven x ≤ roundEven y := by
  rcases (Int.floor_mono h).lt_or_eq with hlt | heq
  · have hx : roundEven x ≤ ⌊x⌋ + 1 :=
      roundEven_le (by exact_mod_cast (Int.lt_floor_add_one x).le)
    have hy : ⌊y⌋ ≤ roundEven y := le_roundEven (Int.floor_le y)
    omega
  · have hparity := Int.emod_two_eq_zero_or_one ⌊y⌋
    simp only [roundEven, heq]
    split_ifs <;> first | omega | linarith

/-- The unit of the last of 53 places. -/
def lastPlace (x : ℚ) : ℚ := 2 ^ (Int.log 2 x - 52)

/-- The nearest number of 53 significant bits. -/
def toDouble (x : ℚ) : ℚ := roundEven (x / lastPlace x) * lastPlace x

theorem lastPlace_pos (x : ℚ) : 0 < lastPlace x := by
  unfold lastPlace
  positivity

/-- **What is not above a whole number below `2 ^ 53` is not rounded above it.** -/
theorem toDouble_le {x : ℚ} {n : ℕ} (h : x ≤ n) (hn : n < 2 ^ 53) : toDouble x ≤ n := by
  have hunit := lastPlace_pos x
  -- the unit is not more than one, so the whole number has a place of its own
  have hlog : Int.log 2 x ≤ 52 := by
    rcases le_or_gt x 0 with hx | hx
    · rw [Int.log_of_right_le_zero _ hx]
      decide
    · have hlt : x < (2 : ℚ) ^ (53 : ℤ) := h.trans_lt (by exact_mod_cast hn)
      exact Int.lt_add_one_iff.mp ((Int.lt_zpow_iff_log_lt (by decide) hx).mp hlt)
  obtain ⟨k, hk⟩ : ∃ k : ℕ, 52 - Int.log 2 x = k := ⟨_, (Int.toNat_of_nonneg (by omega)).symm⟩
  have hplace : (n : ℚ) = ((n * 2 ^ k : ℕ) : ℤ) * lastPlace x := by
    have hpower : lastPlace x = ((2 : ℚ) ^ k)⁻¹ := by
      rw [lastPlace, show Int.log 2 x - 52 = -(k : ℤ) by omega, zpow_neg, zpow_natCast]
    rw [hpower]
    push_cast
    field_simp
  have hround : roundEven (x / lastPlace x) ≤ ((n * 2 ^ k : ℕ) : ℤ) := by
    apply roundEven_le
    rw [div_le_iff₀ hunit, ← hplace]
    exact h
  rw [hplace]
  unfold toDouble
  gcongr

/-! ### Order and exactness -/

theorem pow_mul_lastPlace (x : ℚ) (k : ℕ) :
    ((2 ^ k : ℤ) : ℚ) * lastPlace x = 2 ^ (Int.log 2 x + k - 52) := by
  have htwo : (2 : ℚ) ≠ 0 := two_ne_zero
  rw [lastPlace, Int.cast_pow, Int.cast_ofNat, ← zpow_natCast, ← zpow_add₀ htwo]
  congr 1
  ring

/-- A number is rounded to no more than the power of two above it. -/
theorem toDouble_le_zpow (x : ℚ) : toDouble x ≤ 2 ^ (Int.log 2 x + 1) := by
  have hpower := pow_mul_lastPlace x 53
  rw [show Int.log 2 x + ((53 : ℕ) : ℤ) - 52 = Int.log 2 x + 1 by push_cast; ring] at hpower
  rw [← hpower]
  refine mul_le_mul_of_nonneg_right (Int.cast_le.mpr (roundEven_le ?_)) (lastPlace_pos x).le
  rw [div_le_iff₀ (lastPlace_pos x), hpower]
  exact (Int.lt_zpow_succ_log_self (b := 2) (by decide) x).le

/-- And to no less than the one below it. -/
theorem zpow_le_toDouble {x : ℚ} (h : 0 < x) : 2 ^ Int.log 2 x ≤ toDouble x := by
  have hpower := pow_mul_lastPlace x 52
  rw [show Int.log 2 x + ((52 : ℕ) : ℤ) - 52 = Int.log 2 x by push_cast; ring] at hpower
  rw [← hpower]
  refine mul_le_mul_of_nonneg_right (Int.cast_le.mpr (le_roundEven ?_)) (lastPlace_pos x).le
  rw [le_div_iff₀ (lastPlace_pos x), hpower]
  exact Int.zpow_log_le_self (b := 2) (by decide) h

@[simp] theorem toDouble_zero : toDouble 0 = 0 := by
  rw [toDouble, zero_div, ← Int.cast_zero, roundEven_intCast, Int.cast_zero, zero_mul]

/-- **Rounding keeps the order.** -/
theorem toDouble_mono {x y : ℚ} (hx : 0 ≤ x) (h : x ≤ y) : toDouble x ≤ toDouble y := by
  rcases hx.eq_or_lt with rfl | hpos
  · rcases h.eq_or_lt with rfl | hy
    · exact le_rfl
    · rw [toDouble_zero]
      exact (zpow_nonneg two_pos.le _).trans (zpow_le_toDouble hy)
  rcases (Int.log_mono_right (b := 2) hpos h).lt_or_eq with hlt | heq
  -- a power of two is between them
  · calc toDouble x ≤ 2 ^ (Int.log 2 x + 1) := toDouble_le_zpow x
      _ ≤ 2 ^ Int.log 2 y := zpow_le_zpow_right₀ one_le_two (by omega)
      _ ≤ toDouble y := zpow_le_toDouble (hpos.trans_le h)
  · have hplace : lastPlace x = lastPlace y := by rw [lastPlace, lastPlace, heq]
    have hround : roundEven (x / lastPlace y) ≤ roundEven (y / lastPlace y) :=
      roundEven_mono (div_le_div_of_nonneg_right h (lastPlace_pos y).le)
    rw [toDouble, toDouble, hplace]
    exact mul_le_mul_of_nonneg_right (Int.cast_le.mpr hround) (lastPlace_pos y).le

/-- **A number of no more than 53 binary digits is kept as it is.** -/
theorem toDouble_eq_self {x : ℚ} {k n : ℕ} (hx : x * 2 ^ k = n) (hn : n < 2 ^ 53) :
    toDouble x = x := by
  rcases Nat.eq_zero_or_pos n with rfl | hpos
  · have hzero : x = 0 := by
      rw [Nat.cast_zero, mul_eq_zero] at hx
      exact hx.resolve_right (by positivity)
    rw [hzero, toDouble_zero]
  have hxpos : 0 < x := by
    have hn' : (0 : ℚ) < x * 2 ^ k := by
      rw [hx]
      exact_mod_cast hpos
    exact (pos_iff_pos_of_mul_pos hn').mpr (by positivity)
  -- the unit divides it
  obtain ⟨j, hj⟩ : ∃ j : ℕ, 52 - k - Int.log 2 x = j := by
    refine ⟨_, (Int.toNat_of_nonneg ?_).symm⟩
    have hlt : x < (2 : ℚ) ^ (53 - k : ℤ) := by
      rw [zpow_sub₀ two_ne_zero, lt_div_iff₀ (by positivity), zpow_natCast, hx]
      exact_mod_cast hn
    have hlog := (Int.lt_zpow_iff_log_lt (b := 2) (by decide) hxpos).mp hlt
    omega
  have hplace : x = ((n * 2 ^ j : ℕ) : ℤ) * lastPlace x := by
    have hpower : lastPlace x = ((2 : ℚ) ^ k)⁻¹ * ((2 : ℚ) ^ j)⁻¹ := by
      rw [lastPlace, show Int.log 2 x - 52 = -(k : ℤ) + -(j : ℤ) by omega,
        zpow_add₀ two_ne_zero, zpow_neg, zpow_neg, zpow_natCast, zpow_natCast]
    rw [hpower]
    push_cast
    rw [← hx]
    field_simp
  have hunits : x / lastPlace x = ((n * 2 ^ j : ℕ) : ℤ) := by
    rw [div_eq_iff (lastPlace_pos x).ne']
    exact hplace
  rw [toDouble, hunits, roundEven_intCast, ← hplace]

/-! ### How far a value is moved -/

/-- The nearest whole number is half a unit away at most. -/
theorem abs_roundEven_sub_le (x : ℚ) : |(roundEven x : ℚ) - x| ≤ 1 / 2 := by
  have hlow := Int.floor_le x
  have hhigh := Int.lt_floor_add_one x
  have hparity := Int.emod_two_eq_zero_or_one ⌊x⌋
  simp only [roundEven]
  rw [abs_le]
  split_ifs with hbelow habove
  · constructor <;> linarith
  · push_cast
    constructor <;> linarith
  · have hrest : x - ⌊x⌋ = 1 / 2 := le_antisymm (not_lt.mp habove) (not_lt.mp hbelow)
    rcases hparity with heven | hodd
    · rw [heven]
      push_cast
      constructor <;> linarith
    · rw [hodd]
      push_cast
      constructor <;> linarith

/-- **A value is moved by half a unit of its last place at most.** -/
theorem abs_toDouble_sub_le (x : ℚ) : |toDouble x - x| ≤ lastPlace x / 2 := by
  have hunit := lastPlace_pos x
  have hunits : x = x / lastPlace x * lastPlace x := by field_simp
  calc |toDouble x - x|
      = |(roundEven (x / lastPlace x) - x / lastPlace x) * lastPlace x| := by
        rw [toDouble, sub_mul, ← hunits]
    _ = |(roundEven (x / lastPlace x) : ℚ) - x / lastPlace x| * lastPlace x := by
        rw [abs_mul, abs_of_pos hunit]
    _ ≤ 1 / 2 * lastPlace x :=
        mul_le_mul_of_nonneg_right (abs_roundEven_sub_le _) hunit.le
    _ = lastPlace x / 2 := by ring

/-- Below a power of two the last place is of the power 53 places down at most. -/
theorem lastPlace_le {x : ℚ} (hpos : 0 < x) {k : ℤ} (h : x < 2 ^ k) :
    lastPlace x ≤ 2 ^ (k - 53) := by
  have hlog := (Int.lt_zpow_iff_log_lt (b := 2) (by decide) hpos).mp (by exact_mod_cast h)
  exact zpow_le_zpow_right₀ one_le_two (by omega)

theorem toDouble_nonneg {x : ℚ} (h : 0 ≤ x) : 0 ≤ toDouble x :=
  toDouble_zero ▸ toDouble_mono le_rfl h

/-- A value below a power of two is moved by little. -/
theorem abs_toDouble_sub_le_of_lt {x : ℚ} (hx : 0 ≤ x) {k : ℤ} (h : x < 2 ^ k) :
    |toDouble x - x| ≤ 2 ^ (k - 53) / 2 := by
  rcases hx.eq_or_lt with rfl | hpos
  · rw [toDouble_zero, sub_zero, abs_zero]
    positivity
  · refine (abs_toDouble_sub_le x).trans ?_
    linarith [lastPlace_le hpos h]

/-! ### Both sides of zero -/

/-- The nearest number, of a value of either sign. -/
def nearest (x : ℚ) : ℚ := if x < 0 then -toDouble (-x) else toDouble x

theorem nearest_of_nonneg {x : ℚ} (h : 0 ≤ x) : nearest x = toDouble x := if_neg h.not_gt

/-- The two sides of zero are alike. -/
theorem nearest_neg (x : ℚ) : nearest (-x) = -nearest x := by
  unfold nearest
  rcases lt_trichotomy x 0 with h | rfl | h
  · rw [if_neg (by linarith), if_pos h, neg_neg]
  · simp
  · rw [if_pos (by linarith), if_neg (by linarith), neg_neg]

/-- **Whole numbers below `2 ^ 53` are numbers.** -/
theorem nearest_intCast {n : ℤ} (h : |n| < 2 ^ 53) : nearest n = n := by
  have hkept : ∀ m : ℕ, m < 2 ^ 53 → nearest ((m : ℤ) : ℚ) = ((m : ℤ) : ℚ) := by
    intro m hm
    rw [Int.cast_natCast, nearest_of_nonneg (Nat.cast_nonneg m)]
    exact toDouble_eq_self (k := 0) (n := m) (by rw [pow_zero, mul_one]) hm
  obtain ⟨m, rfl | rfl⟩ := n.eq_nat_or_neg
  · exact hkept m (by rw [Nat.abs_cast] at h; exact_mod_cast h)
  · rw [Int.cast_neg, nearest_neg, hkept m (by rw [abs_neg, Nat.abs_cast] at h; exact_mod_cast h)]

/-! ### Two decimals -/

/-- `Math.round(x * 100)`, where a product is rounded by `number`. -/
def toCents (number : ℚ → ℚ) (x : ℚ) : ℤ := ⌊number (x * 100) + 1 / 2⌋

/-- `x.toFixed(2)`, in hundredths: the nearest, and of two as near the one farther from zero. -/
def toFixed (x : ℚ) : ℤ := if x < 0 then -⌊-x * 100 + 1 / 2⌋ else ⌊x * 100 + 1 / 2⌋

/-- What is within half of a whole number is rounded to it. -/
theorem floor_add_half_eq {x : ℚ} {n : ℤ} (h : |x - n| < 1 / 2) : ⌊x + 1 / 2⌋ = n := by
  obtain ⟨hlow, hhigh⟩ := abs_lt.mp h
  rw [Int.floor_eq_iff]
  constructor <;> linarith

/-- A value of two decimals is written as it is. -/
theorem toFixed_div (n : ℤ) : toFixed ((n : ℚ) / 100) = n := by
  have hnear : ∀ m : ℤ, ⌊(m : ℚ) / 100 * 100 + 1 / 2⌋ = m := fun m =>
    floor_add_half_eq (by simp)
  unfold toFixed
  split
  · have hneg := hnear (-n)
    rw [Int.cast_neg, neg_div] at hneg
    rw [hneg, neg_neg]
  · exact hnear n

/-- **A value of two decimals is scaled to its hundredths** while it is below `2 ^ 45`. -/
theorem toCents_nearest_of_nonneg {n : ℤ} (hn : 0 ≤ n) (h : n < 2 ^ 45 * 100) :
    |nearest (nearest (n / 100) * 100) - n| < 1 / 2 := by
  have hx : (0 : ℚ) ≤ n / 100 := by positivity
  have hlt : (n : ℚ) / 100 < 2 ^ (45 : ℤ) := by
    rw [div_lt_iff₀ (by norm_num)]
    exact_mod_cast h
  have hpower : toDouble ((n : ℚ) / 100) ≤ 2 ^ (45 : ℤ) := by
    have hmono := toDouble_mono hx hlt.le
    rwa [toDouble_eq_self (x := 2 ^ (45 : ℤ)) (k := 0) (n := 2 ^ 45) (by norm_num)
      (by norm_num)] at hmono
  have hnonneg := toDouble_nonneg hx
  -- the two roundings move it by less than a half together
  have hfirst := abs_le.mp (abs_toDouble_sub_le_of_lt hx hlt)
  have hsecond := abs_le.mp (abs_toDouble_sub_le_of_lt (k := 52)
    (x := toDouble ((n : ℚ) / 100) * 100) (by positivity)
    (by norm_num at hpower ⊢; linarith))
  rw [nearest_of_nonneg hx, nearest_of_nonneg (by positivity)]
  norm_num at hfirst hsecond
  rw [abs_lt]
  constructor <;> linarith

theorem toCents_nearest {n : ℤ} (h : |n| < 2 ^ 45 * 100) :
    toCents nearest (nearest (n / 100)) = n := by
  refine floor_add_half_eq ?_
  obtain ⟨hlow, hhigh⟩ := abs_lt.mp h
  rcases le_total 0 n with hn | hn
  · exact toCents_nearest_of_nonneg hn hhigh
  · have hneg := toCents_nearest_of_nonneg (n := -n) (by omega) (by omega)
    rw [Int.cast_neg, neg_div, nearest_neg, neg_mul, nearest_neg, ← neg_sub', abs_neg] at hneg
    exact hneg

/-- **And is written as it is** while it is below `2 ^ 46`. -/
theorem toFixed_nearest {n : ℤ} (h : |n| < 2 ^ 46 * 100) : toFixed (nearest (n / 100)) = n := by
  have hnear : ∀ m : ℤ, 0 ≤ m → m < 2 ^ 46 * 100 →
      ⌊toDouble ((m : ℚ) / 100) * 100 + 1 / 2⌋ = m := by
    intro m hm hlt
    have hx : (0 : ℚ) ≤ m / 100 := by positivity
    have hbound : (m : ℚ) / 100 < 2 ^ (46 : ℤ) := by
      rw [div_lt_iff₀ (by norm_num)]
      exact_mod_cast hlt
    have herror := abs_le.mp (abs_toDouble_sub_le_of_lt hx hbound)
    refine floor_add_half_eq (abs_lt.mpr ?_)
    norm_num at herror
    constructor <;> linarith
  obtain ⟨hlow, hhigh⟩ := abs_lt.mp h
  rcases le_or_gt 0 n with hn | hn
  · have hx : (0 : ℚ) ≤ n / 100 := by positivity
    rw [nearest_of_nonneg hx, toFixed, if_neg (toDouble_nonneg hx).not_gt]
    exact hnear n hn hhigh
  · have hcast : (n : ℚ) < 0 := by exact_mod_cast hn
    have hx : (0 : ℚ) < -(n / 100) := by linarith
    have hpos : 0 < toDouble (-((n : ℚ) / 100)) :=
      (zpow_pos two_pos _).trans_le (zpow_le_toDouble hx)
    have hneg := hnear (-n) (by omega) (by omega)
    rw [Int.cast_neg, neg_div] at hneg
    rw [nearest, if_pos (by linarith), toFixed, if_pos (by linarith), neg_neg, hneg, neg_neg]

end Cocos.Lib
