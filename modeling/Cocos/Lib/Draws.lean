import Cocos.Lib.Double

namespace Cocos.Lib

/-!
# Random draws

What `Math.random()` can answer, and the whole numbers drawn with it.  The product of a draw and a
bound is rounded, and must not be rounded up to the bound.

* `Draw` — a number of 53 bits, from 0 to below 1; `Draw.last` is the largest;
* `toDouble_mul_lt` — **the product of a draw and a number stays below the number**;
* `Draw.below` — `Math.floor(Math.random() * bound)`;
* `Draw.below_lt`, `Draw.exists_below_eq` — **it answers the numbers from 0 to below the bound,
  each of them and no other**.
-/

/-- A value of `Math.random()`. -/
structure Draw where
  value : ℚ
  nonneg : 0 ≤ value
  lt_one : value < 1
  exact : toDouble value = value

/-! ### The product of a draw -/

/-- What is less than half a unit above a whole number is rounded to no more. -/
theorem roundEven_le_of_lt {x : ℚ} {n : ℤ} (h : x < n + 1 / 2) : roundEven x ≤ n := by
  have hfloor : ⌊x⌋ < n + 1 := by
    rw [Int.floor_lt]
    push_cast
    linarith
  rcases (Int.lt_add_one_iff.mp hfloor).eq_or_lt with heq | hlt
  · rw [roundEven, if_pos (by rw [heq]; linarith), heq]
  · have hparity := Int.emod_two_eq_zero_or_one ⌊x⌋
    simp only [roundEven]
    split_ifs <;> omega

/-- A number is a whole number of units, of its own last place and of any smaller one. -/
theorem exists_units {x y : ℚ} (hx : toDouble x = x) (hlog : Int.log 2 y ≤ Int.log 2 x) :
    ∃ n : ℤ, x = n * lastPlace y := by
  obtain ⟨k, hk⟩ : ∃ k : ℕ, Int.log 2 x - Int.log 2 y = k :=
    ⟨_, (Int.toNat_of_nonneg (by omega)).symm⟩
  refine ⟨roundEven (x / lastPlace x) * 2 ^ k, ?_⟩
  have hplace : lastPlace x = (2 : ℚ) ^ k * lastPlace y := by
    rw [lastPlace, lastPlace, ← zpow_natCast, ← zpow_add₀ two_ne_zero]
    congr 1
    omega
  calc x = roundEven (x / lastPlace x) * lastPlace x := hx.symm
    _ = (roundEven (x / lastPlace x) * 2 ^ k : ℤ) * lastPlace y := by
      push_cast
      rw [hplace]
      ring

/-- **The product of a draw and a number is not rounded up to the number.** -/
theorem toDouble_mul_lt {v x : ℚ} (hv : 0 ≤ v) (hle : v ≤ 1 - (2 ^ 53)⁻¹) (hx : 0 < x)
    (hexact : toDouble x = x) : toDouble (v * x) < x := by
  have hlt : (1 - (2 ^ 53 : ℚ)⁻¹) * x < x := by
    nlinarith [show (0 : ℚ) < (2 ^ 53)⁻¹ by positivity]
  -- it is enough to look at the largest draw
  refine (toDouble_mono (by positivity) (mul_le_mul_of_nonneg_right hle hx.le)).trans_lt ?_
  generalize hy : (1 - (2 ^ 53 : ℚ)⁻¹) * x = y at hlt ⊢
  have hypos : 0 < y := by
    rw [← hy]
    exact mul_pos (by norm_num) hx
  obtain ⟨n, hn⟩ := exists_units hexact (Int.log_mono_right (b := 2) hypos hlt.le)
  have hunit := lastPlace_pos y
  -- and it is more than half a unit below
  have hhalf : lastPlace y / 2 < x * (2 ^ 53)⁻¹ := by
    have hlog : (2 : ℚ) ^ Int.log 2 y ≤ y := Int.zpow_log_le_self (by decide) hypos
    have hplace : lastPlace y / 2 = 2 ^ Int.log 2 y * (2 ^ 53)⁻¹ := by
      rw [lastPlace, zpow_sub₀ two_ne_zero]
      norm_num
      ring
    rw [hplace]
    exact mul_lt_mul_of_pos_right (hlog.trans_lt hlt) (by positivity)
  have hround : roundEven (y / lastPlace y) ≤ n - 1 := by
    refine roundEven_le_of_lt ?_
    rw [div_lt_iff₀ hunit]
    push_cast
    linarith
  have hround' : (roundEven (y / lastPlace y) : ℚ) ≤ n - 1 := by exact_mod_cast hround
  rw [toDouble]
  nlinarith

namespace Draw

/-- A draw keeps a unit of its last place from 1. -/
theorem value_le (d : Draw) : d.value ≤ 1 - (2 ^ 53)⁻¹ := by
  rcases le_or_gt (Int.log 2 d.value) (-2) with hlow | hhigh
  · -- it is below a half
    have hlt : d.value < 2 ^ (Int.log 2 d.value + 1) :=
      Int.lt_zpow_succ_log_self (b := 2) (by decide) _
    have hle : (2 : ℚ) ^ (Int.log 2 d.value + 1) ≤ 2 ^ (-1 : ℤ) :=
      zpow_le_zpow_right₀ one_le_two (by omega)
    have hhalf : (2 : ℚ) ^ (-1 : ℤ) ≤ 1 - (2 ^ 53)⁻¹ := by norm_num
    exact hlt.le.trans (hle.trans hhalf)
  · have hlog : Int.log 2 ((2 : ℚ) ^ (-1 : ℤ)) = -1 := Int.log_zpow (b := 2) (by decide) _
    have hunit : lastPlace ((2 : ℚ) ^ (-1 : ℤ)) = (2 ^ 53)⁻¹ := by
      rw [lastPlace, hlog]
      norm_num
    obtain ⟨n, hn⟩ := exists_units d.exact (hlog.trans_le (by omega))
    rw [hunit] at hn
    have hlt := d.lt_one
    rw [hn] at hlt ⊢
    have hn' : (n : ℚ) < 2 ^ 53 := by
      rwa [← div_eq_mul_inv, div_lt_one (by positivity)] at hlt
    have hle : n ≤ 2 ^ 53 - 1 := by
      have : n < 2 ^ 53 := by exact_mod_cast hn'
      omega
    have hle' : (n : ℚ) ≤ 2 ^ 53 - 1 := by exact_mod_cast hle
    calc (n : ℚ) * (2 ^ 53)⁻¹ ≤ (2 ^ 53 - 1) * (2 ^ 53)⁻¹ :=
          mul_le_mul_of_nonneg_right hle' (by positivity)
      _ = 1 - (2 ^ 53)⁻¹ := by norm_num

/-- The largest draw. -/
def last : Draw where
  value := 1 - (2 ^ 53)⁻¹
  nonneg := by norm_num
  lt_one := by norm_num
  exact := toDouble_eq_self (k := 53) (n := 2 ^ 53 - 1) (by norm_num) (by decide)

/-- The smallest. -/
def zero : Draw := ⟨0, le_rfl, zero_lt_one, toDouble_zero⟩

/-! ### Drawing a whole number -/

/-- `Math.floor(Math.random() * bound)`. -/
def below (d : Draw) (bound : ℚ) : ℤ := ⌊toDouble (d.value * bound)⌋

theorem below_nonneg (d : Draw) {bound : ℚ} (hbound : 0 ≤ bound) : 0 ≤ d.below bound := by
  rw [below, Int.floor_nonneg, ← toDouble_zero]
  exact toDouble_mono le_rfl (mul_nonneg d.nonneg hbound)

/-- **A draw stays below its bound.** -/
theorem below_lt (d : Draw) {bound : ℚ} (hbound : 0 < bound) (hexact : toDouble bound = bound) :
    (d.below bound : ℚ) < bound :=
  (Int.floor_le _).trans_lt (toDouble_mul_lt d.nonneg d.value_le hbound hexact)

/-- **And of a whole number of places it is one.** -/
theorem toNat_below_lt (d : Draw) {n : ℕ} (hpos : 0 < n) (hn : n < 2 ^ 53) :
    (d.below n).toNat < n := by
  have hexact : toDouble (n : ℚ) = n :=
    toDouble_eq_self (k := 0) (n := n) (by rw [pow_zero, mul_one]) hn
  have hnonneg := d.below_nonneg (Nat.cast_nonneg n)
  have hlt : d.below n < n := by
    have h := d.below_lt (Nat.cast_pos.mpr hpos) hexact
    exact_mod_cast h
  omega

/-- **Every number below the bound is drawn**, by the first draw that comes to it. -/
theorem exists_below_eq {i n : ℕ} (hi : i < n) (hn : n ≤ 2 ^ 52) : ∃ d : Draw, d.below n = i := by
  have hpos : 0 < n := by omega
  obtain ⟨m, hm⟩ : ∃ m, (i * 2 ^ 53 + (n - 1)) / n = m := ⟨_, rfl⟩
  have hlow : i * 2 ^ 53 ≤ m * n := by
    have := Nat.lt_div_mul_add (a := i * 2 ^ 53 + (n - 1)) hpos
    rw [hm] at this
    omega
  have hhigh : m * n ≤ i * 2 ^ 53 + (n - 1) := hm ▸ Nat.div_mul_le_self _ _
  have hm53 : m < 2 ^ 53 := by
    by_contra hnot
    have hmul : 2 ^ 53 * n ≤ m * n := Nat.mul_le_mul_right n (Nat.le_of_not_lt hnot)
    omega
  have hvalue : (m : ℚ) / 2 ^ 53 * 2 ^ 53 = m := by field_simp
  refine ⟨⟨m / 2 ^ 53, by positivity, ?_, toDouble_eq_self hvalue hm53⟩, ?_⟩
  · rw [div_lt_one (by positivity)]
    exact_mod_cast hm53
  -- the product lies in the lower half of the step from `i`
  have hlow' : (i : ℚ) ≤ m / 2 ^ 53 * n := by
    rw [div_mul_eq_mul_div, le_div_iff₀ (by positivity)]
    exact_mod_cast hlow
  have hhigh' : (m : ℚ) / 2 ^ 53 * n ≤ i + 1 / 2 := by
    rw [div_mul_eq_mul_div, div_le_iff₀ (by positivity)]
    have hnat : 2 * (m * n) ≤ 2 * (i * 2 ^ 53) + 2 ^ 53 := by omega
    have hcast : (2 * (m * n) : ℚ) ≤ 2 * (i * 2 ^ 53) + 2 ^ 53 := by exact_mod_cast hnat
    linarith
  have hi' : toDouble (i : ℚ) = i :=
    toDouble_eq_self (k := 0) (n := i) (by rw [pow_zero, mul_one]) (by omega)
  have hhalf : toDouble ((i : ℚ) + 1 / 2) = i + 1 / 2 :=
    toDouble_eq_self (k := 1) (n := 2 * i + 1) (by push_cast; ring) (by omega)
  rw [below, Int.floor_eq_iff]
  constructor
  · calc ((i : ℤ) : ℚ) = toDouble (i : ℚ) := hi'.symm
      _ ≤ toDouble (m / 2 ^ 53 * n) := toDouble_mono (by positivity) hlow'
  · calc toDouble (m / 2 ^ 53 * n) ≤ toDouble (i + 1 / 2) :=
          toDouble_mono (by positivity) hhigh'
      _ = i + 1 / 2 := hhalf
      _ < ((i : ℤ) : ℚ) + 1 := by
        push_cast
        linarith

end Draw

end Cocos.Lib
