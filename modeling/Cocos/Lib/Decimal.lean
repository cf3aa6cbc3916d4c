import Mathlib.Algebra.Order.Ring.Int
import Mathlib.Data.List.Basic
import Mathlib.Data.List.DropRight
import Mathlib.Tactic.Ring

namespace Cocos.Lib

/-!
# Decimal numbers and their text

A decimal number is a mantissa over a power of ten, and prints as JavaScript and the
arbitrary-precision decimals of its libraries print it: in plain notation for exponents
between `-6` and `20`, in exponent notation outside, never with a trailing zero.

* `Decimal` carries the fact that no trailing zero is left, so that equal numbers are
  equal values and have one spelling;
* `Decimal.ofHundredths` — a whole number of hundredths as such a number;
* `hundredthsText` — the plain spelling with exactly two decimals;
* `ofDigitChars_append_digits` — reading back digits that were written one after the other.
-/

/-- The decimal digits of a number, most significant first. -/
abbrev digits (n : Nat) : List Char := Nat.toDigits 10 n

/-- The two digits of a number below a hundred. -/
def twoDigits (n : Nat) : List Char := [Nat.digitChar (n / 10), Nat.digitChar (n % 10)]

/-- A leading minus, or nothing. -/
def signText (negative : Bool) : List Char := if negative then ['-'] else []

/-! ### Digits -/

theorem isDigit_of_mem_digits {n : Nat} {c : Char} (h : c ∈ digits n) : c.isDigit = true :=
  Nat.isDigit_of_mem_toDigits (by decide) (by decide) h

theorem isDigit_digitChar {n : Nat} (h : n < 10) : (Nat.digitChar n).isDigit = true :=
  isDigit_of_mem_digits (n := n) (by rw [digits, Nat.toDigits_of_lt_base h]; simp)

theorem isDigit_of_mem_twoDigits {n : Nat} (h : n < 100) {c : Char} (hc : c ∈ twoDigits n) :
    c.isDigit = true := by
  simp only [twoDigits, List.mem_cons, List.not_mem_nil, or_false] at hc
  rcases hc with rfl | rfl
  · exact isDigit_digitChar (by omega)
  · exact isDigit_digitChar (by omega)

theorem digits_of_lt_ten {n : Nat} (h : n < 10) : digits n = [Nat.digitChar n] :=
  Nat.toDigits_of_lt_base h

theorem digits_of_ten_le {n : Nat} (h : 10 ≤ n) :
    digits n = digits (n / 10) ++ [Nat.digitChar (n % 10)] :=
  Nat.toDigits_of_base_le (by decide) h

/-- From a hundred on, the last two digits split off. -/
theorem digits_of_hundred_le {n : Nat} (h : 100 ≤ n) :
    digits n = digits (n / 100) ++ twoDigits (n % 100) := by
  rw [digits_of_ten_le (by omega), digits_of_ten_le (by omega : 10 ≤ n / 10),
    show n / 10 / 10 = n / 100 by omega, show n / 10 % 10 = n % 100 / 10 by omega,
    show n % 10 = n % 100 % 10 by omega]
  simp [twoDigits]

/-- Padding the digits of a number below a hundred to two places gives its two digits. -/
theorem leftpad_two_digits {n : Nat} (h : n < 100) : (digits n).leftpad 2 '0' = twoDigits n := by
  rcases Nat.lt_or_ge n 10 with hlt | hge
  · rw [digits_of_lt_ten hlt, twoDigits, Nat.div_eq_of_lt hlt, Nat.mod_eq_of_lt hlt]
    rfl
  · rw [digits_of_ten_le hge, digits_of_lt_ten (by omega : n / 10 < 10)]
    rfl

/-- Reading digits `ds` written after the digits of `q`. -/
theorem ofDigitChars_append_digits (q : Nat) (ds : List Char) :
    Nat.ofDigitChars 10 (digits q ++ ds) 0 = 10 ^ ds.length * q + Nat.ofDigitChars 10 ds 0 := by
  rw [Nat.ofDigitChars_append, Nat.ofDigitChars_ten_toDigits,
    Nat.ofDigitChars_eq_ofDigitChars_zero]

theorem ofDigitChars_twoDigits {n : Nat} (h : n < 100) :
    Nat.ofDigitChars 10 (twoDigits n) 0 = n := by
  rw [twoDigits, Nat.ofDigitChars_cons_digitChar_of_lt_ten (by omega),
    Nat.ofDigitChars_cons_digitChar_of_lt_ten (by omega), Nat.ofDigitChars_nil]
  omega

/-! ### Decimal numbers -/

/-- The number `mantissa / 10 ^ scale`, with no trailing zero among its decimals. -/
@[ext] structure Decimal where
  mantissa : Int
  scale : Nat
  normal : scale = 0 ∨ mantissa % 10 ≠ 0
deriving DecidableEq

namespace Decimal

/-- The exponent of the leading digit. -/
def exponent (d : Decimal) : Int := (digits d.mantissa.natAbs).length - 1 - d.scale

/-- The plain notation: whole digits, and the decimals if there are any. -/
def plain (d : Decimal) : List Char :=
  if d.scale = 0 then digits d.mantissa.natAbs
  else digits (d.mantissa.natAbs / 10 ^ d.scale) ++
    '.' :: (digits (d.mantissa.natAbs % 10 ^ d.scale)).leftpad d.scale '0'

/-- The exponent notation: one digit, the other significant ones, and the exponent. -/
def exponential (d : Decimal) : List Char :=
  let significant := (digits d.mantissa.natAbs).rdropWhile (· == '0')
  significant.take 1 ++ (if significant.tail = [] then [] else '.' :: significant.tail) ++
    'e' :: (if d.exponent < 0 then '-' else '+') :: digits d.exponent.natAbs

/-- The text of a number, as `toString` spells it. -/
def text (d : Decimal) : List Char :=
  signText (d.mantissa < 0) ++
    if -7 < d.exponent ∧ d.exponent < 21 then d.plain else d.exponential

/-- The text of a number as a string. -/
def toString (d : Decimal) : String := String.ofList d.text

/-- `c` hundredths. -/
def ofHundredths (c : Int) : Decimal :=
  if h₂ : c % 100 = 0 then ⟨c / 100, 0, .inl rfl⟩
  else if h₁ : c % 10 = 0 then ⟨c / 10, 1, .inr (by omega)⟩
  else ⟨c, 2, .inr h₁⟩

/-- A number with at most two decimals is a whole number of hundredths. -/
theorem eq_ofHundredths {d : Decimal} (h : d.scale ≤ 2) :
    d = ofHundredths (d.mantissa * 10 ^ (2 - d.scale)) := by
  obtain ⟨m, scale, normal⟩ := d
  simp only at h normal ⊢
  unfold ofHundredths
  obtain rfl | rfl | rfl : scale = 0 ∨ scale = 1 ∨ scale = 2 := by omega
  · rw [dif_pos (by omega)]
    ext1
    · simp only; omega
    · rfl
  · rw [dif_neg (by omega), dif_pos (by omega)]
    ext1
    · simp only; omega
    · rfl
  · rw [dif_neg (by omega), dif_neg (by omega)]
    ext1
    · simp only; omega
    · rfl

/-- The decimals of `c` hundredths that are left when the trailing zeros go. -/
def hundredthsDecimals (n : Nat) : List Char :=
  if n % 100 = 0 then [] else if n % 10 = 0 then [Nat.digitChar (n % 100 / 10)]
  else twoDigits (n % 100)

theorem length_hundredthsDecimals (n : Nat) : (hundredthsDecimals n).length ≤ 2 := by
  unfold hundredthsDecimals
  split
  · simp
  · split <;> simp [twoDigits]

theorem isDigit_of_mem_hundredthsDecimals {n : Nat} {c : Char}
    (h : c ∈ hundredthsDecimals n) : c.isDigit = true := by
  unfold hundredthsDecimals at h
  split at h
  · simp at h
  · split at h
    · rw [List.mem_singleton] at h
      exact h ▸ isDigit_digitChar (by omega)
    · exact isDigit_of_mem_twoDigits (by omega) h

/-- The plain notation of `c` hundredths: the whole part, and the decimals that are left. -/
theorem plain_ofHundredths (c : Int) :
    (ofHundredths c).plain = digits (c.natAbs / 100) ++
      (if hundredthsDecimals c.natAbs = [] then []
        else '.' :: hundredthsDecimals c.natAbs) := by
  unfold ofHundredths plain hundredthsDecimals
  by_cases h₂ : c % 100 = 0
  · have hn : c.natAbs % 100 = 0 := by omega
    have hq : (c / 100).natAbs = c.natAbs / 100 := by omega
    simp [h₂, hn, hq]
  · have hn : c.natAbs % 100 ≠ 0 := by omega
    by_cases h₁ : c % 10 = 0
    · have hn₁ : c.natAbs % 10 = 0 := by omega
      have hq : (c / 10).natAbs / 10 = c.natAbs / 100 := by omega
      have hr : (c / 10).natAbs % 10 = c.natAbs % 100 / 10 := by omega
      simp [h₂, h₁, hn, hn₁, hq, hr, digits_of_lt_ten (by omega : c.natAbs % 100 / 10 < 10),
        List.leftpad]
    · have hn₁ : c.natAbs % 10 ≠ 0 := by omega
      simpa [h₂, h₁, hn, hn₁, twoDigits] using
        leftpad_two_digits (by omega : c.natAbs % 100 < 100)

theorem ofHundredths_neg_iff (c : Int) : (ofHundredths c).mantissa < 0 ↔ c < 0 := by
  unfold ofHundredths
  split
  · simp only; omega
  · split
    · simp only; omega
    · rfl

/-- Up to `10 ^ 21` in magnitude, `c` hundredths print in plain notation. -/
theorem exponent_ofHundredths_lt {c : Int} (h : c.natAbs < 10 ^ 23) :
    -7 < (ofHundredths c).exponent ∧ (ofHundredths c).exponent < 21 := by
  have hlen : ∀ {n k : Nat}, 0 < k → n < 10 ^ k → ((digits n).length : Int) ≤ k :=
    fun hk hn => by exact_mod_cast (Nat.length_toDigits_le_iff (by decide) hk).mpr hn
  have hpos : ∀ n : Nat, (1 : Int) ≤ (digits n).length := fun n => by
    exact_mod_cast Nat.length_toDigits_pos
  unfold exponent ofHundredths
  split
  · have h₁ := hpos (c / 100).natAbs
    have h₂ := hlen (n := (c / 100).natAbs) (k := 21) (by decide) (by omega)
    constructor <;> push_cast <;> omega
  · split
    · have h₁ := hpos (c / 10).natAbs
      have h₂ := hlen (n := (c / 10).natAbs) (k := 22) (by decide) (by omega)
      constructor <;> push_cast <;> omega
    · have h₁ := hpos c.natAbs
      have h₂ := hlen (n := c.natAbs) (k := 23) (by decide) h
      constructor <;> push_cast <;> omega

/-- The order of the numbers: both mantissas over one power of ten. -/
instance : LE Decimal := ⟨fun a b => a.mantissa * 10 ^ b.scale ≤ b.mantissa * 10 ^ a.scale⟩

instance (a b : Decimal) : Decidable (a ≤ b) := inferInstanceAs (Decidable (_ ≤ _))

/-- A hundredth and more, below `10 ^ 8`, prints in plain notation. -/
theorem exponent_of_mem_range {d : Decimal} (hlow : 10 ^ d.scale ≤ 100 * d.mantissa)
    (hhigh : 100 * d.mantissa ≤ 9999999999 * 10 ^ d.scale) :
    -7 < d.exponent ∧ d.exponent < 21 := by
  obtain ⟨n, hn⟩ := Int.eq_ofNat_of_zero_le (a := d.mantissa)
    (by have : (0 : Int) < 10 ^ d.scale := Int.pow_pos (by decide)
        omega)
  have hlow' : 10 ^ d.scale ≤ 100 * n := by rw [hn] at hlow; exact_mod_cast hlow
  have hhigh' : 100 * n ≤ 9999999999 * 10 ^ d.scale := by rw [hn] at hhigh; exact_mod_cast hhigh
  have hpos : 0 < (digits n).length := Nat.length_toDigits_pos
  have hunit : 0 < 10 ^ d.scale := Nat.pow_pos (by decide)
  -- the number of digits bounds the number from above, and one less bounds it from below
  have hlt : n < 10 ^ (digits n).length :=
    (Nat.length_toDigits_le_iff (by decide) hpos).mp (Nat.le_refl _)
  have hfew : d.scale < (digits n).length + 2 := by
    apply (Nat.pow_lt_pow_iff_right (by decide : 1 < 10)).mp
    calc 10 ^ d.scale ≤ 100 * n := hlow'
      _ < 100 * 10 ^ (digits n).length := by omega
      _ = 10 ^ ((digits n).length + 2) := by rw [Nat.pow_add, Nat.mul_comm]
  have hmany : (digits n).length ≤ d.scale + 8 := by
    apply (Nat.length_toDigits_le_iff (by decide) (by omega)).mpr
    calc n < 10 ^ 8 * 10 ^ d.scale := by omega
      _ = 10 ^ (d.scale + 8) := by rw [Nat.pow_add, Nat.mul_comm]
  unfold exponent
  rw [hn, Int.natAbs_natCast]
  omega

/-- The exponent notation is never mistaken for a plain one: it has an `e` in it. -/
theorem mem_exponential (d : Decimal) : 'e' ∈ d.exponential := by
  simp [exponential]

end Decimal

/-- `c` hundredths in plain notation with exactly two decimals. -/
def hundredthsText (c : Int) : List Char :=
  signText (c < 0) ++ digits (c.natAbs / 100) ++ '.' :: twoDigits (c.natAbs % 100)

end Cocos.Lib
