import Mathlib.Data.Rat.Defs
import Mathlib.Algebra.Order.Field.Rat
import Mathlib.Tactic.FieldSimp
import Mathlib.Tactic.Linarith
import Mathlib.Tactic.Positivity
import Cocos.Lib.Decimal

namespace Cocos.Lib

/-!
# Decimal numerals

A numeral is what a number is written as: an optional minus, digits, and the digits after the
point if there is one.  Many numerals denote one number, and one of them is canonical.

* `natOf` — the number that digits spell; `eq_of_natOf_eq` and `digits_natOf` say when the
  digits can be told from it;
* `Numeral`, `Numeral.text`, `Numeral.value` — a numeral, how it is written and the rational it
  denotes;
* `Numeral.parse` — reads it back: `parse_text`;
* `Numeral.Canonical` — with a given number of decimals, no superfluous zero in front, and a
  minus below zero only;
* `Numeral.Canonical.unique` — **a number has one canonical numeral** with so many decimals.
-/

/-- The number that decimal digits spell. -/
abbrev natOf (ds : List Char) : Nat := Nat.ofDigitChars 10 ds 0

/-- Every character is a decimal digit. -/
abbrev AreDigits (ds : List Char) : Prop := ∀ c ∈ ds, c.isDigit = true

/-- Decided along the list, not over all characters. -/
instance (ds : List Char) : Decidable (AreDigits ds) := List.decidableBAll _ ds

/-! ### Digits and the number they spell -/

theorem natOf_append (ds es : List Char) :
    natOf (ds ++ es) = 10 ^ es.length * natOf ds + natOf es := by
  rw [natOf, Nat.ofDigitChars_append, Nat.ofDigitChars_eq_ofDigitChars_zero]

theorem natOf_singleton (c : Char) : natOf [c] = c.toNat - 48 := by
  rw [natOf, Nat.ofDigitChars_cons, Nat.ofDigitChars_nil]
  exact Nat.zero_add _

/-- A digit spells a number below ten, and can be told from it. -/
theorem natOf_digit {c : Char} (h : c.isDigit = true) :
    natOf [c] < 10 ∧ c.toNat = natOf [c] + 48 := by
  have hc : 48 ≤ c.toNat ∧ c.toNat ≤ 57 := Char.isDigit_iff_toNat.mp h
  rw [natOf_singleton]
  omega

/-- Digits spell a number with no more digits than they are. -/
theorem natOf_lt_pow {ds : List Char} (h : AreDigits ds) : natOf ds < 10 ^ ds.length := by
  induction ds using List.reverseRecOn with
  | nil => simp
  | append_singleton ds c ih =>
    have hds := ih fun d hd => h d (List.mem_append_left _ hd)
    have hc := natOf_digit (h c (List.mem_append_right _ (List.mem_singleton.mpr rfl)))
    rw [natOf_append, List.length_append, List.length_singleton, pow_one, pow_succ]
    omega

/-- **As many digits that spell one number are the same digits.** -/
theorem eq_of_natOf_eq {ds es : List Char} (hds : AreDigits ds) (hes : AreDigits es)
    (hlen : ds.length = es.length) (h : natOf ds = natOf es) : ds = es := by
  induction ds using List.reverseRecOn generalizing es with
  | nil => exact (List.length_eq_zero_iff.mp hlen.symm).symm
  | append_singleton ds c ih =>
    rcases List.eq_nil_or_concat es with rfl | ⟨es, d, rfl⟩
    · simp at hlen
    · rw [List.concat_eq_append] at hes hlen h ⊢
      have hc := natOf_digit (hds c (List.mem_append_right _ (List.mem_singleton.mpr rfl)))
      have hd := natOf_digit (hes d (List.mem_append_right _ (List.mem_singleton.mpr rfl)))
      rw [natOf_append, natOf_append, List.length_singleton, List.length_singleton, pow_one] at h
      rw [List.length_append, List.length_append] at hlen
      -- the last digit is what is left over by ten
      have hlast : c = d := Char.toNat_inj.mp (by omega)
      have hinit : ds = es := ih (fun x hx => hds x (List.mem_append_left _ hx))
        (fun x hx => hes x (List.mem_append_left _ hx)) (by simpa using hlen) (by omega)
      rw [hlast, hinit]

/-- Digits that start with none spell a number of as many digits. -/
theorem pow_le_natOf {c : Char} (ds : List Char) (hc : c.isDigit = true) (hzero : c ≠ '0') :
    10 ^ ds.length ≤ natOf (c :: ds) := by
  have hpos : 1 ≤ natOf [c] := by
    have hne : c.toNat ≠ '0'.toNat := fun h => hzero (Char.toNat_inj.mp h)
    have := (natOf_digit hc).2
    show 1 ≤ natOf [c]
    have h48 : '0'.toNat = 48 := rfl
    omega
  have happend := natOf_append [c] ds
  rw [List.singleton_append] at happend
  calc 10 ^ ds.length = 10 ^ ds.length * 1 := (Nat.mul_one _).symm
    _ ≤ 10 ^ ds.length * natOf [c] := Nat.mul_le_mul_left _ hpos
    _ ≤ natOf (c :: ds) := by omega

/-- No superfluous zero in front: a zero starts no digits but its own. -/
def NoLeadingZero (ds : List Char) : Prop := ds.head? = some '0' → ds = ['0']

/-- The digits of a number have no superfluous zero in front. -/
theorem noLeadingZero_digits (n : Nat) : NoLeadingZero (digits n) := by
  intro hhead
  induction n using Nat.strong_induction_on with
  | _ n ih =>
    rcases Nat.lt_or_ge n 10 with hlt | hge
    · rw [digits_of_lt_ten hlt] at hhead ⊢
      rw [List.head?_cons, Option.some.injEq] at hhead
      rw [hhead]
    · -- the first digit is that of a tenth of it, which is not zero
      rw [digits_of_ten_le hge, List.head?_append_of_ne_nil _ Nat.toDigits_ne_nil] at hhead
      have htenth := ih (n / 10) (by omega) hhead
      have hzero : n / 10 = natOf ['0'] := by
        rw [← htenth, natOf, Nat.ofDigitChars_ten_toDigits]
      rw [natOf_singleton] at hzero
      simp at hzero
      omega

/-- **Digits with no superfluous zero in front are those of the number they spell.** -/
theorem digits_natOf {ds : List Char} (hds : AreDigits ds) (hne : ds ≠ [])
    (hzero : NoLeadingZero ds) : digits (natOf ds) = ds := by
  have hspell : natOf (digits (natOf ds)) = natOf ds := Nat.ofDigitChars_ten_toDigits
  refine eq_of_natOf_eq (fun c => isDigit_of_mem_digits) hds ?_ hspell
  obtain ⟨c, cs, rfl⟩ := List.exists_cons_of_ne_nil hne
  by_cases hc : c = '0'
  · rw [hzero (by rw [hc]; rfl)]
    rfl
  · -- neither fewer digits than there are nor more can spell the number
    have hlow := pow_le_natOf cs (hds c List.mem_cons_self) hc
    have hhigh := natOf_lt_pow hds
    rw [List.length_cons] at hhigh ⊢
    have hle : (digits (natOf (c :: cs))).length ≤ cs.length + 1 :=
      (Nat.length_toDigits_le_iff (by decide) (by omega)).mpr hhigh
    have hpos : 0 < (digits (natOf (c :: cs))).length := Nat.length_toDigits_pos
    apply Nat.le_antisymm hle
    by_contra hlt
    have hcs : 0 < cs.length := by omega
    have hfew : (digits (natOf (c :: cs))).length ≤ cs.length := by omega
    have hless := (Nat.length_toDigits_le_iff (by decide) hcs).mp hfew
    omega

/-! ### Digits, a point and digits -/

section Parts

variable {q ds : List Char} (hq : AreDigits q)
include hq

/-- The greedy group of digits stops at the point, or at the end. -/
theorem takeWhile_parts :
    (q ++ if ds = [] then [] else '.' :: ds).takeWhile Char.isDigit = q := by
  rw [List.takeWhile_append_of_pos hq]
  split <;> simp

theorem dropWhile_parts : (q ++ if ds = [] then [] else '.' :: ds).dropWhile Char.isDigit =
    if ds = [] then [] else '.' :: ds := by
  rw [List.dropWhile_append_of_pos hq]
  split <;> simp

/-- Digits do not start with a minus. -/
theorem head?_parts (hne : q ≠ []) :
    (q ++ if ds = [] then [] else '.' :: ds).head? ≠ some '-' := by
  intro h
  rw [List.head?_append_of_ne_nil _ hne] at h
  have := hq '-' (List.mem_of_mem_head? h)
  simp at this

end Parts

/-! ### Numerals -/

/-- An optional minus, digits, and the digits after the point if there is one. -/
@[ext] structure Numeral where
  negative : Bool
  whole : List Char
  decimals : List Char
  whole_ne_nil : whole ≠ []
  isDigit_whole : AreDigits whole
  isDigit_decimals : AreDigits decimals

namespace Numeral

/-- How a numeral is written. -/
def text (n : Numeral) : List Char :=
  signText n.negative ++ (n.whole ++ if n.decimals = [] then [] else '.' :: n.decimals)

/-- How a numeral is written, as a string. -/
def toString (n : Numeral) : String := String.ofList n.text

/-- The numeral a text is, if it is one. -/
def parse (text : List Char) : Option Numeral :=
  let body := if text.head? = some '-' then text.tail else text
  let rest := body.dropWhile Char.isDigit
  if h : body.takeWhile Char.isDigit ≠ [] ∧ AreDigits rest.tail ∧
      (rest = [] ∨ rest.head? = some '.' ∧ rest.tail ≠ []) then
    some ⟨text.head? = some '-', body.takeWhile Char.isDigit, rest.tail, h.1,
      fun _ hc => List.mem_takeWhile_imp hc, h.2.1⟩
  else none

/-- **A numeral is read back from its text.** -/
theorem parse_text (n : Numeral) : parse n.text = some n := by
  have hhead : (n.whole ++ if n.decimals = [] then [] else '.' :: n.decimals).head? ≠ some '-' :=
    head?_parts n.isDigit_whole n.whole_ne_nil
  have hsplit : decide (n.text.head? = some '-') = n.negative ∧
      (if n.text.head? = some '-' then n.text.tail else n.text) =
        n.whole ++ if n.decimals = [] then [] else '.' :: n.decimals := by
    unfold text
    cases n.negative with
    | true => simp [signText]
    | false =>
      simp only [signText, Bool.false_eq_true, if_false, List.nil_append]
      exact ⟨decide_eq_false hhead, if_neg hhead⟩
  have htail : (if n.decimals = [] then [] else '.' :: n.decimals).tail = n.decimals := by
    split
    · rename_i h
      rw [h, List.tail_nil]
    · rw [List.tail_cons]
  have hwell : n.whole ≠ [] ∧ AreDigits n.decimals ∧
      ((if n.decimals = [] then [] else '.' :: n.decimals) = [] ∨
        (if n.decimals = [] then [] else '.' :: n.decimals).head? = some '.' ∧ n.decimals ≠ []) := by
    refine ⟨n.whole_ne_nil, n.isDigit_decimals, ?_⟩
    by_cases h : n.decimals = [] <;> simp [h]
  unfold parse
  simp only [hsplit.1, hsplit.2, takeWhile_parts n.isDigit_whole, dropWhile_parts n.isDigit_whole,
    htail, dif_pos hwell]

/-- The number a numeral denotes, but for its sign. -/
def magnitude (n : Numeral) : ℚ := natOf n.whole + natOf n.decimals / 10 ^ n.decimals.length

/-- The number a numeral denotes. -/
def value (n : Numeral) : ℚ := if n.negative then -n.magnitude else n.magnitude

theorem magnitude_nonneg (n : Numeral) : 0 ≤ n.magnitude := by
  unfold magnitude
  positivity

/-- The magnitude in units of the last place. -/
theorem magnitude_mul_pow (n : Numeral) :
    n.magnitude * 10 ^ n.decimals.length = (natOf (n.whole ++ n.decimals) : ℕ) := by
  rw [natOf_append, magnitude]
  push_cast
  field_simp

/-- The one numeral a number is written as, with `places` decimals. -/
structure Canonical (places : Nat) (n : Numeral) : Prop where
  length_decimals : n.decimals.length = places
  noLeadingZero : NoLeadingZero n.whole
  negative_of_minus : n.negative = true → n.value < 0

/-- The sign of a canonical numeral is that of its value. -/
theorem Canonical.negative_iff {places : Nat} {n : Numeral} (h : n.Canonical places) :
    n.negative = true ↔ n.value < 0 := by
  refine ⟨h.negative_of_minus, fun hlt => ?_⟩
  by_contra hpos
  rw [value, if_neg hpos] at hlt
  exact absurd n.magnitude_nonneg (not_le.mpr hlt)

/-- **A number has one canonical numeral** with so many decimals. -/
theorem Canonical.unique {places : Nat} {a b : Numeral} (ha : a.Canonical places)
    (hb : b.Canonical places) (h : a.value = b.value) : a = b := by
  have hsign : a.negative = b.negative := by
    rw [Bool.eq_iff_iff, ha.negative_iff, hb.negative_iff, h]
  have hmagnitude : a.magnitude = b.magnitude := by
    unfold value at h
    rw [hsign] at h
    split at h
    · exact neg_inj.mp h
    · exact h
  -- in units of the last place, both are the digits before and after the point put together
  have hunits : natOf (a.whole ++ a.decimals) = natOf (b.whole ++ b.decimals) := by
    have hscaled := a.magnitude_mul_pow
    rw [hmagnitude, ha.length_decimals, ← hb.length_decimals, b.magnitude_mul_pow] at hscaled
    exact_mod_cast hscaled.symm
  rw [natOf_append, natOf_append, ha.length_decimals, hb.length_decimals] at hunits
  have hda := natOf_lt_pow a.isDigit_decimals
  have hdb := natOf_lt_pow b.isDigit_decimals
  rw [ha.length_decimals] at hda
  rw [hb.length_decimals] at hdb
  have hwhole : natOf a.whole = natOf b.whole := by
    have hdiv := congrArg (· / 10 ^ places) hunits
    simpa only [Nat.mul_add_div (Nat.pow_pos (by decide : 0 < 10)), Nat.div_eq_of_lt hda,
      Nat.div_eq_of_lt hdb, Nat.add_zero] using hdiv
  ext1
  · exact hsign
  · rw [← digits_natOf a.isDigit_whole a.whole_ne_nil ha.noLeadingZero, hwhole,
      digits_natOf b.isDigit_whole b.whole_ne_nil hb.noLeadingZero]
  · refine eq_of_natOf_eq a.isDigit_decimals b.isDigit_decimals
      (ha.length_decimals.trans hb.length_decimals.symm) ?_
    rw [hwhole] at hunits
    exact Nat.add_left_cancel hunits

end Numeral

end Cocos.Lib
