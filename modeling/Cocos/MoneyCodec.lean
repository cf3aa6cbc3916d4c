import Cocos.Money

namespace Cocos

open Cocos.Lib

/-!
# The money codec

What `centavosFromDb` and `apiString` say to each other, in terms of the numbers their strings
denote.

* `Pesos.centavos_eq_value` — the centavos of a match are a hundred times the value of the
  numeral that was matched;
* `centavosFromDb_numeral`, `exists_numeral_of_centavosFromDb` — **what is read**: the numerals
  with at most two decimals and nothing else, at exactly their value;
* `exists_canonical_apiString` — **what is written** is the canonical numeral;
* `money_codec` — the two together.
-/

/-- The centavos of a match are a hundred times the value of its numeral. -/
theorem Pesos.centavos_eq_value (n : Numeral) (hlen : n.decimals.length ≤ 2) :
    ((Pesos.centavos ⟨n.negative, n.whole, n.decimals⟩ : Int) : ℚ) = 100 * n.value := by
  -- the padding makes the units of the last place centavos
  have hpad : natOf (n.whole ++ n.decimals.rightpad 2 '0') =
      natOf (n.whole ++ n.decimals) * 10 ^ (2 - n.decimals.length) := by
    rw [List.rightpad, ← List.append_assoc, natOf_append _ (List.replicate _ _),
      List.length_replicate, natOf, natOf, Nat.ofDigitChars_replicate_zero]
    ring
  have hscale : (10 : ℚ) ^ n.decimals.length * 10 ^ (2 - n.decimals.length) = 100 := by
    rw [← pow_add, Nat.add_sub_cancel' hlen]
    norm_num
  have hmagnitude :
      ((natOf (n.whole ++ n.decimals.rightpad 2 '0') : ℕ) : ℚ) = 100 * n.magnitude := by
    rw [hpad, Nat.cast_mul, ← n.magnitude_mul_pow, ← hscale]
    push_cast
    ring
  unfold Pesos.centavos Numeral.value
  cases n.negative with
  | false => simpa using hmagnitude
  | true =>
    simp only [if_true, Int.cast_neg, Int.cast_natCast, mul_neg, neg_inj]
    exact hmagnitude

/-- **A numeral with at most two decimals is read**, at a hundred times its value. -/
theorem centavosFromDb_numeral (n : Numeral) (hlen : n.decimals.length ≤ 2) :
    ∃ x : Int, centavosFromDb n.toString = .ok x ∧ (x : ℚ) = 100 * n.value := by
  have hmatch := PESOS_parts n.negative n.whole_ne_nil n.isDigit_whole n.isDigit_decimals hlen
  refine ⟨_, ?_, Pesos.centavos_eq_value n hlen⟩
  simp only [centavosFromDb, Numeral.toString, Numeral.text, String.toList_ofList, hmatch]

/-- **Nothing else is read.** -/
theorem exists_numeral_of_centavosFromDb {s : String} {x : Int} (h : centavosFromDb s = .ok x) :
    ∃ n : Numeral, n.decimals.length ≤ 2 ∧ s = n.toString := by
  unfold centavosFromDb at h
  cases hmatch : PESOS s.toList with
  | none => simp [hmatch] at h
  | some p =>
    obtain ⟨htext, hne, hpesos, hdecimals, hlen⟩ := PESOS_eq_some hmatch
    refine ⟨⟨p.negative, p.pesos, p.decimals, hne, hpesos, hdecimals⟩, hlen, ?_⟩
    rw [Numeral.toString, Numeral.text, ← htext, String.ofList_toList]

/-- **What is written is the canonical numeral** with two decimals. -/
theorem exists_canonical_apiString (c : Int) :
    ∃ n : Numeral, n.Canonical 2 ∧ n.toString = apiString c ∧ 100 * n.value = c := by
  let n : Numeral := ⟨decide (c < 0), digits (c.natAbs / 100), twoDigits (c.natAbs % 100),
    Nat.toDigits_ne_nil, fun _ => isDigit_of_mem_digits,
    fun _ => isDigit_of_mem_twoDigits (by omega)⟩
  have htext : n.toString = apiString c := by
    rw [apiString_eq, Numeral.toString, Numeral.text, hundredthsText]
    simp [n, twoDigits]
  have hvalue : 100 * n.value = c := by
    obtain ⟨x, hx, hvalue⟩ := centavosFromDb_numeral n (by simp [n, twoDigits])
    rw [htext, centavosFromDb_apiString, Except.ok.injEq] at hx
    rw [← hvalue, hx]
  refine ⟨n, ⟨by simp [n, twoDigits], noLeadingZero_digits _, fun hnegative => ?_⟩, htext, hvalue⟩
  have hneg : (c : ℚ) < 0 := by exact_mod_cast of_decide_eq_true hnegative
  linarith

/-- **The money codec is exact both ways.**  What is written is canonical and is read back; what
    is read is the numerals with at most two decimals, exactly, and is written again as the one
    canonical numeral of their value. -/
theorem money_codec :
    (∀ c : Int, centavosFromDb (apiString c) = .ok c ∧
      ∃ n : Numeral, n.Canonical 2 ∧ n.toString = apiString c ∧ (n.negative = true → c < 0)) ∧
    ∀ s : String,
      ((∃ x, centavosFromDb s = .ok x) ↔ ∃ n : Numeral, n.decimals.length ≤ 2 ∧ s = n.toString) ∧
      ∀ n : Numeral, n.decimals.length ≤ 2 → s = n.toString →
        ∃ x : Int, centavosFromDb s = .ok x ∧ (x : ℚ) = 100 * n.value ∧
          (n.value = 0 → apiString x = "0.00") ∧
          ∀ t : String, t = apiString x ↔
            ∃ k : Numeral, k.Canonical 2 ∧ k.value = n.value ∧ t = k.toString := by
  refine ⟨fun c => ⟨centavosFromDb_apiString c, ?_⟩, fun s => ⟨⟨?_, ?_⟩, ?_⟩⟩
  · obtain ⟨n, hcanonical, htext, hvalue⟩ := exists_canonical_apiString c
    refine ⟨n, hcanonical, htext, fun hnegative => ?_⟩
    have hneg := hcanonical.negative_of_minus hnegative
    have hc : (c : ℚ) < 0 := by linarith
    exact_mod_cast hc
  · rintro ⟨x, hx⟩
    exact exists_numeral_of_centavosFromDb hx
  · rintro ⟨n, hlen, rfl⟩
    obtain ⟨x, hx, -⟩ := centavosFromDb_numeral n hlen
    exact ⟨x, hx⟩
  · rintro n hlen rfl
    obtain ⟨x, hx, hvalue⟩ := centavosFromDb_numeral n hlen
    obtain ⟨k, hcanonical, htext, hk⟩ := exists_canonical_apiString x
    have hsame : k.value = n.value := by linarith
    refine ⟨x, hx, hvalue, fun hzero => ?_, fun t => ⟨?_, ?_⟩⟩
    · rw [hzero, mul_zero] at hvalue
      have hx0 : x = 0 := by exact_mod_cast hvalue
      rw [hx0]
      decide
    · rintro rfl
      exact ⟨k, hcanonical, hsame, htext.symm⟩
    · rintro ⟨k', hcanonical', hvalue', rfl⟩
      rw [hcanonical'.unique hcanonical (hvalue'.trans hsame.symm), htext]

end Cocos
