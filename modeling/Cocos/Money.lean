import Cocos.Lib.Numeral
import Cocos.Thrown

namespace Cocos

open Cocos.Lib

/-!
# Money

Money is a whole number of centavos; `src/money.ts` holds the three conversions at its
edges, and this file models them on the characters they read and write.

* `PESOS` — the regular expression an amount has to match, with its three groups;
* `centavosFromDb` — reads a column's or a number's text; everything else is a
  `RangeError`;
* `centavosFromApi` — reads a request's number by the decimal its `String()` prints;
* `apiString` — writes centavos with two decimals, which is their `hundredthsText`.

`centavosFromDb_parts` reads any text put together the way the writers put it together, and
the round trips follow from it: `centavosFromDb_toString` for the decimals the driver hands
over, `centavosFromDb_apiString` for the strings the API answers with.
-/

/-- The three groups of a match of `PESOS`. -/
structure Pesos where
  negative : Bool
  pesos : List Char
  decimals : List Char
deriving DecidableEq, Repr

/-- The unsigned part of `PESOS`, `(\d+)(?:\.(\d{1,2}))?$`.  The digits are taken greedily,
    which loses no match: what follows them is the point or the end. -/
def pesosGroups (text : List Char) : Option (List Char × List Char) :=
  let pesos := text.takeWhile Char.isDigit
  let tail := text.dropWhile Char.isDigit
  if pesos = [] then none
  else if tail = [] then some (pesos, [])
  else if tail.head? = some '.' ∧ tail.tail ≠ [] ∧ tail.tail.length ≤ 2 ∧
      tail.tail.all Char.isDigit then some (pesos, tail.tail)
  else none

/-- `/^(-?)(\d+)(?:\.(\d{1,2}))?$/`. -/
def PESOS (text : List Char) : Option Pesos :=
  if text.head? = some '-' then (pesosGroups text.tail).map fun g => ⟨true, g.1, g.2⟩
  else (pesosGroups text).map fun g => ⟨false, g.1, g.2⟩

/-- The centavos a match stands for: `BigInt(pesos + decimals.padEnd(2, '0'))`, signed. -/
def Pesos.centavos (p : Pesos) : Int :=
  let centavos : Int := Nat.ofDigitChars 10 (p.pesos ++ p.decimals.rightpad 2 '0') 0
  if p.negative then -centavos else centavos

/-- Reads an amount of pesos with at most two decimals, or throws a `RangeError`. -/
def centavosFromDb (text : String) : Except Thrown Int :=
  match PESOS text.toList with
  | none => .error (.rangeError s!"{text} is not an amount of pesos with two decimals")
  | some p => .ok p.centavos

/-- Reading an amount throws nothing but a `RangeError`. -/
theorem centavosFromDb_error {text : String} {thrown : Thrown}
    (h : centavosFromDb text = .error thrown) : ∃ message, thrown = .rangeError message := by
  unfold centavosFromDb at h
  split at h
  · cases h
    exact ⟨_, rfl⟩
  · cases h

/-- Reads a number of a request, through the decimal its `String()` prints. -/
def centavosFromApi (input : Decimal) : Except Thrown Int :=
  centavosFromDb input.toString

/-- Writes centavos in pesos with two decimals. -/
def apiString (centavos : Int) : String :=
  let digits := (digits centavos.natAbs).leftpad 3 '0'
  String.ofList (signText (centavos < 0) ++ digits.take (digits.length - 2) ++
    '.' :: digits.drop (digits.length - 2))

/-! ### Reading -/

/-- A sign, digits, and a point with one or two more digits or none, are matched as such. -/
theorem PESOS_parts (negative : Bool) {q ds : List Char} (hne : q ≠ [])
    (hq : ∀ c ∈ q, c.isDigit = true) (hds : ∀ c ∈ ds, c.isDigit = true) (hlen : ds.length ≤ 2) :
    PESOS (signText negative ++ (q ++ if ds = [] then [] else '.' :: ds)) =
      some ⟨negative, q, ds⟩ := by
  have hgroups : pesosGroups (q ++ if ds = [] then [] else '.' :: ds) = some (q, ds) := by
    simp only [pesosGroups, takeWhile_parts hq, dropWhile_parts hq, hne, if_false]
    by_cases h : ds = []
    · simp [h]
    · simpa [h, hlen] using hds
  cases negative
  · simp only [PESOS, signText, Bool.false_eq_true, if_false, List.nil_append, head?_parts hq hne,
      hgroups]
    rfl
  · simp [PESOS, signText, hgroups]

/-- **Reading what the writers write.**  A sign, the digits of the whole pesos and up to two
    decimals read as the centavos they stand for. -/
theorem centavosFromDb_parts (negative : Bool) (q : Nat) (ds : List Char)
    (hds : ∀ c ∈ ds, c.isDigit = true) (hlen : ds.length ≤ 2) :
    centavosFromDb (String.ofList (signText negative ++ (digits q ++
        if ds = [] then [] else '.' :: ds))) =
      .ok (Pesos.centavos ⟨negative, digits q, ds⟩) := by
  have hmatch := PESOS_parts negative Nat.toDigits_ne_nil (fun c => isDigit_of_mem_digits (n := q))
    hds hlen
  simp only [centavosFromDb, String.toList_ofList, hmatch]

/-- The centavos of a match whose decimals are the last two digits. -/
theorem Pesos.centavos_eq (negative : Bool) (q r : Nat) (ds : List Char)
    (hr : Nat.ofDigitChars 10 (ds.rightpad 2 '0') 0 = r) (hlen : ds.length ≤ 2) :
    Pesos.centavos ⟨negative, digits q, ds⟩ =
      if negative then -(100 * q + r : Int) else 100 * q + r := by
  have hpad : (ds.rightpad 2 '0').length = 2 := by
    rw [List.length_rightpad]
    omega
  have hval := ofDigitChars_append_digits q (ds.rightpad 2 '0')
  rw [hpad, hr] at hval
  simp only [Pesos.centavos, hval]
  push_cast
  ring_nf

/-- The decimals that are left of `n` hundredths stand for its last two digits. -/
theorem ofDigitChars_hundredthsDecimals (n : Nat) :
    Nat.ofDigitChars 10 ((Decimal.hundredthsDecimals n).rightpad 2 '0') 0 = n % 100 := by
  unfold Decimal.hundredthsDecimals
  split
  · rename_i h
    rw [h]
    rfl
  · split
    · rename_i h₂ h₁
      rw [show [Nat.digitChar (n % 100 / 10)].rightpad 2 '0' = twoDigits (n % 100) by
        simp [twoDigits, List.rightpad, show n % 10 = 0 from h₁]]
      exact ofDigitChars_twoDigits (by omega)
    · rw [show (twoDigits (n % 100)).rightpad 2 '0' = twoDigits (n % 100) by
        simp [twoDigits, List.rightpad]]
      exact ofDigitChars_twoDigits (by omega)

/-- Sign and magnitude put a whole number back together. -/
theorem signed_natAbs (c : Int) :
    (if decide (c < 0) = true then
        -(100 * ((c.natAbs / 100 : Nat) : Int) + ((c.natAbs % 100 : Nat) : Int))
      else 100 * ((c.natAbs / 100 : Nat) : Int) + ((c.natAbs % 100 : Nat) : Int)) = c := by
  have h : 100 * ((c.natAbs / 100 : Nat) : Int) + ((c.natAbs % 100 : Nat) : Int) = c.natAbs := by
    exact_mod_cast Nat.div_add_mod c.natAbs 100
  rw [h]
  simp only [decide_eq_true_eq]
  split <;> omega

/-- A decimal that prints in plain notation is read back exactly. -/
theorem centavosFromDb_plain (c : Int) :
    centavosFromDb (String.ofList (signText ((Decimal.ofHundredths c).mantissa < 0) ++
      (Decimal.ofHundredths c).plain)) = .ok c := by
  rw [Decimal.plain_ofHundredths, decide_eq_decide.mpr (Decimal.ofHundredths_neg_iff c),
    centavosFromDb_parts _ _ _ (fun _ => Decimal.isDigit_of_mem_hundredthsDecimals)
      (Decimal.length_hundredthsDecimals _),
    Pesos.centavos_eq _ _ _ _ (ofDigitChars_hundredthsDecimals _)
      (Decimal.length_hundredthsDecimals _), signed_natAbs]

/-- An amount below `10 ^ 21` pesos is read back from its decimal exactly. -/
theorem centavosFromDb_toString {c : Int} (h : c.natAbs < 10 ^ 23) :
    centavosFromDb (Decimal.ofHundredths c).toString = .ok c := by
  unfold Decimal.toString Decimal.text
  rw [if_pos (Decimal.exponent_ofHundredths_lt h)]
  exact centavosFromDb_plain c

/-- A match of the unsigned part is digits, then nothing or a point and one or two more. -/
theorem pesosGroups_eq_some {text q ds : List Char} (h : pesosGroups text = some (q, ds)) :
    text = (q ++ if ds = [] then [] else '.' :: ds) ∧ q ≠ [] ∧
      (∀ c ∈ q, c.isDigit = true) ∧ (∀ c ∈ ds, c.isDigit = true) ∧ ds.length ≤ 2 := by
  have hsplit := List.takeWhile_append_dropWhile (p := Char.isDigit) (l := text)
  have hdigits : ∀ c ∈ text.takeWhile Char.isDigit, c.isDigit = true :=
    fun c hc => List.mem_takeWhile_imp hc
  simp only [pesosGroups] at h
  split at h
  · cases h
  · rename_i hne
    split at h
    · -- nothing follows the digits
      rename_i htail
      rw [Option.some.injEq, Prod.mk.injEq] at h
      obtain ⟨rfl, rfl⟩ := h
      rw [htail] at hsplit
      exact ⟨hsplit.symm, hne, hdigits, by simp, by simp⟩
    · split at h
      · rename_i htail
        obtain ⟨hpoint, hds, hlen, hall⟩ := htail
        rw [Option.some.injEq, Prod.mk.injEq] at h
        obtain ⟨rfl, rfl⟩ := h
        refine ⟨?_, hne, hdigits, List.all_eq_true.mp hall, hlen⟩
        rw [if_neg hds, List.cons_head?_tail hpoint]
        exact hsplit.symm
      · cases h

/-- **What is accepted is well formed.**  A text that matches is a sign, digits, and up to two
    decimals. -/
theorem PESOS_eq_some {text : List Char} {p : Pesos} (h : PESOS text = some p) :
    text = signText p.negative ++
        (p.pesos ++ if p.decimals = [] then [] else '.' :: p.decimals) ∧ p.pesos ≠ [] ∧
      (∀ c ∈ p.pesos, c.isDigit = true) ∧ (∀ c ∈ p.decimals, c.isDigit = true) ∧
      p.decimals.length ≤ 2 := by
  unfold PESOS at h
  split at h
  · rename_i hminus
    obtain ⟨⟨q, ds⟩, hg, rfl⟩ := Option.map_eq_some_iff.mp h
    obtain ⟨htext, hrest⟩ := pesosGroups_eq_some hg
    refine ⟨?_, hrest⟩
    calc text = '-' :: text.tail := (List.cons_head?_tail hminus).symm
      _ = '-' :: (q ++ if ds = [] then [] else '.' :: ds) := by rw [← htext]
  · obtain ⟨⟨q, ds⟩, hg, rfl⟩ := Option.map_eq_some_iff.mp h
    exact pesosGroups_eq_some hg

/-- Nothing but digits, a sign and a point is ever accepted. -/
theorem not_mem_of_PESOS {text : List Char} {p : Pesos} (h : PESOS text = some p) :
    'e' ∉ text := by
  obtain ⟨htext, -, hpesos, hdecimals, -⟩ := PESOS_eq_some h
  have hdigit : ∀ {l : List Char}, (∀ c ∈ l, c.isDigit = true) → 'e' ∉ l := fun hl he =>
    absurd (hl 'e' he) (by decide)
  rw [htext, List.mem_append, List.mem_append, not_or, not_or]
  refine ⟨?_, hdigit hpesos, ?_⟩
  · unfold signText
    split <;> simp
  · split
    · simp
    · rw [List.mem_cons, not_or]
      exact ⟨by decide, hdigit hdecimals⟩

/-- Whatever is read from the decimal of `c` centavos is `c`: the exponent notation of huge
    amounts is refused, not misread. -/
theorem eq_of_centavosFromDb_toString {c x : Int}
    (h : centavosFromDb (Decimal.ofHundredths c).toString = .ok x) : x = c := by
  unfold Decimal.toString Decimal.text at h
  split at h
  · rw [centavosFromDb_plain, Except.ok.injEq] at h
    exact h.symm
  · have hnone : PESOS (signText (decide ((Decimal.ofHundredths c).mantissa < 0)) ++
        (Decimal.ofHundredths c).exponential) = none := by
      by_contra hsome
      obtain ⟨p, hp⟩ := Option.ne_none_iff_exists'.mp hsome
      exact not_mem_of_PESOS hp (List.mem_append_right _ (Decimal.mem_exponential _))
    simp [centavosFromDb, hnone] at h

/-! ### Writing -/

/-- The API's two-decimal string is the plain spelling of the hundredths. -/
theorem apiString_eq (c : Int) : apiString c = String.ofList (hundredthsText c) := by
  have key : ∀ n : Nat,
      ((digits n).leftpad 3 '0').take (((digits n).leftpad 3 '0').length - 2) = digits (n / 100) ∧
        ((digits n).leftpad 3 '0').drop (((digits n).leftpad 3 '0').length - 2)
          = twoDigits (n % 100) := by
    intro n
    rcases Nat.lt_or_ge n 100 with hlt | hge
    · have hpad : (digits n).leftpad 3 '0' = '0' :: twoDigits n := by
        rw [← leftpad_two_digits hlt]
        have hlen : (digits n).length ≤ 2 :=
          (Nat.length_toDigits_le_iff (by decide) (by decide)).mpr hlt
        simp only [List.leftpad, show 3 - (digits n).length = (2 - (digits n).length) + 1 by omega,
          List.replicate_succ, List.cons_append]
      rw [hpad, Nat.div_eq_of_lt hlt, Nat.mod_eq_of_lt hlt]
      simp [twoDigits]
    · have hsplit := digits_of_hundred_le hge
      have hpad : (digits n).leftpad 3 '0' = digits n := by
        have : 0 < (digits (n / 100)).length := Nat.length_toDigits_pos
        rw [List.leftpad, hsplit]
        simp [twoDigits, show 3 - ((digits (n / 100)).length + 2) = 0 by omega]
      rw [hpad, hsplit]
      simp [twoDigits]
  simp only [apiString, hundredthsText, (key c.natAbs).1, (key c.natAbs).2]

/-- What the API writes it reads back. -/
theorem centavosFromDb_apiString (c : Int) : centavosFromDb (apiString c) = .ok c := by
  have htext : hundredthsText c = signText (c < 0) ++ (digits (c.natAbs / 100) ++
      if twoDigits (c.natAbs % 100) = [] then [] else '.' :: twoDigits (c.natAbs % 100)) := by
    simp [hundredthsText, twoDigits]
  rw [apiString_eq, htext, centavosFromDb_parts _ _ _
      (fun _ => isDigit_of_mem_twoDigits (by omega)) (by simp [twoDigits]),
    Pesos.centavos_eq _ _ (c.natAbs % 100) _ (by
      rw [show (twoDigits (c.natAbs % 100)).rightpad 2 '0' = twoDigits (c.natAbs % 100) by
        simp [twoDigits, List.rightpad]]
      exact ofDigitChars_twoDigits (by omega)) (by simp [twoDigits]), signed_natAbs]

/-- Two sums the API writes alike are equal. -/
theorem apiString_injective {a b : Int} (h : apiString a = apiString b) : a = b := by
  have hread := (congrArg centavosFromDb h).symm.trans (centavosFromDb_apiString a)
  rw [centavosFromDb_apiString, Except.ok.injEq] at hread
  exact hread.symm

end Cocos
