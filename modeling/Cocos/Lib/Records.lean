import Cocos.Lib.Numeral
import Mathlib.Data.List.Forall2
import Mathlib.Data.List.Lex

namespace Cocos.Lib

/-!
# Records of fixed width

A record is a row of numbers, each written with so many digits and followed by some characters that
are the same in every record of its form.

* `fixed` — a number with zeros before it, up to a width;
* `record`, `Fits` — the text of a row of numbers, where each has the digits of its field;
* `DigitBefore` — texts that are the same up to a digit;
* `digitBefore_record`, `record_lt_record_iff` — **records sort as the rows do**, by a digit.
-/

universe u

/-! ### Numbers of a width -/

/-- The digits of a number, with zeros before them up to a width. -/
def fixed (width n : Nat) : List Char := List.leftpad width '0' (digits n)

variable {width n : Nat}

theorem length_fixed (hwidth : 0 < width) (h : n < 10 ^ width) : (fixed width n).length = width := by
  rw [fixed, List.length_leftpad]
  exact Nat.max_eq_left ((Nat.length_toDigits_le_iff (by decide) hwidth).mpr h)

theorem areDigits_fixed (width n : Nat) : AreDigits (fixed width n) := by
  intro c hc
  rcases List.mem_append.mp hc with hc | hc
  · rw [List.eq_of_mem_replicate hc]
    rfl
  · exact isDigit_of_mem_digits hc

theorem natOf_fixed (width n : Nat) : natOf (fixed width n) = n := by
  have hzeros : ∀ k, natOf (List.replicate k '0') = 0 := fun k => by
    induction k with
    | zero => rfl
    | succ k ih => rw [List.replicate_succ', natOf_append, ih]; rfl
  rw [fixed, List.leftpad, natOf_append, hzeros, Nat.mul_zero, Nat.zero_add]
  exact Nat.ofDigitChars_toDigits (by decide) (by decide)

/-! ### Texts that part at a digit -/

/-- The texts are the same up to a digit, which is less in the first. -/
def DigitBefore (l l' : List Char) : Prop :=
  ∃ (before : List Char) (c d : Char) (rest rest' : List Char), l = before ++ c :: rest ∧
    l' = before ++ d :: rest' ∧ c.isDigit = true ∧ d.isDigit = true ∧ c < d

namespace DigitBefore

variable {l l' : List Char}

theorem lt (h : DigitBefore l l') : l < l' := by
  obtain ⟨before, c, d, rest, rest', rfl, rfl, -, -, hlt⟩ := h
  exact List.append_left_lt (List.cons_lt_cons_iff.mpr (.inl hlt))

theorem ne (h : DigitBefore l l') : l ≠ l' := fun heq => List.lt_irrefl l' (heq ▸ h.lt)

/-- Whatever follows. -/
theorem append (h : DigitBefore l l') (rest rest' : List Char) :
    DigitBefore (l ++ rest) (l' ++ rest') := by
  obtain ⟨before, c, d, tail, tail', rfl, rfl, hc, hd, hlt⟩ := h
  exact ⟨before, c, d, tail ++ rest, tail' ++ rest', List.append_assoc .., List.append_assoc ..,
    hc, hd, hlt⟩

/-- Whatever is in front. -/
theorem prepend (h : DigitBefore l l') (front : List Char) :
    DigitBefore (front ++ l) (front ++ l') := by
  obtain ⟨before, c, d, rest, rest', rfl, rfl, hc, hd, hlt⟩ := h
  exact ⟨front ++ before, c, d, rest, rest', (List.append_assoc ..).symm,
    (List.append_assoc ..).symm, hc, hd, hlt⟩

/-- So it is with as many digits that spell a smaller number. -/
theorem of_natOf_lt {ds es : List Char} (hds : AreDigits ds) (hes : AreDigits es)
    (hlen : ds.length = es.length) (h : natOf ds < natOf es) : DigitBefore ds es := by
  induction ds generalizing es with
  | nil =>
    cases es with
    | nil => exact absurd h (Nat.lt_irrefl _)
    | cons d es => cases hlen
  | cons c ds ih =>
    cases es with
    | nil => cases hlen
    | cons d es =>
      obtain ⟨hc, hrest⟩ := List.forall_mem_cons.mp hds
      obtain ⟨hd, hrest'⟩ := List.forall_mem_cons.mp hes
      have hsame : ds.length = es.length := Nat.succ_inj.mp hlen
      rw [← List.singleton_append, ← List.singleton_append (l := es), natOf_append, natOf_append,
        hsame] at h
      have hlt := natOf_lt_pow hrest'
      rcases Nat.lt_trichotomy (natOf [c]) (natOf [d]) with hless | heq | hmore
      · refine ⟨[], c, d, ds, es, rfl, rfl, hc, hd, show c.toNat < d.toNat from ?_⟩
        rw [(natOf_digit hc).2, (natOf_digit hd).2]
        exact Nat.add_lt_add_right hless 48
      · obtain rfl : c = d := Char.toNat_inj.mp (by
          rw [(natOf_digit hc).2, (natOf_digit hd).2, heq])
        rw [heq] at h
        have hafter : DigitBefore ds es := ih hrest hrest' hsame (Nat.lt_of_add_lt_add_left h)
        exact hafter.prepend [c]
      · exfalso
        have hgap := Nat.mul_le_mul_left (10 ^ es.length) (Nat.succ_le_of_lt hmore)
        rw [Nat.succ_eq_add_one, Nat.mul_add, Nat.mul_one] at hgap
        omega

end DigitBefore

/-! ### Records -/

/-- A row of numbers, each as wide as its field and followed by what follows the field. -/
def record : List (Nat × List Char) → List Nat → List Char
  | (width, after) :: form, n :: row => fixed width n ++ (after ++ record form row)
  | _, _ => []

/-- Every number has the digits of its field at most. -/
abbrev Fits (form : List (Nat × List Char)) (row : List Nat) : Prop :=
  List.Forall₂ (fun field n => 0 < field.1 ∧ n < 10 ^ field.1) form row

variable {form : List (Nat × List Char)} {row row' : List Nat}

/-- It is the widths that count. -/
theorem Fits.of_widths {form' : List (Nat × List Char)} (h : Fits form row)
    (hwidths : form'.map Prod.fst = form.map Prod.fst) : Fits form' row := by
  have hall : ∀ form : List (Nat × List Char), Fits form row ↔
      List.Forall₂ (fun width n => 0 < width ∧ n < 10 ^ width) (form.map Prod.fst) row :=
    fun form => by rw [List.forall₂_map_left_iff]
  rw [hall, hwidths, ← hall]
  exact h

/-- A record is made of digits and of what follows its fields. -/
theorem mem_record {c : Char} (h : c ∈ record form row) :
    c.isDigit = true ∨ ∃ field ∈ form, c ∈ field.2 := by
  induction form generalizing row with
  | nil => cases h
  | cons field form ih =>
    cases row with
    | nil => cases h
    | cons n row =>
      rcases List.mem_append.mp h with h | h
      · exact .inl (areDigits_fixed _ _ c h)
      · rcases List.mem_append.mp h with h | h
        · exact .inr ⟨field, List.mem_cons_self, h⟩
        · exact (ih h).imp_right fun ⟨f, hf, hc⟩ => ⟨f, List.mem_cons_of_mem _ hf, hc⟩

/-- Characters that are no digits are replaced in the form. -/
theorem map_record {f : Char → Char} (hf : ∀ c, c.isDigit = true → f c = c)
    (form : List (Nat × List Char)) (row : List Nat) : (record form row).map f =
      record (form.map fun field => (field.1, field.2.map f)) row := by
  induction form generalizing row with
  | nil => rfl
  | cons field form ih =>
    cases row with
    | nil => rfl
    | cons n row =>
      have hdigits : (fixed field.1 n).map f = fixed field.1 n :=
        (List.map_congr_left fun c hc => hf c (areDigits_fixed _ _ c hc)).trans (List.map_id _)
      show (fixed field.1 n ++ (field.2 ++ record form row)).map f = fixed field.1 n ++ (_ ++ _)
      rw [List.map_append, List.map_append, hdigits, ih]

/-- **Records part at a digit**, which is less where the row is. -/
theorem digitBefore_record (h : Fits form row) (h' : Fits form row') (hlt : row < row') :
    DigitBefore (record form row) (record form row') := by
  induction h generalizing row' with
  | nil =>
    cases h'
    exact absurd hlt (List.not_lt_nil _)
  | @cons field n form row hn hrow ih =>
    obtain ⟨width, after⟩ := field
    obtain ⟨hwidth, hn⟩ := hn
    cases h' with
    | @cons _ m _ row' hm hrow' =>
      show DigitBefore (fixed width n ++ (after ++ _)) (fixed width m ++ (after ++ _))
      rcases List.cons_lt_cons_iff.mp hlt with hless | ⟨rfl, hless⟩
      · have hlen : (fixed width n).length = (fixed width m).length := by
          rw [length_fixed hwidth hn, length_fixed hwidth hm.2]
        refine .append (.of_natOf_lt (areDigits_fixed _ _) (areDigits_fixed _ _) hlen ?_) _ _
        rwa [natOf_fixed, natOf_fixed]
      · exact ((ih hrow' hless).prepend after).prepend _

/-- **Records sort as the rows do.** -/
theorem record_lt_record_iff (h : Fits form row) (h' : Fits form row') :
    record form row < record form row' ↔ row < row' := by
  refine ⟨fun hlt => ?_, fun hlt => (digitBefore_record h h' hlt).lt⟩
  rcases lt_trichotomy row row' with hless | rfl | hmore
  · exact hless
  · exact absurd hlt (List.lt_irrefl _)
  · exact absurd (List.lt_trans hlt (digitBefore_record h' h hmore).lt) (List.lt_irrefl _)

end Cocos.Lib
