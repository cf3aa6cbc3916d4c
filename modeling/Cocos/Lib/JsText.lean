import Mathlib.Data.List.TakeWhile
import Mathlib.Data.List.DropRight
import Mathlib.Data.Nat.Notation

namespace Cocos.Lib

/-!
# Text as JavaScript reads it

The string functions of the language that parsers are built from, on lists of characters, and the
units it counts a text in.

* `trimStart`, `trim` — white space and line terminators off one end, or both;
* `bigInt` — the `BigInt` of a text: a decimal literal with or without a sign, or one with the
  prefix of another base, and zero for nothing at all; `none` is its `SyntaxError`;
* `codeUnits` — the UTF-16 units of a text, which its `length` and its `slice` count;
* `trim_of_not_space`, `bigInt_digits` — texts without white space, and texts of digits.
-/

/-- A white space or a line terminator of the language. -/
def isSpace (c : Char) : Bool :=
  c.toNat ∈ [0x09, 0x0A, 0x0B, 0x0C, 0x0D, 0x20, 0xA0, 0x1680, 0x2028, 0x2029, 0x202F, 0x205F,
    0x3000, 0xFEFF] ∨ (0x2000 ≤ c.toNat ∧ c.toNat ≤ 0x200A)

/-- `trimStart`. -/
def trimStart (text : List Char) : List Char := text.dropWhile isSpace

/-- `trim`. -/
def trim (text : List Char) : List Char := (trimStart text).rdropWhile isSpace

/-- The value of a digit, a letter counting from ten. -/
def digitValue (c : Char) : Nat :=
  if c.isDigit then c.toNat - '0'.toNat else c.toLower.toNat - 'a'.toNat + 10

/-- The number that digits spell in a base, if they are digits of it and there are any. -/
def natOfDigits (b : Nat) (ds : List Char) : Option Nat :=
  if ds ≠ [] ∧ ds.all (fun c => c.isAlphanum && digitValue c < b) then
    some (ds.foldl (fun n c => b * n + digitValue c) 0)
  else none

/-- The literal of a `BigInt`, without the white space around it. -/
def bigIntLiteral : List Char → Option Int
  | [] => some 0
  | '-' :: ds => (natOfDigits 10 ds).map fun n => -n
  | '+' :: ds => (natOfDigits 10 ds).map fun n => n
  | '0' :: x :: ds =>
    if x.toLower = 'x' then (natOfDigits 16 ds).map fun n => n
    else if x.toLower = 'o' then (natOfDigits 8 ds).map fun n => n
    else if x.toLower = 'b' then (natOfDigits 2 ds).map fun n => n
    else (natOfDigits 10 ('0' :: x :: ds)).map fun n => n
  | ds => (natOfDigits 10 ds).map fun n => n

/-- `BigInt(text)`. -/
def bigInt (text : List Char) : Option Int := bigIntLiteral (trim text)

/-- The UTF-16 units of a character: itself, or the two surrogates of one past the basic plane. -/
def charUnits (c : Char) : List UInt16 :=
  if c.toNat < 0x10000 then [c.toNat.toUInt16]
  else [(0xD800 + (c.toNat - 0x10000) / 0x400).toUInt16,
    (0xDC00 + (c.toNat - 0x10000) % 0x400).toUInt16]

/-- The UTF-16 units of a text. -/
def codeUnits (text : String) : List UInt16 := text.toList.flatMap charUnits

example : codeUnits "a😀" = [0x61, 0xD83D, 0xDE00] := by decide

/-! ### Text without white space -/

theorem trimStart_of_not_space {text : List Char} (h : ∀ c ∈ text, isSpace c = false) :
    trimStart text = text := by
  unfold trimStart
  cases text with
  | nil => rfl
  | cons c cs => rw [List.dropWhile_cons_of_neg (by simp [h c List.mem_cons_self])]

theorem trim_of_not_space {text : List Char} (h : ∀ c ∈ text, isSpace c = false) :
    trim text = text := by
  unfold trim
  rw [trimStart_of_not_space h, List.rdropWhile_eq_self_iff]
  intro hne
  simp [h _ (List.getLast_mem hne)]

/-! ### Digits -/

/-- A digit is one of ten characters. -/
theorem isDigit_cases {c : Char} (h : c.isDigit = true) : 48 ≤ c.toNat ∧ c.toNat ≤ 57 :=
  Char.isDigit_iff_toNat.mp h

theorem isSpace_of_isDigit {c : Char} (h : c.isDigit = true) : isSpace c = false := by
  have := isDigit_cases h
  simp only [isSpace, List.mem_cons, List.not_mem_nil, or_false, Bool.decide_or,
    Bool.or_eq_false_iff, decide_eq_false_iff_not]
  omega

/-- Decimal digits spell the number they are read back as. -/
theorem natOfDigits_ten {ds : List Char} (hne : ds ≠ []) (h : ∀ c ∈ ds, c.isDigit = true) :
    natOfDigits 10 ds = some (Nat.ofDigitChars 10 ds 0) := by
  have hall : ds.all (fun c => c.isAlphanum && digitValue c < 10) = true := by
    rw [List.all_eq_true]
    intro c hc
    have hd := isDigit_cases (h c hc)
    simp only [Char.isAlphanum, digitValue, h c hc, Bool.or_true, if_true, Bool.true_and,
      decide_eq_true_eq]
    show c.toNat - 48 < 10
    omega
  have hfold : ∀ (cs : List Char) (n : Nat), (∀ c ∈ cs, c.isDigit = true) →
      cs.foldl (fun n c => 10 * n + digitValue c) n = Nat.ofDigitChars 10 cs n := by
    intro cs
    induction cs with
    | nil =>
      intro n _
      simp
    | cons c cs ih =>
      intro n hcs
      rw [List.foldl_cons, Nat.ofDigitChars_cons, digitValue, if_pos (hcs c List.mem_cons_self)]
      exact ih _ fun d hd => hcs d (List.mem_cons_of_mem _ hd)
  rw [natOfDigits, if_pos ⟨hne, hall⟩, hfold ds 0 h]

/-- **A text of digits is the number they spell**, and no digits are zero. -/
theorem bigInt_digits {ds : List Char} (h : ∀ c ∈ ds, c.isDigit = true) :
    bigInt ds = some (Nat.ofDigitChars 10 ds 0 : Int) := by
  have htrim : trim ds = ds := trim_of_not_space fun c hc => isSpace_of_isDigit (h c hc)
  unfold bigInt
  rw [htrim]
  unfold bigIntLiteral
  split
  · simp
  · exact absurd (h '-' List.mem_cons_self) (by decide)
  · exact absurd (h '+' List.mem_cons_self) (by decide)
  · rename_i x ds'
    have hx := h x (List.mem_cons_of_mem _ List.mem_cons_self)
    have hletter : ∀ l : Char, l.isDigit = false → x.toLower ≠ l := by
      intro l hl heq
      have hsame : x.toLower = x := by
        unfold Char.toLower
        have := isDigit_cases hx
        split
        · rename_i hupper
          simp only [UInt32.le_iff_toNat_le] at hupper
          have hval : x.val.toNat = x.toNat := rfl
          simp at hupper
          omega
        · rfl
      rw [← heq, hsame, hx] at hl
      cases hl
    rw [if_neg (hletter 'x' (by decide)), if_neg (hletter 'o' (by decide)),
      if_neg (hletter 'b' (by decide)), natOfDigits_ten (by simp) h]
    rfl
  · rename_i hne _ _ _
    rw [natOfDigits_ten (by simpa using hne) h]
    rfl

end Cocos.Lib
