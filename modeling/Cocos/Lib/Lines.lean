import Mathlib.Data.List.Basic
import Mathlib.Tactic.Common

namespace Cocos.Lib

/-!
# Lines, and texts that end in the middle of one

A text of lines that is cut off anywhere: which of its lines are whole, and what is left of the
next one.

* `written`, `linesOf` — lines to a text, each ended by a newline, and a text to its lines, the
  empty ones dropped;
* `Cut`, `exists_cut` — **a text that is cut off is some whole lines and no more than a part of the
  next**, whose newline is the only thing it can be without and still be whole;
* `Cut.linesOf_eq`, `Cut.holdsLine_iff`, `Cut.endsInside_iff` — its lines, which of the lines it
  holds, and whether it ends inside one.
-/

universe u

variable {χ : Type u}

/-- The text of some lines. -/
def written (newline : χ) (ls : List (List χ)) : List χ := ls.flatMap (· ++ [newline])

@[simp] theorem written_nil (newline : χ) : written newline [] = [] := rfl

@[simp] theorem written_cons (newline : χ) (l : List χ) (ls : List (List χ)) :
    written newline (l :: ls) = l ++ newline :: written newline ls := by
  simp [written]

/-- What is past a line is longer than the line. -/
theorem length_lt_written (newline : χ) (l : List χ) (ls : List (List χ)) (i : Nat) (p : List χ) :
    l.length < (written newline ((l :: ls).take (i + 1)) ++ p).length := by
  simp only [List.take_succ_cons, written_cons, List.length_append, List.length_cons]
  omega

/-- A text holds a line: all of it, with or without its newline. -/
def HoldsLine (newline : χ) (ls : List (List χ)) (text : List χ) (i : Nat) : Prop :=
  ∃ l, ls[i]? = some l ∧ written newline (ls.take i) ++ l <+: text

/-- A part of a line that is neither nothing nor all of it. -/
structure IsPart (p l : List χ) : Prop where
  isPrefix : p <+: l
  ne_nil : p ≠ []
  ne : p ≠ l

/-- A text ends inside a line. -/
def EndsInside (newline : χ) (ls : List (List χ)) (text : List χ) : Prop :=
  ∃ i l p, ls[i]? = some l ∧ IsPart p l ∧ text = written newline (ls.take i) ++ p

/-- The text of some lines, cut off: how many of them are whole, and what is left of the next. -/
inductive Cut (newline : χ) : List (List χ) → List χ → Nat → List (List χ) → Prop
  | nothing (ls) : Cut newline ls [] 0 []
  | whole (l ls) : l ≠ [] → Cut newline (l :: ls) l 1 []
  | torn (l ls p) : IsPart p l → Cut newline (l :: ls) p 0 [p]
  | line (l) {ls text k rest} : Cut newline ls text k rest →
      Cut newline (l :: ls) (l ++ newline :: text) (k + 1) rest

section Cut

variable {newline : χ} {ls : List (List χ)} {text : List χ}

/-- **Every prefix of the text is cut off somewhere.** -/
theorem exists_cut (hpre : text <+: written newline ls) :
    ∃ k rest, Cut newline ls text k rest := by
  induction ls generalizing text with
  | nil =>
    rw [List.prefix_nil.mp hpre]
    exact ⟨0, [], .nothing _⟩
  | cons l ls ih =>
    rw [written_cons] at hpre
    by_cases hin : text <+: l
    · by_cases hnil : text = []
      · subst hnil
        exact ⟨0, [], .nothing _⟩
      · by_cases hall : text = l
        · subst hall
          exact ⟨1, [], .whole _ _ hnil⟩
        · exact ⟨0, [text], .torn _ _ _ ⟨hin, hnil, hall⟩⟩
    · -- the text goes on after the line, so its newline comes next
      obtain ⟨rest, rfl⟩ :=
        (List.prefix_or_prefix_of_prefix hpre (List.prefix_append l _)).resolve_left hin
      rw [List.prefix_append_right_inj] at hpre
      cases rest with
      | nil => exact absurd (by simp) hin
      | cons c rest =>
        obtain ⟨rfl, hrest⟩ := List.cons_prefix_cons.mp hpre
        obtain ⟨k, torn, hcut⟩ := ih hrest
        exact ⟨k + 1, torn, .line l hcut⟩

variable {k : Nat} {rest : List (List χ)}

theorem Cut.le_length (h : Cut newline ls text k rest) : k ≤ ls.length := by
  induction h with
  | nothing ls => exact Nat.zero_le _
  | whole l ls hl => exact Nat.succ_le_succ (Nat.zero_le _)
  | torn l ls p hpart => exact Nat.zero_le _
  | line l hcut ih => exact Nat.succ_le_succ ih

/-- **The whole lines are the first.** -/
theorem Cut.holdsLine_iff (h : Cut newline ls text k rest) (hne : ∀ l ∈ ls, l ≠ []) (i : Nat) :
    HoldsLine newline ls text i ↔ i < k := by
  induction h generalizing i with
  | nothing ls =>
    refine iff_of_false ?_ (Nat.not_lt_zero i)
    rintro ⟨l, hl, hpre⟩
    have hnil := (List.append_eq_nil_iff.mp (List.prefix_nil.mp hpre)).2
    exact hne l (List.mem_of_getElem? hl) hnil
  | whole l ls hl =>
    cases i with
    | zero => exact iff_of_true ⟨l, rfl, List.prefix_rfl⟩ Nat.zero_lt_one
    | succ i =>
      refine iff_of_false ?_ (by omega)
      rintro ⟨l', -, hpre⟩
      exact Nat.not_le_of_lt (length_lt_written newline l ls i l') hpre.length_le
  | torn l ls p hpart =>
    refine iff_of_false ?_ (Nat.not_lt_zero i)
    rintro ⟨l', hl', hpre⟩
    have hlt : p.length < l.length :=
      Nat.lt_of_le_of_ne hpart.isPrefix.length_le fun heq =>
        hpart.ne (hpart.isPrefix.eq_of_length heq)
    have hlen := hpre.length_le
    cases i with
    | zero =>
      obtain rfl : l = l' := by simpa using hl'
      simp only [List.take_zero, written_nil, List.nil_append] at hlen
      omega
    | succ i =>
      have hpast := length_lt_written newline l ls i l'
      omega
  | @line l ls text k rest hcut ih =>
    cases i with
    | zero =>
      exact iff_of_true ⟨l, rfl, List.prefix_append l _⟩ (Nat.zero_lt_succ k)
    | succ i =>
      rw [Nat.add_lt_add_iff_right, ← ih (fun l hl => hne l (List.mem_cons_of_mem _ hl))]
      simp [HoldsLine, List.append_assoc, List.prefix_append_right_inj, List.cons_prefix_cons]

/-- **A text ends inside a line where something is left of one.** -/
theorem Cut.endsInside_iff (h : Cut newline ls text k rest) :
    EndsInside newline ls text ↔ rest ≠ [] := by
  induction h with
  | nothing ls =>
    refine iff_of_false ?_ (fun h => h rfl)
    rintro ⟨i, l, p, -, hpart, htext⟩
    exact hpart.ne_nil (List.append_eq_nil_iff.mp htext.symm).2
  | whole l ls hl =>
    refine iff_of_false ?_ (fun h => h rfl)
    rintro ⟨i, l', p, hl', hpart, htext⟩
    cases i with
    | zero =>
      obtain rfl : l = l' := by simpa using hl'
      exact hpart.ne (by simpa using htext.symm)
    | succ i =>
      have hpast := length_lt_written newline l ls i p
      rw [← htext] at hpast
      exact absurd hpast (Nat.lt_irrefl _)
  | torn l ls p hpart => exact iff_of_true ⟨0, l, p, rfl, hpart, rfl⟩ (by simp)
  | @line l ls text k rest hcut ih =>
    rw [← ih]
    constructor
    · rintro ⟨i, l', p, hl', hpart, htext⟩
      cases i with
      | zero =>
        obtain rfl : l = l' := by simpa using hl'
        have hlen := congrArg List.length htext
        have hle := hpart.isPrefix.length_le
        simp only [List.take_zero, written_nil, List.nil_append, List.length_append,
          List.length_cons] at hlen
        omega
      | succ i => exact ⟨i, l', p, hl', hpart, by simpa using htext⟩
    · rintro ⟨i, l', p, hl', hpart, rfl⟩
      exact ⟨i + 1, l', p, hl', hpart, by simp⟩

/-- What is left of a line is a part of the next one. -/
theorem Cut.isPart (h : Cut newline ls text k rest) :
    rest = [] ∨ ∃ p l, rest = [p] ∧ l ∈ ls ∧ IsPart p l := by
  induction h with
  | nothing => exact .inl rfl
  | whole => exact .inl rfl
  | torn l ls p hpart => exact .inr ⟨p, l, rfl, List.mem_cons_self, hpart⟩
  | line l hcut ih =>
    refine ih.imp_right ?_
    rintro ⟨p, l', hrest, hl', hpart⟩
    exact ⟨p, l', hrest, List.mem_cons_of_mem _ hl', hpart⟩

/-! ### The lines of a text -/

variable [DecidableEq χ]

/-- The lines of a text that are not empty. -/
def linesOf (newline : χ) (text : List χ) : List (List χ) :=
  (text.splitOn newline).filter (· ≠ [])

theorem linesOf_append_newline {l : List χ} (hl : newline ∉ l) (hne : l ≠ []) (text : List χ) :
    linesOf newline (l ++ newline :: text) = l :: linesOf newline text := by
  simp [linesOf, List.splitOn_append_cons_self_of_not_mem hl, hne]

theorem linesOf_of_notMem {l : List χ} (hl : newline ∉ l) (hne : l ≠ []) :
    linesOf newline l = [l] := by
  simp [linesOf, List.splitOn_eq_singleton hl, hne]

/-- **The lines of a text that was cut off**: the whole ones, and what is left of the next. -/
theorem Cut.linesOf_eq (h : Cut newline ls text k rest)
    (hls : ∀ l ∈ ls, l ≠ [] ∧ newline ∉ l) : linesOf newline text = ls.take k ++ rest := by
  induction h with
  | nothing ls => simp [linesOf]
  | whole l ls hl => exact linesOf_of_notMem (hls l List.mem_cons_self).2 hl
  | torn l ls p hpart =>
    have hp : newline ∉ p := fun hmem =>
      (hls l List.mem_cons_self).2 (hpart.isPrefix.subset hmem)
    exact linesOf_of_notMem hp hpart.ne_nil
  | line l hcut ih =>
    obtain ⟨hne, hl⟩ := hls l List.mem_cons_self
    rw [linesOf_append_newline hl hne, ih fun l hl => hls l (List.mem_cons_of_mem _ hl)]
    rfl

end Cut

end Cocos.Lib
