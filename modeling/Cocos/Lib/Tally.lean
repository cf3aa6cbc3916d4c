import Cocos.Lib.Lists
import Mathlib.Algebra.BigOperators.Group.List.Basic
import Mathlib.Algebra.Order.BigOperators.Group.List
import Mathlib.Algebra.Order.Group.Int
import Mathlib.Tactic.Ring

namespace Cocos.Lib

/-!
# Sums over records that change in place

A list of records to which records are added, and in which one is replaced at a time, keeps a
sum of what each record counts for.

* `tally` — the sum, and `tally_concat`, `tally_set`: what one change does to it;
* `tally_le_tally`, `le_tally_of_mem` — comparing sums record by record, and one record with
  the sum.
-/

universe u

variable {α : Type u} {f g : α → Int} {xs : List α}

/-- The sum of what each record counts for. -/
def tally (f : α → Int) (xs : List α) : Int := (xs.map f).sum

@[simp] theorem tally_nil (f : α → Int) : tally f [] = 0 := rfl

theorem tally_cons (f : α → Int) (x : α) (xs : List α) : tally f (x :: xs) = f x + tally f xs := by
  simp [tally]

/-- A record that is added counts. -/
theorem tally_concat (f : α → Int) (xs : List α) (x : α) :
    tally f (xs ++ [x]) = tally f xs + f x := by
  simp [tally]

/-- A record that is replaced counts no more, and the one in its place does. -/
theorem tally_set {k : Nat} {x : α} (h : xs[k]? = some x) (f : α → Int) (y : α) :
    tally f (xs.set k y) = tally f xs - f x + f y := by
  obtain ⟨hk, rfl⟩ := List.getElem?_eq_some_iff.mp h
  have hk' : k < (xs.map f).length := by simpa using hk
  rw [tally, List.map_set, List.sum_set', dif_pos hk', List.getElem_map, tally]
  ring

/-- A replacement that counts for the same leaves the sum as it was. -/
theorem tally_set_of_eq {k : Nat} {x y : α} (h : xs[k]? = some x) (hf : f y = f x) :
    tally f (xs.set k y) = tally f xs := by
  rw [tally_set h, hf]
  ring

/-- Sums compare as their terms do. -/
theorem tally_le_tally (h : ∀ x ∈ xs, f x ≤ g x) : tally f xs ≤ tally g xs :=
  List.sum_le_sum h

theorem tally_congr (h : ∀ x ∈ xs, f x = g x) : tally f xs = tally g xs :=
  congrArg List.sum (List.map_congr_left h)

theorem tally_add (f g : α → Int) (xs : List α) :
    tally (fun x => f x + g x) xs = tally f xs + tally g xs := by
  induction xs with
  | nil => rfl
  | cons x xs ih =>
    rw [tally_cons, tally_cons, tally_cons, ih]
    ring

/-- A sum of nothing but zeros. -/
theorem tally_eq_zero (h : ∀ x ∈ xs, f x = 0) : tally f xs = 0 := by
  rw [tally_congr (g := fun _ => 0) h]
  induction xs with
  | nil => rfl
  | cons x xs ih =>
    rw [tally_cons, ih fun y hy => h y (List.mem_cons_of_mem _ hy)]
    rfl

theorem tally_nonneg (h : ∀ x ∈ xs, 0 ≤ f x) : 0 ≤ tally f xs :=
  List.sum_nonneg fun _ hz => by
    obtain ⟨x, hx, rfl⟩ := List.mem_map.mp hz
    exact h x hx

/-- Where nothing counts negative, no record counts for more than the sum. -/
theorem le_tally_of_mem (h : ∀ x ∈ xs, 0 ≤ f x) {x : α} (hx : x ∈ xs) : f x ≤ tally f xs := by
  induction xs with
  | nil => cases hx
  | cons y ys ih =>
    rw [tally_cons]
    have hrest : 0 ≤ tally f ys := tally_nonneg fun z hz => h z (List.mem_cons_of_mem _ hz)
    have hy : 0 ≤ f y := h y List.mem_cons_self
    rcases List.mem_cons.mp hx with rfl | hx
    · omega
    · have := ih (fun z hz => h z (List.mem_cons_of_mem _ hz)) hx
      omega

/-- Where nothing counts negative, a sum of zero is one of zeros. -/
theorem eq_zero_of_tally (h : ∀ x ∈ xs, 0 ≤ f x) (hsum : tally f xs = 0) {x : α} (hx : x ∈ xs) :
    f x = 0 := by
  have hle := le_tally_of_mem h hx
  have hnonneg := h x hx
  omega

end Cocos.Lib
