import Mathlib.Data.List.Sort
import Mathlib.Order.Lattice

namespace Cocos.Lib

/-!
# Sorting and nearest ranks

The elements of a list in order, and the one at a rank: how many elements are no greater than it,
and how many are less.

* `insertionSort_eq_of_perm` — two lists of the same elements are sorted into one, and
  `sortBy`, `sortBy_eq_of_perm` — the same for a comparison;
* `sorted`, `nearestRank` — the list in order, and its element at a rank, where ranks below the
  first are the first and ranks above the last are the last;
* `mem_nearestRank`, `le_countP_nearestRank`, `countP_nearestRank_lt` — **the element at a rank**,
  as what is counted over the list as it was given;
* `nearestRank_perm`, `nearestRank_mono` — its order does not matter, and a greater rank has no
  lesser element.
-/

universe u

section Sorting

variable {β : Type u} {m m' : List β}

/-- **Two lists of the same elements are sorted into one**, where the order tells the elements
    apart. -/
theorem insertionSort_eq_of_perm {r : β → β → Prop} [DecidableRel r] [Std.Total r] [IsTrans β r]
    (hanti : ∀ a ∈ m, ∀ b ∈ m, r a b → r b a → a = b) (h : m.Perm m') :
    m.insertionSort r = m'.insertionSort r := by
  have hperm : (m.insertionSort r).Perm (m'.insertionSort r) :=
    (List.perm_insertionSort r m).trans (h.trans (List.perm_insertionSort r m').symm)
  refine List.Perm.eq_of_pairwise (fun a b ha hb hab hba => ?_)
    (List.pairwise_insertionSort r m) (List.pairwise_insertionSort r m') hperm
  exact hanti a ((List.mem_insertionSort r).mp ha) b
    (h.symm.subset ((List.mem_insertionSort r).mp hb)) hab hba

variable {cmp : β → β → Ordering}

/-- `[...l].sort(cmp)`: what compares equal stays in its order. -/
def sortBy (cmp : β → β → Ordering) (l : List β) : List β :=
  l.insertionSort fun a b => (cmp a b).isLE

theorem sortBy_perm (cmp : β → β → Ordering) (l : List β) : (sortBy cmp l).Perm l :=
  List.perm_insertionSort _ l

/-- Elements compared by something of theirs. -/
theorem transCmp_comap {γ : Type*} (cmp : β → β → Ordering) [Std.TransCmp cmp] (f : γ → β) :
    Std.TransCmp fun a b => cmp (f a) (f b) where
  eq_swap := Std.OrientedCmp.eq_swap
  isLE_trans := Std.TransCmp.isLE_trans

/-- No element is after one that comes before it. -/
theorem pairwise_sortBy [Std.TransCmp cmp] (l : List β) :
    (sortBy cmp l).Pairwise fun a b => (cmp a b).isLE = true := by
  have : Std.Total fun a b => (cmp a b).isLE = true :=
    ⟨fun a b => by
      have hswap : cmp b a = (cmp a b).swap := Std.OrientedCmp.eq_swap
      rw [hswap]
      cases cmp a b <;> simp⟩
  have : IsTrans β fun a b => (cmp a b).isLE = true := ⟨fun _ _ _ => Std.TransCmp.isLE_trans⟩
  exact List.pairwise_insertionSort _ l

/-- A comparison that tells the elements apart leaves one order for them. -/
theorem sortBy_eq_of_perm [Std.TransCmp cmp]
    (heq : ∀ a ∈ m, ∀ b ∈ m, cmp a b = .eq → a = b) (h : m.Perm m') :
    sortBy cmp m = sortBy cmp m' := by
  have : Std.Total fun a b => (cmp a b).isLE = true :=
    ⟨fun a b => by
      have hswap : cmp b a = (cmp a b).swap := Std.OrientedCmp.eq_swap
      rw [hswap]
      cases cmp a b <;> simp⟩
  have : IsTrans β fun a b => (cmp a b).isLE = true := ⟨fun _ _ _ => Std.TransCmp.isLE_trans⟩
  exact insertionSort_eq_of_perm
    (fun a ha b hb hab hba => heq a ha b hb (Std.OrientedCmp.isLE_antisymm hab hba)) h

end Sorting

variable {α : Type u} [LinearOrder α] {l l' : List α}

/-- The elements of a list in order. -/
def sorted (l : List α) : List α := l.insertionSort (· ≤ ·)

theorem sorted_perm (l : List α) : (sorted l).Perm l := List.perm_insertionSort (· ≤ ·) l

@[simp] theorem length_sorted (l : List α) : (sorted l).length = l.length :=
  List.length_insertionSort (· ≤ ·) l

theorem pairwise_sorted (l : List α) : (sorted l).Pairwise (· ≤ ·) :=
  List.pairwise_insertionSort (· ≤ ·) l

/-- The elements in order do not depend on how they were given. -/
theorem sorted_eq_of_perm (h : l.Perm l') : sorted l = sorted l' :=
  insertionSort_eq_of_perm (fun _ _ _ _ => le_antisymm) h

/-- The elements in order, by their places. -/
theorem sorted_le {i j : Nat} {a b : α} (ha : (sorted l)[i]? = some a)
    (hb : (sorted l)[j]? = some b) (hij : i ≤ j) : a ≤ b := by
  obtain ⟨hi, rfl⟩ := List.getElem?_eq_some_iff.mp ha
  obtain ⟨hj, rfl⟩ := List.getElem?_eq_some_iff.mp hb
  rcases hij.eq_or_lt with rfl | hlt
  · exact le_rfl
  · exact List.pairwise_iff_getElem.mp (pairwise_sorted l) i j hi hj hlt

/-- The place of a rank: ranks below the first are the first, and above the last the last. -/
def placeOf (rank : Int) (n : Nat) : Nat := (min (max rank 1) n - 1).toNat

/-- The element at a rank, of a list that has one. -/
def nearestRank (l : List α) (rank : Int) : Option α := (sorted l)[placeOf rank l.length]?

theorem nearestRank_perm (h : l.Perm l') (rank : Int) :
    nearestRank l rank = nearestRank l' rank := by
  rw [nearestRank, nearestRank, sorted_eq_of_perm h, h.length_eq]

/-- A list that is not empty has an element at every rank. -/
theorem exists_nearestRank (hne : l ≠ []) (rank : Int) : ∃ a, nearestRank l rank = some a := by
  have hpos := List.length_pos_iff.mpr hne
  refine ⟨_, List.getElem?_eq_getElem ?_⟩
  rw [length_sorted, placeOf]
  omega

variable {rank : Int} {a : α}

theorem mem_nearestRank (h : nearestRank l rank = some a) : a ∈ l :=
  (sorted_perm l).subset (List.mem_of_getElem? h)

/-- **As many elements as the rank says are no greater.** -/
theorem le_countP_nearestRank (h : nearestRank l rank = some a) (hrank : rank ≤ l.length) :
    rank ≤ l.countP (decide <| · ≤ a) := by
  obtain ⟨hlt, -⟩ := List.getElem?_eq_some_iff.mp h
  have hfirst : ∀ b ∈ (sorted l).take (placeOf rank l.length + 1), decide (b ≤ a) = true := by
    intro b hb
    obtain ⟨i, hi⟩ := List.mem_iff_getElem?.mp hb
    obtain ⟨hlen, -⟩ := List.getElem?_eq_some_iff.mp hi
    rw [List.length_take] at hlen
    rw [List.getElem?_take_of_lt (by omega)] at hi
    exact decide_eq_true (sorted_le hi h (by omega))
  have hcount := List.Sublist.countP_le (p := (decide <| · ≤ a))
    (List.take_sublist (placeOf rank l.length + 1) (sorted l))
  rw [List.countP_eq_length.mpr hfirst, List.length_take, (sorted_perm l).countP_eq] at hcount
  unfold placeOf at hcount hlt
  omega

/-- **Fewer elements than the rank says are less.** -/
theorem countP_nearestRank_lt (h : nearestRank l rank = some a) (hrank : 1 ≤ rank) :
    l.countP (decide <| · < a) < rank := by
  obtain ⟨hlt, -⟩ := List.getElem?_eq_some_iff.mp h
  have hrest : ((sorted l).drop (placeOf rank l.length)).countP (decide <| · < a) = 0 := by
    refine List.countP_eq_zero.mpr fun b hb => ?_
    obtain ⟨i, hi⟩ := List.mem_iff_getElem?.mp hb
    rw [List.getElem?_drop] at hi
    simpa using sorted_le h hi (Nat.le_add_right _ _)
  have hcount := (sorted_perm l).countP_eq (decide <| · < a)
  rw [← List.take_append_drop (placeOf rank l.length) (sorted l), List.countP_append,
    hrest] at hcount
  have hle := List.countP_le_length (p := (decide <| · < a))
    (l := (sorted l).take (placeOf rank l.length))
  rw [List.length_take] at hle
  unfold placeOf at hcount hle
  omega

/-- **A greater rank has no lesser element.** -/
theorem nearestRank_mono {rank' : Int} {b : α} (h : nearestRank l rank = some a)
    (h' : nearestRank l rank' = some b) (hle : rank ≤ rank') : a ≤ b :=
  sorted_le h h' (by unfold placeOf; omega)

/-- The first rank has the least element. -/
theorem nearestRank_le (h : nearestRank l rank = some a) (hrank : rank ≤ 1) {b : α} (hb : b ∈ l) :
    a ≤ b := by
  obtain ⟨i, hi⟩ := List.mem_iff_getElem?.mp ((sorted_perm l).mem_iff.mpr hb)
  exact sorted_le h hi (by unfold placeOf; omega)

/-- The last rank has the greatest element. -/
theorem le_nearestRank (h : nearestRank l rank = some a) (hrank : l.length ≤ rank) {b : α}
    (hb : b ∈ l) : b ≤ a := by
  obtain ⟨i, hi⟩ := List.mem_iff_getElem?.mp ((sorted_perm l).mem_iff.mpr hb)
  obtain ⟨hlt, -⟩ := List.getElem?_eq_some_iff.mp hi
  rw [length_sorted] at hlt
  exact sorted_le hi h (by unfold placeOf; omega)

end Cocos.Lib
