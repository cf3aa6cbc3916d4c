import Mathlib.Combinatorics.Enumerative.DoubleCounting
import Mathlib.Data.List.Forall2
import Mathlib.Data.List.Nodup
import Mathlib.Order.Basic

namespace Cocos.Lib

/-!
# Lists, position by position

What `List.Forall₂` says about membership and about counting: the two lists have the same
elements up to the relation, and a test that the relation respects passes as often in one as
in the other.  Where the elements of one list have keys of their own, a key finds its element;
where they are in the order of their keys, a bound cuts the list in two.

* `exists_left_of_forall₂`, `length_filter_of_forall₂`, `forall₂_filter_filterMap` — two related
  lists;
* `forall_mem_set`, `exists_mem_set`, `filterMap_set_perm` — a list one element of which is
  replaced;
* `concat_eq_append_cons`, `forall_prefix_iff` — a list with one more element, and its first ones;
* `length_le_of_related` — **a list whose elements have each one of their own in another is no
  longer than that**;
* `filter_le_prefix`, `filter_le_of_split`, `filter_le_append_filter_between` — a list in order;
* `prefix_of_subperm` — a part of a list, up to the order.
-/

universe u v

variable {α : Type u} {β : Type v} {R : α → β → Prop}

/-- An element of the second list is related to one of the first. -/
theorem exists_left_of_forall₂ {l₁ : List α} {l₂ : List β} (h : List.Forall₂ R l₁ l₂) {b : β}
    (hb : b ∈ l₂) : ∃ a ∈ l₁, R a b := by
  induction h with
  | nil => cases hb
  | cons hr _ ih =>
    rcases List.mem_cons.mp hb with rfl | hb
    · exact ⟨_, List.mem_cons_self, hr⟩
    · obtain ⟨a, ha, hab⟩ := ih hb
      exact ⟨a, List.mem_cons_of_mem _ ha, hab⟩

/-- An element of the first list is related to one of the second. -/
theorem exists_right_of_forall₂ {l₁ : List α} {l₂ : List β} (h : List.Forall₂ R l₁ l₂) {a : α}
    (ha : a ∈ l₁) : ∃ b ∈ l₂, R a b :=
  exists_left_of_forall₂ h.flip ha

/-- A list related to an appended one is appended itself. -/
theorem exists_append_of_forall₂ {l₁ l₂ : List α} {l : List β}
    (h : List.Forall₂ R (l₁ ++ l₂) l) :
    ∃ x y, l = x ++ y ∧ List.Forall₂ R l₁ x ∧ List.Forall₂ R l₂ y := by
  induction l₁ generalizing l with
  | nil => exact ⟨[], l, rfl, .nil, h⟩
  | cons a l₁ ih =>
    cases h with
    | cons hr hrest =>
      obtain ⟨x, y, rfl, hx, hy⟩ := ih hrest
      exact ⟨_ :: x, y, rfl, .cons hr hx, hy⟩

/-- Position by position, one relation after another. -/
theorem forall₂_trans {γ : Type*} {S : β → γ → Prop} {T : α → γ → Prop}
    (htrans : ∀ a b c, R a b → S b c → T a c) {l₁ : List α} {l₂ : List β} {l₃ : List γ}
    (h : List.Forall₂ R l₁ l₂) (h' : List.Forall₂ S l₂ l₃) : List.Forall₂ T l₁ l₃ := by
  induction h generalizing l₃ with
  | nil =>
    cases h'
    exact .nil
  | cons hr _ ih =>
    cases h' with
    | cons hs hrest => exact .cons (htrans _ _ _ hr hs) (ih hrest)

/-- One more element in each of two related lists. -/
theorem forall₂_concat {l₁ : List α} {l₂ : List β} {a : α} {b : β} (h : List.Forall₂ R l₁ l₂)
    (hab : R a b) : List.Forall₂ R (l₁ ++ [a]) (l₂ ++ [b]) :=
  List.rel_append h (.cons hab .nil)

/-- A relation that holds of the elements the second list has is enough to change to. -/
theorem forall₂_imp_mem {S : α → β → Prop} {l₁ : List α} {l₂ : List β}
    (h : List.Forall₂ R l₁ l₂) (himp : ∀ a b, b ∈ l₂ → R a b → S a b) : List.Forall₂ S l₁ l₂ := by
  induction h with
  | nil => exact .nil
  | cons hr _ ih =>
    exact .cons (himp _ _ List.mem_cons_self hr)
      (ih fun a b hb => himp a b (List.mem_cons_of_mem _ hb))

/-- A test that the relation respects passes as often in one list as in the other. -/
theorem length_filter_of_forall₂ {l₁ : List α} {l₂ : List β} (h : List.Forall₂ R l₁ l₂)
    {p : α → Bool} {q : β → Bool} (hpq : ∀ a b, R a b → q b = p a) :
    (l₂.filter q).length = (l₁.filter p).length := by
  induction h with
  | nil => rfl
  | cons hr _ ih =>
    rw [List.filter_cons, List.filter_cons, hpq _ _ hr]
    split <;> simp [ih]

/-- The elements of one list that a test passes for, and what is read off the other, where the test
    says of which elements something is read. -/
theorem forall₂_filter_filterMap {γ : Type*} {S : α → γ → Prop} {l₁ : List α} {l₂ : List β}
    (h : List.Forall₂ R l₁ l₂) {p : α → Bool} {f : β → Option γ}
    (hnone : ∀ a b, R a b → p a = false → f b = none)
    (hsome : ∀ a b, R a b → p a = true → ∃ c, f b = some c ∧ S a c) :
    List.Forall₂ S (l₁.filter p) (l₂.filterMap f) := by
  induction h with
  | nil => exact .nil
  | @cons a b l₁ l₂ hr _ ih =>
    cases hp : p a with
    | false => simpa [hp, hnone a b hr hp] using ih
    | true =>
      obtain ⟨c, hc, hs⟩ := hsome a b hr hp
      simpa [hp, hc] using And.intro hs ih

/-- Where a test passes at most once, the elements it passes for are one. -/
theorem eq_of_length_filter_le_one {l : List α} {p : α → Bool}
    (h : (l.filter p).length ≤ 1) {a b : α} (ha : a ∈ l) (hb : b ∈ l) (hpa : p a = true)
    (hpb : p b = true) : a = b := by
  have hma : a ∈ l.filter p := List.mem_filter.mpr ⟨ha, hpa⟩
  have hmb : b ∈ l.filter p := List.mem_filter.mpr ⟨hb, hpb⟩
  match hl : l.filter p with
  | [] => simp [hl] at hma
  | [x] =>
    rw [hl, List.mem_singleton] at hma hmb
    rw [hma, hmb]
  | x :: y :: rest => simp [hl] at h

/-- What a list is mapped to by a function that may fail is related to it by the function. -/
theorem forall₂_of_mapM_eq_ok {ε : Type*} {f : α → Except ε β} {l : List α} {l' : List β}
    (h : l.mapM f = .ok l') : List.Forall₂ (fun a b => f a = .ok b) l l' := by
  induction l generalizing l' with
  | nil =>
    cases h
    exact .nil
  | cons a l ih =>
    rw [List.mapM_cons] at h
    cases ha : f a with
    | error e =>
      rw [ha] at h
      cases h
    | ok b =>
      cases hl : l.mapM f with
      | error e =>
        rw [ha, hl] at h
        cases h
      | ok bs =>
        rw [ha, hl] at h
        cases h
        exact .cons ha (ih hl)

theorem forall₂_of_mapM_eq_some {f : α → Option β} {l : List α} {l' : List β}
    (h : l.mapM f = some l') : List.Forall₂ (fun a b => f a = some b) l l' := by
  induction l generalizing l' with
  | nil =>
    cases h
    exact .nil
  | cons a l ih =>
    rw [List.mapM_cons] at h
    obtain ⟨b, hb, hrest⟩ := Option.bind_eq_some_iff.mp h
    obtain ⟨bs, hbs, hcons⟩ := Option.bind_eq_some_iff.mp hrest
    cases hcons
    exact .cons hb (ih hbs)

/-- A function that may fail and does not maps a list as one that cannot. -/
theorem mapM_eq_pure_map {m : Type v → Type*} [Monad m] [LawfulMonad m] {f : α → m β} {g : α → β}
    {l : List α} (h : ∀ a ∈ l, f a = pure (g a)) : l.mapM f = pure (l.map g) := by
  induction l with
  | nil => rfl
  | cons a l ih =>
    obtain ⟨ha, hl⟩ := List.forall_mem_cons.mp h
    rw [List.mapM_cons, ha, ih hl, pure_bind, pure_bind, List.map_cons]

theorem mapM_eq_ok_map {ε : Type*} {f : α → Except ε β} {g : α → β} {l : List α}
    (h : ∀ a ∈ l, f a = .ok (g a)) : l.mapM f = .ok (l.map g) := mapM_eq_pure_map h

theorem mapM_eq_some_map {f : α → Option β} {g : α → β} {l : List α}
    (h : ∀ a ∈ l, f a = some (g a)) : l.mapM f = some (l.map g) := mapM_eq_pure_map h

/-- Related lists are mapped alike by functions that the relation respects. -/
theorem map_eq_map_of_forall₂ {γ : Type*} {f : α → γ} {g : β → γ} {l₁ : List α} {l₂ : List β}
    (h : List.Forall₂ R l₁ l₂) (hfg : ∀ a ∈ l₁, ∀ b, R a b → g b = f a) : l₂.map g = l₁.map f := by
  induction h with
  | nil => rfl
  | cons hr _ ih =>
    rw [List.map_cons, List.map_cons, hfg _ List.mem_cons_self _ hr,
      ih fun a ha => hfg a (List.mem_cons_of_mem _ ha)]

/-- Among elements whose keys differ, a search for one key finds its element or nothing. -/
theorem find?_of_key {κ : Type*} {key : α → κ} {l : List α} (hkeys : (l.map key).Nodup) {a : α}
    (ha : a ∈ l) {p : α → Bool} (hp : ∀ b, p b = true → key b = key a) :
    l.find? p = if p a then some a else none := by
  split
  · rename_i hpa
    obtain ⟨b, hb⟩ := Option.isSome_iff_exists.mp (List.find?_isSome.mpr ⟨a, ha, hpa⟩)
    have hkey : key b = key a := hp b (List.find?_some hb)
    rw [hb, List.inj_on_of_nodup_map hkeys (List.mem_of_find?_eq_some hb) ha hkey]
  · rename_i hpa
    rw [List.find?_eq_none]
    intro b hb hpb
    exact hpa (List.inj_on_of_nodup_map hkeys hb ha (hp b hpb) ▸ hpb)

/-- Among elements whose keys differ, each is found by its key. -/
theorem find?_key {κ : Type*} [DecidableEq κ] {key : α → κ} {l : List α}
    (hkeys : (l.map key).Nodup) {a : α} (ha : a ∈ l) :
    l.find? (fun x => key x = key a) = some a := by
  rw [find?_of_key hkeys ha (fun b hb => of_decide_eq_true hb), if_pos (decide_eq_true rfl)]

/-- Among elements whose keys differ, a change to one key sets one place. -/
theorem map_eq_set_of_key {κ : Type*} {key : α → κ} {l : List α} (hkeys : (l.map key).Nodup)
    {i : Nat} {a : α} (hi : l[i]? = some a) {f : α → α} (hf : ∀ b, key b ≠ key a → f b = b) :
    l.map f = l.set i (f a) := by
  induction l generalizing i with
  | nil => cases hi
  | cons b l ih =>
    rw [List.map_cons, List.nodup_cons] at hkeys
    cases i with
    | zero =>
      obtain rfl := Option.some.inj hi
      have hrest : l.map f = l := by
        refine (List.map_congr_left fun c hc => ?_).trans l.map_id
        exact hf c fun heq => hkeys.1 (heq ▸ List.mem_map_of_mem hc)
      rw [List.map_cons, hrest, List.set_cons_zero]
    | succ i =>
      rw [List.getElem?_cons_succ] at hi
      have hb : f b = b := hf b fun heq =>
        hkeys.1 (heq ▸ List.mem_map_of_mem (List.mem_of_getElem? hi))
      rw [List.map_cons, List.set_cons_succ, hb, ih hkeys.2 hi]

/-- The places of a list with one more element. -/
theorem getElem?_concat_eq_some {l : List α} {a b : α} {i : Nat} :
    (l ++ [a])[i]? = some b ↔ l[i]? = some b ∨ i = l.length ∧ b = a := by
  rw [List.getElem?_append]
  split
  · rename_i hlt
    constructor
    · exact .inl
    · rintro (h | ⟨h, -⟩)
      · exact h
      · omega
  · rename_i hge
    rw [List.getElem?_singleton, List.getElem?_eq_none (by omega)]
    split
    · rename_i hlast
      rw [Option.some.injEq]
      constructor
      · exact fun h => .inr ⟨by omega, h.symm⟩
      · rintro (h | ⟨-, h⟩)
        · cases h
        · exact h.symm
    · rename_i hbeyond
      constructor
      · intro h
        cases h
      · rintro (h | ⟨h, -⟩)
        · cases h
        · omega

/-- What holds of every element, and of the one put in the place of another. -/
theorem forall_mem_set {l : List α} {P : α → Prop} (h : ∀ a ∈ l, P a) {b : α} (hb : P b) (i : Nat) :
    ∀ a ∈ l.set i b, P a := by
  intro a ha
  rcases List.mem_or_eq_of_mem_set ha with ha | rfl
  · exact h a ha
  · exact hb

/-- What holds of every element, and of the one put at the end. -/
theorem forall_mem_concat {l : List α} {P : α → Prop} (h : ∀ a ∈ l, P a) {b : α} (hb : P b) :
    ∀ a ∈ l ++ [b], P a :=
  List.forall_mem_append.mpr ⟨h, List.forall_mem_singleton.mpr hb⟩

/-- An element that is not the one replaced is still there. -/
theorem mem_set_or {l : List α} {a : α} (ha : a ∈ l) (i : Nat) (b : α) :
    a ∈ l.set i b ∨ l[i]? = some a := by
  obtain ⟨j, hj⟩ := List.mem_iff_getElem?.mp ha
  by_cases hij : i = j
  · exact .inr (hij ▸ hj)
  · exact .inl (List.mem_of_getElem? ((List.getElem?_set_ne hij).trans hj))

/-- An element is still there after another is set, and so is what becomes of it itself. -/
theorem exists_mem_set {l : List α} {i : Nat} {a b : α} {P : α → Prop} (hi : l[i]? = some a)
    (h : ∃ c ∈ l, P c) (hab : P a → P b) : ∃ c ∈ l.set i b, P c := by
  obtain ⟨c, hc, hPc⟩ := h
  rcases mem_set_or hc i b with hstays | hreplaced
  · exact ⟨c, hstays, hPc⟩
  · cases hi.symm.trans hreplaced
    obtain ⟨hlt, -⟩ := List.getElem?_eq_some_iff.mp hi
    exact ⟨b, List.mem_set hlt b, hab hPc⟩

/-- The places of a list one of which is set. -/
theorem getElem?_set_eq_some {l : List α} {i j : Nat} {a b c : α} (hi : l[i]? = some a) :
    (l.set i b)[j]? = some c ↔ j = i ∧ c = b ∨ j ≠ i ∧ l[j]? = some c := by
  obtain ⟨hlt, -⟩ := List.getElem?_eq_some_iff.mp hi
  by_cases hij : j = i
  · subst hij
    simp [List.getElem?_set_self hlt, eq_comm]
  · simp [List.getElem?_set_ne (Ne.symm hij), hij]

/-- An element that is read as nothing is added. -/
theorem filterMap_concat_of_none {f : α → Option β} (l : List α) {a : α} (h : f a = none) :
    (l ++ [a]).filterMap f = l.filterMap f := by
  rw [List.filterMap_append, List.filterMap_cons_none h, List.filterMap_nil, List.append_nil]

/-- Where what is read off a list has no duplicates, it tells whose it is. -/
theorem eq_of_filterMap_nodup {f : α → Option β} {l : List α} (h : (l.filterMap f).Nodup) {a b : α}
    {x : β} (ha : a ∈ l) (hb : b ∈ l) (hfa : f a = some x) (hfb : f b = some x) : a = b := by
  induction l with
  | nil => cases ha
  | cons c l ih =>
    -- what the head is read as is not read off the tail
    have hhead : f c = some x → ∀ d ∈ l, f d ≠ some x := fun hc d hd hfd => by
      rw [List.filterMap_cons_some hc] at h
      exact (List.nodup_cons.mp h).1 (List.mem_filterMap.mpr ⟨d, hd, hfd⟩)
    rcases List.mem_cons.mp ha with rfl | ha'
    · rcases List.mem_cons.mp hb with rfl | hb'
      · rfl
      · exact absurd hfb (hhead hfa b hb')
    · rcases List.mem_cons.mp hb with rfl | hb'
      · exact absurd hfa (hhead hfb a ha')
      · refine ih ?_ ha' hb'
        rw [List.filterMap_cons] at h
        split at h
        · exact h
        · exact (List.nodup_cons.mp h).2

/-- An element is replaced by one that is read alike. -/
theorem filterMap_set_of_eq {f : α → Option β} {l : List α} {i : Nat} {a b : α}
    (hi : l[i]? = some a) (h : f b = f a) : (l.set i b).filterMap f = l.filterMap f := by
  induction l generalizing i with
  | nil => rfl
  | cons c l ih =>
    cases i with
    | zero =>
      obtain rfl : c = a := Option.some.inj hi
      rw [List.set_cons_zero, List.filterMap_cons, List.filterMap_cons, h]
    | succ i =>
      rw [List.set_cons_succ, List.filterMap_cons, List.filterMap_cons, ih hi]

/-- An element that was read as nothing is replaced by one that is read. -/
theorem filterMap_set_perm {f : α → Option β} {l : List α} {i : Nat} {a b : α} {x : β}
    (hi : l[i]? = some a) (ha : f a = none) (hb : f b = some x) :
    ((l.set i b).filterMap f).Perm (x :: l.filterMap f) := by
  induction l generalizing i with
  | nil => cases hi
  | cons c l ih =>
    cases i with
    | zero =>
      obtain rfl : c = a := Option.some.inj hi
      rw [List.set_cons_zero, List.filterMap_cons_some hb, List.filterMap_cons_none ha]
    | succ i =>
      rw [List.set_cons_succ, List.filterMap_cons, List.filterMap_cons]
      cases f c with
      | none => exact ih hi
      | some y => exact ((ih hi).cons y).trans (.swap x y _)

/-- What is read off fewer elements, or not off all of them, has no duplicates either. -/
theorem nodup_filterMap_of_imp {f g : α → Option β} {l : List α} (h : (l.filterMap f).Nodup)
    (hg : ∀ a ∈ l, ∀ x, g a = some x → f a = some x) : (l.filterMap g).Nodup := by
  rw [List.Nodup, List.pairwise_filterMap] at h ⊢
  exact h.imp_of_mem fun ha hb hne x hx y hy => hne x (hg _ ha x hx) y (hg _ hb y hy)

/-- An element of a list that ends in one more is that one, or was there before. -/
theorem concat_eq_append_cons {l l₁ l₂ : List α} {a b : α} :
    l ++ [a] = l₁ ++ b :: l₂ ↔
      (l₂ = [] ∧ a = b ∧ l = l₁) ∨ ∃ l₃, l₂ = l₃ ++ [a] ∧ l = l₁ ++ b :: l₃ := by
  constructor
  · intro h
    rcases List.eq_nil_or_concat l₂ with rfl | ⟨l₃, c, rfl⟩
    · obtain ⟨rfl, hab⟩ := List.append_inj' h rfl
      cases hab
      exact .inl ⟨rfl, rfl, rfl⟩
    · rw [List.concat_eq_append, ← List.cons_append, ← List.append_assoc] at h
      obtain ⟨rfl, hac⟩ := List.append_inj' h rfl
      cases hac
      exact .inr ⟨l₃, List.concat_eq_append, rfl⟩
  · rintro (⟨rfl, rfl, rfl⟩ | ⟨l₃, rfl, rfl⟩)
    · rfl
    · simp

/-- What holds of every element and of what comes before it. -/
theorem forall_concat_eq_append_cons {l : List α} {a : α} {P : List α → α → Prop} :
    (∀ l₁ b l₂, l ++ [a] = l₁ ++ b :: l₂ → P l₁ b) ↔
      (∀ l₁ b l₂, l = l₁ ++ b :: l₂ → P l₁ b) ∧ P l a := by
  constructor
  · exact fun hall => ⟨fun l₁ b l₂ h => hall l₁ b (l₂ ++ [a]) (by simp [h]), hall l a [] rfl⟩
  · rintro ⟨hall, hlast⟩ l₁ b l₂ h
    rcases concat_eq_append_cons.mp h with ⟨-, rfl, rfl⟩ | ⟨l₃, -, h⟩
    · exact hlast
    · exact hall l₁ b l₃ h

/-- The first elements of a list are none, or end in one of them. -/
theorem forall_prefix_iff {l : List α} {P : List α → Prop} :
    (∀ first, first <+: l → P first) ↔
      P [] ∧ ∀ l₁ a l₂, l = l₁ ++ a :: l₂ → P (l₁ ++ [a]) := by
  constructor
  · exact fun hall => ⟨hall [] l.nil_prefix, fun l₁ a l₂ h => hall _ ⟨l₂, by simp [h]⟩⟩
  · rintro ⟨hnil, hall⟩ first ⟨rest, rfl⟩
    rcases List.eq_nil_or_concat first with rfl | ⟨l₁, a, rfl⟩
    · exact hnil
    · rw [List.concat_eq_append]
      exact hall l₁ a rest (by simp)

/-- Where every element of a list has one of its own in another, that is as long at least. -/
theorem length_le_of_related {l₁ : List α} {l₂ : List β} (hnodup : l₁.Nodup)
    (hrel : ∀ a ∈ l₁, ∃ b ∈ l₂, R a b)
    (hown : ∀ a ∈ l₁, ∀ a' ∈ l₁, ∀ b, R a b → R a' b → a = a') : l₁.length ≤ l₂.length := by
  classical
  calc l₁.length = l₁.toFinset.card := (List.toFinset_card_of_nodup hnodup).symm
    _ ≤ l₂.toFinset.card := by
      refine Finset.card_le_card_of_forall_subsingleton R (fun a ha => ?_)
        (fun b _ a ha a' ha' => ?_)
      · obtain ⟨b, hb, hab⟩ := hrel a (List.mem_toFinset.mp ha)
        exact ⟨b, List.mem_toFinset.mpr hb, hab⟩
      · exact hown a (List.mem_toFinset.mp ha.1) a' (List.mem_toFinset.mp ha'.1) b ha.2 ha'.2
    _ ≤ l₂.length := List.toFinset_card_le l₂

/-! ### Lists in order -/

section Order

variable {κ : Type*} [LinearOrder κ] {f : α → κ}

/-- Of a list in order, what is at or below a bound comes first. -/
theorem filter_le_prefix {l : List α} (h : l.Pairwise fun a b => f a ≤ f b) (k : κ) :
    (l.filter fun a => f a ≤ k) <+: l := by
  induction l with
  | nil => exact List.prefix_rfl
  | cons a l ih =>
    obtain ⟨ha, hl⟩ := List.pairwise_cons.mp h
    by_cases hk : f a ≤ k
    · rw [List.filter_cons_of_pos (by simpa using hk), List.prefix_cons_inj]
      exact ih hl
    -- past the first that is above the bound, they all are
    · have hnil : (a :: l).filter (fun a => f a ≤ k) = [] := by
        rw [List.filter_eq_nil_iff]
        intro b hb hle
        rcases List.mem_cons.mp hb with rfl | hb
        · exact hk (by simpa using hle)
        · exact hk (le_trans (ha b hb) (by simpa using hle))
      rw [hnil]
      exact List.nil_prefix

/-- An element of a list in strict order, and what comes before it. -/
theorem filter_le_of_split {l₁ l₂ : List α} {a : α}
    (h : (l₁ ++ a :: l₂).Pairwise fun a b => f a < f b) :
    ((l₁ ++ a :: l₂).filter fun b => f b ≤ f a) = l₁ ++ [a] := by
  obtain ⟨-, hlast, hbefore⟩ := List.pairwise_append.mp h
  obtain ⟨hafter, -⟩ := List.pairwise_cons.mp hlast
  have hfirst : (l₁.filter fun b => f b ≤ f a) = l₁ := by
    rw [List.filter_eq_self]
    intro b hb
    simpa using le_of_lt (hbefore b hb a List.mem_cons_self)
  have hrest : (l₂.filter fun b => f b ≤ f a) = [] := by
    rw [List.filter_eq_nil_iff]
    intro b hb
    simpa using hafter b hb
  rw [List.filter_append, hfirst, List.filter_cons_of_pos (by simp), hrest]

/-- A list in order is what is at or below a bound, and then what is above it. -/
theorem filter_le_append_filter_lt {l : List α} (h : l.Pairwise fun a b => f a < f b) (k : κ) :
    (l.filter fun a => f a ≤ k) ++ (l.filter fun a => k < f a) = l := by
  induction l with
  | nil => rfl
  | cons a l ih =>
    obtain ⟨ha, hl⟩ := List.pairwise_cons.mp h
    rcases le_or_gt (f a) k with hk | hk
    · rw [List.filter_cons_of_pos (by simpa using hk), List.filter_cons_of_neg (by simpa using hk),
        List.cons_append, ih hl]
    -- past the first that is above the bound, they all are
    · have hnone : ((a :: l).filter fun a => f a ≤ k) = [] := by
        rw [List.filter_eq_nil_iff]
        intro b hb
        rcases List.mem_cons.mp hb with rfl | hb
        · simpa using hk
        · simpa using hk.trans (ha b hb)
      have hall : ((a :: l).filter fun a => k < f a) = a :: l := by
        rw [List.filter_eq_self]
        intro b hb
        rcases List.mem_cons.mp hb with rfl | hb
        · simpa using hk
        · simpa using hk.trans (ha b hb)
      rw [hnone, hall, List.nil_append]

/-- What is between two bounds comes after what is at or below the first. -/
theorem filter_le_append_filter_between {l : List α} (h : l.Pairwise fun a b => f a < f b)
    (p : α → Bool) {j k : κ} (hjk : j ≤ k) :
    (l.filter fun a => p a && decide (f a ≤ j)) ++
        (l.filter fun a => p a && (decide (j < f a) && decide (f a ≤ k))) =
      l.filter fun a => p a && decide (f a ≤ k) := by
  conv_rhs => rw [← filter_le_append_filter_lt h j, List.filter_append, List.filter_filter,
    List.filter_filter]
  congr 1
  · refine List.filter_congr fun a _ => ?_
    by_cases ha : f a ≤ j
    · simp [ha, ha.trans hjk]
    · simp [ha]
  · refine List.filter_congr fun a _ => ?_
    by_cases ha : j < f a <;> simp [ha]

/-- A bound below an element cuts before it. -/
theorem filter_le_of_lt {l₁ l₂ : List α} {a : α} {k : κ}
    (h : (l₁ ++ a :: l₂).Pairwise fun a b => f a ≤ f b) (hk : k < f a) :
    ((l₁ ++ a :: l₂).filter fun b => f b ≤ k) = l₁.filter fun b => f b ≤ k := by
  obtain ⟨hafter, -⟩ := List.pairwise_cons.mp (List.pairwise_append.mp h).2.1
  have hrest : ((a :: l₂).filter fun b => f b ≤ k) = [] := by
    rw [List.filter_eq_nil_iff]
    intro b hb
    rcases List.mem_cons.mp hb with rfl | hb
    · simpa using hk
    · simpa using lt_of_lt_of_le hk (hafter b hb)
  rw [List.filter_append, hrest, List.append_nil]

end Order

/-! ### Sublists, up to the order -/

/-- A sublist, up to the order, of what is mapped. -/
theorem subperm_filterMap {l l' : List α} (h : l.Subperm l') (f : α → Option β) :
    (l.filterMap f).Subperm (l'.filterMap f) := by
  obtain ⟨l₁, hperm, hsub⟩ := h
  exact ⟨l₁.filterMap f, hperm.filterMap f, hsub.filterMap f⟩

/-- A sublist, up to the order, of a list of one at most is a first part of it. -/
theorem prefix_of_subperm {l l' : List α} (h : l.Subperm l') (hone : l'.length ≤ 1) :
    l <+: l' := by
  obtain ⟨l₁, hperm, hsub⟩ := h
  rcases l' with _ | ⟨a, _ | ⟨b, l'⟩⟩
  · rw [List.sublist_nil] at hsub
    rw [hsub, List.nil_perm] at hperm
    rw [hperm]
  · rcases List.sublist_singleton.mp hsub with rfl | rfl
    · rw [List.nil_perm] at hperm
      exact hperm ▸ List.nil_prefix
    · rw [List.singleton_perm] at hperm
      rw [hperm]
  · exact absurd hone (by simp)

end Cocos.Lib
