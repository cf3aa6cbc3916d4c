import Mathlib.Algebra.GroupWithZero.Nat
import Mathlib.Data.List.Induction
import Mathlib.Data.List.Nodup
import Mathlib.Tactic.Common

namespace Cocos.Lib

/-!
# Maps that remember the order of their keys

A `Map` of JavaScript: one entry for each key, listed in the order the keys were first set.
Setting a key that is there changes its value and leaves it in its place.

* `JsMap` — the entries, with the fact that no key occurs twice;
* `get?_set`, `get?_modify` — what is read back after one `set`, and after a change in place, and
  `sum_set` — what the values add up to;
* `mem_keys_set`, `mem_keys_delete` — the keys after a `set` and after a `delete`;
* `get?_ofEntries` — what is read from a map that is built of a list of entries, where the last
  entry of a key is the one that counts;
* `get?_ofEntries_cons`, `get?_ofEntries_filterMap`, `get?_ofEntries_key`, `get?_ofEntries_map` —
  the same where the keys are different, or the value is a function of the key;
* `get?_ofEntries_filter` — some of the entries of a map, put into another.
-/

variable {κ α : Type*}

/-- A map, as the list of its entries. -/
structure JsMap (κ α : Type*) where
  entries : List (κ × α)
  nodup : (entries.map Prod.fst).Nodup

namespace JsMap

/-- `new Map()`. -/
def empty : JsMap κ α := ⟨[], List.nodup_nil⟩

variable [DecidableEq κ]

/-- The value in the first entry of a key. -/
def lookup (k : κ) : List (κ × α) → Option α
  | [] => none
  | (k', a) :: entries => if k' = k then some a else lookup k entries

/-- The entries with `k` set to `a`: in its place, or at the end. -/
def setEntry (k : κ) (a : α) : List (κ × α) → List (κ × α)
  | [] => [(k, a)]
  | (k', b) :: entries => if k' = k then (k', a) :: entries else (k', b) :: setEntry k a entries

theorem keys_setEntry (k : κ) (a : α) (entries : List (κ × α)) :
    (setEntry k a entries).map Prod.fst =
      if k ∈ entries.map Prod.fst then entries.map Prod.fst else entries.map Prod.fst ++ [k] := by
  induction entries with
  | nil => rfl
  | cons e entries ih =>
    obtain ⟨k', b⟩ := e
    by_cases h : k' = k
    · simp [setEntry, h]
    · rw [setEntry, if_neg h, List.map_cons, ih]
      by_cases hmem : k ∈ entries.map Prod.fst
      · have hmem' : k ∈ k' :: entries.map Prod.fst := List.mem_cons_of_mem _ hmem
        simp [hmem, hmem']
      · have hmem' : k ∉ k' :: entries.map Prod.fst := by
          rw [List.mem_cons, not_or]
          exact ⟨Ne.symm h, hmem⟩
        simp only [List.map_cons, if_neg hmem, if_neg hmem', List.cons_append]

/-- `map.get(k)`. -/
def get? (m : JsMap κ α) (k : κ) : Option α := lookup k m.entries

/-- `map.set(k, a)`. -/
def set (m : JsMap κ α) (k : κ) (a : α) : JsMap κ α where
  entries := setEntry k a m.entries
  nodup := by
    rw [keys_setEntry]
    split
    · exact m.nodup
    · rename_i h
      rw [List.nodup_append]
      refine ⟨m.nodup, List.nodup_singleton k, fun x hx y hy => ?_⟩
      rw [List.mem_singleton] at hy
      rintro rfl
      exact h (hy ▸ hx)

/-- Changes the value of `k` in its place, if there is one: what a change to the object a
    `map.get(k)` returned does to the map. -/
def modify (m : JsMap κ α) (k : κ) (f : α → α) : JsMap κ α :=
  match m.get? k with
  | none => m
  | some a => m.set k (f a)

/-- `map.delete(k)`. -/
def delete (m : JsMap κ α) (k : κ) : JsMap κ α where
  entries := m.entries.filter fun e => e.1 ≠ k
  nodup := m.nodup.sublist (List.filter_sublist.map Prod.fst)

/-- `map.keys()`. -/
def keys (m : JsMap κ α) : List κ := m.entries.map Prod.fst

/-- `new Map(entries)`. -/
def ofEntries (entries : List (κ × α)) : JsMap κ α :=
  entries.foldl (fun m e => m.set e.1 e.2) empty

@[simp] theorem get?_empty (k : κ) : (empty : JsMap κ α).get? k = none := rfl

/-- **Reading after a `set`.** -/
theorem get?_set (m : JsMap κ α) (k k' : κ) (a : α) :
    (m.set k a).get? k' = if k' = k then some a else m.get? k' := by
  have key : ∀ entries : List (κ × α),
      lookup k' (setEntry k a entries) = if k' = k then some a else lookup k' entries := by
    intro entries
    induction entries with
    | nil => simp [setEntry, lookup, eq_comm]
    | cons e entries ih =>
      obtain ⟨k₀, b⟩ := e
      by_cases h : k₀ = k
      · subst h
        simp only [setEntry, lookup, if_true]
        by_cases hk : k₀ = k'
        · simp [hk]
        · simp [hk, Ne.symm hk]
      · simp only [setEntry, if_neg h, lookup, ih]
        by_cases hk : k₀ = k'
        · simp [hk, show k' ≠ k from hk ▸ h]
        · simp [hk]
  exact key m.entries

/-- What a `set` does to the sum of the values. -/
theorem sum_set (m : JsMap κ ℕ) (k : κ) (n : ℕ) :
    ((m.set k n).entries.map Prod.snd).sum + (m.get? k).getD 0 =
      (m.entries.map Prod.snd).sum + n := by
  have key : ∀ entries : List (κ × ℕ),
      ((setEntry k n entries).map Prod.snd).sum + (lookup k entries).getD 0 =
        (entries.map Prod.snd).sum + n := by
    intro entries
    induction entries with
    | nil => simp [setEntry, lookup]
    | cons e entries ih =>
      obtain ⟨k', b⟩ := e
      by_cases h : k' = k
      · simp only [setEntry, lookup, if_pos h, List.map_cons, List.sum_cons, Option.getD_some]
        omega
      · simp only [setEntry, lookup, if_neg h, List.map_cons, List.sum_cons]
        omega
  exact key m.entries

theorem mem_keys_set (m : JsMap κ α) (k k' : κ) (a : α) :
    k' ∈ (m.set k a).keys ↔ k' = k ∨ k' ∈ m.keys := by
  rw [keys, show (m.set k a).entries.map Prod.fst = _ from keys_setEntry k a m.entries]
  split
  · rename_i hmem
    exact ⟨.inr, fun h => h.elim (fun heq => heq ▸ hmem) id⟩
  · rw [List.mem_append, List.mem_singleton, or_comm]
    rfl

theorem mem_keys_delete (m : JsMap κ α) (k k' : κ) :
    k' ∈ (m.delete k).keys ↔ k' ∈ m.keys ∧ k' ≠ k := by
  simp only [keys, delete, List.mem_map, List.mem_filter, decide_eq_true_eq]
  constructor
  · rintro ⟨e, ⟨he, hne⟩, rfl⟩
    exact ⟨⟨e, he, rfl⟩, hne⟩
  · rintro ⟨⟨e, he, rfl⟩, hne⟩
    exact ⟨e, ⟨he, hne⟩, rfl⟩

/-- A key that is not there is set at the end. -/
theorem entries_set_of_notMem {m : JsMap κ α} {k : κ} (h : k ∉ m.keys) (a : α) :
    (m.set k a).entries = m.entries ++ [(k, a)] := by
  have key : ∀ entries : List (κ × α), k ∉ entries.map Prod.fst →
      setEntry k a entries = entries ++ [(k, a)] := by
    intro entries
    induction entries with
    | nil => exact fun _ => rfl
    | cons e entries ih =>
      intro hk
      rw [List.map_cons, List.mem_cons, not_or] at hk
      rw [setEntry, if_neg (Ne.symm hk.1), ih hk.2, List.cons_append]
  exact key m.entries h

/-- The first keys are deleted. -/
theorem entries_foldl_delete (m : JsMap κ α) (n : ℕ) :
    ((m.keys.take n).foldl delete m).entries = m.entries.drop n := by
  induction n generalizing m with
  | zero => rfl
  | succ n ih =>
    obtain ⟨entries, hnodup⟩ := m
    cases entries with
    | nil => rfl
    | cons e entries =>
      obtain ⟨hnotMem, hrest⟩ := List.nodup_cons.mp hnodup
      -- no other entry has the first key
      have hdelete : delete ⟨e :: entries, hnodup⟩ e.1 = ⟨entries, hrest⟩ := by
        simp only [delete, mk.injEq, decide_not]
        rw [List.filter_cons_of_neg (by simp), List.filter_eq_self]
        intro e' he'
        have hne : e'.1 ≠ e.1 := fun heq => hnotMem (heq ▸ List.mem_map_of_mem he')
        simp [hne]
      rw [show (keys ⟨e :: entries, hnodup⟩).take (n + 1) =
        e.1 :: (keys ⟨entries, hrest⟩).take n from rfl, List.foldl_cons, hdelete, ih]
      rfl

/-- A key that is not there has no value to change. -/
theorem modify_of_none {m : JsMap κ α} {k : κ} (h : m.get? k = none) (f : α → α) :
    m.modify k f = m := by
  rw [modify, h]

theorem modify_congr {m : JsMap κ α} {k : κ} {f g : α → α} (h : ∀ a ∈ m.get? k, f a = g a) :
    m.modify k f = m.modify k g := by
  unfold modify
  split
  · rfl
  · rw [h _ ‹_›]

/-- **Reading after a `modify`.** -/
theorem get?_modify (m : JsMap κ α) (k k' : κ) (f : α → α) :
    (m.modify k f).get? k' = if k' = k then (m.get? k').map f else m.get? k' := by
  unfold modify
  cases hget : m.get? k with
  | none =>
    by_cases h : k' = k
    · simp [h, hget]
    · simp [h]
  | some a =>
    rw [get?_set]
    by_cases h : k' = k
    · simp [h, hget]
    · simp [h]

/-- Where no key occurs twice, the entries say what the lookups say. -/
theorem lookup_eq_some_iff {entries : List (κ × α)} (h : (entries.map Prod.fst).Nodup) {k : κ}
    {a : α} : lookup k entries = some a ↔ (k, a) ∈ entries := by
  induction entries with
  | nil => simp [lookup]
  | cons e entries ih =>
    obtain ⟨k', b⟩ := e
    rw [List.map_cons, List.nodup_cons] at h
    by_cases hk : k' = k
    · -- the key's only entry is the first
      subst hk
      have hrest : (k', a) ∉ entries := fun hmem =>
        h.1 (List.mem_map.mpr ⟨(k', a), hmem, rfl⟩)
      simp [lookup, hrest, eq_comm]
    · simp [lookup, hk, Ne.symm hk, ih h.2]

/-- Of the entries a map is built of, the last one of a key is read. -/
theorem get?_ofEntries (entries : List (κ × α)) (k : κ) :
    (ofEntries entries).get? k = lookup k entries.reverse := by
  unfold ofEntries
  induction entries using List.reverseRecOn with
  | nil => rfl
  | append_singleton entries e ih =>
    rw [List.foldl_append, List.foldl_cons, List.foldl_nil, get?_set, ih, List.reverse_append]
    show _ = if e.1 = k then some e.2 else lookup k entries.reverse
    by_cases h : k = e.1
    · rw [if_pos h, if_pos h.symm]
    · rw [if_neg h, if_neg (Ne.symm h)]

/-- An entry that is there is one that was not deleted. -/
theorem get?_of_get?_delete {m : JsMap κ α} {k k' : κ} {a : α}
    (h : (m.delete k).get? k' = some a) : m.get? k' = some a :=
  (lookup_eq_some_iff m.nodup).mpr
    (List.mem_of_mem_filter ((lookup_eq_some_iff (m.delete k).nodup).mp h))

theorem lookup_append_of_notMem {k : κ} {entries rest : List (κ × α)}
    (h : k ∉ entries.map Prod.fst) : lookup k (entries ++ rest) = lookup k rest := by
  induction entries with
  | nil => rfl
  | cons e entries ih =>
    obtain ⟨hne, hrest⟩ := not_or.mp (List.mem_cons.not.mp h)
    show (if e.1 = k then some e.2 else lookup k (entries ++ rest)) = _
    rw [if_neg (Ne.symm hne), ih hrest]

/-- An entry that no later one takes the place of. -/
theorem get?_ofEntries_cons {k : κ} {a : α} {entries : List (κ × α)}
    (h : k ∉ entries.map Prod.fst) : (ofEntries ((k, a) :: entries)).get? k = some a := by
  rw [get?_ofEntries, List.reverse_cons, lookup_append_of_notMem]
  · exact if_pos rfl
  · rwa [List.map_reverse, List.mem_reverse]

/-- A map that is built of the elements that have a value, under keys of their own. -/
theorem get?_ofEntries_filterMap {β : Type*} {l : List β} {key : β → κ} {value : β → Option α}
    (hkeys : (l.map key).Nodup) {k : κ} {a : α} :
    (ofEntries (l.filterMap fun b => (value b).map fun a => (key b, a))).get? k = some a ↔
      ∃ b ∈ l, key b = k ∧ value b = some a := by
  have hsub : ((l.filterMap fun b => (value b).map fun a => (key b, a)).map Prod.fst).Nodup := by
    refine hkeys.sublist ?_
    rw [List.map_filterMap]
    clear hkeys
    induction l with
    | nil => exact .slnil
    | cons b l ih =>
      cases hb : value b with
      | none => simpa [hb] using ih.cons (key b)
      | some a => simpa [hb] using ih.cons_cons (key b)
  rw [get?_ofEntries, lookup_eq_some_iff (by rwa [List.map_reverse, List.nodup_reverse]),
    List.mem_reverse, List.mem_filterMap]
  constructor
  · rintro ⟨b, hb, hsome⟩
    obtain ⟨a', ha', heq⟩ := Option.map_eq_some_iff.mp hsome
    cases heq
    exact ⟨b, hb, rfl, ha'⟩
  · rintro ⟨b, hb, rfl, ha⟩
    exact ⟨b, hb, by rw [ha]; rfl⟩

/-- A map that is built of elements under keys of their own. -/
theorem get?_ofEntries_key {l : List α} {key : α → κ} (hkeys : (l.map key).Nodup) {k : κ} {a : α} :
    (ofEntries (l.map fun a => (key a, a))).get? k = some a ↔ a ∈ l ∧ key a = k := by
  have hmap : (l.map fun a => (key a, a)) =
      l.filterMap fun b => (some b).map fun a => (key b, a) := by
    rw [← List.filterMap_eq_map]
    rfl
  rw [hmap, @get?_ofEntries_filterMap κ α _ α l key some hkeys k a]
  simp [and_comm]

/-- A map that is built of what a function makes of each key. -/
theorem get?_ofEntries_map (keys : List κ) (f : κ → α) (k : κ) :
    (ofEntries (keys.map fun k => (k, f k))).get? k = if k ∈ keys then some (f k) else none := by
  rw [get?_ofEntries, ← List.map_reverse]
  have key : ∀ l : List κ,
      lookup k (l.map fun k => (k, f k)) = if k ∈ l then some (f k) else none := by
    intro l
    induction l with
    | nil => rfl
    | cons k' l ih =>
      show (if k' = k then some (f k') else lookup k (l.map _)) = _
      by_cases h : k' = k
      · subst h
        simp
      · simp [h, Ne.symm h, ih]
  rw [key]
  simp

/-- The entries of a map, or some of them, build a map that reads the same where they are. -/
theorem get?_ofEntries_filter (m : JsMap κ α) (p : κ × α → Bool) (k : κ) :
    (ofEntries (m.entries.filter p)).get? k = (m.get? k).filter fun a => p (k, a) := by
  have hsub : ((m.entries.filter p).map Prod.fst).Nodup :=
    m.nodup.sublist (List.filter_sublist.map Prod.fst)
  have hnodup : ((m.entries.filter p).reverse.map Prod.fst).Nodup := by
    rw [List.map_reverse]
    exact List.nodup_reverse.mpr hsub
  apply Option.ext
  intro a
  rw [get?_ofEntries, lookup_eq_some_iff hnodup, List.mem_reverse, List.mem_filter,
    ← lookup_eq_some_iff m.nodup, Option.filter_eq_some_iff]
  rfl

end JsMap

end Cocos.Lib
