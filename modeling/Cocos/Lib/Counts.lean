import Cocos.Lib.JsMap
import Mathlib.Algebra.BigOperators.Group.List.Basic
import Mathlib.Logic.Embedding.Basic

namespace Cocos.Lib

/-!
# Counting into maps

A map of counters, with one more for the key of each element that is passed, and what does not
depend on the order in which they pass.

* `JsMap.increment`, `JsMap.counts` — one more under a key, and the counters of a list of keys;
* `get?_counts`, `sum_counts` — **a counter says how often its key occurs, and together they say
  how many keys there were**;
* `entries_perm`, `counts_perm` — maps that read the same have the same entries, in some order;
* `JsMap.rekey`, `rekey_set` — the same map under other keys, with values that go with them.
-/

universe u v w x

namespace JsMap

variable {κ : Type u} [DecidableEq κ]

section Entries

variable {α : Type v} {m m' : JsMap κ α}

omit [DecidableEq κ] in
@[ext] theorem ext (h : m.entries = m'.entries) : m = m' := by
  cases m
  cases m'
  cases h
  rfl

theorem get?_eq_some_iff (m : JsMap κ α) {k : κ} {a : α} :
    m.get? k = some a ↔ (k, a) ∈ m.entries := lookup_eq_some_iff m.nodup

/-- Maps that read the same have the same entries, in some order. -/
theorem entries_perm (h : ∀ k, m.get? k = m'.get? k) : m.entries.Perm m'.entries := by
  refine (List.perm_ext_iff_of_nodup m.nodup.of_map m'.nodup.of_map).mpr fun e => ?_
  obtain ⟨k, a⟩ := e
  rw [← get?_eq_some_iff, ← get?_eq_some_iff, h k]

/-- An entry is known by its key. -/
theorem eq_of_key (m : JsMap κ α) {e e' : κ × α} (he : e ∈ m.entries) (he' : e' ∈ m.entries)
    (hkey : e.1 = e'.1) : e = e' := by
  obtain ⟨k, a⟩ := e
  obtain ⟨k', a'⟩ := e'
  obtain rfl : k = k' := hkey
  rw [← get?_eq_some_iff] at he he'
  rw [Option.some.inj (he.symm.trans he')]

/-- What is read from the entries of a map does not depend on their order. -/
theorem lookup_perm (m : JsMap κ α) {entries : List (κ × α)} (h : entries.Perm m.entries) (k : κ) :
    lookup k entries = m.get? k := by
  have hnodup : (entries.map Prod.fst).Nodup := (h.map _).nodup_iff.mpr m.nodup
  apply Option.ext
  intro a
  rw [lookup_eq_some_iff hnodup, get?_eq_some_iff, h.mem_iff]

end Entries

/-! ### Counters -/

/-- One more under a key: `map.set(k, (map.get(k) ?? 0) + 1)`. -/
def increment (m : JsMap κ ℕ) (k : κ) : JsMap κ ℕ := m.set k ((m.get? k).getD 0 + 1)

/-- The counters of the keys that passed. -/
def counts (keys : List κ) : JsMap κ ℕ := keys.foldl increment empty

@[simp] theorem counts_nil : counts ([] : List κ) = empty := rfl

@[simp] theorem counts_concat (keys : List κ) (k : κ) :
    counts (keys ++ [k]) = (counts keys).increment k := List.foldl_concat ..

/-- **A counter says how often its key occurs.** -/
theorem getD_counts (keys : List κ) (k : κ) : ((counts keys).get? k).getD 0 = keys.count k := by
  induction keys using List.reverseRecOn with
  | nil => rfl
  | append_singleton keys k' ih =>
    rw [counts_concat, increment, get?_set, List.count_append, ← ih]
    by_cases h : k = k'
    · subst h
      simp
    · simp [h, Ne.symm h]

/-- There are counters for the keys that occur. -/
theorem get?_counts (keys : List κ) (k : κ) :
    (counts keys).get? k = if k ∈ keys then some (keys.count k) else none := by
  have hvalue := getD_counts keys k
  have hsome : ((counts keys).get? k).isSome ↔ k ∈ keys := by
    clear hvalue
    induction keys using List.reverseRecOn with
    | nil => simp
    | append_singleton keys k' ih =>
      rw [counts_concat, increment, get?_set, List.mem_append, List.mem_singleton, ← ih]
      by_cases h : k = k'
      · simp [h]
      · simp [h]
  cases hget : (counts keys).get? k with
  | none => rw [if_neg (hsome.not.mp (by simp [hget]))]
  | some n =>
    rw [if_pos (hsome.mp (by simp [hget])), ← hvalue, hget]
    rfl

/-- A key with a counter occurs. -/
theorem mem_of_mem_counts {keys : List κ} {e : κ × ℕ} (h : e ∈ (counts keys).entries) :
    e.1 ∈ keys := by
  have hget : (counts keys).get? e.1 = some e.2 := (get?_eq_some_iff _).mpr h
  by_contra hmem
  rw [get?_counts, if_neg hmem] at hget
  cases hget

/-- **The counters add up to the number of keys that passed.** -/
theorem sum_counts (keys : List κ) : ((counts keys).entries.map Prod.snd).sum = keys.length := by
  induction keys using List.reverseRecOn with
  | nil => rfl
  | append_singleton keys k ih =>
    have hsum := sum_set (counts keys) k (((counts keys).get? k).getD 0 + 1)
    rw [counts_concat, increment, List.length_append, List.length_singleton]
    omega

/-- The counters do not depend on the order of the keys. -/
theorem counts_perm {keys keys' : List κ} (h : keys.Perm keys') :
    (counts keys).entries.Perm (counts keys').entries :=
  entries_perm fun k => by simp only [get?_counts, h.mem_iff, h.count_eq]

/-! ### Other keys -/

variable {κ' : Type w} [DecidableEq κ'] {α : Type v} {β : Type x}

/-- The map under other keys, with values that go with the keys. -/
def rekey (m : JsMap κ α) (key : κ ↪ κ') (value : κ → α → β) : JsMap κ' β where
  entries := m.entries.map fun e => (key e.1, value e.1 e.2)
  nodup := by
    rw [List.map_map, show Prod.fst ∘ (fun e : κ × α => (key e.1, value e.1 e.2)) = key ∘ Prod.fst
      from rfl, ← List.map_map]
    exact m.nodup.map key.injective

variable (key : κ ↪ κ') (value : κ → α → β)

/-- Reading under the other key. -/
theorem get?_rekey (m : JsMap κ α) (k : κ) :
    (m.rekey key value).get? (key k) = (m.get? k).map (value k) := by
  have hentries : ∀ entries : List (κ × α),
      lookup (key k) (entries.map fun e => (key e.1, value e.1 e.2)) =
        (lookup k entries).map (value k) := by
    intro entries
    induction entries with
    | nil => rfl
    | cons e entries ih =>
      obtain ⟨k', a⟩ := e
      by_cases h : k' = k
      · subst h
        simp [lookup]
      · simp [lookup, h, ih]
  exact hentries m.entries

/-- Setting under the other key. -/
theorem rekey_set (m : JsMap κ α) (k : κ) (a : α) :
    (m.set k a).rekey key value = (m.rekey key value).set (key k) (value k a) := by
  have hentries : ∀ entries : List (κ × α),
      (setEntry k a entries).map (fun e => (key e.1, value e.1 e.2)) =
        setEntry (key k) (value k a) (entries.map fun e => (key e.1, value e.1 e.2)) := by
    intro entries
    induction entries with
    | nil => rfl
    | cons e entries ih =>
      obtain ⟨k', b⟩ := e
      by_cases h : k' = k
      · subst h
        simp [setEntry]
      · simp [setEntry, h, ih]
  exact ext (hentries m.entries)

end JsMap

end Cocos.Lib
