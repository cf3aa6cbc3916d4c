import Mathlib.Data.List.Basic
import Mathlib.Data.Nat.ModEq

namespace Cocos.Lib

/-!
# A ring of a fixed capacity

Rows are pushed until the ring is full, and from then on each overwrites the oldest.

* `push`, `recent`, `modifyAt` — the operations, on the buffer and the cursor;
* `RingBuffer.Holds` — the ring holds the newest rows of a history, each in the slot its place in
  the history gives it, and every operation keeps that;
* `Holds.recent_eq` — **what is read back is the end of the history**, newest first.
-/

universe u

variable {α : Type u}

/-- The slots in use, and the slot that is written next. -/
structure RingBuffer (α : Type u) where
  buffer : List α
  cursor : Nat

namespace RingBuffer

/-- Nothing pushed. -/
def empty : RingBuffer α := ⟨[], 0⟩

/-- Pushes a row: at the end while there is room, over the cursor's slot after that. -/
def push (cap : Nat) (r : RingBuffer α) (a : α) : RingBuffer α where
  buffer := if r.buffer.length < cap then r.buffer ++ [a] else r.buffer.set r.cursor a
  cursor := (r.cursor + 1) % cap

/-- The newest rows, the newest first. -/
def recent (r : RingBuffer α) (limit : Nat) : List α :=
  (List.range (min limit r.buffer.length)).filterMap fun back =>
    r.buffer[(r.cursor + r.buffer.length - (back + 1)) % r.buffer.length]?

/-- Changes the row of one slot. -/
def modifyAt (r : RingBuffer α) (slot : Nat) (f : α → α) : RingBuffer α :=
  { r with buffer := r.buffer.modify slot f }

/-- The ring holds the newest rows of a history, each in the slot of its place. -/
structure Holds (cap : Nat) (r : RingBuffer α) (rows : List α) : Prop where
  length : r.buffer.length = min rows.length cap
  cursor : r.cursor = rows.length % cap
  slot : ∀ i < rows.length, rows.length ≤ i + cap → r.buffer[i % cap]? = rows[i]?

variable {cap : Nat} {r : RingBuffer α} {rows : List α}

theorem holds_empty : Holds cap (empty : RingBuffer α) [] where
  length := by simp [empty]
  cursor := (Nat.zero_mod cap).symm
  slot i hi := absurd hi (Nat.not_lt_zero i)

/-- Two places less than a whole turn apart have different slots. -/
theorem mod_ne_mod {i n : Nat} (hlt : i < n) (hturn : n < i + cap) : i % cap ≠ n % cap := by
  intro heq
  have hdvd : cap ∣ n - i := (Nat.modEq_iff_dvd' hlt.le).mp heq
  have hle := Nat.le_of_dvd (by omega) hdvd
  omega

theorem Holds.push (h : Holds cap r rows) (hcap : 0 < cap) (a : α) :
    Holds cap (r.push cap a) (rows ++ [a]) := by
  have hlength := h.length
  refine ⟨?_, ?_, fun i hi hwindow => ?_⟩
  · rw [List.length_append, List.length_singleton]
    unfold RingBuffer.push
    split
    · rw [List.length_append, List.length_singleton]
      omega
    · rw [List.length_set]
      omega
  · show (r.cursor + 1) % cap = _
    rw [h.cursor, List.length_append, List.length_singleton, Nat.mod_add_mod]
  · rw [List.length_append, List.length_singleton] at hi hwindow
    show (if r.buffer.length < cap then r.buffer ++ [a] else r.buffer.set r.cursor a)[i % cap]? = _
    split
    -- while there is room a row's slot is its place
    · rename_i hroom
      have hall : r.buffer.length = rows.length := by omega
      rw [Nat.mod_eq_of_lt (by omega)]
      by_cases hlast : i = rows.length
      · rw [hlast, List.getElem?_append_right hall.le, List.getElem?_append_right le_rfl, hall]
      · have hslot := h.slot i (by omega) (by omega)
        rw [Nat.mod_eq_of_lt (by omega)] at hslot
        rw [List.getElem?_append_left (by omega), List.getElem?_append_left (by omega), hslot]
    · rename_i hfull
      rw [h.cursor]
      by_cases hlast : i = rows.length
      · have hin : rows.length % cap < r.buffer.length := by
          have := Nat.mod_lt rows.length hcap
          omega
        rw [hlast, List.getElem?_set_self hin, List.getElem?_append_right le_rfl, Nat.sub_self]
        rfl
      · have hne : i % cap ≠ rows.length % cap := mod_ne_mod (by omega) (by omega)
        rw [List.getElem?_set_ne hne.symm, List.getElem?_append_left (by omega)]
        exact h.slot i (by omega) (by omega)

/-- Reading the first places of a list one by one takes its beginning. -/
theorem filterMap_range_getElem? (l : List α) (k : Nat) :
    (List.range k).filterMap (fun back => l[back]?) = l.take k := by
  induction k with
  | zero => rfl
  | succ k ih =>
    rw [List.range_succ, List.filterMap_append, ih, List.take_add_one]
    rfl

/-- **What is read back is the end of the history**, newest first. -/
theorem Holds.recent_eq (h : Holds cap r rows) (limit : Nat) :
    r.recent limit = rows.reverse.take (min limit cap) := by
  have hlength := h.length
  have hread : ∀ back ∈ List.range (min limit r.buffer.length),
      r.buffer[(r.cursor + r.buffer.length - (back + 1)) % r.buffer.length]? =
        rows.reverse[back]? := by
    intro back hback
    rw [List.mem_range] at hback
    have hback' : back < rows.length := by omega
    rw [List.getElem?_reverse hback', ← h.slot (rows.length - 1 - back) (by omega) (by omega)]
    congr 1
    rcases Nat.lt_or_ge rows.length cap with hroom | hfull
    · have hall : r.buffer.length = rows.length := by omega
      rw [h.cursor, hall, Nat.mod_eq_of_lt hroom, Nat.mod_eq_of_lt (by omega : _ < cap)]
      rw [show rows.length + rows.length - (back + 1) =
        rows.length - 1 - back + rows.length by omega, Nat.add_mod_right]
      exact Nat.mod_eq_of_lt (by omega)
    · have hall : r.buffer.length = cap := by omega
      rw [h.cursor, hall, show rows.length % cap + cap - (back + 1) =
        rows.length % cap + (cap - (back + 1)) by omega, Nat.mod_add_mod,
        show rows.length + (cap - (back + 1)) = rows.length - 1 - back + cap by omega,
        Nat.add_mod_right]
  unfold recent
  rw [List.filterMap_congr hread, filterMap_range_getElem?, List.take_eq_take_iff,
    List.length_reverse]
  omega

/-- A slot in use holds the row of a place it is the slot of. -/
theorem Holds.place (h : Holds cap r rows) {slot : Nat} {a : α} (ha : r.buffer[slot]? = some a) :
    ∃ i < rows.length, rows.length ≤ i + cap ∧ i % cap = slot ∧ rows[i]? = some a := by
  have hlength := h.length
  obtain ⟨hin, -⟩ := List.getElem?_eq_some_iff.mp ha
  -- the last place of the slot
  obtain ⟨i, hi, hwindow, hmod⟩ : ∃ i < rows.length, rows.length ≤ i + cap ∧ i % cap = slot := by
    rcases Nat.lt_or_ge rows.length cap with hroom | hfull
    · exact ⟨slot, by omega, by omega, Nat.mod_eq_of_lt (by omega)⟩
    · refine ⟨rows.length - 1 - (rows.length - 1 - slot) % cap, by omega, ?_, ?_⟩
      · have := Nat.mod_lt (rows.length - 1 - slot) (show 0 < cap by omega)
        omega
      · have hdiv := Nat.div_add_mod (rows.length - 1 - slot) cap
        rw [show rows.length - 1 - (rows.length - 1 - slot) % cap =
          slot + cap * ((rows.length - 1 - slot) / cap) by omega, Nat.add_mul_mod_self_left]
        exact Nat.mod_eq_of_lt (by omega)
  exact ⟨i, hi, hwindow, hmod, by rw [← h.slot i hi hwindow, hmod, ha]⟩

/-- A change that leaves the row of its slot as it is. -/
theorem modifyAt_eq_self {slot : Nat} {f : α → α}
    (hf : ∀ a, r.buffer[slot]? = some a → f a = a) : r.modifyAt slot f = r := by
  have hbuffer : r.buffer.modify slot f = r.buffer := by
    apply List.ext_getElem?
    intro i
    rw [List.getElem?_modify]
    cases hi : r.buffer[i]? with
    | none => rfl
    | some a =>
      show some (if slot = i then f a else a) = some a
      split
      · rename_i heq
        subst heq
        rw [hf a hi]
      · rfl
  unfold modifyAt
  rw [hbuffer]

/-- A change of the row of one place, while the ring still holds it. -/
theorem Holds.modifyAt (h : Holds cap r rows) {k : Nat} (hk : k < rows.length)
    (hwindow : rows.length ≤ k + cap) (f : α → α) :
    Holds cap (r.modifyAt (k % cap) f) (rows.modify k f) := by
  refine ⟨?_, ?_, fun i hi hi' => ?_⟩
  · rw [List.length_modify]
    exact (List.length_modify ..).trans h.length
  · rw [List.length_modify]
    exact h.cursor
  · rw [List.length_modify] at hi hi'
    show (r.buffer.modify (k % cap) f)[i % cap]? = _
    rw [List.getElem?_modify, List.getElem?_modify, h.slot i hi hi']
    have hslots : k % cap = i % cap ↔ k = i := by
      constructor
      · intro heq
        by_contra hne
        rcases Nat.lt_or_gt_of_ne hne with hlt | hlt
        · exact mod_ne_mod hlt (by omega) heq
        · exact mod_ne_mod hlt (by omega) heq.symm
      · rintro rfl
        rfl
    simp only [hslots]

end RingBuffer

end Cocos.Lib
