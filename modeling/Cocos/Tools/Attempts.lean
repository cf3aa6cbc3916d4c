import Cocos.Lib.Ring
import Cocos.Tools.ShadowLedger

namespace Cocos.Tools

open Cocos.Lib

/-!
# The recorder

`tools/src/store/attempts.store.ts`: a row for every call the harness makes, kept in a ring of the
newest five thousand, and the vocabulary of those rows in `tools/src/order.ts` and
`tools/src/chaos/chaos.ts`.

* `Attempt` — a row; an instant is kept as a number of milliseconds;
* `AttemptsStore.record`, `annotate`, `recent` — the store;
* `AttemptsStore.Holds` — the rows a store has been given so far, and what becomes of them:
  `Holds.recent_eq` — **what it shows is their end**, newest first, and `Holds.annotate` — an
  annotation reaches the row of its id while that is among the newest.
-/

/-! ### Rows -/

/-- What one order looked like on the wire. -/
structure OrderKey where
  userId : Int
  instrumentId : Int
  side : String
  size : Int
  type : String
deriving DecidableEq, Repr

/-- What the chaos engine did to a call. -/
structure ChaosMark where
  delayedMs : Option Int
  droppedStatus : Option Nat
  retryOf : Option Nat
  retriedBy : Option Nat
deriving DecidableEq, Repr

/-- The body of an answer, as the rules read it: its text, and the message it may carry. -/
structure Body where
  text : String
  message : Option String
deriving DecidableEq, Repr

/-- A row of the recorder.  `status` is 0 when the request never got an answer; `sent` is what
    `asOrderKey` makes of the body that was sent. -/
structure Attempt where
  id : Nat
  sentAt : Int
  method : String
  path : String
  latencyMs : Int
  status : Nat
  ok : Bool
  sent : Option OrderKey
  body : Option Body
  expected : Option Expectation
  actual : Option OrderStatus
  orderId : Option Int
  idempotencyKey : Option String
  chaos : Option ChaosMark
deriving DecidableEq, Repr

/-- `path.split('?')[0]`. -/
def route (path : String) : String := String.ofList (path.toList.takeWhile (· ≠ '?'))

/-- The placement path is the one that is dropped, retried and reconciled. -/
def isOrderPlacement (method path : String) : Bool := method = "POST" ∧ route path = "/orders"

/-- A row the harness writes about itself. -/
def isChaosEvent (attempt : Attempt) : Bool := "chaos:".toList.isPrefixOf attempt.path.toList

/-! ### The store -/

def ATTEMPTS_CAPACITY : Nat := 5000

/-- The ring of rows, and the id the next one gets. -/
structure AttemptsStore where
  ring : RingBuffer Attempt
  nextId : Nat

namespace AttemptsStore

/-- A store nothing was recorded in. -/
def empty : AttemptsStore := ⟨.empty, 1⟩

/-- Records a row, under the next id. -/
def record (store : AttemptsStore) (attempt : Attempt) : AttemptsStore where
  ring := store.ring.push ATTEMPTS_CAPACITY { attempt with id := store.nextId }
  nextId := store.nextId + 1

/-- Writes onto the row of an id, if it is still there. -/
def annotate (store : AttemptsStore) (id : Nat) (details : Attempt → Attempt) : AttemptsStore :=
  { store with ring := store.ring.modifyAt ((id - 1) % ATTEMPTS_CAPACITY) fun row =>
      if row.id = id then details row else row }

/-- The newest rows, the newest first. -/
def recent (store : AttemptsStore) (limit : Nat) : List Attempt := store.ring.recent limit

/-- The rows the store was given, in the order of their ids. -/
structure Holds (store : AttemptsStore) (rows : List Attempt) : Prop where
  ring : RingBuffer.Holds ATTEMPTS_CAPACITY store.ring rows
  nextId : store.nextId = rows.length + 1
  ids : ∀ i row, rows[i]? = some row → row.id = i + 1

theorem holds_empty : Holds .empty [] where
  ring := RingBuffer.holds_empty
  nextId := rfl
  ids i row h := by simp at h

variable {store : AttemptsStore} {rows : List Attempt}

theorem Holds.record (h : Holds store rows) (attempt : Attempt) :
    Holds (store.record attempt) (rows ++ [{ attempt with id := store.nextId }]) where
  ring := h.ring.push (by decide) _
  nextId := by
    rw [List.length_append, List.length_singleton]
    exact congrArg (· + 1) h.nextId
  ids i row hrow := by
    rcases Nat.lt_or_ge i rows.length with hlt | hge
    · rw [List.getElem?_append_left hlt] at hrow
      exact h.ids i row hrow
    · rw [List.getElem?_append_right hge, List.getElem?_singleton] at hrow
      split at hrow
      · cases hrow
        show store.nextId = i + 1
        rw [h.nextId]
        omega
      · cases hrow

/-- **An annotation reaches the row of its id**, as long as that is among the newest; it changes
    nothing else. -/
theorem Holds.annotate (h : Holds store rows) (id : Nat) (details : Attempt → Attempt)
    (hid : ∀ row, (details row).id = row.id) :
    Holds (store.annotate id details)
      (if 0 < id ∧ id ≤ rows.length ∧ rows.length < id + ATTEMPTS_CAPACITY then
        rows.modify (id - 1) details else rows) := by
  let write : Attempt → Attempt := fun row => if row.id = id then details row else row
  split
  · rename_i hwindow
    have hring := h.ring.modifyAt (k := id - 1) (by omega) (by omega) write
    have hrow : rows.modify (id - 1) write = rows.modify (id - 1) details := by
      apply List.ext_getElem?
      intro i
      rw [List.getElem?_modify, List.getElem?_modify]
      cases hi : rows[i]? with
      | none => rfl
      | some row =>
        have hrid := h.ids i row hi
        show some (if id - 1 = i then write row else row) = some (if id - 1 = i then _ else row)
        split
        · rename_i heq
          rw [show write row = details row from if_pos (by omega)]
        · rfl
    refine ⟨hrow ▸ hring, ?_, fun i row hi => ?_⟩
    · rw [List.length_modify]
      exact h.nextId
    · rw [List.getElem?_modify] at hi
      obtain ⟨old, hold, rfl⟩ := Option.map_eq_some_iff.mp hi
      have hrid := h.ids i old hold
      split
      · rw [hid, hrid]
      · exact hrid
  · rename_i hgone
    have hsame : store.ring.modifyAt ((id - 1) % ATTEMPTS_CAPACITY) write = store.ring := by
      apply RingBuffer.modifyAt_eq_self
      intro row hrow
      obtain ⟨i, hi, hwindow, -, hget⟩ := h.ring.place hrow
      have hrid := h.ids i row hget
      exact if_neg (by omega)
    refine ⟨?_, h.nextId, h.ids⟩
    show RingBuffer.Holds _ (store.ring.modifyAt ((id - 1) % ATTEMPTS_CAPACITY) write) rows
    rw [hsame]
    exact h.ring

/-- The rows once the one of an id is annotated, if it is still among the newest. -/
def annotated (rows : List Attempt) (id : Nat) (details : Attempt → Attempt) : List Attempt :=
  rows.map fun row =>
    if row.id = id ∧ rows.length < id + ATTEMPTS_CAPACITY then details row else row

@[simp] theorem length_annotated (rows : List Attempt) (id : Nat) (details : Attempt → Attempt) :
    (annotated rows id details).length = rows.length := List.length_map _

theorem mem_annotated_of_ne {row : Attempt} (hrow : row ∈ rows) {id : Nat} (hne : row.id ≠ id)
    (details : Attempt → Attempt) : row ∈ annotated rows id details :=
  List.mem_map.mpr ⟨row, hrow, if_neg fun h => hne h.1⟩

/-- An annotation changes the row of its id, and no other. -/
theorem Holds.annotated (h : Holds store rows) (id : Nat) (details : Attempt → Attempt)
    (hid : ∀ row, (details row).id = row.id) :
    Holds (store.annotate id details) (annotated rows id details) := by
  convert h.annotate id details hid using 1
  unfold AttemptsStore.annotated
  apply List.ext_getElem?
  intro i
  rw [List.getElem?_map]
  cases hi : rows[i]? with
  | none =>
    have hbeyond := List.getElem?_eq_none_iff.mp hi
    split
    · rw [List.getElem?_modify, hi]
      rfl
    · rw [hi]
      rfl
  | some row =>
    have hrid := h.ids i row hi
    obtain ⟨hlt, -⟩ := List.getElem?_eq_some_iff.mp hi
    show some (if row.id = id ∧ _ then details row else row) = _
    by_cases hwindow : 0 < id ∧ id ≤ rows.length ∧ rows.length < id + ATTEMPTS_CAPACITY
    · rw [if_pos hwindow, List.getElem?_modify, hi]
      show _ = some (if id - 1 = i then details row else row)
      congr 1
      by_cases hsame : row.id = id
      · rw [if_pos ⟨hsame, hwindow.2.2⟩, if_pos (by omega)]
      · rw [if_neg fun h => hsame h.1, if_neg (by omega)]
    · rw [if_neg hwindow, hi, if_neg fun h => hwindow ⟨by omega, by omega, h.2⟩]

/-- A row is known by its id. -/
theorem Holds.eq_of_id (h : Holds store rows) {a b : Attempt} (ha : a ∈ rows) (hb : b ∈ rows)
    (hid : a.id = b.id) : a = b := by
  obtain ⟨i, hi⟩ := List.mem_iff_getElem?.mp ha
  obtain ⟨j, hj⟩ := List.mem_iff_getElem?.mp hb
  have hai := h.ids i a hi
  have hbj := h.ids j b hj
  obtain rfl : i = j := by omega
  exact Option.some.inj (hi.symm.trans hj)

theorem Holds.id_lt (h : Holds store rows) {row : Attempt} (hrow : row ∈ rows) :
    row.id < store.nextId := by
  obtain ⟨i, hi⟩ := List.mem_iff_getElem?.mp hrow
  obtain ⟨hlt, -⟩ := List.getElem?_eq_some_iff.mp hi
  rw [h.ids i row hi, h.nextId]
  omega

/-- What holds of every row, and is kept by an annotation, holds of every row after it. -/
theorem Holds.annotate_forall (h : Holds store rows) (id : Nat) (details : Attempt → Attempt)
    (hid : ∀ row, (details row).id = row.id) {P : Attempt → Prop} (hrows : ∀ row ∈ rows, P row)
    (hdetails : ∀ row, P row → P (details row)) :
    ∃ rows', Holds (store.annotate id details) rows' ∧ ∀ row ∈ rows', P row := by
  refine ⟨_, h.annotated id details hid, fun row hrow => ?_⟩
  obtain ⟨old, hold, rfl⟩ := List.mem_map.mp hrow
  have hmem := hrows old hold
  show P (if _ then details old else old)
  split
  · exact hdetails old hmem
  · exact hmem

/-- What a store shows are rows it was given, newest first. -/
theorem Holds.recent_eq (h : Holds store rows) (limit : Nat) :
    store.recent limit = rows.reverse.take (min limit ATTEMPTS_CAPACITY) :=
  h.ring.recent_eq limit

theorem Holds.mem_of_recent (h : Holds store rows) {limit : Nat} {row : Attempt}
    (hrow : row ∈ store.recent limit) : row ∈ rows := by
  rw [h.recent_eq] at hrow
  exact List.mem_reverse.mp (List.mem_of_mem_take hrow)

/-- A row among the newest is shown. -/
theorem Holds.mem_recent (h : Holds store rows) {row : Attempt} (hrow : row ∈ rows)
    (hnew : store.nextId ≤ row.id + ATTEMPTS_CAPACITY) : row ∈ store.recent ATTEMPTS_CAPACITY := by
  obtain ⟨i, hi⟩ := List.mem_iff_getElem?.mp hrow
  obtain ⟨hlt, -⟩ := List.getElem?_eq_some_iff.mp hi
  have hrid := h.ids i row hi
  have hnext := h.nextId
  have hback : rows.reverse[rows.length - 1 - i]? = some row := by
    rw [List.getElem?_reverse (by omega), ← hi]
    congr 1
    omega
  rw [h.recent_eq, Nat.min_self]
  refine List.mem_of_getElem? (i := rows.length - 1 - i) ?_
  rw [List.getElem?_take_of_lt (by omega), hback]

/-- **The rows shown are those of the newest ids.** -/
theorem Holds.mem_ids_recent_iff (h : Holds store rows) {id : Nat} (hpos : 0 < id)
    (hgiven : id < store.nextId) :
    id ∈ (store.recent ATTEMPTS_CAPACITY).map (·.id) ↔ store.nextId ≤ id + ATTEMPTS_CAPACITY := by
  have hnext := h.nextId
  constructor
  · intro hmem
    obtain ⟨row, hrow, rfl⟩ := List.mem_map.mp hmem
    rw [h.recent_eq, Nat.min_self] at hrow
    obtain ⟨back, hback⟩ := List.mem_iff_getElem?.mp hrow
    obtain ⟨hlt, -⟩ := List.getElem?_eq_some_iff.mp hback
    rw [List.length_take, List.length_reverse] at hlt
    rw [List.getElem?_take_of_lt (by omega), List.getElem?_reverse (by omega)] at hback
    have hid := h.ids _ _ hback
    omega
  · intro hnew
    obtain ⟨row, hrow⟩ : ∃ row, rows[id - 1]? = some row :=
      ⟨_, List.getElem?_eq_getElem (by omega)⟩
    have hid : row.id = id := by
      rw [h.ids _ _ hrow]
      omega
    exact List.mem_map.mpr ⟨row, h.mem_recent (List.mem_of_getElem? hrow) (by omega), hid⟩

end AttemptsStore

end Cocos.Tools
