import Cocos.Tools.Attempts

namespace Cocos.Tools

open Cocos.Lib

/-!
# The recorder as a log

`tools/src/store/attempts.store.ts`, over any sequence of calls.  A call may annotate any id: one
that was evicted, one that was never given, zero, or a negative one, where the slot is counted from
the end of the buffer.

* `AttemptsStore.annotateAt` — an annotation of any id, and `Holds.recent_annotateAt`, what is shown
  after it;
* `StoreCall`, `called` — a sequence of calls, and the ids it was answered with;
* `rowsOf` — the log: what was recorded, with the annotations made while it was held;
* `refines_log` — **the ring is the end of that log**.
-/

/-! ### Annotations of any id -/

/-- The place `Array.prototype.at` reads: a negative index counts from the end. -/
def placeAt (length : Nat) (index : Int) : Option Nat :=
  if 0 ≤ index then some index.toNat
  else if 0 ≤ index + length then some (index + length).toNat
  else none

namespace AttemptsStore

/-- Writes onto the row of an id, if the slot of that id holds it. -/
def annotateAt (store : AttemptsStore) (id : Int) (details : Attempt → Attempt) : AttemptsStore :=
  match placeAt store.ring.buffer.length ((id - 1).tmod ATTEMPTS_CAPACITY) with
  | none => store
  | some slot => { store with ring := store.ring.modifyAt slot fun row =>
      if (row.id : Int) = id then details row else row }

variable {store : AttemptsStore} {rows : List Attempt}

/-- The slot of an id that was given is where `annotate` looks for it. -/
theorem annotateAt_ofNat (store : AttemptsStore) {id : Nat} (hid : 0 < id)
    (details : Attempt → Attempt) : store.annotateAt id details = store.annotate id details := by
  have hslot : ((id : Int) - 1).tmod ATTEMPTS_CAPACITY =
      ((id - 1) % ATTEMPTS_CAPACITY : Nat) := by
    rw [← Nat.cast_pred hid, Int.ofNat_tmod]
  rw [annotateAt, hslot, placeAt, if_pos (Int.natCast_nonneg _), Int.toNat_natCast, annotate]
  simp only [Nat.cast_inj]

theorem Holds.id_pos (h : Holds store rows) {row : Attempt} (hrow : row ∈ rows) : 0 < row.id := by
  obtain ⟨i, hi⟩ := List.mem_iff_getElem?.mp hrow
  rw [h.ids i row hi]
  exact Nat.succ_pos i

/-- An id none of the rows held has is not written onto, whatever slot is looked at for it. -/
theorem Holds.annotateAt_eq_self (h : Holds store rows) {id : Int}
    (hgone : ∀ row ∈ rows, store.nextId ≤ row.id + ATTEMPTS_CAPACITY → (row.id : Int) ≠ id)
    (details : Attempt → Attempt) : store.annotateAt id details = store := by
  unfold annotateAt
  split
  · rfl
  · rename_i slot hslot
    have hsame : (store.ring.modifyAt slot fun row =>
        if (row.id : Int) = id then details row else row) = store.ring := by
      apply RingBuffer.modifyAt_eq_self
      intro row hrow
      obtain ⟨i, -, hheld, -, hget⟩ := h.ring.place hrow
      apply if_neg (hgone row (List.mem_of_getElem? hget) _)
      rw [h.nextId, h.ids i row hget]
      omega
    rw [hsame]

/-- The rows once an id is annotated, if its row is still among the newest. -/
def annotatedAt (rows : List Attempt) (id : Int) (details : Attempt → Attempt) : List Attempt :=
  rows.map fun row =>
    if (row.id : Int) = id ∧ rows.length < row.id + ATTEMPTS_CAPACITY then details row else row

theorem annotatedAt_ofNat (rows : List Attempt) (id : Nat) (details : Attempt → Attempt) :
    annotatedAt rows id details = annotated rows id details := by
  apply List.map_congr_left
  intro row _
  by_cases hid : row.id = id
  · simp only [hid, true_and]
  · rw [if_neg fun h => hid (Nat.cast_inj.mp h.1), if_neg fun h => hid h.1]

/-- **An annotation of any id** changes the row of that id while it is held, and nothing else. -/
theorem Holds.annotateAt (h : Holds store rows) (id : Int) (details : Attempt → Attempt)
    (hkeeps : ∀ row, (details row).id = row.id) :
    Holds (store.annotateAt id details) (annotatedAt rows id details) := by
  rcases lt_or_ge 0 id with hpos | hneg
  · obtain ⟨n, rfl⟩ := Int.eq_ofNat_of_zero_le hpos.le
    have hn : 0 < n := Int.natCast_pos.mp hpos
    rw [annotateAt_ofNat store hn, annotatedAt_ofNat]
    exact h.annotated n details hkeeps
  · have hnone : ∀ row ∈ rows, (row.id : Int) ≠ id := fun row hrow => by
      have hpos := h.id_pos hrow
      omega
    have hsame : annotatedAt rows id details = rows :=
      (List.map_congr_left fun row hrow => if_neg fun hid => hnone row hrow hid.1).trans
        (List.map_id rows)
    rw [h.annotateAt_eq_self (fun row hrow _ => hnone row hrow), hsame]
    exact h

/-- The rows shown have the last ids, counting down. -/
theorem Holds.recent_getElem? (h : Holds store rows) {k back : Nat} {row : Attempt}
    (hrow : (store.recent k)[back]? = some row) :
    back < min k (min rows.length ATTEMPTS_CAPACITY) ∧ row.id = rows.length - back := by
  obtain ⟨hlt, -⟩ := List.getElem?_eq_some_iff.mp hrow
  rw [h.recent_eq, List.length_take, List.length_reverse] at hlt
  rw [h.recent_eq, List.getElem?_take_of_lt (by omega), List.getElem?_reverse (by omega)] at hrow
  have hid := h.ids _ row hrow
  omega

theorem Holds.length_recent (h : Holds store rows) (k : Nat) :
    (store.recent k).length = min k (min rows.length ATTEMPTS_CAPACITY) := by
  rw [h.recent_eq, List.length_take, List.length_reverse]
  omega

theorem Holds.recent_ids (h : Holds store rows) (k : Nat) : (store.recent k).map (·.id) =
    (List.range (min k (min rows.length ATTEMPTS_CAPACITY))).map (rows.length - ·) := by
  apply List.ext_getElem
  · rw [List.length_map, List.length_map, List.length_range, h.length_recent]
  · intro back hback _
    rw [List.length_map] at hback
    rw [List.getElem_map, List.getElem_map, List.getElem_range]
    exact (h.recent_getElem? (List.getElem?_eq_getElem hback)).2

/-- **What is shown after an annotation**: the row shown under its id is changed, and no other. -/
theorem Holds.recent_annotateAt (h : Holds store rows) (id : Int) (details : Attempt → Attempt)
    (hkeeps : ∀ row, (details row).id = row.id) (k : Nat) :
    (store.annotateAt id details).recent k =
      (store.recent k).map fun row => if (row.id : Int) = id then details row else row := by
  have hrecent : ∀ row ∈ store.recent k, rows.length < row.id + ATTEMPTS_CAPACITY := by
    intro row hrow
    obtain ⟨back, hback⟩ := List.mem_iff_getElem?.mp hrow
    have hid := h.recent_getElem? hback
    omega
  rw [(h.annotateAt id details hkeeps).recent_eq, annotatedAt, ← List.map_reverse, ← List.map_take,
    ← h.recent_eq]
  apply List.map_congr_left
  intro row hrow
  simp only [hrecent row hrow, and_true]

end AttemptsStore

/-! ### Sequences of calls -/

/-- What `Object.assign` does to a row, of details that have no `id` field. -/
abbrev Assigned := { write : Attempt → Attempt // ∀ row, (write row).id = row.id }

/-- A call of the store. -/
inductive StoreCall
  | record (attempt : Attempt)
  | annotate (id : Int) (details : Assigned)

/-- One call: the store after it, and the ids `record` has answered with so far. -/
def StoreCall.answer (s : AttemptsStore × List Nat) : StoreCall → AttemptsStore × List Nat
  | .record attempt => (s.1.record attempt, s.2 ++ [s.1.nextId])
  | .annotate id details => (s.1.annotateAt id details.1, s.2)

/-- What a sequence of calls leaves and was answered with. -/
def called (cs : List StoreCall) : AttemptsStore × List Nat :=
  cs.foldl StoreCall.answer (.empty, [])

/-- The attempt a call records. -/
def StoreCall.attempt : StoreCall → Option Attempt
  | .record attempt => some attempt
  | .annotate .. => none

/-- What was recorded. -/
def attemptsOf (cs : List StoreCall) : List Attempt := cs.filterMap StoreCall.attempt

/-- The annotations made to an id while the row of it was held, of calls made when `n` attempts
    had been recorded. -/
def notesTo (id : Nat) : Nat → List StoreCall → List Assigned
  | _, [] => []
  | n, .record _ :: cs => notesTo id (n + 1) cs
  | n, .annotate id' details :: cs =>
    if (id : Int) = id' ∧ id ≤ n ∧ n < id + ATTEMPTS_CAPACITY then details :: notesTo id n cs
    else notesTo id n cs

/-- An attempt under its id, with the annotations made to it. -/
def Attempt.noted (attempt : Attempt) (id : Nat) (notes : List Assigned) : Attempt :=
  notes.foldl (fun row details => details.1 row) { attempt with id := id }

/-- The log: every attempt that was recorded, with the annotations made while it was held. -/
def rowsOf (cs : List StoreCall) : List Attempt :=
  (attemptsOf cs).mapIdx fun i attempt => attempt.noted (i + 1) (notesTo (i + 1) 0 cs)

@[simp] theorem length_rowsOf (cs : List StoreCall) :
    (rowsOf cs).length = (attemptsOf cs).length := List.length_mapIdx

@[simp] theorem attemptsOf_record (cs : List StoreCall) (attempt : Attempt) :
    attemptsOf (cs ++ [.record attempt]) = attemptsOf cs ++ [attempt] := by
  simp [attemptsOf, StoreCall.attempt]

@[simp] theorem attemptsOf_annotate (cs : List StoreCall) (id : Int) (details : Assigned) :
    attemptsOf (cs ++ [.annotate id details]) = attemptsOf cs := by
  simp [attemptsOf, StoreCall.attempt]

theorem notesTo_append (id n : Nat) (cs ds : List StoreCall) :
    notesTo id n (cs ++ ds) = notesTo id n cs ++ notesTo id (n + (attemptsOf cs).length) ds := by
  induction cs generalizing n with
  | nil => rfl
  | cons c cs ih =>
    cases c with
    | record attempt =>
      show notesTo id (n + 1) (cs ++ ds) = notesTo id (n + 1) cs ++ notesTo id (n + _) ds
      rw [ih (n + 1), show attemptsOf (.record attempt :: cs) = attempt :: attemptsOf cs from rfl,
        List.length_cons, Nat.add_assoc, Nat.add_comm 1]
    | annotate id' details =>
      show (if _ then details :: notesTo id n (cs ++ ds) else notesTo id n (cs ++ ds)) =
        (if _ then details :: notesTo id n cs else notesTo id n cs) ++ _
      rw [ih n]
      split
      · rfl
      · rfl

/-- Nothing is written onto an id that is not given yet. -/
theorem notesTo_of_lt {id n : Nat} {cs : List StoreCall} (h : n + (attemptsOf cs).length < id) :
    notesTo id n cs = [] := by
  induction cs generalizing n with
  | nil => rfl
  | cons c cs ih =>
    cases c with
    | record attempt =>
      apply ih
      rw [show attemptsOf (.record attempt :: cs) = attempt :: attemptsOf cs from rfl,
        List.length_cons] at h
      omega
    | annotate id' details =>
      have hn : n + (attemptsOf cs).length < id := h
      show (if _ then details :: notesTo id n cs else notesTo id n cs) = []
      rw [if_neg (by omega)]
      exact ih hn

theorem Attempt.noted_id (attempt : Attempt) (id : Nat) (notes : List Assigned) :
    (attempt.noted id notes).id = id := by
  unfold noted
  induction notes using List.reverseRecOn with
  | nil => rfl
  | append_singleton notes details ih =>
    rw [List.foldl_append]
    exact (details.2 _).trans ih

theorem rowsOf_record (cs : List StoreCall) (attempt : Attempt) :
    rowsOf (cs ++ [.record attempt]) =
      rowsOf cs ++ [{ attempt with id := (attemptsOf cs).length + 1 }] := by
  have hnotes : ∀ id, notesTo id 0 (cs ++ [.record attempt]) = notesTo id 0 cs := fun id => by
    rw [notesTo_append]
    exact List.append_nil _
  rw [rowsOf, attemptsOf_record, List.mapIdx_append]
  simp only [hnotes, List.mapIdx_cons, List.mapIdx_nil, Nat.zero_add]
  rw [notesTo_of_lt (by omega)]
  rfl

theorem rowsOf_annotate (cs : List StoreCall) (id : Int) (details : Assigned) :
    rowsOf (cs ++ [.annotate id details]) =
      AttemptsStore.annotatedAt (rowsOf cs) id details.1 := by
  apply List.ext_getElem?
  intro i
  rw [AttemptsStore.annotatedAt, rowsOf, rowsOf, attemptsOf_annotate, List.length_mapIdx,
    List.getElem?_map, List.getElem?_mapIdx, List.getElem?_mapIdx, Option.map_map]
  cases hi : (attemptsOf cs)[i]? with
  | none => rfl
  | some attempt =>
    obtain ⟨hlt, -⟩ := List.getElem?_eq_some_iff.mp hi
    show some _ = some (if _ then _ else _)
    rw [Attempt.noted_id, notesTo_append, Nat.zero_add]
    by_cases h : ((i + 1 : Nat) : Int) = id ∧ (attemptsOf cs).length < i + 1 + ATTEMPTS_CAPACITY
    · rw [notesTo, if_pos ⟨h.1, hlt, h.2⟩, if_pos h]
      exact congrArg some List.foldl_append
    · rw [notesTo, if_neg fun h' => h ⟨h'.1, h'.2.2⟩, if_neg h]
      show some (attempt.noted _ (_ ++ [])) = _
      rw [List.append_nil]

/-- The store holds the log of the calls, and the ids it answered with are those of the log. -/
structure Logs (cs : List StoreCall) (s : AttemptsStore × List Nat) : Prop where
  holds : s.1.Holds (rowsOf cs)
  ids : s.2 = List.range' 1 (attemptsOf cs).length

/-- **One call keeps it so.** -/
theorem Logs.answer {cs : List StoreCall} {s : AttemptsStore × List Nat} (h : Logs cs s)
    (c : StoreCall) : Logs (cs ++ [c]) (c.answer s) := by
  have hnext : s.1.nextId = (attemptsOf cs).length + 1 := by
    rw [h.holds.nextId, length_rowsOf]
  cases c with
  | record attempt =>
    constructor
    · rw [rowsOf_record, ← hnext]
      exact h.holds.record attempt
    · show s.2 ++ [s.1.nextId] = _
      rw [h.ids, hnext, attemptsOf_record, List.length_append, List.length_singleton,
        List.range'_concat, Nat.one_mul, Nat.add_comm 1]
  | annotate id details =>
    constructor
    · rw [rowsOf_annotate]
      exact h.holds.annotateAt id details.1 details.2
    · rw [attemptsOf_annotate]
      exact h.ids

theorem logs (cs : List StoreCall) : Logs cs (called cs) := by
  induction cs using List.reverseRecOn with
  | nil => exact ⟨AttemptsStore.holds_empty, rfl⟩
  | append_singleton cs c ih =>
    rw [called, List.foldl_append]
    exact ih.answer c

/-- **The ring refines the log.**  After any calls the ids handed out are 1, 2, 3 and so on; what is
    shown is the end of the log, newest first under consecutive ids, five thousand rows at most;
    and an annotation of any id changes the row shown under it, or nothing. -/
theorem refines_log (cs : List StoreCall) :
    let store := (called cs).1
    let n := (attemptsOf cs).length
    (called cs).2 = List.range' 1 n ∧
    (∀ k, store.recent k = (rowsOf cs).reverse.take (min k (min n ATTEMPTS_CAPACITY)) ∧
      (store.recent k).map (·.id) = (List.range (min k (min n ATTEMPTS_CAPACITY))).map (n - ·)) ∧
    ∀ (id : Int) (details : Assigned),
      (∀ k, (store.annotateAt id details.1).recent k =
        (store.recent k).map fun row => if (row.id : Int) = id then details.1 row else row) ∧
      ((∀ row ∈ store.recent ATTEMPTS_CAPACITY, (row.id : Int) ≠ id) →
        store.annotateAt id details.1 = store) := by
  intro store n
  have h := (logs cs).holds
  have hlength : (rowsOf cs).length = n := length_rowsOf cs
  refine ⟨(logs cs).ids, fun k => ⟨?_, ?_⟩, fun id details => ⟨?_, fun hgone => ?_⟩⟩
  · rw [h.recent_eq, List.take_eq_take_iff, List.length_reverse]
    omega
  · rw [h.recent_ids, hlength]
  · exact h.recent_annotateAt id details.1 details.2
  · exact h.annotateAt_eq_self (fun row hrow hnew => hgone row (h.mem_recent hrow hnew)) details.1

end Cocos.Tools
