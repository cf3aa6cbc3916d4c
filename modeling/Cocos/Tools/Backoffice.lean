import Cocos.Tools.Detectors
import Mathlib.Data.List.Sort

namespace Cocos.Tools

open Cocos.Lib

/-!
# The back-office

`BackofficeService` of `tools/src/backoffice/backoffice.service.ts`: the state it keeps between
two sweeps, and the parts of a sweep that do not wait for anything.

* `markQuiet`, `setLoadRunning` — the mark of when the harness was last seen idle;
* `scan` — the rules over the rows it has not seen, oldest first, up to the first that is too
  young;
* `scanRows_induction`, and from it `mem_anomalies_scan` — **what a scan adds**: findings about
  rows it was shown, under the mark it was given;
* `due`, `reconcileOne` — the placements whose window has closed, and the verdict on one.

`anomalies` is everything that was recorded, each finding with the `attemptId` of its context.
-/

/-- What the back-office keeps between two sweeps. -/
structure Backoffice where
  latencyThresholdMs : Int
  quietSince : Option Int
  loadRunning : Bool
  scanned : Nat
  simulatedOrders : Nat
  pending : List (Attempt × LostPlacement)
  anomalies : List (Nat × Finding)

namespace Backoffice

/-- The back-office as it is constructed. -/
def initial : Backoffice := ⟨500, none, false, 0, 0, [], []⟩

/-- When the harness was last seen driving nothing, seen now. -/
def markQuiet (b : Backoffice) (simulationRunning : Bool) (now : Int) : Backoffice :=
  { b with
    quietSince := if b.loadRunning ∨ simulationRunning then none else some (b.quietSince.getD now) }

/-- A load run begins or ends. -/
def setLoadRunning (b : Backoffice) (running simulationRunning : Bool) (now : Int) : Backoffice :=
  { b with loadRunning := running }.markQuiet simulationRunning now

/-- What the rules are told beyond the row. -/
def context (b : Backoffice) : DetectorContext := ⟨b.latencyThresholdMs, b.quietSince⟩

/-- How long the youngest rows are held back. -/
def SETTLE_MS : Int := 250

/-- One row that is old enough: the rules, the counter, and the queue of what was lost. -/
def inspect (b : Backoffice) (attempt : Attempt) : Backoffice :=
  { b with
    anomalies := b.anomalies ++ (findings attempt b.context).map fun f => (attempt.id, f)
    simulatedOrders := b.simulatedOrders + if attempt.expected.isSome then 1 else 0
    pending := b.pending ++ ((lostCandidate attempt).map fun lost => (attempt, lost)).toList
    scanned := attempt.id }

/-- The loop of `scan`, over rows from the oldest on. -/
def scanRows (settled : Int) (b : Backoffice) : List Attempt → Backoffice
  | [] => b
  | attempt :: rest =>
    if attempt.id ≤ b.scanned then scanRows settled b rest
    else if attempt.sentAt + attempt.latencyMs > settled then b
    else if isChaosEvent attempt then scanRows settled { b with scanned := attempt.id } rest
    else scanRows settled (b.inspect attempt) rest

/-- The rules over the rows not seen yet. -/
def scan (b : Backoffice) (store : AttemptsStore) (now : Int) : Backoffice :=
  scanRows (now - SETTLE_MS) b (store.recent ATTEMPTS_CAPACITY).reverse

@[simp] theorem inspect_context (b : Backoffice) (attempt : Attempt) :
    (b.inspect attempt).context = b.context := rfl

/-- **Induction over a scan**: what holds of the back-office before it, and is kept by passing a
    row over and by looking into one, holds after it. -/
theorem scanRows_induction {P : Backoffice → Prop} {rows : List Attempt} (settled : Int)
    (hskip : ∀ b, ∀ attempt ∈ rows, P b → P { b with scanned := attempt.id })
    (hinspect : ∀ b, ∀ attempt ∈ rows, P b → P (b.inspect attempt)) {b : Backoffice} (h : P b) :
    P (scanRows settled b rows) := by
  induction rows generalizing b with
  | nil => exact h
  | cons attempt rest ih =>
    have hrest := fun b h => ih (b := b)
      (fun b row hrow => hskip b row (List.mem_cons_of_mem _ hrow))
      (fun b row hrow => hinspect b row (List.mem_cons_of_mem _ hrow)) h
    unfold scanRows
    split
    · exact hrest b h
    · split
      · exact h
      · split
        · exact hrest _ (hskip b attempt List.mem_cons_self h)
        · exact hrest _ (hinspect b attempt List.mem_cons_self h)

/-- Nothing but the rows it has seen, and what it found in them, changes in a scan. -/
theorem scanRows_frame (settled : Int) (b : Backoffice) (rows : List Attempt) :
    (scanRows settled b rows).context = b.context ∧
      (scanRows settled b rows).loadRunning = b.loadRunning :=
  scanRows_induction (P := fun b' => b'.context = b.context ∧ b'.loadRunning = b.loadRunning)
    settled (fun _ _ _ h => h) (fun _ _ _ h => h) ⟨rfl, rfl⟩

/-- **What a scan adds**: findings about the rows it was shown. -/
theorem mem_anomalies_scan {b : Backoffice} {store : AttemptsStore} {now : Int} {id : Nat}
    {f : Finding} (h : (id, f) ∈ (b.scan store now).anomalies) :
    (id, f) ∈ b.anomalies ∨
      ∃ attempt ∈ store.recent ATTEMPTS_CAPACITY, attempt.id = id ∧
        f ∈ findings attempt b.context := by
  have key := @scanRows_induction
    (fun b' => b'.context = b.context ∧ ∀ id f, (id, f) ∈ b'.anomalies →
      (id, f) ∈ b.anomalies ∨ ∃ attempt ∈ store.recent ATTEMPTS_CAPACITY, attempt.id = id ∧
        f ∈ findings attempt b.context)
    (store.recent ATTEMPTS_CAPACITY).reverse (now - SETTLE_MS) (fun b' attempt _ h => h)
    (fun b' attempt hmem h => ?_) b ⟨rfl, fun id f h => .inl h⟩
  · exact key.2 id f h
  · refine ⟨h.1, fun id f hf => ?_⟩
    rcases List.mem_append.mp hf with hold | hnew
    · exact h.2 id f hold
    · obtain ⟨f', hf', heq⟩ := List.mem_map.mp hnew
      cases heq
      exact .inr ⟨attempt, List.mem_reverse.mp hmem, rfl, h.1 ▸ hf'⟩

/-- What a scan leaves pending are placements that were pending, and rows it was shown. -/
theorem mem_pending_scan {b : Backoffice} {store : AttemptsStore} {now : Int}
    {p : Attempt × LostPlacement} (h : p ∈ (b.scan store now).pending) :
    p ∈ b.pending ∨ p.1 ∈ store.recent ATTEMPTS_CAPACITY ∧ lostCandidate p.1 = some p.2 := by
  have key := @scanRows_induction
    (fun b' => ∀ p ∈ b'.pending,
      p ∈ b.pending ∨ p.1 ∈ store.recent ATTEMPTS_CAPACITY ∧ lostCandidate p.1 = some p.2)
    (store.recent ATTEMPTS_CAPACITY).reverse (now - SETTLE_MS) (fun b' attempt _ h => h)
    (fun b' attempt hmem h p hp => ?_) b (fun p h => .inl h)
  · exact key p h
  · rcases List.mem_append.mp hp with hold | hnew
    · exact h p hold
    · rw [Option.mem_toList, Option.map_eq_some_iff] at hnew
      obtain ⟨lost, hlost, rfl⟩ := hnew
      exact .inr ⟨List.mem_reverse.mp hmem, hlost⟩

/-! ### Reconciliation -/

/-- The placements whose window has closed, in the order they were recorded. -/
def due (b : Backoffice) (now : Int) : List (Attempt × LostPlacement) :=
  (b.pending.filter fun p => reconcilableAt p.1 ≤ now).insertionSort fun p q => p.1.id ≤ q.1.id

theorem mem_due {b : Backoffice} {now : Int} {p : Attempt × LostPlacement} :
    p ∈ b.due now ↔ p ∈ b.pending ∧ reconcilableAt p.1 ≤ now := by
  simp [due, List.mem_insertionSort]

/-- The orders that some row of the recorder names. -/
def acknowledged (store : AttemptsStore) : List Int :=
  (store.recent ATTEMPTS_CAPACITY).filterMap (·.orderId)

/-- One placement held against the rows found for its key. -/
def reconcileOne (b : Backoffice) (attempt : Attempt) (rows : List DbOrder)
    (acknowledged : List Int) : Backoffice :=
  let found := rows.map fun row => MatchedOrder.mk row (row.id ∈ acknowledged)
  { b with
    pending := b.pending.filter fun p => p.1.id ≠ attempt.id
    anomalies := b.anomalies ++ (reconciledFindings attempt found).map fun f => (attempt.id, f) }

/-- The verdict on a placement the database holds nothing for. -/
theorem anomalies_reconcileOne_nil (b : Backoffice) (attempt : Attempt) (acknowledged : List Int) :
    (b.reconcileOne attempt [] acknowledged).anomalies =
      b.anomalies ++ [(attempt.id, lostOrder attempt [])] := by
  show b.anomalies ++ (reconciledFindings attempt []).map _ = _
  rw [reconciledFindings_nil]
  rfl

end Backoffice

end Cocos.Tools
