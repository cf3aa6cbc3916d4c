import Cocos.Tools.Conservation
import Cocos.Tools.ShadowLedger

namespace Cocos.Tools

open Cocos.Lib

/-!
# What a load run checks

The wait for its users to stand still, `tools/src/load/quiesce.ts`, and the five verdicts of
`checkInvariants` of `tools/src/load/invariants.ts` with the evidence `LoadService.check` brings.

* `outstandingFor`, `quiesced` — one look at the shadows, and whether it ends the wait;
* `Quiesce.Honest` — what a run says of its wait is so;
* `comparable` — the shadows that are evidence;
* `cancelSafety`, `cancelSafety_eq` — **dropping the cancelled rows moves neither fold**, so that
  the check is whether they read CANCELLED;
* `checkInvariants` — the verdicts, in order.
-/

/-! ### Waiting for the users to stand still -/

def QUIESCE_BUDGET_MS : Int := 20000

def QUIESCE_POLL_MS : Int := 50

/-- How many orders of each user are out. -/
def outstandingFor (users : List ShadowUserSnapshot) (userIds : List Int) : List (Int × Int) :=
  userIds.map fun userId =>
    (userId, ((users.find? fun user => user.userId = userId).map (·.outstanding)).getD 0)

def isStill (outstanding : List (Int × Int)) : Bool := outstanding.all fun user => user.2 = 0

/-- What a run says of its wait. -/
structure Quiesce where
  waitedMs : Int
  timedOut : Bool
  outstanding : List (Int × Int)
deriving DecidableEq, Repr

/-- One turn of the loop of `waitForQuiesce`: what the wait came to, or `none` where it goes on. -/
def quiesced (users : List ShadowUserSnapshot) (userIds : List Int) (startedAt now : Int) :
    Option Quiesce :=
  let outstanding := outstandingFor users userIds
  if isStill outstanding then some ⟨now - startedAt, false, outstanding⟩
  else if now - startedAt ≥ QUIESCE_BUDGET_MS then some ⟨now - startedAt, true, outstanding⟩
  else none

/-- What is said of a wait names every user, and the wait gave up on none of them too early. -/
structure Quiesce.Honest (q : Quiesce) (userIds : List Int) : Prop where
  users : q.outstanding.map Prod.fst = userIds
  still : q.timedOut = false ↔ ∀ user ∈ q.outstanding, user.2 = 0
  patient : q.timedOut = true → QUIESCE_BUDGET_MS ≤ q.waitedMs

theorem isStill_iff {outstanding : List (Int × Int)} :
    isStill outstanding = true ↔ ∀ user ∈ outstanding, user.2 = 0 := by
  simp [isStill]

theorem honest_of_quiesced {users : List ShadowUserSnapshot} {userIds : List Int}
    {startedAt now : Int} {q : Quiesce} (h : quiesced users userIds startedAt now = some q) :
    q.Honest userIds := by
  have husers : (outstandingFor users userIds).map Prod.fst = userIds := by
    simp [outstandingFor, Function.comp_def]
  simp only [quiesced] at h
  split_ifs at h with hstill hpatient
  · cases h
    exact ⟨husers, iff_of_true rfl (isStill_iff.mp hstill), fun h => by cases h⟩
  · cases h
    refine ⟨husers, iff_of_false Bool.noConfusion fun hall => ?_, fun _ => hpatient⟩
    exact hstill (isStill_iff.mpr hall)

/-- A wait that goes on is within its budget. -/
theorem lt_of_quiesced_none {users : List ShadowUserSnapshot} {userIds : List Int}
    {startedAt now : Int} (h : quiesced users userIds startedAt now = none) :
    now < startedAt + QUIESCE_BUDGET_MS := by
  simp only [quiesced] at h
  split_ifs at h
  omega

/-! ### The shadows -/

/-- The shadows that stood still over the reads, and were trusted all along. -/
def comparable (before after : List ShadowUserSnapshot) (users : List Int) : JsMap Int String :=
  let later := JsMap.ofEntries (after.map fun user => (user.userId, user))
  before.foldl (fun (cash : JsMap Int String) (user : ShadowUserSnapshot) =>
    match later.get? user.userId with
    | some settled =>
      if user.userId ∉ users ∨ user.seeded = false ∨ user.uncertain ∨ settled.uncertain ∨
          user.outstanding ≠ 0 ∨ settled.outstanding ≠ 0 ∨ user.cash ≠ settled.cash then cash
      else cash.set user.userId user.cash
    | none => cash) .empty

/-! ### Cancels -/

/-- One order that was cancelled, held against the rows. -/
def cancelBreach (held : JsMap Int LedgerRow) (id : Int) : Option String :=
  match held.get? id with
  | none => some s!"order {id} was cancelled but the database holds no such row"
  | some row =>
    if row.status ≠ some "CANCELLED" then
      some s!"order {id} was cancelled but reads {nullable row.status}"
    else none

/-- A fold that was moved by dropping the cancelled rows. -/
def foldBreach (fold total without : String) : Option String :=
  if total ≠ without then
    some s!"dropping the CANCELLED rows moved the {fold} fold from {total} to {without}"
  else none

def dropCancelled (rows : List LedgerRow) : List LedgerRow :=
  rows.filter fun row => row.status ≠ some "CANCELLED"

/-- An order that was cancelled reads so, and the cancelled rows move nothing. -/
def cancelSafety (rows : List LedgerRow) (cancelled : List Int) : Option InvariantResult :=
  let held := JsMap.ofEntries (rows.map fun row => (row.id, row))
  let kept := dropCancelled rows
  match cashTotal rows, cashTotal kept with
  | some cash, some cashWithout =>
    some (verdict "cancel_safety"
      [s!"{cancelled.length} orders cancelled in the run all read CANCELLED",
        s!"{rows.length - kept.length} CANCELLED rows contribute nothing to either fold"]
      (cancelled.filterMap (cancelBreach held) ++
        (foldBreach "cash" (moneyOf cash) (moneyOf cashWithout)).toList ++
        (foldBreach "holdings" (toString (shareTotal rows)) (toString (shareTotal kept))).toList))
  | _, _ => none

/-- A cancelled row is no FILLED one, and moves nothing. -/
theorem delta_of_cancelled {row : LedgerRow} (h : row.status = some "CANCELLED") :
    cashDelta row = some 0 ∧ shareDelta row = 0 := by
  have hne : row.status ≠ some "FILLED" := by
    rw [h]
    decide
  exact ⟨if_pos hne, if_pos hne⟩

theorem cashTotal_dropCancelled (rows : List LedgerRow) :
    cashTotal (dropCancelled rows) = cashTotal rows := by
  unfold cashTotal dropCancelled
  generalize (0 : Int) = total
  induction rows generalizing total with
  | nil => rfl
  | cons row rows ih =>
    by_cases h : row.status = some "CANCELLED"
    · rw [List.filter_cons_of_neg (by simp [h]), List.foldlM_cons, (delta_of_cancelled h).1, ih]
      show _ = rows.foldlM _ (total + 0)
      rw [Int.add_zero]
    · rw [List.filter_cons_of_pos (by simp [h]), List.foldlM_cons, List.foldlM_cons]
      cases cashDelta row with
      | none => rfl
      | some delta => exact ih (total + delta)

theorem shareTotal_dropCancelled (rows : List LedgerRow) :
    shareTotal (dropCancelled rows) = shareTotal rows := by
  unfold shareTotal dropCancelled
  generalize (0 : Int) = total
  induction rows generalizing total with
  | nil => rfl
  | cons row rows ih =>
    by_cases h : row.status = some "CANCELLED"
    · rw [List.filter_cons_of_neg (by simp [h]), List.foldl_cons, (delta_of_cancelled h).2, ih,
        Int.add_zero]
    · rw [List.filter_cons_of_pos (by simp [h]), List.foldl_cons, List.foldl_cons, ih]

/-- **Dropping the cancelled rows moves neither fold**: what the check can find fault with is the
    orders that were cancelled. -/
theorem cancelSafety_eq (rows : List LedgerRow) (cancelled : List Int) :
    cancelSafety rows cancelled = (cashTotal rows).map fun _ => verdict "cancel_safety"
      [s!"{cancelled.length} orders cancelled in the run all read CANCELLED",
        s!"{rows.length - (dropCancelled rows).length} CANCELLED rows contribute nothing to either fold"]
      (cancelled.filterMap
        (cancelBreach (JsMap.ofEntries (rows.map fun row => (row.id, row))))) := by
  simp only [cancelSafety, cashTotal_dropCancelled, shareTotal_dropCancelled]
  cases cashTotal rows with
  | none => rfl
  | some total => simp [foldBreach]

/-! ### The verdicts -/

/-- What `LoadService.check` brings. -/
structure RunEvidence where
  rows : List LedgerRow
  highWaterMark : Int
  apiCash : JsMap Int CashReading
  shadowCash : JsMap Int String
  placements : List PlacedResponse
  acknowledged : List Int
  unanswered : Nat
  cancelled : List Int

/-- The five verdicts, in order. -/
def checkInvariants (evidence : RunEvidence) : Option (List InvariantResult) := do
  let conservation ← conservation evidence.rows evidence.apiCash evidence.shadowCash
  let overdraft ← noOverdraft evidence.rows
  let cancels ← cancelSafety evidence.rows evidence.cancelled
  pure [conservation, overdraft, noOversell evidence.rows evidence.highWaterMark,
    responseDbAgreement evidence.placements evidence.rows evidence.highWaterMark
      evidence.acknowledged evidence.unanswered evidence.cancelled, cancels]

def INVARIANTS : List String :=
  ["conservation", "no_overdraft", "no_oversell", "response_db_agreement", "cancel_safety"]

theorem name_verdict (name : String) (notes breaches : List String) :
    (verdict name notes breaches).name = name := by
  unfold verdict
  split <;> rfl

/-- A check that does not throw says all it is to say. -/
theorem names_checkInvariants {evidence : RunEvidence} {results : List InvariantResult}
    (h : checkInvariants evidence = some results) : results.map (·.name) = INVARIANTS := by
  simp only [checkInvariants, Option.bind_eq_bind, Option.bind_eq_some_iff, Option.pure_def,
    Option.some.injEq] at h
  obtain ⟨conserved, hconserved, overdraft, hoverdraft, cancels, hcancels, rfl⟩ := h
  obtain ⟨_, -, rfl⟩ := Option.map_eq_some_iff.mp hconserved
  obtain ⟨_, -, rfl⟩ := Option.map_eq_some_iff.mp hoverdraft
  rw [cancelSafety_eq] at hcancels
  obtain ⟨_, -, rfl⟩ := Option.map_eq_some_iff.mp hcancels
  simp only [List.map_cons, List.map_nil, verdictOf, noOversell, responseDbAgreement, name_verdict]
  rfl

end Cocos.Tools
