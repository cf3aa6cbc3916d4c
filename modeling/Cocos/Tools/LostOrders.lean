import Cocos.Lib.Lists
import Cocos.Lib.Machine
import Cocos.Tools.Backoffice
import Cocos.Tools.Gateway

namespace Cocos.Tools

open Cocos.Lib

/-!
# Orders lost in transit

A placement is sent under a key, and the gateway gives up on it after ten seconds; the retry probe
sends it again then, once and under the same key.  Sixteen seconds after the first was sent the
back-office asks the database for the key.

* `KeyedCall`, `Exchange` — the calls under keys, what the target does with them and when, the
  orders it stored, the recorder and the back-office, and the sweep under way;
* `Exchange.MayCommit` — the target can still store an order for a call: it starts on a call less
  than a second after it was sent, and is done within fifteen seconds of that;
* `Exchange.Family` — under one key there is one call that is no retry, and one retry of it at
  most, sent when the row of the first was recorded;
* `lost_order_final_iff` — **the verdict that an order was never processed is final exactly if the
  target can store nothing for the retry of that attempt any more.**
-/

/-- How far the target has got with a call. -/
inductive Handling
  | transit
  | running (startedAt : Int)
  | over
deriving DecidableEq, Repr

/-- An order and what the target stores it under. -/
structure KeyedOrder where
  userId : Int
  key : String
  order : DbOrder

/-- The order stored for one key. -/
def matchByKey (orders : List KeyedOrder) (userId : Int) (key : String) : List DbOrder :=
  ((orders.filter fun o => o.userId = userId ∧ o.key = key).map (·.order)).insertionSort
    fun a b => a.id ≤ b.id

theorem matchByKey_eq_nil {orders : List KeyedOrder} {userId : Int} {key : String} :
    matchByKey orders userId key = [] ↔ ∀ o ∈ orders, ¬(o.userId = userId ∧ o.key = key) := by
  rw [matchByKey, ← List.length_eq_zero_iff, List.length_insertionSort, List.length_map,
    List.length_eq_zero_iff, List.filter_eq_nil_iff]
  simp

/-- A sweep that waits for the database: the placements still to be asked about, and the orders
    some row named when it began. -/
structure Sweep where
  due : List (Attempt × LostPlacement)
  acknowledged : List Int

/-- With nothing to ask about the sweep is through. -/
def Sweep.next (due : List (Attempt × LostPlacement)) (acknowledged : List Int) : Option Sweep :=
  if due.isEmpty then none else some ⟨due, acknowledged⟩

theorem Sweep.due_of_next {due : List (Attempt × LostPlacement)} {acknowledged : List Int}
    {sweep : Sweep} (h : Sweep.next due acknowledged = some sweep) : sweep.due = due := by
  unfold Sweep.next at h
  split at h <;> cases h
  rfl

/-- The gateway, the target, the recorder and the back-office.  `handling` and `rowOf` speak of a
    call by its place: what the target does with it, and the row it was recorded under. -/
structure Exchange where
  clock : Int
  calls : List KeyedCall
  handling : Nat → Handling
  rowOf : Nat → Option Nat
  orders : List KeyedOrder
  store : AttemptsStore
  backoffice : Backoffice
  sweeping : Option Sweep

namespace Exchange

/-- Nothing sent yet. -/
def initial : Exchange :=
  ⟨0, [], fun _ => .transit, fun _ => none, [], .empty, .initial, none⟩

/-- The target can still store an order for a call. -/
def MayCommit (s : Exchange) (j : Nat) (call : KeyedCall) : Prop :=
  match s.handling j with
  | .transit => s.clock < call.sentAt + MATCH_SLACK_MS
  | .running startedAt => s.clock ≤ startedAt + TARGET_CEILING_MS
  | .over => False

/-- A call goes out. -/
def post (s : Exchange) (call : KeyedCall) : Exchange :=
  { s with
    calls := s.calls ++ [call]
    handling := Function.update s.handling s.calls.length .transit }

end Exchange

inductive ExchangeEvent
  /-- Time passes. -/
  | tick (now : Int)
  /-- A placement is sent, under a key that was never used. -/
  | send (userId : Int) (sent : Option OrderKey) (path key : String)
  /-- The target starts on a call, stores an order for it, or is done with it otherwise. -/
  | arrive (j : Nat)
  | commit (j : Nat) (order : DbOrder)
  | finish (j : Nat)
  /-- The gateway has an answer or gives up, and may send the call again. -/
  | settle (j : Nat) (answer : Answer) (delayedMs : Int) (chaos : Option ChaosMark)
    (retried : Bool)
  /-- A row of another kind of call is recorded, or one of the chaos engine's own. -/
  | other (attempt : Attempt)
  | annotate (id : Nat) (details : Details)
  | setLoadRunning (running simulationRunning : Bool)
  /-- A sweep begins; the database answers it for one placement, or cannot be read. -/
  | sweep (simulationRunning : Bool)
  | lookup
  | lookupFailed

/-- One step, `none` where it is not enabled. -/
def Exchange.step (s : Exchange) : ExchangeEvent → Option Exchange
  | .tick now => if s.clock ≤ now then some { s with clock := now } else none
  | .send userId sent path key =>
    if isOrderPlacement "POST" path ∧ sent.all (fun order => order.userId = userId) ∧
        ∀ call ∈ s.calls, call.key ≠ key then
      some (s.post ⟨userId, sent, path, key, s.clock, none⟩)
    else none
  | .arrive j =>
    match s.calls[j]?, s.handling j with
    | some call, .transit =>
      if s.clock < call.sentAt + MATCH_SLACK_MS then
        some { s with handling := Function.update s.handling j (.running s.clock) }
      else none
    | _, _ => none
  | .commit j order =>
    match s.calls[j]?, s.handling j with
    | some call, .running startedAt =>
      -- one order for a user and a key
      if s.clock ≤ startedAt + TARGET_CEILING_MS ∧ matchByKey s.orders call.userId call.key = []
      then some { s with
        orders := s.orders ++ [⟨call.userId, call.key, order⟩]
        handling := Function.update s.handling j .over }
      else none
    | _, _ => none
  | .finish j =>
    if j < s.calls.length then some { s with handling := Function.update s.handling j .over }
    else none
  | .settle j answer delayedMs chaos retried =>
    match s.calls[j]?, s.rowOf j with
    | some call, none =>
      if s.clock ≤ call.sentAt + TIMEOUT_MS then
        let recorded : Exchange := { s with
          store := s.store.record (call.attempt s.clock answer delayedMs chaos)
          rowOf := Function.update s.rowOf j (some s.store.nextId) }
        if answer.status = 0 ∧ call.retryOf = none ∧ retried then
          some (recorded.post { call with sentAt := s.clock, retryOf := some s.store.nextId })
        else some recorded
      else none
    | _, _ => none
  | .other attempt =>
    if attempt.idempotencyKey = none then some { s with store := s.store.record attempt } else none
  | .annotate id details => some { s with store := s.store.annotate id details.write }
  | .setLoadRunning running simulationRunning => some { s with
      backoffice := s.backoffice.setLoadRunning running simulationRunning s.clock }
  | .sweep simulationRunning =>
    match s.sweeping with
    | none =>
      let scanned := (s.backoffice.markQuiet simulationRunning s.clock).scan s.store s.clock
      some { s with
        backoffice := scanned
        sweeping := Sweep.next (scanned.due s.clock) (Backoffice.acknowledged s.store) }
    | some _ => none
  | .lookup =>
    match s.sweeping with
    | some ⟨(attempt, lost) :: rest, acknowledged⟩ => some { s with
        backoffice := s.backoffice.reconcileOne attempt
          (matchByKey s.orders lost.userId lost.idempotencyKey) acknowledged
        sweeping := Sweep.next rest acknowledged }
    | _ => none
  | .lookupFailed =>
    match s.sweeping with
    | some _ => some { s with sweeping := none }
    | none => none

/-- The machine of the exchange. -/
def exchange : Machine Exchange ExchangeEvent := ⟨Exchange.step⟩

namespace Exchange

variable {s s' : Exchange}

/-- The row of a call, recorded. -/
def recordCall (s : Exchange) (j : Nat) (call : KeyedCall) (answer : Answer) (delayedMs : Int)
    (chaos : Option ChaosMark) : Exchange :=
  { s with
    store := s.store.record (call.attempt s.clock answer delayedMs chaos)
    rowOf := Function.update s.rowOf j (some s.store.nextId) }

/-- All a step can do. -/
inductive Took (s : Exchange) : ExchangeEvent → Exchange → Prop
  | ticked {now} (hclock : s.clock ≤ now) : Took s (.tick now) { s with clock := now }
  | sent {userId sent path key} (hplaces : isOrderPlacement "POST" path)
      (hsender : ∀ order, sent = some order → order.userId = userId)
      (hfresh : ∀ call ∈ s.calls, call.key ≠ key) :
      Took s (.send userId sent path key) (s.post ⟨userId, sent, path, key, s.clock, none⟩)
  | arrived {j call} (hj : s.calls[j]? = some call) (htransit : s.handling j = .transit)
      (hsoon : s.clock < call.sentAt + MATCH_SLACK_MS) :
      Took s (.arrive j) { s with handling := Function.update s.handling j (.running s.clock) }
  | committed {j order call startedAt} (hj : s.calls[j]? = some call)
      (hrunning : s.handling j = .running startedAt)
      (hceiling : s.clock ≤ startedAt + TARGET_CEILING_MS)
      (hnothing : matchByKey s.orders call.userId call.key = []) :
      Took s (.commit j order) { s with
        orders := s.orders ++ [⟨call.userId, call.key, order⟩]
        handling := Function.update s.handling j .over }
  | finished {j} (hj : j < s.calls.length) :
      Took s (.finish j) { s with handling := Function.update s.handling j .over }
  | recorded {j answer delayedMs chaos retried call} (hj : s.calls[j]? = some call)
      (hnone : s.rowOf j = none) (htimeout : s.clock ≤ call.sentAt + TIMEOUT_MS) :
      Took s (.settle j answer delayedMs chaos retried)
        (s.recordCall j call answer delayedMs chaos)
  | retried {j answer delayedMs chaos call} (hj : s.calls[j]? = some call)
      (hnone : s.rowOf j = none) (htimeout : s.clock ≤ call.sentAt + TIMEOUT_MS)
      (hunanswered : answer.status = 0) (hfirst : call.retryOf = none) :
      Took s (.settle j answer delayedMs chaos true)
        ((s.recordCall j call answer delayedMs chaos).post
          { call with sentAt := s.clock, retryOf := some s.store.nextId })
  | other {attempt} (hkey : attempt.idempotencyKey = none) :
      Took s (.other attempt) { s with store := s.store.record attempt }
  | annotated {id details} :
      Took s (.annotate id details) { s with store := s.store.annotate id details.write }
  | configured {running simulationRunning} : Took s (.setLoadRunning running simulationRunning)
      { s with backoffice := s.backoffice.setLoadRunning running simulationRunning s.clock }
  | swept {simulationRunning scanned} (hidle : s.sweeping = none)
      (hscan : scanned = (s.backoffice.markQuiet simulationRunning s.clock).scan s.store s.clock) :
      Took s (.sweep simulationRunning) { s with
        backoffice := scanned
        sweeping := Sweep.next (scanned.due s.clock) (Backoffice.acknowledged s.store) }
  | lookedUp {attempt lost rest acknowledged}
      (hsweeping : s.sweeping = some ⟨(attempt, lost) :: rest, acknowledged⟩) :
      Took s .lookup { s with
        backoffice := s.backoffice.reconcileOne attempt
          (matchByKey s.orders lost.userId lost.idempotencyKey) acknowledged
        sweeping := Sweep.next rest acknowledged }
  | failed {sweep} (hsweeping : s.sweeping = some sweep) :
      Took s .lookupFailed { s with sweeping := none }

/-- **All a step can do.** -/
theorem took_of_step {e : ExchangeEvent} (h : exchange.step s e = some s') : Took s e s' := by
  cases e with
  | tick now =>
    simp only [exchange, Exchange.step] at h
    split at h <;> cases h
    exact .ticked ‹_›
  | send userId sent path key =>
    simp only [exchange, Exchange.step] at h
    split at h <;> cases h
    rename_i hcond
    refine .sent hcond.1 (fun order hsent => ?_) hcond.2.2
    have hsender := hcond.2.1
    rw [hsent, Option.all_some] at hsender
    exact of_decide_eq_true hsender
  | arrive j =>
    simp only [exchange, Exchange.step] at h
    split at h
    · split at h <;> cases h
      exact .arrived ‹_› ‹_› ‹_›
    · cases h
  | commit j order =>
    simp only [exchange, Exchange.step] at h
    split at h
    · split at h <;> cases h
      rename_i hcond
      exact .committed ‹_› ‹_› hcond.1 hcond.2
    · cases h
  | finish j =>
    simp only [exchange, Exchange.step] at h
    split at h <;> cases h
    exact .finished ‹_›
  | settle j answer delayedMs chaos retried =>
    simp only [exchange, Exchange.step] at h
    split at h
    · split at h
      · split at h <;> cases h
        · rename_i hcond
          obtain ⟨hunanswered, hfirst, rfl⟩ := hcond
          exact .retried ‹_› ‹_› ‹_› hunanswered hfirst
        · exact .recorded ‹_› ‹_› ‹_›
      · cases h
    · cases h
  | other attempt =>
    simp only [exchange, Exchange.step] at h
    split at h <;> cases h
    exact .other ‹_›
  | annotate id details =>
    cases h
    exact .annotated
  | setLoadRunning running simulationRunning =>
    cases h
    exact .configured
  | sweep simulationRunning =>
    simp only [exchange, Exchange.step] at h
    split at h <;> cases h
    exact .swept ‹_› rfl
  | lookup =>
    simp only [exchange, Exchange.step] at h
    split at h <;> cases h
    exact .lookedUp ‹_›
  | lookupFailed =>
    simp only [exchange, Exchange.step] at h
    split at h <;> cases h
    exact .failed ‹_›

/-! ### The calls under one key -/

/-- What the calls of a state are to each other. -/
structure Family (s : Exchange) : Prop where
  sentAt : ∀ (j : Nat) (call : KeyedCall), s.calls[j]? = some call → call.sentAt ≤ s.clock
  sender : ∀ (j : Nat) (call : KeyedCall) (order : OrderKey), s.calls[j]? = some call → call.sent = some order →
    order.userId = call.userId
  /-- The target starts on a call within a second. -/
  started : ∀ (j : Nat) (call : KeyedCall) startedAt, s.calls[j]? = some call → s.handling j = .running startedAt →
    startedAt < call.sentAt + MATCH_SLACK_MS
  known : ∀ j id, s.rowOf j = some id → j < s.calls.length ∧ id < s.store.nextId
  rowOnce : ∀ i j id, s.rowOf i = some id → s.rowOf j = some id → i = j
  /-- A retry is one of a recorded call under the same key, and is sent later. -/
  retry : ∀ (j : Nat) (call : KeyedCall) id, s.calls[j]? = some call → call.retryOf = some id →
    ∃ (i : Nat) (first : KeyedCall), s.calls[i]? = some first ∧ s.rowOf i = some id ∧
      first.retryOf = none ∧ first.userId = call.userId ∧ first.key = call.key ∧ first.sentAt ≤ call.sentAt
  /-- Under one key there is one call that is no retry, and one retry of a row. -/
  unique : ∀ (i j : Nat) (a b : KeyedCall), s.calls[i]? = some a → s.calls[j]? = some b → a.key = b.key →
    a.retryOf = b.retryOf → i = j

theorem family_initial : initial.Family where
  sentAt j call h := by simp [initial] at h
  sender j call order h := by simp [initial] at h
  started j call startedAt h := by simp [initial] at h
  known j id h := by cases h
  rowOnce i j id h := by cases h
  retry j call id h := by simp [initial] at h
  unique i j a b h := by simp [initial] at h

/-- Every call has the first one under its key, which it may be itself. -/
theorem Family.first (h : Family s) {j : Nat} {call : KeyedCall} (hj : s.calls[j]? = some call) :
    ∃ (i : Nat) (first : KeyedCall), s.calls[i]? = some first ∧ first.retryOf = none ∧
      first.key = call.key ∧ first.sentAt ≤ call.sentAt ∧ (call.retryOf = none → j = i) ∧
      ∀ id, call.retryOf = some id → s.rowOf i = some id := by
  cases hretry : call.retryOf with
  | none => exact ⟨j, call, hj, hretry, rfl, le_rfl, fun _ => rfl, fun id h => by cases h⟩
  | some id =>
    obtain ⟨i, first, hi, hrow, hnone, -, hkey, hearlier⟩ := h.retry j call id hj hretry
    refine ⟨i, first, hi, hnone, hkey, hearlier, fun h => (by cases h), fun id' h => ?_⟩
    cases h
    exact hrow

/-- A state with the same calls, at a later moment and with a longer record. -/
theorem Family.of_calls (h : Family s) (hcalls : s'.calls = s.calls) (hrow : s'.rowOf = s.rowOf)
    (hclock : s.clock ≤ s'.clock) (hnext : s.store.nextId ≤ s'.store.nextId)
    (hstarted : ∀ (j : Nat) (call : KeyedCall) startedAt, s'.calls[j]? = some call →
      s'.handling j = .running startedAt → startedAt < call.sentAt + MATCH_SLACK_MS) :
    Family s' where
  sentAt j call hj := by
    rw [hcalls] at hj
    have := h.sentAt j call hj
    omega
  sender j call order hj := by
    rw [hcalls] at hj
    exact h.sender j call order hj
  started := hstarted
  known j id hj := by
    rw [hrow] at hj
    rw [hcalls]
    have := h.known j id hj
    exact ⟨this.1, by omega⟩
  rowOnce := by
    rw [hrow]
    exact h.rowOnce
  retry := by
    rw [hcalls, hrow]
    exact h.retry
  unique := by
    rw [hcalls]
    exact h.unique

/-- **A call goes out** now, under a key of its own, or as the one retry of a recorded call. -/
theorem Family.post (h : Family s) (call : KeyedCall) (hnow : call.sentAt = s.clock)
    (hsender : ∀ order, call.sent = some order → order.userId = call.userId)
    (hretry : ∀ id, call.retryOf = some id →
      ∃ (i : Nat) (first : KeyedCall), s.calls[i]? = some first ∧ s.rowOf i = some id ∧
        first.retryOf = none ∧ first.userId = call.userId ∧ first.key = call.key)
    (hfresh : ∀ (j : Nat) (other : KeyedCall), s.calls[j]? = some other → other.key = call.key →
      other.retryOf ≠ call.retryOf) : Family (s.post call) := by
  have hold : ∀ {j : Nat} {c}, s.calls[j]? = some c → (s.post call).calls[j]? = some c :=
    fun hj => getElem?_concat_eq_some.mpr (.inl hj)
  have hcases : ∀ {j : Nat} {c}, (s.post call).calls[j]? = some c →
      s.calls[j]? = some c ∨ j = s.calls.length ∧ c = call := getElem?_concat_eq_some.mp
  constructor
  case sentAt =>
    intro j c hj
    rcases hcases hj with hj | ⟨-, rfl⟩
    · exact h.sentAt j c hj
    · exact hnow.le
  case sender =>
    intro j c order hj
    rcases hcases hj with hj | ⟨-, rfl⟩
    · exact h.sender j c order hj
    · exact hsender order
  case started =>
    intro j c startedAt hj hrunning
    change Function.update s.handling s.calls.length .transit j = _ at hrunning
    rcases hcases hj with hj | ⟨rfl, -⟩
    · rw [Function.update_of_ne (List.getElem?_eq_some_iff.mp hj).1.ne] at hrunning
      exact h.started j c startedAt hj hrunning
    · rw [Function.update_self] at hrunning
      cases hrunning
  case known =>
    intro j id hj
    obtain ⟨hlt, hid⟩ := h.known j id hj
    show j < (s.calls ++ [call]).length ∧ id < s.store.nextId
    rw [List.length_append]
    exact ⟨by omega, hid⟩
  case rowOnce => exact h.rowOnce
  case retry =>
    intro j c id hj hid
    rcases hcases hj with hj | ⟨-, rfl⟩
    · obtain ⟨i, first, hi, hrest⟩ := h.retry j c id hj hid
      exact ⟨i, first, hold hi, hrest⟩
    · obtain ⟨i, first, hi, hrow, hnone, huser, hkey⟩ := hretry id hid
      exact ⟨i, first, hold hi, hrow, hnone, huser, hkey, hnow ▸ h.sentAt i first hi⟩
  case unique =>
    intro i j a b hi hj hkey hretryOf
    rcases hcases hi with hi' | ⟨rfl, rfl⟩ <;> rcases hcases hj with hj' | ⟨rfl, rfl⟩
    · exact h.unique i j a b hi' hj' hkey hretryOf
    · exact absurd hretryOf (hfresh i a hi' hkey)
    · exact absurd hretryOf.symm (hfresh j b hj' hkey.symm)
    · rfl

/-! ### What the back-office is owed -/

/-- A row that waits to be reconciled is that of a call under its key. -/
def Owed (s : Exchange) (attempt : Attempt) (lost : LostPlacement) : Prop :=
  ∃ (j : Nat) (call : KeyedCall), s.calls[j]? = some call ∧ s.rowOf j = some attempt.id ∧
    call.sentAt = attempt.sentAt ∧ call.userId = lost.userId ∧ call.key = lost.idempotencyKey

/-- Calls stay, and so do the rows they were recorded under. -/
structure Extends (s s' : Exchange) : Prop where
  calls : ∀ (j : Nat) (call : KeyedCall), s.calls[j]? = some call → s'.calls[j]? = some call
  rowOf : ∀ j id, s.rowOf j = some id → s'.rowOf j = some id
  clock : s.clock ≤ s'.clock

theorem Owed.extend (h : Extends s s') {attempt : Attempt} {lost : LostPlacement}
    (howed : s.Owed attempt lost) : s'.Owed attempt lost := by
  obtain ⟨j, call, hj, hrow, hrest⟩ := howed
  exact ⟨j, call, h.calls j call hj, h.rowOf j _ hrow, hrest⟩

structure Inv (s : Exchange) : Prop where
  family : s.Family
  rows : ∃ rows, s.store.Holds rows ∧
    ∀ row ∈ rows, ∀ lost, lostCandidate row = some lost → s.Owed row lost
  pending : ∀ p ∈ s.backoffice.pending, s.Owed p.1 p.2
  /-- What a sweep asks about was sent sixteen seconds ago. -/
  due : ∀ sweep, s.sweeping = some sweep → ∀ p ∈ sweep.due,
    s.Owed p.1 p.2 ∧ reconcilableAt p.1 ≤ s.clock

theorem inv_initial : initial.Inv where
  family := family_initial
  rows := ⟨[], AttemptsStore.holds_empty, by simp⟩
  pending p hp := by simp [initial, Backoffice.initial] at hp
  due sweep h := by cases h

/-- What a placement can be looked up by is what it was sent with. -/
theorem lostCandidate_eq_some {attempt : Attempt} {lost : LostPlacement}
    (h : lostCandidate attempt = some lost) : ∃ order, attempt.sent = some order ∧
      attempt.idempotencyKey = some lost.idempotencyKey ∧ order.userId = lost.userId := by
  unfold lostCandidate at h
  split at h
  · split at h
    · rename_i order key hsent hkey
      cases h
      exact ⟨order, hsent, hkey, rfl⟩
    · cases h
  · cases h

/-- A state whose calls extend those of another, with the same rows and sweep. -/
theorem Inv.extend (h : Inv s) (hfamily : s'.Family) (hext : Extends s s')
    (hstore : s'.store = s.store) (hbackoffice : s'.backoffice.pending = s.backoffice.pending)
    (hsweeping : s'.sweeping = s.sweeping) : Inv s' := by
  obtain ⟨rows, hholds, hrows⟩ := h.rows
  refine ⟨hfamily, ⟨rows, hstore ▸ hholds, fun row hrow lost hlost =>
    (hrows row hrow lost hlost).extend hext⟩, fun p hp => ?_, fun sweep hsweep p hp => ?_⟩
  · rw [hbackoffice] at hp
    exact (h.pending p hp).extend hext
  · rw [hsweeping] at hsweep
    obtain ⟨howed, hclock⟩ := h.due sweep hsweep p hp
    exact ⟨howed.extend hext, hclock.trans hext.clock⟩

/-- The calls of a state, seen from another with the same ones. -/
theorem extends_of_eq (hcalls : s'.calls = s.calls) (hrow : s'.rowOf = s.rowOf)
    (hclock : s.clock ≤ s'.clock) : Extends s s' where
  calls _ _ hj := hcalls ▸ hj
  rowOf _ _ hj := hrow ▸ hj
  clock := hclock

theorem extends_post (call : KeyedCall) : Extends s (s.post call) where
  calls _ _ hj := getElem?_concat_eq_some.mpr (.inl hj)
  rowOf _ _ hj := hj
  clock := le_rfl

/-- The target moves on with a call it may move on with. -/
theorem Inv.handle (h : Inv s) (j : Nat) (handling : Handling) (orders : List KeyedOrder)
    (hstarted : ∀ call startedAt, s.calls[j]? = some call → handling = .running startedAt →
      startedAt < call.sentAt + MATCH_SLACK_MS) :
    Inv { s with orders := orders, handling := Function.update s.handling j handling } := by
  refine h.extend (h.family.of_calls rfl rfl le_rfl le_rfl fun i call startedAt hi hrunning => ?_)
    (extends_of_eq rfl rfl le_rfl) rfl rfl rfl
  change Function.update s.handling j handling i = .running startedAt at hrunning
  rw [Function.update_apply] at hrunning
  split at hrunning
  · rename_i heq
    exact hstarted call startedAt (heq ▸ hi) hrunning
  · exact h.family.started i call startedAt hi hrunning

/-- A row is recorded for a call that had none. -/
theorem Inv.recordCall (h : Inv s) {j : Nat} {call : KeyedCall} (hj : s.calls[j]? = some call)
    (hnone : s.rowOf j = none) (answer : Answer) (delayedMs : Int) (chaos : Option ChaosMark) :
    Inv (s.recordCall j call answer delayedMs chaos) := by
  obtain ⟨rows, hholds, hrows⟩ := h.rows
  have hcases : ∀ {i id}, Function.update s.rowOf j (some s.store.nextId) i = some id →
      i = j ∧ id = s.store.nextId ∨ s.rowOf i = some id := by
    intro i id hi
    rw [Function.update_apply] at hi
    split at hi
    · cases hi
      exact .inl ⟨‹_›, rfl⟩
    · exact .inr hi
  have hkeep : ∀ {i id}, s.rowOf i = some id →
      Function.update s.rowOf j (some s.store.nextId) i = some id := by
    intro i id hi
    rw [Function.update_of_ne, hi]
    rintro rfl
    exact absurd (hnone.symm.trans hi) (by simp)
  have hext : Extends s (s.recordCall j call answer delayedMs chaos) :=
    ⟨fun _ _ h => h, fun _ _ => hkeep, le_rfl⟩
  have hfamily := h.family
  refine ⟨?_, ⟨_, hholds.record _, fun row hrow lost hlost => ?_⟩,
    fun p hp => (h.pending p hp).extend hext,
    fun sweep hsweep p hp => ⟨(h.due sweep hsweep p hp).1.extend hext, (h.due sweep hsweep p hp).2⟩⟩
  · refine ⟨hfamily.sentAt, hfamily.sender, hfamily.started, fun i id hi => ?_,
      fun i k id hi hk => ?_, fun i c id hi hid => ?_, hfamily.unique⟩
    · show i < s.calls.length ∧ id < s.store.nextId + 1
      rcases hcases hi with ⟨rfl, rfl⟩ | hold
      · exact ⟨(List.getElem?_eq_some_iff.mp hj).1, Nat.lt_succ_self _⟩
      · exact ⟨(hfamily.known i id hold).1, Nat.lt_succ_of_lt (hfamily.known i id hold).2⟩
    · rcases hcases hi with ⟨rfl, rfl⟩ | hi' <;> rcases hcases hk with ⟨rfl, heq⟩ | hk'
      · rfl
      · exact absurd (hfamily.known k _ hk').2 (lt_irrefl _)
      · exact absurd (heq ▸ (hfamily.known i _ hi').2) (lt_irrefl _)
      · exact hfamily.rowOnce i k id hi' hk'
    · obtain ⟨k, first, hk, hrow, hrest⟩ := hfamily.retry i c id hi hid
      exact ⟨k, first, hk, hkeep hrow, hrest⟩
  · rcases List.mem_append.mp hrow with hrow | hrow
    · exact (hrows row hrow lost hlost).extend hext
    · rw [List.mem_singleton] at hrow
      subst hrow
      obtain ⟨order, hsent, hkey, huser⟩ := lostCandidate_eq_some hlost
      refine ⟨j, call, hj, Function.update_self .., rfl, ?_, Option.some.inj hkey⟩
      rw [← huser]
      exact (hfamily.sender j call order hj hsent).symm

/-- A state with the same calls and orders in the target's hands. -/
theorem Family.same (h : Family s) (hcalls : s'.calls = s.calls) (hrow : s'.rowOf = s.rowOf)
    (hhandling : s'.handling = s.handling) (hclock : s.clock ≤ s'.clock)
    (hnext : s.store.nextId ≤ s'.store.nextId) : Family s' := by
  refine h.of_calls hcalls hrow hclock hnext fun j call startedAt hj hrunning => ?_
  exact h.started j call startedAt (hcalls ▸ hj) (hhandling ▸ hrunning)

/-- A row without a key is none to look up an order by. -/
theorem lostCandidate_of_no_key {attempt : Attempt} (h : attempt.idempotencyKey = none)
    (lost : LostPlacement) : lostCandidate attempt ≠ some lost := by
  intro hlost
  obtain ⟨-, -, hsome, -⟩ := lostCandidate_eq_some hlost
  exact absurd (h.symm.trans hsome) (by simp)

/-- **Every step keeps what the back-office is owed.** -/
theorem Inv.step (h : Inv s) {e : ExchangeEvent} (hstep : exchange.step s e = some s') :
    Inv s' := by
  have hfamily := h.family
  obtain ⟨rows, hholds, hrows⟩ := h.rows
  cases took_of_step hstep with
  | ticked hclock =>
    exact h.extend (hfamily.same rfl rfl rfl hclock le_rfl) (extends_of_eq rfl rfl hclock)
      rfl rfl rfl
  | sent _ hsender hfresh =>
    refine h.extend (hfamily.post _ rfl hsender (fun id hid => by cases hid) ?_) (extends_post _)
      rfl rfl rfl
    exact fun j other hj hkey => absurd hkey (hfresh other (List.mem_of_getElem? hj))
  | arrived hj _ hsoon =>
    refine h.handle _ (.running s.clock) s.orders fun call' startedAt hj' hrunning => ?_
    cases hrunning
    cases hj.symm.trans hj'
    exact hsoon
  | committed => exact h.handle _ .over _ fun _ _ _ hrunning => by cases hrunning
  | finished => exact h.handle _ .over s.orders fun _ _ _ hrunning => by cases hrunning
  | recorded hj hnone => exact h.recordCall hj hnone ..
  | @retried j answer delayedMs chaos call hj hnone _ _ hfirst =>
    have hrecorded := h.recordCall hj hnone answer delayedMs chaos
    refine hrecorded.extend (hrecorded.family.post _ rfl ?_ ?_ ?_) (extends_post _) rfl rfl rfl
    · exact fun order hsent => hfamily.sender j call order hj hsent
    · intro id hid
      cases hid
      exact ⟨j, call, hj, Function.update_self .., hfirst, rfl, rfl⟩
    -- no call is the retry of a row that was recorded only now
    · intro i other hi _ hretryOf
      obtain ⟨k, -, -, hk, -⟩ := hfamily.retry i other _ hi hretryOf
      exact absurd (hfamily.known k _ hk).2 (lt_irrefl _)
  | @other attempt hkey =>
    refine ⟨hfamily.same rfl rfl rfl le_rfl (Nat.le_succ _),
      ⟨_, hholds.record attempt, forall_mem_concat hrows fun lost hlost => ?_⟩, h.pending, h.due⟩
    exact absurd hlost (lostCandidate_of_no_key hkey lost)
  | @annotated id details =>
    obtain ⟨rows', hholds', hrows'⟩ := hholds.annotate_forall id details.write
      (fun _ => rfl) (P := fun row => ∀ lost, lostCandidate row = some lost → s.Owed row lost)
      hrows (fun row hrow => hrow)
    exact ⟨hfamily.same rfl rfl rfl le_rfl le_rfl, ⟨rows', hholds', hrows'⟩, h.pending, h.due⟩
  | configured => exact ⟨hfamily.same rfl rfl rfl le_rfl le_rfl, h.rows, h.pending, h.due⟩
  | @swept simulationRunning scanned _ hscan =>
    have hpending : ∀ p ∈ scanned.pending, s.Owed p.1 p.2 := by
      intro p hp
      rw [hscan] at hp
      rcases Backoffice.mem_pending_scan hp with hold | ⟨hshown, hlost⟩
      · exact h.pending p hold
      · exact hrows p.1 (hholds.mem_of_recent hshown) p.2 hlost
    refine ⟨hfamily.same rfl rfl rfl le_rfl le_rfl, h.rows, hpending, fun sweep hsweep p hp => ?_⟩
    obtain ⟨hmem, hclock⟩ := Backoffice.mem_due.mp (Sweep.due_of_next hsweep ▸ hp)
    exact ⟨hpending p hmem, hclock⟩
  | lookedUp hsweeping =>
    refine ⟨hfamily.same rfl rfl rfl le_rfl le_rfl, h.rows,
      fun p hp => h.pending p (List.mem_of_mem_filter hp), fun sweep hsweep p hp => ?_⟩
    rw [Sweep.due_of_next hsweep] at hp
    exact h.due _ hsweeping p (List.mem_cons_of_mem _ hp)
  | failed =>
    exact ⟨hfamily.same rfl rfl rfl le_rfl le_rfl, h.rows, h.pending,
      fun sweep hsweep => by cases hsweep⟩

/-! ### Nothing more for a key -/

/-- The target is past storing anything for a call that is sixteen seconds old. -/
theorem not_mayCommit_of_late (h : Family s) {j : Nat} {call : KeyedCall}
    (hj : s.calls[j]? = some call) (hlate : call.sentAt + LATE_COMMIT_MS ≤ s.clock) :
    ¬s.MayCommit j call := by
  intro hmay
  unfold MayCommit at hmay
  simp only [LATE_COMMIT_MS, TARGET_CEILING_MS, MATCH_SLACK_MS] at hlate hmay
  split at hmay
  · omega
  · rename_i startedAt hrunning
    have hstarted := h.started j call startedAt hj hrunning
    simp only [MATCH_SLACK_MS] at hstarted
    -- it was started on within a second
    omega
  · exact hmay

/-- Nothing is stored under a key, and nothing will be: its call has its row, so no retry of it is
    still to be sent, and the target is past storing anything for those that were. -/
structure Closed (s : Exchange) (userId : Int) (key : String) : Prop where
  nothing : matchByKey s.orders userId key = []
  recorded : ∃ (j : Nat) (first : KeyedCall) (id : Nat), s.calls[j]? = some first ∧
    first.key = key ∧ first.retryOf = none ∧ s.rowOf j = some id
  dead : ∀ (j : Nat) (call : KeyedCall), s.calls[j]? = some call → call.key = key →
    ¬s.MayCommit j call

variable {userId : Int} {key : String}

/-- The target moves on with a call of another key, or is done with one. -/
theorem Closed.handle (h : Closed s userId key) (j : Nat) (handling : Handling)
    (orders : List KeyedOrder) (horders : matchByKey orders userId key = [])
    (hother : handling = .over ∨ ∀ call, s.calls[j]? = some call → call.key ≠ key) :
    Closed { s with orders := orders, handling := Function.update s.handling j handling }
      userId key := by
  refine ⟨horders, h.recorded, fun i call hi hkey hmay => ?_⟩
  by_cases hij : i = j
  · subst hij
    rcases hother with rfl | hother
    · simp [MayCommit] at hmay
    · exact hother call hi hkey
  · apply h.dead i call hi hkey
    simpa only [MayCommit, Function.update_of_ne hij] using hmay

/-- A call goes out under another key. -/
theorem Closed.post (h : Closed s userId key) (call : KeyedCall) (hother : call.key ≠ key) :
    Closed (s.post call) userId key := by
  obtain ⟨j, first, id, hj, hrest⟩ := h.recorded
  refine ⟨h.nothing, ⟨j, first, id, getElem?_concat_eq_some.mpr (.inl hj), hrest⟩,
    fun i c hi hkey hmay => ?_⟩
  rcases getElem?_concat_eq_some.mp hi with hi | ⟨-, rfl⟩
  · apply h.dead i c hi hkey
    have hne : i ≠ s.calls.length := (List.getElem?_eq_some_iff.mp hi).1.ne
    simpa only [MayCommit, Exchange.post, Function.update_of_ne hne] using hmay
  · exact hother hkey

/-- A call that has not been recorded is not the one of a closed key, nor a retry that is sent
    again. -/
theorem Closed.key_ne (h : Closed s userId key) (hfamily : Family s) {j : Nat} {call : KeyedCall}
    (hj : s.calls[j]? = some call) (hnone : s.rowOf j = none) (hfirst : call.retryOf = none) :
    call.key ≠ key := by
  intro hkey
  obtain ⟨i, first, id, hi, hfirstKey, hfirstRetry, hrow⟩ := h.recorded
  have hij := hfamily.unique i j first call hi hj (hfirstKey.trans hkey.symm)
    (hfirstRetry.trans hfirst.symm)
  subst hij
  exact absurd (hnone.symm.trans hrow) (by simp)

/-- A row is recorded for a call that had none. -/
theorem Closed.recordCall (h : Closed s userId key) {j : Nat} (hnone : s.rowOf j = none)
    (call : KeyedCall) (answer : Answer) (delayedMs : Int) (chaos : Option ChaosMark) :
    Closed (s.recordCall j call answer delayedMs chaos) userId key := by
  obtain ⟨i, first, id, hi, hkey, hretry, hrow⟩ := h.recorded
  refine ⟨h.nothing, ⟨i, first, id, hi, hkey, hretry, ?_⟩, h.dead⟩
  show Function.update s.rowOf j _ i = _
  rw [Function.update_of_ne, hrow]
  rintro rfl
  exact absurd (hnone.symm.trans hrow) (by simp)

/-- **A closed key stays closed.** -/
theorem Closed.step (h : Closed s userId key) (hfamily : Family s) {e : ExchangeEvent}
    (hstep : exchange.step s e = some s') : Closed s' userId key := by
  have hmay : ∀ {j call}, s.calls[j]? = some call → s.MayCommit j call → call.key ≠ key :=
    fun hj hmay hkey => h.dead _ _ hj hkey hmay
  cases took_of_step hstep with
  | ticked hclock =>
    refine ⟨h.nothing, h.recorded, fun j call hj hkey hlater => h.dead j call hj hkey ?_⟩
    -- what the target can do later it can do now
    unfold MayCommit at hlater ⊢
    dsimp only at hlater
    split at hlater
    · exact lt_of_le_of_lt hclock hlater
    · exact hclock.trans hlater
    · exact hlater
  | sent _ _ hfresh =>
    obtain ⟨j, first, id, hj, hkey, -⟩ := h.recorded
    exact h.post _ fun heq => hfresh first (List.mem_of_getElem? hj) (hkey.trans heq.symm)
  | arrived hj htransit hsoon =>
    refine h.handle _ _ s.orders h.nothing (.inr fun call' hj' => hmay hj' ?_)
    cases hj.symm.trans hj'
    simpa only [MayCommit, htransit] using hsoon
  | committed hj hrunning hceiling =>
    have hkey := hmay hj (by simpa only [MayCommit, hrunning] using hceiling)
    refine h.handle _ .over _ (matchByKey_eq_nil.mpr ?_) (.inl rfl)
    exact forall_mem_concat (matchByKey_eq_nil.mp h.nothing) fun hboth => hkey hboth.2
  | finished => exact h.handle _ .over s.orders h.nothing (.inl rfl)
  | recorded _ hnone => exact h.recordCall hnone ..
  | retried hj hnone _ _ hfirst =>
    have hother := h.key_ne hfamily hj hnone hfirst
    exact (h.recordCall hnone ..).post _ hother
  | other | annotated | configured | swept | lookedUp | failed =>
    exact ⟨h.nothing, h.recorded, h.dead⟩

/-- **What can still be stored under a key when its placement is asked about** is the retry of
    that placement and nothing else. -/
theorem Inv.closed_of_due (h : Inv s) {attempt : Attempt} {lost : LostPlacement}
    (howed : s.Owed attempt lost) (hclock : reconcilableAt attempt ≤ s.clock)
    (hnothing : matchByKey s.orders lost.userId lost.idempotencyKey = [])
    (hretry : ∀ (j : Nat) (call : KeyedCall), s.calls[j]? = some call →
      call.retryOf = some attempt.id → ¬s.MayCommit j call) :
    s.Closed lost.userId lost.idempotencyKey := by
  obtain ⟨j₀, c₀, hj₀, hrow₀, hsent₀, -, hkey₀⟩ := howed
  have hlate : c₀.sentAt + LATE_COMMIT_MS ≤ s.clock := hsent₀ ▸ hclock
  have hfamily := h.family
  obtain ⟨i, first, hi, hnone, hfirstKey, hearlier, hself, hrowOf⟩ := hfamily.first hj₀
  refine ⟨hnothing, ?_, fun j call hj hkey => ?_⟩
  · cases hc₀ : c₀.retryOf with
    | none => exact ⟨j₀, c₀, _, hj₀, hkey₀, hc₀, hrow₀⟩
    | some id => exact ⟨i, first, id, hi, hfirstKey.trans hkey₀, hnone, hrowOf id hc₀⟩
  -- the two calls are of one family, and have their first call in common
  have hkeys : call.key = c₀.key := hkey.trans hkey₀.symm
  obtain ⟨i', first', hi', hnone', hfirstKey', -, hself', hrowOf'⟩ := hfamily.first hj
  have hsame := hfamily.unique i' i first' first hi' hi
    (hfirstKey'.trans (hkeys.trans hfirstKey.symm)) (hnone'.trans hnone.symm)
  subst hsame
  cases hcall : call.retryOf with
  | none =>
    have hj' := hself' hcall
    subst hj'
    rw [hj] at hi
    cases hi
    exact not_mayCommit_of_late hfamily hj (by omega)
  | some id =>
    have hrow := hrowOf' id hcall
    cases hc₀ : c₀.retryOf with
    | none =>
      have hj₀' := hself hc₀
      subst hj₀'
      rw [hrow] at hrow₀
      cases hrow₀
      exact hretry j call hj hcall
    | some id₀ =>
      have hids := hrow.symm.trans (hrowOf id₀ hc₀)
      have hplace := hfamily.unique j j₀ call c₀ hj hj₀ hkeys ((hcall.trans hids).trans hc₀.symm)
      subst hplace
      rw [hj] at hj₀
      cases hj₀
      exact not_mayCommit_of_late hfamily hj hlate

/-- A call the target can still store an order for is one it stores an order for, in some run. -/
theorem exists_commit (j : Nat) (call : KeyedCall) (hj : s.calls[j]? = some call)
    (hmay : s.MayCommit j call) (hnothing : matchByKey s.orders call.userId call.key = [])
    (order : DbOrder) :
    ∃ fs s'', exchange.run s fs = some s'' ∧ matchByKey s''.orders call.userId call.key ≠ [] := by
  have hstored : ∀ t : Exchange, matchByKey (t.orders ++ [⟨call.userId, call.key, order⟩])
      call.userId call.key ≠ [] := by
    intro t hnil
    exact matchByKey_eq_nil.mp hnil _ (List.mem_append_right _ List.mem_cons_self) ⟨rfl, rfl⟩
  -- from a call that is running it is one step
  have hcommit : ∀ t : Exchange, ∀ startedAt, t.calls[j]? = some call →
      t.handling j = .running startedAt → t.clock ≤ startedAt + TARGET_CEILING_MS →
      t.orders = s.orders → ∃ t', exchange.step t (.commit j order) = some t' ∧
        matchByKey t'.orders call.userId call.key ≠ [] := by
    intro t startedAt htj hrunning hceiling horders
    refine ⟨{ t with
      orders := t.orders ++ [⟨call.userId, call.key, order⟩]
      handling := Function.update t.handling j .over }, ?_, hstored t⟩
    simp only [exchange, Exchange.step, htj, hrunning]
    rw [if_pos ⟨hceiling, horders ▸ hnothing⟩]
  unfold MayCommit at hmay
  split at hmay
  · rename_i htransit
    obtain ⟨t', ht', hfound⟩ := hcommit
      { s with handling := Function.update s.handling j (.running s.clock) } s.clock hj
      (Function.update_self ..) (by simp [TARGET_CEILING_MS]) rfl
    have harrive : exchange.step s (.arrive j) =
        some { s with handling := Function.update s.handling j (.running s.clock) } := by
      simp only [exchange, Exchange.step, hj, htransit]
      exact if_pos hmay
    refine ⟨[.arrive j, .commit j order], t', ?_, hfound⟩
    rw [exchange.run_cons, harrive]
    show exchange.run _ [_] = some t'
    rw [exchange.run_cons, ht']
    rfl
  · rename_i startedAt hrunning
    obtain ⟨t', ht', hfound⟩ := hcommit s startedAt hj hrunning hmay rfl
    refine ⟨[.commit j order], t', ?_, hfound⟩
    rw [exchange.run_cons, ht']
    rfl
  · exact absurd hmay id

end Exchange

/-- **The verdict that a placement was never processed is final exactly if its retry is past
    being stored.**  A sweep asks the database for the key of a placement and finds nothing; it
    reports that, as critical.  Then no order is ever stored under the key exactly if the target
    can store none for the retry of that attempt when it is asked. -/
theorem lost_order_final_iff {es : List ExchangeEvent} {s s' : Exchange} {attempt : Attempt}
    {lost : LostPlacement} {rest : List (Attempt × LostPlacement)} {acknowledged : List Int}
    (hrun : exchange.run .initial es = some s)
    (hdue : s.sweeping = some ⟨(attempt, lost) :: rest, acknowledged⟩)
    (hnothing : matchByKey s.orders lost.userId lost.idempotencyKey = [])
    (hstep : exchange.step s .lookup = some s') :
    s'.backoffice.anomalies = s.backoffice.anomalies ++ [(attempt.id, lostOrder attempt [])] ∧
      (lostOrder attempt []).severity = .critical ∧
      ((∀ fs s'', exchange.run s' fs = some s'' →
          matchByKey s''.orders lost.userId lost.idempotencyKey = []) ↔
        ∀ (j : Nat) (call : KeyedCall), s.calls[j]? = some call →
          call.retryOf = some attempt.id → ¬s.MayCommit j call) := by
  have hinv : s.Inv :=
    exchange.invariant_run (fun h hstep => h.step hstep) Exchange.inv_initial hrun
  obtain ⟨howed, hclock⟩ := hinv.due _ hdue _ List.mem_cons_self
  have hs' : s' = { s with
      backoffice := s.backoffice.reconcileOne attempt [] acknowledged
      sweeping := Sweep.next rest acknowledged } := by
    simp only [exchange, Exchange.step, hdue, hnothing, Option.some.injEq] at hstep
    exact hstep.symm
  subst hs'
  refine ⟨Backoffice.anomalies_reconcileOne_nil .., lostOrder_critical_iff.mpr rfl, ?_, ?_⟩
  · intro hfinal j call hj hretryOf hmay
    -- the retry is of the call that is asked about, under its key
    obtain ⟨i, first, hi, hrow, -, huser, hkey, -⟩ := hinv.family.retry j call _ hj hretryOf
    obtain ⟨j₀, c₀, hj₀, hrow₀, -, huser₀, hkey₀⟩ := howed
    have hsame := hinv.family.rowOnce i j₀ _ hrow hrow₀
    subst hsame
    rw [hi] at hj₀
    cases hj₀
    rw [← huser₀, ← hkey₀, huser, hkey] at hfinal hnothing
    obtain ⟨fs, s'', hfs, hfound⟩ := Exchange.exists_commit
      (s := { s with
        backoffice := s.backoffice.reconcileOne attempt [] acknowledged
        sweeping := Sweep.next rest acknowledged }) j call hj hmay hnothing ⟨0, "", 0⟩
    exact hfound (hfinal fs s'' hfs)
  · intro hretry fs s'' hfs
    have hclosed := hinv.closed_of_due howed hclock hnothing hretry
    have hlookup : Exchange.Inv { s with
        backoffice := s.backoffice.reconcileOne attempt [] acknowledged
        sweeping := Sweep.next rest acknowledged } := hinv.step hstep
    have hends := exchange.invariant_run
      (I := fun t => t.Inv ∧ t.Closed lost.userId lost.idempotencyKey)
      (fun h hstep => ⟨h.1.step hstep, h.2.step h.1.family hstep⟩)
      ⟨hlookup, hclosed.nothing, hclosed.recorded, hclosed.dead⟩ hfs
    exact hends.2.nothing

/-! ### A retry that is slow -/

/-- What one order looked like. -/
def lostOrderKey : OrderKey := ⟨1, 47, "BUY", 10, "MARKET"⟩

/-- No answer within ten seconds. -/
def noAnswer : Answer := ⟨0, false, none, none⟩

/-- A placement never reaches the target, and it is not retried; the back-office asks for it. -/
def lostOnce : List ExchangeEvent :=
  [.send 1 (some lostOrderKey) "/orders" "k", .tick 10000, .settle 0 noAnswer 0 none false,
    .tick 16000, .sweep false]

/-- The verdict on it is final. -/
theorem lost_order_final_lostOnce : ∃ s s', exchange.run .initial lostOnce = some s ∧
    exchange.step s .lookup = some s' ∧
    (∀ fs s'', exchange.run s' fs = some s'' → matchByKey s''.orders 1 "k" = []) := by
  have h := @lost_order_final_iff lostOnce _ _ _ ⟨1, "k"⟩ _ _ rfl rfl rfl rfl
  refine ⟨_, _, rfl, rfl, h.2.2.mpr fun j call hj hretry => ?_⟩
  -- the only call is no retry
  cases j with
  | zero =>
    cases hj
    cases hretry
  | succ j => cases hj

/-- The placement never reaches the target and is sent again; the target stores an order for
    the retry after the back-office has asked. -/
def lostAndRetried : List ExchangeEvent :=
  [.send 1 (some lostOrderKey) "/orders" "k", .tick 10000, .settle 0 noAnswer 0 none true,
    .arrive 1, .tick 16000, .sweep false, .lookup, .tick 17000, .commit 1 ⟨1, "FILLED", 17000⟩]

/-- **An order that was never processed, processed.** -/
theorem lost_order_stored : ∃ s s', exchange.run .initial (lostAndRetried.take 7) = some s ∧
    exchange.run .initial lostAndRetried = some s' ∧
    (∃ f ∈ s.backoffice.anomalies, f.1 = 1 ∧ f.2.rule = "lost_order" ∧ f.2.severity = .critical) ∧
    matchByKey s.orders 1 "k" = [] ∧ matchByKey s'.orders 1 "k" = [⟨1, "FILLED", 17000⟩] := by
  refine ⟨_, _, rfl, rfl, ⟨_, List.mem_cons_of_mem _ List.mem_cons_self, rfl, rfl, rfl⟩, rfl, rfl⟩

end Cocos.Tools
