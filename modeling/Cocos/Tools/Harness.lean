import Cocos.Lib.Machine
import Cocos.Tools.LoadRun

namespace Cocos.Tools

open Cocos.Lib

/-!
# The harness during a load run

The clients of the gateway place orders, the load run among them; the target stores them, and the
recorder has a row for every call.

* `Harness` — the target's orders, the calls, the recorder and the run;
* `HarnessEvent`, `harness` — its steps, in any order;
* `Took`, `took_of_step` — **all a step can do**.

The target is a correct one: it stores one order at most under a key, within its late-commit
ceiling, answers with the order it stored, and changes it only by a cancel that the run asked for.
-/

/-! ### The harness and its target -/

structure Harness where
  clock : Int
  /-- The committed orders of the target. -/
  orders : Orders
  calls : List PlacingCall
  cancels : List CancelCall
  store : AttemptsStore
  run : Option LoadRun

namespace Harness

/-- The harness starts against a table. -/
def start (orders : Orders) : Harness := ⟨0, orders, [], [], .empty, none⟩

/-- A placement is taken on, under a key that was never used. -/
def take (s : Harness) (client : Client) (userId : Int) (sent : Option OrderKey)
    (path key : String) : Option Harness :=
  if isOrderPlacement "POST" path ∧ ∀ c ∈ s.calls, c.first.call.key ≠ key then
    some { s with calls := s.calls ++ [.fresh client ⟨userId, sent, path, key, s.clock, none⟩] }
  else none

theorem take_eq_some {s s' : Harness} {client : Client} {userId : Int} {sent : Option OrderKey}
    {path key : String} (h : s.take client userId sent path key = some s') :
    isOrderPlacement "POST" path ∧ (∀ c ∈ s.calls, c.first.call.key ≠ key) ∧
      s' = { s with
        calls := s.calls ++ [.fresh client ⟨userId, sent, path, key, s.clock, none⟩] } := by
  unfold take at h
  split at h <;> cases h
  rename_i hcond
  exact ⟨hcond.1, hcond.2, rfl⟩

def setCall (s : Harness) (j : Nat) (c : PlacingCall) : Harness :=
  { s with calls := s.calls.set j c }

def setCancel (s : Harness) (k : Nat) (c : CancelCall) : Harness :=
  { s with cancels := s.cancels.set k c }

/-- The target may still store an order for a request. -/
def MayStore (s : Harness) (p : Posted) : Prop :=
  p.refused = false ∧ s.clock ≤ p.call.sentAt + LATE_COMMIT_MS

instance (s : Harness) (p : Posted) : Decidable (s.MayStore p) :=
  inferInstanceAs (Decidable (_ ∧ _))

/-- The run waits for none of its calls. -/
def Quiet (s : Harness) : Prop :=
  (∀ c ∈ s.calls, c.client = .load → ∃ placed, c.stage = .over placed) ∧
    ∀ c ∈ s.cancels, ∃ status, c.stage = .over status

instance (s : Harness) : Decidable s.Quiet :=
  have (c : PlacingCall) : Decidable (∃ placed, c.stage = .over placed) :=
    match c.stage with
    | .over placed => isTrue ⟨placed, rfl⟩
    | .held | .sent | .retrying | .returned _ => isFalse (by simp)
  have (c : CancelCall) : Decidable (∃ status, c.stage = .over status) :=
    match c.stage with
    | .over status => isTrue ⟨status, rfl⟩
    | .held | .sent => isFalse (by simp)
  inferInstanceAs (Decidable (_ ∧ _))

end Harness

inductive HarnessEvent
  /-- Time passes. -/
  | tick (now : Int)
  /-- Another client places an order. -/
  | place (client : Client) (userId : Int) (sent : Option OrderKey) (path key : String)
  /-- A run is started, reads the mark, and fires its next step. -/
  | start (waves : List Wave)
  | mark
  | fire (key : String)
  /-- A placement goes out, and the target stores an order for it, or for the retry of it. -/
  | post (j : Nat)
  | commit (j : Nat) (again : Bool) (row : OrderRow)
  /-- The gateway has an answer to the first request, or gives up; chaos may hide the answer, and
      send the order again. -/
  | answer (j : Nat) (reply : Reply) (delayedMs : Int) (dropped retried : Bool)
  | retryAnswer (j : Nat) (reply : Reply)
  /-- The client takes what the gateway returned. -/
  | settle (j : Nat) (expected : Expectation)
  /-- A cancel goes out, is performed or refused, and is answered or not. -/
  | postCancel (k : Nat)
  | performCancel (k : Nat) (shed : Bool)
  | answerCancel (k : Nat) (reply : Reply) (delayedMs : Int)
  /-- A wave has settled; the rows are read. -/
  | fold
  | rows
  /-- The recorder is given a row of another kind; an order of other users is stored. -/
  | other (attempt : Attempt)
  | foreign (row : OrderRow)

namespace Harness

/-- The first request is recorded and what was answered returned, unless it is sent again. -/
def recordFirst (s : Harness) (j : Nat) (c : PlacingCall) (refused : Bool) (answer : Answer)
    (placed : Option PlacedResponse) (delayedMs : Int) (chaos : Option ChaosMark)
    (retried : Bool) : Harness :=
  let id := s.store.nextId
  let first := { c.first with refused := refused, attemptId := some id }
  let recorded := { s with
    store := s.store.record (c.first.call.attempt s.clock answer delayedMs chaos) }
  if answer.status = 0 ∧ retried then
    recorded.setCall j { c with
      first := first
      retry := some (.fresh { c.first.call with sentAt := s.clock, retryOf := some id })
      stage := .retrying }
  else recorded.setCall j { c with first := first, stage := .returned placed }

theorem recordFirst_spec (s : Harness) (j : Nat) (c : PlacingCall) (refused : Bool)
    (answer : Answer) (placed : Option PlacedResponse) (delayedMs : Int)
    (chaos : Option ChaosMark) (retried : Bool) : ∃ retry stage,
      s.recordFirst j c refused answer placed delayedMs chaos retried =
        { s with store := s.store.record (c.first.call.attempt s.clock answer delayedMs chaos)
          }.setCall j ⟨c.client, { c.first with refused := refused, attemptId := some s.store.nextId },
            retry, stage⟩ ∧
        (retry = c.retry ∧ stage = .returned placed ∨
          answer.status = 0 ∧ stage = .retrying ∧ retry = some (.fresh
            { c.first.call with sentAt := s.clock, retryOf := some s.store.nextId })) := by
  unfold recordFirst
  split
  · rename_i hlost
    exact ⟨_, _, rfl, .inr ⟨hlost.1, rfl, rfl⟩⟩
  · exact ⟨_, _, rfl, .inl ⟨rfl, rfl⟩⟩

/-- What chaos has done to a call; nothing, where it has not touched it. -/
def chaosMark (delayedMs : Int) (droppedStatus retriedBy : Option Nat) : Option ChaosMark :=
  if delayedMs ≤ 0 ∧ droppedStatus = none ∧ retriedBy = none then none
  else some ⟨if delayedMs > 0 then some delayedMs else none, droppedStatus, none, retriedBy⟩

/-- The retry is recorded, the row of the first request names it, and its caller is told of the
    loss. -/
def recordRetry (s : Harness) (j : Nat) (c : PlacingCall) (retry : Posted) (lost : Nat)
    (answer : Answer) (refused : Bool) : Harness :=
  let id := s.store.nextId
  let retried : Attempt → Option ChaosMark := fun row =>
    some { row.chaos.getD ⟨none, none, none, none⟩ with retriedBy := some id }
  let store := s.store.record
    (retry.call.attempt s.clock answer 0 (some ⟨none, none, some lost, none⟩))
  { s with store := store.annotate lost fun row => { row with chaos := retried row } }.setCall j
    { c with
      retry := some { retry with refused := refused, attemptId := some id }
      stage := .returned none }

/-- `SimulationService.place`, after the answer: the recorder is told what came of the order.
    The proxy tells it nothing. -/
def annotateOf (c : PlacingCall) (expected : Expectation) (placed : Option PlacedResponse) :
    Option Details :=
  match c.client with
  | .proxy => none
  | .load | .simulation => some {
      expected := some expected
      actual := placed.bind fun placed => ORDER_STATUSES.find? fun s => s.text = placed.status
      orderId := placed.map (·.orderId)
      chaos := none }

/-- The client is through with a placement, and a load run counts it. -/
def settle (s : Harness) (j : Nat) (c : PlacingCall) (id : Nat) (placed : Option PlacedResponse)
    (expected : Expectation) : Harness :=
  let store :=
    match annotateOf c expected placed with
    | some details => s.store.annotate id details.write
    | none => s.store
  let run := if c.client = .load then
      s.run.map fun run => { run with tally := run.tally.place id placed }
    else s.run
  { s.setCall j { c with stage := .over placed } with store := store, run := run }

/-- All that has become of a run is what it keeps of its answers. -/
def Counted (run run' : Option LoadRun) : Prop :=
  ∃ f : Tally → Tally, run' = run.map fun run => { run with tally := f run.tally }

theorem Counted.refl (run : Option LoadRun) : Counted run run := ⟨fun tally => tally, by simp⟩

/-- A run counts its own placements, and no other's. -/
theorem counted_settle (s : Harness) (j : Nat) (c : PlacingCall) (id : Nat)
    (placed : Option PlacedResponse) (expected : Expectation) :
    Counted s.run (s.settle j c id placed expected).run := by
  show Counted s.run (if c.client = .load then _ else s.run)
  split
  · exact ⟨(Tally.place · id placed), rfl⟩
  · exact .refl _

/-- One step, `none` where it is not enabled.  `users` are those of the run. -/
def step (users : List Int) (s : Harness) : HarnessEvent → Option Harness
  | .tick now => if s.clock ≤ now then some { s with clock := now } else none
  | .place client userId sent path key =>
    if client ≠ .load ∧ sent.all (fun order => order.userId = userId) then
      s.take client userId sent path key
    else none
  | .start waves =>
    if s.run = none ∧ ∀ wave ∈ waves, ∀ step ∈ wave, step.order.userId ∈ users then
      some { s with run := some (.start waves s.clock s.store.nextId) }
    else none
  | .mark =>
    match s.run with
    | some run =>
      if run.highWaterMark = none then
        some { s with run := some (run.marked s.orders) }
      else none
    | none => none
  | .fire key =>
    match s.run with
    | some run =>
      match run.due, run.tally.resting with
      | .cancel _ :: due, id :: resting => some { s with
          cancels := s.cancels ++ [⟨id, s.clock, none, .held⟩]
          run := some { run with due := due, tally := { run.tally with resting := resting } } }
      | step :: due, _ =>
        { s with run := some { run with due := due } }.take .load step.order.userId
          (some step.order.key) "/orders" key
      | [], _ => none
    | none => none
  | .post j =>
    match s.calls[j]? with
    | some c =>
      if c.stage = .held then
        some (s.setCall j { c with
          first := { c.first with call := { c.first.call with sentAt := s.clock } }
          stage := .sent })
      else none
    | none => none
  | .commit j again row =>
    match s.calls[j]? with
    | some c =>
      match c.request again with
      | some p =>
        if c.stage ≠ .held ∧ s.MayStore p ∧ c.stored = none ∧
            row.hasKey p.call.userId p.call.key ∧ row.id ∉ s.orders.map (·.id) ∧
            (answerOf row).isSome then
          some { s.setCall j (c.setRequest again { p with stored := some row }) with
            orders := s.orders ++ [row] }
        else none
      | none => none
    | none => none
  | .answer j reply delayedMs dropped retried =>
    match s.calls[j]? with
    | some c =>
      match c.stage, reply.answer c c.first with
      | .sent, some (answer, placed) =>
        if s.clock ≤ c.first.call.sentAt + TIMEOUT_MS then
          some (if answer.status ≠ 0 ∧ dropped then
              s.recordFirst j c reply.refuses .hidden none delayedMs
                (chaosMark delayedMs (some answer.status) none) retried
            else
              s.recordFirst j c reply.refuses answer placed delayedMs
                (chaosMark delayedMs none none) retried)
        else none
      | _, _ => none
    | none => none
  | .retryAnswer j reply =>
    match s.calls[j]? with
    | some c =>
      match c.stage, c.retry, c.first.attemptId with
      | .retrying, some retry, some lost =>
        match reply.answer c retry with
        | some (answer, _) =>
          if s.clock ≤ retry.call.sentAt + TIMEOUT_MS then
            some (s.recordRetry j c retry lost answer reply.refuses)
          else none
        | none => none
      | _, _, _ => none
    | none => none
  | .settle j expected =>
    match s.calls[j]? with
    | some c =>
      match c.stage, c.first.attemptId with
      | .returned placed, some id => some (s.settle j c id placed expected)
      | _, _ => none
    | none => none
  | .postCancel k =>
    match s.cancels[k]? with
    | some c =>
      if c.stage = .held then some (s.setCancel k { c with stage := .sent, sentAt := s.clock })
      else none
    | none => none
  | .performCancel k shed =>
    match s.cancels[k]? with
    | some c =>
      if c.stage ≠ .held ∧ c.performed = none then
        if shed then some (s.setCancel k { c with performed := some false })
        else
          let result := cancelOrder s.orders c.orderId CANCELLABLE
          some { s.setCancel k { c with performed := some result.1.isSome } with
            orders := result.2 }
      else none
    | none => none
  | .answerCancel k reply delayedMs =>
    match s.cancels[k]? with
    | some c =>
      match c.stage, reply.cancelAnswer c with
      | .sent, some answer =>
        if s.clock ≤ c.sentAt + TIMEOUT_MS then
          some { s.setCancel k { c with stage := .over answer.status } with
            store := s.store.record (c.attempt s.clock answer delayedMs)
            run := s.run.map fun run =>
              { run with tally := run.tally.cancel s.store.nextId c.orderId answer } }
        else none
      | _, _ => none
    | none => none
  | .fold =>
    match s.run with
    | some run =>
      if run.highWaterMark.isSome ∧ run.result.phase = .placing ∧ run.due = [] ∧ s.Quiet then
        some { s with run := some (run.fold s.store) }
      else none
    | none => none
  | .rows =>
    match s.run with
    | some run =>
      if run.result.phase = .quiescing then
        some { s with run := some { run with
          result := { run.result with phase := .checking }
          rows := some (ledger s.orders users) } }
      else none
    | none => none
  | .other attempt =>
    if ¬isOrderPlacement attempt.method attempt.path ∧ attempt.orderId = none then
      some { s with store := s.store.record attempt }
    else none
  | .foreign row =>
    if row.userId.all (· ∉ users) ∧ row.id ∉ s.orders.map (·.id) then
      some { s with orders := s.orders ++ [row] }
    else none

end Harness

/-- The machine of a load run over the users of its profile. -/
def harness (users : List Int) : Machine Harness HarnessEvent := ⟨Harness.step users⟩

namespace Harness

/-! ### All a step can do -/

/-- The ways a step can go, with the state each leaves. -/
inductive Took (users : List Int) (s : Harness) : HarnessEvent → Harness → Prop
  | ticked {now} (h : s.clock ≤ now) : Took users s (.tick now) { s with clock := now }
  | placed {client userId sent path key} (hclient : client ≠ .load)
      (hpath : isOrderPlacement "POST" path) (hkey : ∀ c ∈ s.calls, c.first.call.key ≠ key) :
      Took users s (.place client userId sent path key) { s with
        calls := s.calls ++ [.fresh client ⟨userId, sent, path, key, s.clock, none⟩] }
  | started {waves} (hrun : s.run = none)
      (hwaves : ∀ wave ∈ waves, ∀ step ∈ wave, step.order.userId ∈ users) :
      Took users s (.start waves) { s with run := some (.start waves s.clock s.store.nextId) }
  | marked {run} (hrun : s.run = some run) (hnone : run.highWaterMark = none) :
      Took users s .mark { s with run := some (run.marked s.orders) }
  | firedCancel {key run fallback due id resting} (hrun : s.run = some run)
      (hdue : run.due = .cancel fallback :: due) (hresting : run.tally.resting = id :: resting) :
      Took users s (.fire key) { s with
        cancels := s.cancels ++ [⟨id, s.clock, none, .held⟩]
        run := some { run with due := due, tally := { run.tally with resting := resting } } }
  | fired {key run step due} (hrun : s.run = some run) (hdue : run.due = step :: due)
      (hkey : ∀ c ∈ s.calls, c.first.call.key ≠ key) :
      Took users s (.fire key) { s with
        run := some { run with due := due }
        calls := s.calls ++ [.fresh .load
          ⟨step.order.userId, some step.order.key, "/orders", key, s.clock, none⟩] }
  | posted {j c} (hj : s.calls[j]? = some c) (hstage : c.stage = .held) :
      Took users s (.post j) (s.setCall j { c with
        first := { c.first with call := { c.first.call with sentAt := s.clock } }
        stage := .sent })
  | committed {j again row c p} (hj : s.calls[j]? = some c) (hp : c.request again = some p)
      (hstage : c.stage ≠ .held) (hmay : s.MayStore p) (hnone : c.stored = none)
      (hkey : row.hasKey p.call.userId p.call.key) (hid : row.id ∉ s.orders.map (·.id))
      (hanswer : (answerOf row).isSome) :
      Took users s (.commit j again row)
        { s.setCall j (c.setRequest again { p with stored := some row }) with
          orders := s.orders ++ [row] }
  | answered {j reply delayedMs dropped retried c refused answer placed chaos}
      (hj : s.calls[j]? = some c) (hstage : c.stage = .sent)
      (hheard : Heard c c.first refused answer placed) :
      Took users s (.answer j reply delayedMs dropped retried)
        (s.recordFirst j c refused answer placed delayedMs chaos retried)
  | retryAnswered {j reply c retry lost refused answer placed} (hj : s.calls[j]? = some c)
      (hstage : c.stage = .retrying) (hretry : c.retry = some retry)
      (hlost : c.first.attemptId = some lost) (hheard : Heard c retry refused answer placed) :
      Took users s (.retryAnswer j reply) (s.recordRetry j c retry lost answer refused)
  | settled {j expected c placed id} (hj : s.calls[j]? = some c)
      (hstage : c.stage = .returned placed) (hid : c.first.attemptId = some id) :
      Took users s (.settle j expected) (s.settle j c id placed expected)
  | postedCancel {k c} (hk : s.cancels[k]? = some c) (hstage : c.stage = .held) :
      Took users s (.postCancel k) (s.setCancel k { c with stage := .sent, sentAt := s.clock })
  | shedCancel {k c} (hk : s.cancels[k]? = some c) (hstage : c.stage ≠ .held)
      (hnone : c.performed = none) :
      Took users s (.performCancel k true) (s.setCancel k { c with performed := some false })
  | performedCancel {k c} (hk : s.cancels[k]? = some c) (hstage : c.stage ≠ .held)
      (hnone : c.performed = none) :
      Took users s (.performCancel k false)
        { s.setCancel k { c with
            performed := some (cancelOrder s.orders c.orderId CANCELLABLE).1.isSome } with
          orders := s.orders.map (OrderRow.afterCancel c.orderId) }
  | answeredCancel {k reply delayedMs c answer} (hk : s.cancels[k]? = some c)
      (hstage : c.stage = .sent) (hreply : reply.cancelAnswer c = some answer) :
      Took users s (.answerCancel k reply delayedMs)
        { s.setCancel k { c with stage := .over answer.status } with
          store := s.store.record (c.attempt s.clock answer delayedMs)
          run := s.run.map fun run =>
            { run with tally := run.tally.cancel s.store.nextId c.orderId answer } }
  | folded {run} (hrun : s.run = some run) (hmark : run.highWaterMark.isSome)
      (hphase : run.result.phase = .placing) (hdue : run.due = []) (hquiet : s.Quiet) :
      Took users s .fold { s with run := some (run.fold s.store) }
  | read {run} (hrun : s.run = some run) (hphase : run.result.phase = .quiescing) :
      Took users s .rows { s with run := some { run with
        result := { run.result with phase := .checking }
        rows := some (ledger s.orders users) } }
  | other {attempt} (hkind : isOrderPlacement attempt.method attempt.path = false)
      (hid : attempt.orderId = none) :
      Took users s (.other attempt) { s with store := s.store.record attempt }
  | foreign {row} (huser : ∀ u, row.userId = some u → u ∉ users)
      (hid : row.id ∉ s.orders.map (·.id)) :
      Took users s (.foreign row) { s with orders := s.orders ++ [row] }

/-- **All a step can do.** -/
theorem took_of_step {users : List Int} {s s' : Harness} {e : HarnessEvent}
    (h : (harness users).step s e = some s') : Took users s e s' := by
  cases e with
  | tick now =>
    simp only [harness, Harness.step] at h
    split at h <;> cases h
    exact .ticked ‹_›
  | place client userId sent path key =>
    simp only [harness, Harness.step] at h
    split at h
    · rename_i hcond
      obtain ⟨hpath, hkey, rfl⟩ := Harness.take_eq_some h
      exact .placed hcond.1 hpath hkey
    · cases h
  | start waves =>
    simp only [harness, Harness.step] at h
    split at h <;> cases h
    rename_i hcond
    exact .started hcond.1 hcond.2
  | mark =>
    simp only [harness, Harness.step] at h
    split at h
    · split at h <;> cases h
      exact .marked ‹_› ‹_›
    · cases h
  | fire key =>
    simp only [harness, Harness.step] at h
    split at h
    · split at h
      · cases h
        exact .firedCancel ‹_› ‹_› ‹_›
      · obtain ⟨-, hkey, rfl⟩ := Harness.take_eq_some h
        exact .fired ‹_› ‹_› hkey
      · cases h
    · cases h
  | post j =>
    simp only [harness, Harness.step] at h
    split at h
    · split at h <;> cases h
      exact .posted ‹_› ‹_›
    · cases h
  | commit j again row =>
    simp only [harness, Harness.step] at h
    split at h
    · split at h
      · split at h <;> cases h
        rename_i hcond
        obtain ⟨hstage, hmay, hnone, hkey, hid, hanswer⟩ := hcond
        exact .committed ‹_› ‹_› hstage hmay hnone hkey hid hanswer
      · cases h
    · cases h
  | answer j reply delayedMs dropped retried =>
    simp only [harness, Harness.step] at h
    split at h
    · split at h
      · split at h
        · rename_i hj _ _ _ _ hstage hreply _
          have hheard := heard_of_answer hreply
          cases h
          split
          · exact .answered hj hstage hheard.hidden
          · exact .answered hj hstage hheard
        · cases h
      · cases h
    · cases h
  | retryAnswer j reply =>
    simp only [harness, Harness.step] at h
    split at h
    · split at h
      · split at h
        · split at h <;> cases h
          rename_i hreply _
          exact .retryAnswered ‹_› ‹_› ‹_› ‹_› (heard_of_answer hreply)
        · cases h
      · cases h
    · cases h
  | settle j expected =>
    simp only [harness, Harness.step] at h
    split at h
    · split at h
      · cases h
        exact .settled ‹_› ‹_› ‹_›
      · cases h
    · cases h
  | postCancel k =>
    simp only [harness, Harness.step] at h
    split at h
    · split at h <;> cases h
      exact .postedCancel ‹_› ‹_›
    · cases h
  | performCancel k shed =>
    simp only [harness, Harness.step] at h
    split at h
    · split at h
      · rename_i hcond
        cases shed with
        | true =>
          cases h
          exact .shedCancel ‹_› hcond.1 hcond.2
        | false =>
          cases h
          rw [cancelOrder_snd]
          exact .performedCancel ‹_› hcond.1 hcond.2
      · cases h
    · cases h
  | answerCancel k reply delayedMs =>
    simp only [harness, Harness.step] at h
    split at h
    · split at h
      · split at h <;> cases h
        exact .answeredCancel ‹_› ‹_› ‹_›
      · cases h
    · cases h
  | fold =>
    simp only [harness, Harness.step] at h
    split at h
    · split at h <;> cases h
      rename_i hcond
      exact .folded ‹_› hcond.1 hcond.2.1 hcond.2.2.1 hcond.2.2.2
    · cases h
  | rows =>
    simp only [harness, Harness.step] at h
    split at h
    · split at h <;> cases h
      exact .read ‹_› ‹_›
    · cases h
  | other attempt =>
    simp only [harness, Harness.step] at h
    split at h <;> cases h
    rename_i hcond
    exact .other (Bool.eq_false_of_not_eq_true hcond.1) hcond.2
  | foreign row =>
    simp only [harness, Harness.step] at h
    split at h <;> cases h
    rename_i hcond
    refine .foreign (fun u hu => ?_) hcond.2
    simpa [hu] using hcond.1

/-! ### The phases of a run -/

variable {s s' : Harness}

/-- A call that is over stays over, so a quiet run stays quiet. -/
theorem Quiet.setCall (h : s.Quiet) {j : Nat} {c c' : PlacingCall} (hj : s.calls[j]? = some c)
    (hcalls : s'.calls = s.calls.set j c') (hcancels : s'.cancels = s.cancels)
    (hclient : c'.client = c.client)
    (hstage : c'.stage = c.stage ∨ ∀ placed, c.stage ≠ .over placed) : s'.Quiet := by
  refine ⟨fun d hd hload => ?_, fun d hd => h.2 d (hcancels ▸ hd)⟩
  rw [hcalls] at hd
  rcases List.mem_or_eq_of_mem_set hd with hd | rfl
  · exact h.1 d hd hload
  · obtain ⟨placed, hover⟩ := h.1 c (List.mem_of_getElem? hj) (hclient ▸ hload)
    rcases hstage with hsame | hstage
    · exact ⟨placed, hsame.trans hover⟩
    · exact absurd hover (hstage placed)

theorem Quiet.setCancel (h : s.Quiet) {k : Nat} {c c' : CancelCall} (hk : s.cancels[k]? = some c)
    (hcalls : s'.calls = s.calls) (hcancels : s'.cancels = s.cancels.set k c')
    (hstage : c'.stage = c.stage ∨ ∀ status, c.stage ≠ .over status) : s'.Quiet := by
  refine ⟨fun d hd => h.1 d (hcalls ▸ hd), fun d hd => ?_⟩
  rw [hcancels] at hd
  rcases List.mem_or_eq_of_mem_set hd with hd | rfl
  · exact h.2 d hd
  · obtain ⟨status, hover⟩ := h.2 c (List.mem_of_getElem? hk)
    rcases hstage with hsame | hstage
    · exact ⟨status, hsame.trans hover⟩
    · exact absurd hover (hstage status)

/-- **The phases of a run**: nothing is fired before the mark is read, and nothing is awaited
    after the last wave. -/
structure Phases (s : Harness) : Prop where
  early : (∀ run, s.run = some run → run.highWaterMark = none) →
    s.cancels = [] ∧ ∀ c ∈ s.calls, c.client ≠ .load
  unmarked : ∀ run, s.run = some run → run.highWaterMark = none →
    run.due = [] ∧ run.result.phase = .placing ∧ run.rows = none
  late : ∀ run, s.run = some run → run.result.phase ≠ .placing → run.due = [] ∧ s.Quiet

theorem phases_start (orders : Orders) : (start orders).Phases where
  early _ := ⟨rfl, fun c hc => by simp [start] at hc⟩
  unmarked run h := by cases h
  late run h := by cases h

/-- A run that goes no further than to keep what came of a call: it has what it had left to
    fire, -/
theorem Phases.unmarked_of_counted (h : s.Phases) (hrun : Counted s.run s'.run) {run' : LoadRun}
    (hrun' : s'.run = some run') (hnone : run'.highWaterMark = none) :
    run'.due = [] ∧ run'.result.phase = .placing ∧ run'.rows = none := by
  obtain ⟨f, hrun⟩ := hrun
  obtain ⟨run, h', rfl⟩ := Option.map_eq_some_iff.mp (hrun.symm.trans hrun')
  exact h.unmarked run h' hnone

/-- and is as far as it was. -/
theorem Phases.late_of_counted (h : s.Phases) (hrun : Counted s.run s'.run) {run' : LoadRun}
    (hrun' : s'.run = some run') (hphase : run'.result.phase ≠ .placing) :
    run'.due = [] ∧ s.Quiet := by
  obtain ⟨f, hrun⟩ := hrun
  obtain ⟨run, h', rfl⟩ := Option.map_eq_some_iff.mp (hrun.symm.trans hrun')
  exact h.late run h' hphase

/-- Before its mark is read nothing of the run is under way. -/
theorem Phases.early_of_counted (h : s.Phases) (hrun : Counted s.run s'.run)
    (hearly : ∀ run, s'.run = some run → run.highWaterMark = none) :
    s.cancels = [] ∧ ∀ c ∈ s.calls, c.client ≠ .load := by
  obtain ⟨f, hrun⟩ := hrun
  exact h.early fun run h => by simpa [hrun, h] using hearly

/-- A call moves on, and the run goes no further than to keep what came of it. -/
theorem Phases.setCall (h : s.Phases) {j : Nat} {c c' : PlacingCall}
    (hj : s.calls[j]? = some c) (hcalls : s'.calls = s.calls.set j c')
    (hcancels : s'.cancels = s.cancels)
    (hrun : Counted s.run s'.run)
    (hclient : c'.client = c.client)
    (hstage : c'.stage = c.stage ∨ ∀ placed, c.stage ≠ .over placed) : s'.Phases where
  early hearly := by
    obtain ⟨hnone, hothers⟩ := h.early_of_counted hrun hearly
    refine ⟨hcancels.trans hnone, fun d hd => ?_⟩
    rw [hcalls] at hd
    rcases List.mem_or_eq_of_mem_set hd with hd | rfl
    · exact hothers d hd
    · rw [hclient]
      exact hothers c (List.mem_of_getElem? hj)
  unmarked _ hrun' hnone := h.unmarked_of_counted hrun hrun' hnone
  late _ hrun' hphase := by
    obtain ⟨hdue, hquiet⟩ := h.late_of_counted hrun hrun' hphase
    exact ⟨hdue, hquiet.setCall hj hcalls hcancels hclient hstage⟩

theorem Phases.setCancel (h : s.Phases) {k : Nat} {c c' : CancelCall}
    (hk : s.cancels[k]? = some c) (hcalls : s'.calls = s.calls)
    (hcancels : s'.cancels = s.cancels.set k c')
    (hrun : Counted s.run s'.run)
    (hstage : c'.stage = c.stage ∨ ∀ status, c.stage ≠ .over status) : s'.Phases where
  early hearly := by
    have hnone := (h.early_of_counted hrun hearly).1
    rw [hnone] at hk
    simp at hk
  unmarked _ hrun' hnone := h.unmarked_of_counted hrun hrun' hnone
  late _ hrun' hphase := by
    obtain ⟨hdue, hquiet⟩ := h.late_of_counted hrun hrun' hphase
    exact ⟨hdue, hquiet.setCancel hk hcalls hcancels hstage⟩

/-- Another client's placement is taken on. -/
theorem Phases.take (h : s.Phases) {c : PlacingCall} (hclient : c.client ≠ .load) :
    Phases { s with calls := s.calls ++ [c] } where
  early hearly := by
    obtain ⟨hcancels, hcalls⟩ := h.early hearly
    refine ⟨hcancels, fun d hd => ?_⟩
    rcases List.mem_append.mp hd with hd | hd
    · exact hcalls d hd
    · exact List.mem_singleton.mp hd ▸ hclient
  unmarked := h.unmarked
  late run hrun hphase := by
    obtain ⟨hdue, hquiet⟩ := h.late run hrun hphase
    refine ⟨hdue, fun d hd hload => ?_, hquiet.2⟩
    rcases List.mem_append.mp hd with hd | hd
    · exact hquiet.1 d hd hload
    · exact absurd (List.mem_singleton.mp hd ▸ hload) hclient

/-- A run that has steps to fire has read the mark and is not through. -/
theorem Phases.due (h : s.Phases) {run : LoadRun} {step : Step} {due : Wave}
    (hrun : s.run = some run) (hdue : run.due = step :: due) :
    run.highWaterMark ≠ none ∧ run.result.phase = .placing := by
  constructor
  · intro hnone
    rw [(h.unmarked run hrun hnone).1] at hdue
    cases hdue
  · by_contra hphase
    rw [(h.late run hrun hphase).1] at hdue
    cases hdue

/-- A run under way is in order, whatever else there is. -/
theorem phases_of_placing {run : LoadRun} (hrun : s.run = some run)
    (hmarked : run.highWaterMark ≠ none) (hplacing : run.result.phase = .placing) : s.Phases where
  early hearly := absurd (hearly run hrun) hmarked
  unmarked run' hrun' hnone := by
    cases hrun.symm.trans hrun'
    exact absurd hnone hmarked
  late run' hrun' hphase := by
    cases hrun.symm.trans hrun'
    exact absurd hplacing hphase

/-- **One step keeps the phases.** -/
theorem Phases.step {users : List Int} (h : s.Phases) {e : HarnessEvent}
    (hstep : (harness users).step s e = some s') : s'.Phases := by
  cases took_of_step hstep with
  | ticked | other | foreign => exact ⟨h.early, h.unmarked, h.late⟩
  | placed hclient => exact h.take hclient
  | started hrun =>
    obtain ⟨hcancels, hcalls⟩ := h.early fun run h => by cases hrun.symm.trans h
    constructor
    · exact fun _ => ⟨hcancels, hcalls⟩
    · intro _ hrun' _
      cases hrun'
      exact ⟨rfl, rfl, rfl⟩
    · intro _ hrun' hphase
      cases hrun'
      exact absurd rfl hphase
  | @marked run hrun hnone =>
    obtain ⟨hdue, hphase, -⟩ := h.unmarked run hrun hnone
    obtain ⟨hcancels, hcalls⟩ := h.early fun run' h' => by
      cases hrun.symm.trans h'
      exact hnone
    constructor
    · intro hearly
      have := hearly _ rfl
      simp [LoadRun.marked] at this
    · intro _ hrun' hnone'
      cases hrun'
      simp [LoadRun.marked] at hnone'
    · intro _ hrun' hphase'
      cases hrun'
      have hnext := LoadRun.next_phase
        { run with highWaterMark := some (Tools.highWaterMark s.orders) } hphase hdue
      refine ⟨(hnext.resolve_left hphase').2, fun c hc hload => absurd hload (hcalls c hc), ?_⟩
      show ∀ c ∈ s.cancels, _
      rw [hcancels]
      simp
  | firedCancel hrun hdue =>
    obtain ⟨hmarked, hplacing⟩ := h.due hrun hdue
    exact phases_of_placing rfl hmarked hplacing
  | fired hrun hdue =>
    obtain ⟨hmarked, hplacing⟩ := h.due hrun hdue
    exact phases_of_placing rfl hmarked hplacing
  | posted hj hstage =>
    exact h.setCall hj rfl rfl (.refl _) rfl (.inr (by simp [hstage]))
  | committed hj =>
    exact h.setCall hj rfl rfl (.refl _) (PlacingCall.client_setRequest ..)
      (.inl (PlacingCall.stage_setRequest ..))
  | answered hj hstage =>
    obtain ⟨retry, stage, heq, -⟩ := recordFirst_spec ..
    rw [heq]
    exact h.setCall hj rfl rfl (.refl _) rfl (.inr (by simp [hstage]))
  | retryAnswered hj hstage =>
    exact h.setCall hj rfl rfl (.refl _) rfl (.inr (by simp [hstage]))
  | @settled j expected c placed id hj hstage =>
    exact h.setCall hj rfl rfl (counted_settle ..) rfl (.inr (by simp [hstage]))
  | postedCancel hk hstage =>
    exact h.setCancel hk rfl rfl (.refl _) (.inr (by simp [hstage]))
  | shedCancel hk | performedCancel hk =>
    exact h.setCancel hk rfl rfl (.refl _) (.inl rfl)
  | @answeredCancel k _ _ c answer hk hstage =>
    exact h.setCancel hk rfl rfl ⟨(Tally.cancel · s.store.nextId c.orderId answer), rfl⟩
      (.inr (by simp [hstage]))
  | @folded run hrun hmark hphase hdue hquiet =>
    have hmarked : (run.fold s.store).highWaterMark ≠ none := by
      simpa [LoadRun.fold, Option.isSome_iff_ne_none] using hmark
    constructor
    · exact fun hearly => absurd (hearly _ rfl) hmarked
    · intro _ hrun' hnone
      cases hrun'
      exact absurd hnone hmarked
    · intro _ hrun' hphase'
      cases hrun'
      obtain ⟨-, -, hsame⟩ := foldWave_spec s.store run.result run.tally
      have hnext := LoadRun.next_phase { run with
        result := (foldWave s.store run.result run.tally).1
        tally := (foldWave s.store run.result run.tally).2 } (hsame.trans hphase) hdue
      exact ⟨(hnext.resolve_left hphase').2, hquiet⟩
  | @read run hrun hphase =>
    have hmarked : run.highWaterMark ≠ none := fun hnone => by
      rw [(h.unmarked run hrun hnone).2.1] at hphase
      cases hphase
    obtain ⟨hdue, hquiet⟩ := h.late run hrun (by rw [hphase]; decide)
    constructor
    · exact fun hearly => absurd (hearly _ rfl) hmarked
    · intro _ hrun' hnone
      cases hrun'
      exact absurd hnone hmarked
    · intro _ hrun' _
      cases hrun'
      exact ⟨hdue, hquiet⟩

theorem phases_run {users : List Int} {orders : Orders} {es : List HarnessEvent}
    (h : (harness users).run (start orders) es = some s) : s.Phases :=
  (harness users).invariant_run (fun hi hstep => Phases.step hi hstep) (phases_start orders) h

/-- A run whose rows are read goes no further. -/
theorem Phases.checked {users : List Int} (h : s.Phases) {run : LoadRun} (hrun : s.run = some run)
    (hphase : run.result.phase = .checking) {e : HarnessEvent}
    (hstep : (harness users).step s e = some s') : s'.run = some run := by
  obtain ⟨hdue, hquiet⟩ := h.late run hrun (by rw [hphase]; decide)
  cases took_of_step hstep with
  | ticked | placed | posted | committed | retryAnswered | postedCancel | shedCancel
  | performedCancel | other | foreign => exact hrun
  | answered =>
    obtain ⟨retry, stage, heq, -⟩ := recordFirst_spec ..
    rw [heq]
    exact hrun
  | started hnone => cases hnone.symm.trans hrun
  | marked hrun' hnone =>
    cases hrun.symm.trans hrun'
    cases hphase.symm.trans (h.unmarked run hrun hnone).2.1
  | firedCancel hrun' hdue' | fired hrun' hdue' =>
    cases hrun.symm.trans hrun'
    cases hdue.symm.trans hdue'
  | settled hj hstage =>
    have hother : _ ≠ Client.load := fun hload => by
      obtain ⟨placed, hover⟩ := hquiet.1 _ (List.mem_of_getElem? hj) hload
      cases hstage.symm.trans hover
    rw [settle, if_neg hother]
    exact hrun
  | answeredCancel hk hstage =>
    obtain ⟨status, hover⟩ := hquiet.2 _ (List.mem_of_getElem? hk)
    cases hstage.symm.trans hover
  | folded hrun' _ hphase' | read hrun' hphase' =>
    cases hrun.symm.trans hrun'
    cases hphase.symm.trans hphase'

/-- **What a run has read it checks**: it is quiet then, and stays as it is. -/
theorem read_run {users : List Int} {s'' : Harness} {es : List HarnessEvent} (h : s.Phases)
    (hread : (harness users).step s .rows = some s') (hrun : (harness users).run s' es = some s'') :
    ∃ run, s.run = some run ∧ s.Quiet ∧ s''.run = some { run with
      result := { run.result with phase := .checking }
      rows := some (ledger s.orders users) } := by
  cases took_of_step hread with
  | @read run hrun₀ hphase =>
    refine ⟨run, hrun₀, (h.late run hrun₀ (by rw [hphase]; decide)).2, ?_⟩
    have key := (harness users).invariant_run (I := fun t => t.Phases ∧ t.run = some _)
      (fun hi hstep => ⟨hi.1.step hstep, hi.1.checked hi.2 rfl hstep⟩) ⟨h.step hread, rfl⟩ hrun
    exact key.2

end Harness

end Cocos.Tools
