import Cocos.Lib.Machine
import Cocos.Tools.Chaos
import Cocos.Tools.Profiles

namespace Cocos.Tools

open Cocos.Lib

/-!
# A load run at the gateway

`LoadService.execute`, step by step, with everything the gateway records for a step, and whatever
the target answers.

* `GatewayResult`, `FiredStep` — what the gateway returns of a call, and a step that was fired;
* `Firing.answered`, `Firing.probed`, `Firing.settle` — `GatewayService.send`, `probe`, and what the
  run does with what they return;
* `FiringEvent`, `firing` — the steps, in any order, and those of the other clients;
* `Took`, `took_of_step` — **all a step can do**.

The target stores an order at most for a key, under an id of its own, and an answer that names an
order names that one.  Apart from this its answers are arbitrary.

A step is taken out of its wave and goes out at once, and the answers to earlier ones may come in
between: the source, which fires a wave whole, has fewer runs.
-/

/-! ### Calls -/

/-- What comes back of a call: an answer, and what `placedOrderId` and `asPlacedOrder` read off its
    body, or nothing. -/
inductive Came
  | response (status : { n : Nat // n ≠ 0 }) (body : Option Body) (id : Option Int)
      (placed : Option PlacedResponse)
  | nothing (message : String)

/-- The answer, as it is recorded. -/
def Came.answer : Came → Answer
  | .response status body id _ => ⟨status, 200 ≤ status.1 ∧ status.1 < 300, body, id⟩
  | .nothing message => ⟨0, false, some ⟨message, some message⟩, none⟩

/-- `asPlacedOrder` of the body. -/
def Came.placed : Came → Option PlacedResponse
  | .response _ _ _ placed => placed
  | .nothing _ => none

/-- What the gateway returns of a call. -/
structure GatewayResult where
  attemptId : Nat
  answer : Answer
  placed : Option PlacedResponse

/-- The order a placement was answered with. -/
def GatewayResult.told (result : GatewayResult) : Option PlacedResponse :=
  if result.answer.ok then result.placed else none

/-- What a step goes out as. -/
inductive Outgoing
  | place (order : SimOrder) (key : String)
  | cancel (orderId : Int)

/-- How far it has got. -/
inductive FiredStage
  /-- Held back by chaos. -/
  | held
  | sent
  /-- Recorded as lost, and sent again. -/
  | retrying (lost : GatewayResult) (mark : ChaosMark) (sentAt : Int)
  /-- The gateway is through with it. -/
  | returned (result : GatewayResult)
  /-- So is the run. -/
  | over (result : GatewayResult)

/-- What the gateway has recorded of it, if anything yet. -/
def FiredStage.result : FiredStage → Option GatewayResult
  | .held | .sent => none
  | .retrying lost _ _ => some lost
  | .returned result | .over result => some result

def FiredStage.isOver : FiredStage → Bool
  | .over _ => true
  | .held | .sent | .retrying .. | .returned _ => false

/-- A step of the run that was fired. -/
structure FiredStep where
  outgoing : Outgoing
  delayedMs : Int
  sentAt : Int
  stage : FiredStage
  /-- The row the target has stored for a placement, as it was committed. -/
  stored : Option OrderRow
  /-- Whether the `UPDATE` of a cancel matched a row. -/
  performed : Option Bool

namespace FiredStep

/-- A step goes out. -/
def fresh (outgoing : Outgoing) (delayedMs : Int) : FiredStep :=
  ⟨outgoing, delayedMs, 0, .held, none, none⟩

/-- The key it was placed under. -/
def key (c : FiredStep) : Option String :=
  match c.outgoing with
  | .place _ key => some key
  | .cancel _ => none

def isPlacement (c : FiredStep) : Bool := c.key.isSome

/-- The order it is to cancel. -/
def cancels (c : FiredStep) : Option Int :=
  match c.outgoing with
  | .place _ _ => none
  | .cancel orderId => some orderId

theorem isPlacement_iff {c : FiredStep} : c.isPlacement ↔ c.cancels = none := by
  unfold isPlacement key cancels
  cases c.outgoing <;> simp

/-- The order the run was told is resting. -/
def rested (c : FiredStep) : Option Int :=
  match c.outgoing, c.stage with
  | .place _ _, .over result =>
    result.told.bind fun placed => if placed.status = "NEW" then some placed.orderId else none
  | _, _ => none

/-- The row a step is recorded under. -/
def attempt (c : FiredStep) (now : Int) (answer : Answer) (mark : ChaosMark) : Attempt :=
  match c.outgoing with
  | .place order key =>
    (⟨order.userId, some order.key, "/orders", key, c.sentAt, none⟩ : KeyedCall).attempt now answer
      c.delayedMs (if mark = ⟨none, none, none, none⟩ then none else some mark)
  | .cancel orderId =>
    (⟨orderId, c.sentAt, c.performed, .sent⟩ : CancelCall).attempt now answer c.delayedMs

/-- An answer names no order but the one that is stored under the key. -/
def Owns (c : FiredStep) (came : Came) : Prop :=
  c.isPlacement → came.answer.ok → ∀ placed, came.placed = some placed →
    c.stored.map (·.id) = some placed.orderId

instance (c : FiredStep) (came : Came) : Decidable (c.Owns came) :=
  decidable_of_iff (c.isPlacement → came.answer.ok →
      came.placed.all fun placed => c.stored.map (·.id) = some placed.orderId) <| by
    simp only [Owns, Option.all_eq_true, decide_eq_true_eq]

end FiredStep

/-! ### The run and its target -/

structure Firing where
  clock : Int
  modes : ChaosConfig
  /-- The committed orders of the target. -/
  orders : Orders
  /-- The steps fired so far. -/
  calls : List FiredStep
  store : AttemptsStore
  run : LoadRun

inductive FiringEvent
  /-- Time passes. -/
  | tick (now : Int)
  /-- The next step is fired; its order gets a key, should it place one. -/
  | fire (key : String) (delay : Roll)
  /-- A call goes out, and the target stores the order of a placement or performs a cancel. -/
  | post (j : Nat)
  | commit (j : Nat) (row : OrderRow)
  | perform (j : Nat)
  /-- The gateway has an answer, or gives up. -/
  | answer (j : Nat) (came : Came) (drop retry : Roll)
  | retryAnswer (j : Nat) (came : Came)
  /-- The run takes what the gateway returned. -/
  | settle (j : Nat) (expected : Expectation)
  /-- A wave has settled. -/
  | fold
  /-- A mode of chaos is set. -/
  | configure (mode : ChaosMode) (toggle : ChaosToggle) (body : Body)
  /-- Another client's call is recorded, or annotated; its order stored, or its cancel performed. -/
  | other (attempt : Attempt)
  | annotate (id : Nat) (details : Details)
  | foreign (row : OrderRow)
  | cancelled (orderId : Int)

namespace Firing

/-- A run is started: the mark is read, and the first wave is due. -/
def start (round : ℚ → ℚ) (profile : LoadProfile) (modes : ChaosConfig) (orders : Orders)
    (store : AttemptsStore) (now : Int) : Firing where
  clock := now
  modes := modes
  orders := orders
  calls := []
  store := store
  run := (LoadRun.start (planWaves round profile) now store.nextId).marked orders

def setCall (s : Firing) (j : Nat) (c : FiredStep) : Firing := { s with calls := s.calls.set j c }

/-- What chaos has done to a call before it went out. -/
def delayMark (c : FiredStep) : ChaosMark :=
  ⟨if c.delayedMs > 0 then some c.delayedMs else none, none, none, none⟩

/-- Chaos hides an answer. -/
def Drops (s : Firing) (c : FiredStep) (came : Came) (r : Roll) : Prop :=
  came.answer.status ≠ 0 ∧ c.isPlacement ∧ (s.modes .response_drop).rolls r

instance (s : Firing) (c : FiredStep) (came : Came) (r : Roll) : Decidable (s.Drops c came r) :=
  inferInstanceAs (Decidable (_ ∧ _))

/-- `GatewayService.send`, from the end of the call to the retry. -/
def answered (s : Firing) (c : FiredStep) (came : Came) (drop retry : Roll) :
    AttemptsStore × FiredStage :=
  let id := s.store.nextId
  let (mark, lost, store) : ChaosMark × GatewayResult × AttemptsStore :=
    if s.Drops c came drop then
      let mark := { delayMark c with droppedStatus := some came.answer.status }
      (mark, ⟨id, .hidden, none⟩, (s.store.record (c.attempt s.clock .hidden mark)).record
        (droppedResponse id came.answer.status s.clock))
    else
      (delayMark c, ⟨id, came.answer, came.placed⟩,
        s.store.record (c.attempt s.clock came.answer (delayMark c)))
  if lost.answer.status = 0 ∧ c.isPlacement ∧ (s.modes .client_retry).rolls retry then
    (store, .retrying lost mark s.clock)
  else (store, .returned lost)

/-- `GatewayService.probe`, from the end of its call. -/
def probed (s : Firing) (order : SimOrder) (key : String) (lost : GatewayResult) (mark : ChaosMark)
    (sentAt : Int) (came : Came) : AttemptsStore :=
  let id := s.store.nextId
  let retry := (⟨order.userId, some order.key, "/orders", key, sentAt, some lost.attemptId⟩ :
    KeyedCall).attempt s.clock came.answer 0 (some ⟨none, none, some lost.attemptId, none⟩)
  ((s.store.record retry).annotate lost.attemptId fun row =>
      { row with chaos := some { mark with retriedBy := some id } }).record
    (retriedOrder lost.attemptId (some order.key) ⟨id, came.answer.status, retry.orderId⟩ s.clock)

/-- What `SimulationService.place` writes onto the row of a placement. -/
def annotateOf (expected : Expectation) (told : Option PlacedResponse) : Details where
  expected := some expected
  actual := told.bind fun placed => ORDER_STATUSES.find? fun s => s.text = placed.status
  orderId := told.map (·.orderId)
  chaos := none

/-- The run takes what the gateway returned: `LoadService.place`, or `cancel`. -/
def settle (s : Firing) (j : Nat) (c : FiredStep) (result : GatewayResult)
    (expected : Expectation) : Firing :=
  let taken := s.setCall j { c with stage := .over result }
  match c.outgoing with
  | .place _ _ => { taken with
      store := s.store.annotate result.attemptId (annotateOf expected result.told).write
      run := { s.run with tally := s.run.tally.place result.attemptId result.told } }
  | .cancel orderId => { taken with
      run := { s.run with tally :=
        s.run.tally.cancel result.attemptId orderId result.answer } }

/-- The run waits for none of its steps. -/
def Settled (s : Firing) : Prop := ∀ c ∈ s.calls, c.stage.isOver

instance (s : Firing) : Decidable s.Settled := inferInstanceAs (Decidable (∀ c ∈ s.calls, _))

/-- One step, `none` where it is not enabled. -/
def step (s : Firing) : FiringEvent → Option Firing
  | .tick now => if s.clock ≤ now then some { s with clock := now } else none
  | .fire key delay =>
    match s.run.due, s.run.tally.resting with
    | .cancel _ :: due, id :: resting => some { s with
        calls := s.calls ++ [.fresh (.cancel id) (s.modes.delay delay)]
        run := { s.run with due := due, tally := { s.run.tally with resting := resting } } }
    | step :: due, _ =>
      if ∀ c ∈ s.calls, c.key ≠ some key then
        some { s with
          calls := s.calls ++ [.fresh (.place step.order key) (s.modes.delay delay)]
          run := { s.run with due := due } }
      else none
    | [], _ => none
  | .post j =>
    match s.calls[j]? with
    | some c =>
      match c.stage with
      | .held => some (s.setCall j { c with stage := .sent, sentAt := s.clock })
      | _ => none
    | none => none
  | .commit j row =>
    match s.calls[j]? with
    | some c =>
      match c.stage, c.stored with
      | .held, _ | _, some _ => none
      | _, none =>
        if c.isPlacement ∧ row.id ∉ s.orders.map (·.id) then
          some { s.setCall j { c with stored := some row } with orders := s.orders ++ [row] }
        else none
    | none => none
  | .perform j =>
    match s.calls[j]? with
    | some c =>
      match c.stage, c.cancels, c.performed with
      | .held, _, _ | _, none, _ | _, _, some _ => none
      | _, some id, none =>
        let result := cancelOrder s.orders id CANCELLABLE
        some { s.setCall j { c with performed := some result.1.isSome } with orders := result.2 }
    | none => none
  | .answer j came drop retry =>
    match s.calls[j]? with
    | some c =>
      match c.stage with
      | .sent =>
        if c.Owns came then
          let (store, stage) := s.answered c came drop retry
          some { s.setCall j { c with stage := stage } with store := store }
        else none
      | _ => none
    | none => none
  | .retryAnswer j came =>
    match s.calls[j]? with
    | some c =>
      match c.stage, c.outgoing with
      | .retrying lost mark sentAt, .place order key =>
        some { s.setCall j { c with stage := .returned lost } with
          store := s.probed order key lost mark sentAt came }
      | _, _ => none
    | none => none
  | .settle j expected =>
    match s.calls[j]? with
    | some c =>
      match c.stage with
      | .returned result => some (s.settle j c result expected)
      | _ => none
    | none => none
  | .fold =>
    if s.run.result.phase = .placing ∧ s.run.due = [] ∧ s.Settled then
      some { s with run := s.run.fold s.store }
    else none
  | .configure mode toggle body =>
    if 0 ≤ toggle.intensity ∧ toggle.intensity ≤ ceiling mode then
      some { s with
        modes := Function.update s.modes mode toggle
        store := s.store.record (chaosEvent mode true body s.clock 0) }
    else none
  | .other attempt => some { s with store := s.store.record attempt }
  | .annotate id details => some { s with store := s.store.annotate id details.write }
  | .foreign row =>
    if row.id ∉ s.orders.map (·.id) then some { s with orders := s.orders ++ [row] } else none
  | .cancelled orderId => some { s with orders := (cancelOrder s.orders orderId CANCELLABLE).2 }

end Firing

/-- A load run, the target, and whoever else uses the gateway. -/
def firing : Machine Firing FiringEvent := ⟨Firing.step⟩

namespace Firing

/-! ### What a step can do -/

/-- What the gateway returns of a first call: the row is the next one, and the answer is the one
    that came, unless it was hidden from a placement. -/
theorem answered_spec (s : Firing) (c : FiredStep) (came : Came) (drop retry : Roll) :
    ∃ result, result.attemptId = s.store.nextId ∧
      (result.answer = came.answer ∧ result.placed = came.placed ∨
        result.answer = .hidden ∧ c.isPlacement) ∧
      ((s.answered c came drop retry).2 = .returned result ∨
        c.isPlacement ∧
          ∃ mark, (s.answered c came drop retry).2 = .retrying result mark s.clock) := by
  by_cases hdrops : s.Drops c came drop
  · refine ⟨⟨s.store.nextId, .hidden, none⟩, rfl, .inr ⟨rfl, hdrops.2.1⟩, ?_⟩
    simp only [answered, if_pos hdrops]
    split
    · exact .inr ⟨hdrops.2.1, _, rfl⟩
    · exact .inl rfl
  · refine ⟨⟨s.store.nextId, came.answer, came.placed⟩, rfl, .inl ⟨rfl, rfl⟩, ?_⟩
    simp only [answered, if_neg hdrops]
    split
    · rename_i hretries
      exact .inr ⟨hretries.2.1, _, rfl⟩
    · exact .inl rfl

/-- The same, of what the step keeps of it. -/
theorem result_answered {s : Firing} {c : FiredStep} {came : Came} {drop retry : Roll}
    {result : GatewayResult} (h : (s.answered c came drop retry).2.result = some result) :
    result.answer = came.answer ∧ result.placed = came.placed ∨
      result.answer = .hidden ∧ c.isPlacement := by
  obtain ⟨result', -, hanswer, hreturned⟩ := answered_spec s c came drop retry
  obtain rfl : result' = result := by
    rcases hreturned with hstage | ⟨-, mark, hstage⟩
    · rw [hstage] at h
      exact Option.some.inj h
    · rw [hstage] at h
      exact Option.some.inj h
  exact hanswer

/-- All a step can do. -/
inductive Took (s : Firing) : FiringEvent → Firing → Prop
  | ticked {now} (hclock : s.clock ≤ now) : Took s (.tick now) { s with clock := now }
  | firedCancel {key delay fallback due id resting} (hdue : s.run.due = .cancel fallback :: due)
      (hresting : s.run.tally.resting = id :: resting) :
      Took s (.fire key delay) { s with
        calls := s.calls ++ [.fresh (.cancel id) (s.modes.delay delay)]
        run := { s.run with due := due, tally := { s.run.tally with resting := resting } } }
  | fired {key delay step due} (hdue : s.run.due = step :: due)
      (hempty : ∀ fallback, step = .cancel fallback → s.run.tally.resting = [])
      (hkey : ∀ c ∈ s.calls, c.key ≠ some key) :
      Took s (.fire key delay) { s with
        calls := s.calls ++ [.fresh (.place step.order key) (s.modes.delay delay)]
        run := { s.run with due := due } }
  | posted {j c} (hj : s.calls[j]? = some c) (hstage : c.stage = .held) :
      Took s (.post j) (s.setCall j { c with stage := .sent, sentAt := s.clock })
  | committed {j row c} (hj : s.calls[j]? = some c) (hstage : c.stage ≠ .held)
      (hstored : c.stored = none) (hplace : c.isPlacement) (hid : row.id ∉ s.orders.map (·.id)) :
      Took s (.commit j row)
        { s.setCall j { c with stored := some row } with orders := s.orders ++ [row] }
  | performed {j c id} (hj : s.calls[j]? = some c) (hstage : c.stage ≠ .held)
      (hcancels : c.cancels = some id) (hnone : c.performed = none) :
      Took s (.perform j)
        { s.setCall j { c with
            performed := some (cancelOrder s.orders id CANCELLABLE).1.isSome } with
          orders := s.orders.map (OrderRow.afterCancel id) }
  | answered {j came drop retry c} (hj : s.calls[j]? = some c) (hstage : c.stage = .sent)
      (howns : c.Owns came) :
      Took s (.answer j came drop retry)
        { s.setCall j { c with stage := (s.answered c came drop retry).2 } with
          store := (s.answered c came drop retry).1 }
  | probed {j came c order key lost mark sentAt} (hj : s.calls[j]? = some c)
      (hstage : c.stage = .retrying lost mark sentAt) (hplace : c.outgoing = .place order key) :
      Took s (.retryAnswer j came) { s.setCall j { c with stage := .returned lost } with
        store := s.probed order key lost mark sentAt came }
  | settled {j expected c result} (hj : s.calls[j]? = some c)
      (hstage : c.stage = .returned result) :
      Took s (.settle j expected) (s.settle j c result expected)
  | folded (hphase : s.run.result.phase = .placing) (hdue : s.run.due = [])
      (hsettled : s.Settled) : Took s .fold { s with run := s.run.fold s.store }
  | configured {mode toggle body}
      (hrange : 0 ≤ toggle.intensity ∧ toggle.intensity ≤ ceiling mode) :
      Took s (.configure mode toggle body) { s with
        modes := Function.update s.modes mode toggle
        store := s.store.record (chaosEvent mode true body s.clock 0) }
  | other {attempt} : Took s (.other attempt) { s with store := s.store.record attempt }
  | annotated {id details} :
      Took s (.annotate id details) { s with store := s.store.annotate id details.write }
  | foreign {row} (hid : row.id ∉ s.orders.map (·.id)) :
      Took s (.foreign row) { s with orders := s.orders ++ [row] }
  | cancelled {orderId} :
      Took s (.cancelled orderId) { s with orders := s.orders.map (OrderRow.afterCancel orderId) }

/-- **All a step can do.** -/
theorem took_of_step {s s' : Firing} {e : FiringEvent} (h : firing.step s e = some s') :
    Took s e s' := by
  cases e with
  | tick now =>
    simp only [firing, Firing.step] at h
    split at h <;> cases h
    exact .ticked ‹_›
  | fire key delay =>
    simp only [firing, Firing.step] at h
    split at h
    · cases h
      exact .firedCancel ‹_› ‹_›
    · rename_i hdue hother
      split at h <;> cases h
      rename_i hkey
      refine .fired hdue (fun fallback hcancel => ?_) hkey
      cases hresting : s.run.tally.resting with
      | nil => rfl
      | cons id resting => exact (hother _ _ _ hresting hcancel).elim
    · cases h
  | post j =>
    simp only [firing, Firing.step] at h
    split at h
    · split at h <;> cases h
      exact .posted ‹_› ‹_›
    · cases h
  | commit j row =>
    simp only [firing, Firing.step] at h
    split at h
    · split at h
      · cases h
      · cases h
      · split at h <;> cases h
        rename_i hcond
        exact .committed ‹_› ‹_› ‹_› hcond.1 hcond.2
    · cases h
  | perform j =>
    simp only [firing, Firing.step] at h
    split at h
    · split at h
      · cases h
      · cases h
      · cases h
      · cases h
        rw [cancelOrder_snd]
        exact .performed ‹_› ‹_› ‹_› ‹_›
    · cases h
  | answer j came drop retry =>
    simp only [firing, Firing.step] at h
    split at h
    · split at h
      · split at h <;> cases h
        exact .answered ‹_› ‹_› ‹_›
      · cases h
    · cases h
  | retryAnswer j came =>
    simp only [firing, Firing.step] at h
    split at h
    · split at h <;> cases h
      exact .probed ‹_› ‹_› ‹_›
    · cases h
  | settle j expected =>
    simp only [firing, Firing.step] at h
    split at h
    · split at h <;> cases h
      exact .settled ‹_› ‹_›
    · cases h
  | fold =>
    simp only [firing, Firing.step] at h
    split at h <;> cases h
    rename_i hcond
    exact .folded hcond.1 hcond.2.1 hcond.2.2
  | configure mode toggle body =>
    simp only [firing, Firing.step] at h
    split at h <;> cases h
    exact .configured ‹_›
  | other attempt =>
    cases h
    exact .other
  | annotate id details =>
    cases h
    exact .annotated
  | foreign row =>
    simp only [firing, Firing.step] at h
    split at h <;> cases h
    exact .foreign ‹_›
  | cancelled orderId =>
    cases h
    rw [cancelOrder_snd]
    exact .cancelled

end Firing

end Cocos.Tools
