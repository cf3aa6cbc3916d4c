import Cocos.Tools.DbPause
import Cocos.Tools.Firing

namespace Cocos.Tools

open Cocos.Lib

/-!
# Calls through the gateway

`tools/src/gateway/gateway.service.ts`, `GatewayService.send` and `probe`, under the whole of
`ChaosService`: any number of calls of any clients on their way at once, while the engine is
configured and pauses the database.

* `Send`, `SendStage` — a call, from the moment it is held back to the one it returns;
* `GatewayWorld.begun`, `answered`, `probed` — `send` and `probe` between two awaits;
* `GatewayEvent`, `gatewayMachine` — the calls, the engine and the clock;
* `Took`, `took_of_step` — **all a step can do**.
-/

/-! ### Calls -/

/-- How far a call has got. -/
inductive SendStage
  /-- Held back by chaos. -/
  | held
  /-- Waiting for the target. -/
  | out (sentAt : Int)
  /-- Recorded as lost, and sent again. -/
  | retrying (lost : GatewayResult) (mark : ChaosMark) (sentAt : Int)
  | returned (result : GatewayResult)

/-- What the gateway has recorded of it, if anything yet. -/
def SendStage.result : SendStage → Option GatewayResult
  | .held | .out _ => none
  | .retrying lost _ _ => some lost
  | .returned result => some result

/-- A call of `send`, with what the target answered it, read by nobody. -/
structure Send where
  method : String
  path : String
  sent : Option OrderKey
  key : Option String
  delayedMs : Int
  stage : SendStage
  came : Option Came

namespace Send

def isPlacement (c : Send) : Bool := isOrderPlacement c.method c.path

/-- `GatewayService.call`, as it is recorded. -/
def call (c : Send) (sentAt now : Int) (answer : Answer) : Attempt where
  id := 0
  sentAt := sentAt
  method := c.method
  path := c.path
  latencyMs := now - sentAt
  status := answer.status
  ok := answer.ok
  sent := c.sent
  body := answer.body
  expected := none
  actual := none
  orderId := none
  idempotencyKey := c.key
  chaos := none

/-- The mark of a call that was held back. -/
def mark (c : Send) : ChaosMark :=
  ⟨if c.delayedMs > 0 then some c.delayedMs else none, none, none, none⟩

end Send

/-- A row says what chaos did to it, if anything. -/
def marked (attempt : Attempt) (chaos : ChaosMark) : Attempt :=
  if chaos = ⟨none, none, none, none⟩ then attempt else { attempt with chaos := some chaos }

/-- The row of an event of the engine, whose body is written as `json` says. -/
def ChaosEvent.row (json : EventBody → Body) (event : ChaosEvent) : Attempt :=
  chaosEvent event.mode event.ok (json event.body) event.recordedAt event.latencyMs

/-! ### The gateway -/

/-- The engine with its clock, the recorder and the calls; and, read by nobody, every row that was
    recorded, as it was annotated while the recorder had it. -/
structure GatewayWorld where
  pause : PauseWorld
  store : AttemptsStore
  calls : List Send
  log : List Attempt

inductive GatewayEvent
  /-- A client calls `send`, and a placement gets a key. -/
  | send (method path : String) (sent : Option OrderKey) (key : String) (delay : Roll)
  /-- A call goes out. -/
  | post (j : Nat)
  /-- The gateway has an answer, or gives up. -/
  | answer (j : Nat) (came : Came) (drop retry : Roll)
  | retryAnswer (j : Nat) (came : Came)
  /-- The engine or the clock moves. -/
  | engine (e : PauseEvent)
  /-- A client writes what it makes of a call onto its row. -/
  | annotate (j : Nat) (details : Details)

namespace GatewayWorld

/-- A harness just started. -/
def initial (now : Int) : GatewayWorld := ⟨.initial now, .empty, [], []⟩

def modes (s : GatewayWorld) : ChaosConfig := s.pause.service.modes

def counters (s : GatewayWorld) : ChaosCounters := s.pause.service.counters

def setCall (s : GatewayWorld) (j : Nat) (c : Send) : GatewayWorld :=
  { s with calls := s.calls.set j c }

/-- A row is recorded. -/
def record (s : GatewayWorld) (attempt : Attempt) : GatewayWorld :=
  { s with
    store := s.store.record attempt
    log := s.log ++ [{ attempt with id := s.store.nextId }] }

/-- A row is annotated, if the recorder still has it. -/
def annotate (s : GatewayWorld) (id : Nat) (details : Attempt → Attempt) : GatewayWorld :=
  { s with
    store := s.store.annotate id details
    log := AttemptsStore.annotated s.log id details }

/-- The engine counts. -/
def count (s : GatewayWorld) (counted : ChaosCounters → ChaosCounters) : GatewayWorld :=
  { s with pause := { s.pause with service := { s.pause.service with
      counters := counted s.pause.service.counters } } }

/-- `send`, up to its first await: the key is minted and the delay is drawn. -/
def begun (s : GatewayWorld) (method path : String) (sent : Option OrderKey) (key : String)
    (delay : Roll) : GatewayWorld :=
  let delayedMs := s.modes.delay delay
  let counted := if delayedMs > 0 then s.count fun n => { n with delays := n.delays + 1 } else s
  { counted with calls := s.calls ++ [⟨method, path, sent,
      if isOrderPlacement method path then some key else none, delayedMs, .held, none⟩] }

/-- Chaos hides an answer. -/
def Drops (s : GatewayWorld) (c : Send) (came : Came) (r : Roll) : Prop :=
  came.answer.status ≠ 0 ∧ c.isPlacement ∧ (s.modes .response_drop).rolls r

instance (s : GatewayWorld) (c : Send) (came : Came) (r : Roll) : Decidable (s.Drops c came r) :=
  inferInstanceAs (Decidable (_ ∧ _))

/-- `send`, once its call is through: the row is recorded, and the loss of a hidden answer is
    counted and written down. -/
def recorded (s : GatewayWorld) (c : Send) (sentAt : Int) (came : Came) (drop : Roll) :
    GatewayWorld × GatewayResult × ChaosMark :=
  let id := s.store.nextId
  let attempt := c.call sentAt s.pause.clock came.answer
  let attempt := { attempt with latencyMs := attempt.latencyMs + c.delayedMs }
  if s.Drops c came drop then
    let mark := { c.mark with droppedStatus := some came.answer.status }
    let hidden := { attempt with
      status := Answer.hidden.status, ok := Answer.hidden.ok, body := Answer.hidden.body }
    (((s.record (marked hidden mark)).count fun n => { n with drops := n.drops + 1 }).record
      (droppedResponse id came.answer.status s.pause.clock), ⟨id, .hidden, none⟩, mark)
  else
    (s.record (marked attempt c.mark), ⟨id, came.answer, came.placed⟩, c.mark)

/-- `send`, from the end of its call to the retry, or to its return. -/
def answered (s : GatewayWorld) (j : Nat) (c : Send) (sentAt : Int) (came : Came)
    (drop retry : Roll) : GatewayWorld :=
  let (s', lost, mark) := s.recorded c sentAt came drop
  let stage := if lost.answer.status = 0 ∧ c.isPlacement ∧ (s.modes .client_retry).rolls retry then
    SendStage.retrying lost mark s.pause.clock else .returned lost
  s'.setCall j { c with stage := stage, came := some came }

/-- `probe`, from the end of its call. -/
def probed (s : GatewayWorld) (j : Nat) (c : Send) (lost : GatewayResult) (mark : ChaosMark)
    (sentAt : Int) (came : Came) : GatewayWorld :=
  let id := s.store.nextId
  let retry := { c.call sentAt s.pause.clock came.answer with
    orderId := came.answer.orderId
    chaos := some ⟨none, none, some lost.attemptId, none⟩ }
  let noted := (s.record retry).annotate lost.attemptId fun row =>
    { row with chaos := some { mark with retriedBy := some id } }
  ((noted.count fun n => { n with retries := n.retries + 1 }).record
    (retriedOrder lost.attemptId c.sent ⟨id, came.answer.status, came.answer.orderId⟩
      s.pause.clock)).setCall j { c with stage := .returned lost }

/-- The engine moves, and records what it says of itself. -/
def engine (json : EventBody → Body) (s : GatewayWorld) (pause : PauseWorld) : GatewayWorld :=
  ((pause.service.events.drop s.pause.service.events.length).map (ChaosEvent.row json)).foldl
    record { s with pause := pause }

/-- One step, `none` where it is not enabled. -/
def step (json : EventBody → Body) (s : GatewayWorld) : GatewayEvent → Option GatewayWorld
  | .send method path sent key delay =>
    if ∀ c ∈ s.calls, c.key ≠ some key then some (s.begun method path sent key delay) else none
  | .post j =>
    match s.calls[j]? with
    | some c =>
      match c.stage with
      | .held => some (s.setCall j { c with stage := .out s.pause.clock })
      | _ => none
    | none => none
  | .answer j came drop retry =>
    match s.calls[j]? with
    | some c =>
      match c.stage with
      | .out sentAt => some (s.answered j c sentAt came drop retry)
      | _ => none
    | none => none
  | .retryAnswer j came =>
    match s.calls[j]? with
    | some c =>
      match c.stage with
      | .retrying lost mark sentAt => some (s.probed j c lost mark sentAt came)
      | _ => none
    | none => none
  | .engine e => (s.pause.step e).map (s.engine json)
  | .annotate j details =>
    match s.calls[j]? with
    | some c =>
      match c.stage with
      | .returned result =>
        if details.chaos = none then some (s.annotate result.attemptId details.write) else none
      | _ => none
    | none => none

end GatewayWorld

/-- The machine of the gateway, with the engine's bodies written as `json` says. -/
def gatewayMachine (json : EventBody → Body) : Machine GatewayWorld GatewayEvent :=
  ⟨GatewayWorld.step json⟩

/-! ### All a step can do -/

namespace GatewayWorld

variable {json : EventBody → Body} {s s' : GatewayWorld}

/-- The ways a step can go, with the state each leaves. -/
inductive Took (json : EventBody → Body) (s : GatewayWorld) : GatewayEvent → GatewayWorld → Prop
  | begun {method path sent key delay} (hkey : ∀ c ∈ s.calls, c.key ≠ some key) :
      Took json s (.send method path sent key delay) (s.begun method path sent key delay)
  | posted {j c} (hc : s.calls[j]? = some c) (hstage : c.stage = .held) :
      Took json s (.post j) (s.setCall j { c with stage := .out s.pause.clock })
  | answered {j c sentAt came drop retry} (hc : s.calls[j]? = some c)
      (hstage : c.stage = .out sentAt) :
      Took json s (.answer j came drop retry) (s.answered j c sentAt came drop retry)
  | probed {j c lost mark sentAt came} (hc : s.calls[j]? = some c)
      (hstage : c.stage = .retrying lost mark sentAt) :
      Took json s (.retryAnswer j came) (s.probed j c lost mark sentAt came)
  | moved {e pause} (hpause : dbPause.step s.pause e = some pause) :
      Took json s (.engine e) (s.engine json pause)
  | annotated {j c result details} (hc : s.calls[j]? = some c)
      (hstage : c.stage = .returned result) (hdetails : details.chaos = none) :
      Took json s (.annotate j details) (s.annotate result.attemptId details.write)

/-- **All a step can do.** -/
theorem took_of_step {e : GatewayEvent} (h : (gatewayMachine json).step s e = some s') :
    Took json s e s' := by
  cases e with
  | send method path sent key delay =>
    obtain ⟨hkey, h⟩ := Option.ite_none_right_eq_some.mp h
    cases h
    exact .begun hkey
  | post j =>
    simp only [gatewayMachine, step] at h
    split at h
    · split at h <;> cases h
      exact .posted ‹_› ‹_›
    · cases h
  | answer j came drop retry =>
    simp only [gatewayMachine, step] at h
    split at h
    · split at h <;> cases h
      exact .answered ‹_› ‹_›
    · cases h
  | retryAnswer j came =>
    simp only [gatewayMachine, step] at h
    split at h
    · split at h <;> cases h
      exact .probed ‹_› ‹_›
    · cases h
  | engine e =>
    obtain ⟨pause, hpause, rfl⟩ := Option.map_eq_some_iff.mp h
    exact .moved hpause
  | annotate j details =>
    simp only [gatewayMachine, step] at h
    split at h
    · split at h
      · split at h <;> cases h
        exact .annotated ‹_› ‹_› ‹_›
      · cases h
    · cases h

end GatewayWorld

end Cocos.Tools
