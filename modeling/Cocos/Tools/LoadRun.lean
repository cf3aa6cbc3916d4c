import Cocos.Orders
import Cocos.Tools.Detectors
import Cocos.Tools.Gateway
import Cocos.Tools.Invariants

namespace Cocos.Tools

open Cocos.Lib

/-!
# A load run

`tools/src/load/load.service.ts`: a run reads the mark, fires its waves of placements and cancels
at the target, and reads the rows back.

* `PlacingCall` — an order that is placed through the gateway: the request, the one retry of it,
  what the target stored for them, and how far the client has got;
* `CancelCall` — a cancel the run asks for;
* `Reply` — what a correct target answers;
* `Heard` — what the caller of a request is left with;
* `Tally`, `RunResult`, `LoadRun` — what the run keeps: of its own answers, and for its record;
* `LoadRun.acknowledged`, `LoadRun.unansweredIn` — the rows its check can name, and how many more
  it allows for.
-/

/-! ### Steps of a plan -/

/-- A step of a plan; a cancel carries the resting order that is placed where there is nothing to
    cancel. -/
inductive Step
  | place (order : SimOrder)
  | cancel (fallback : SimOrder)

/-- The order a step may place. -/
def Step.order : Step → SimOrder
  | .place order => order
  | .cancel fallback => fallback

abbrev Wave := List Step

/-- What is read off the body that is sent for an order. -/
def SimOrder.key (order : SimOrder) : OrderKey where
  userId := order.userId
  instrumentId := order.instrumentId
  side := order.side.text
  size := order.size
  type :=
    match order.type with
    | .MARKET => "MARKET"
    | .LIMIT _ => "LIMIT"

/-! ### Placements -/

/-- Who places an order: the load run, the loop, or the panel through the proxy. -/
inductive Client
  | load
  | simulation
  | proxy
deriving DecidableEq, Repr

/-- A request that places an order, and what the target has done with it. -/
structure Posted where
  call : KeyedCall
  /-- The row its handler committed, as it was committed. -/
  stored : Option OrderRow
  /-- It was answered with a refusal. -/
  refused : Bool
  /-- The row of the recorder. -/
  attemptId : Option Nat

/-- A request that goes out. -/
def Posted.fresh (call : KeyedCall) : Posted := ⟨call, none, false, none⟩

/-- How far the gateway and the client have got with a placement. -/
inductive Stage
  /-- Held back by chaos. -/
  | held
  | sent
  /-- Recorded as lost, and sent again. -/
  | retrying
  /-- The gateway is through with it. -/
  | returned (placed : Option PlacedResponse)
  /-- So is the client. -/
  | over (placed : Option PlacedResponse)
deriving DecidableEq, Repr

/-- An order that is placed through the gateway, under one key. -/
structure PlacingCall where
  client : Client
  first : Posted
  retry : Option Posted
  stage : Stage

namespace PlacingCall

/-- A placement that is taken on. -/
def fresh (client : Client) (call : KeyedCall) : PlacingCall := ⟨client, .fresh call, none, .held⟩

/-- The row the target holds under the key, as it was committed. -/
def stored (c : PlacingCall) : Option OrderRow := c.first.stored.or (c.retry.bind (·.stored))

/-- The request that is asked for: the first one, or the retry of it. -/
def request (c : PlacingCall) (again : Bool) : Option Posted :=
  if again then c.retry else some c.first

/-- The request is dealt with. -/
def setRequest (c : PlacingCall) (again : Bool) (p : Posted) : PlacingCall :=
  if again then { c with retry := some p } else { c with first := p }

@[simp] theorem client_setRequest (c : PlacingCall) (again : Bool) (p : Posted) :
    (c.setRequest again p).client = c.client := by
  cases again <;> rfl

@[simp] theorem stage_setRequest (c : PlacingCall) (again : Bool) (p : Posted) :
    (c.setRequest again p).stage = c.stage := by
  cases again <;> rfl

end PlacingCall

/-- `asPlacedOrder`: the order a body names. -/
def asPlacedOrder (v : OrderView) : Option PlacedResponse :=
  match v.status, v.size with
  | some status, some size => some ⟨v.id, status, size, v.price⟩
  | _, _ => none

/-- What a placement is told of a row. -/
def answerOf (row : OrderRow) : Option PlacedResponse :=
  match view row with
  | .ok v => asPlacedOrder v
  | .error _ => none

/-- What comes back of a request: the order that is stored under its key, a refusal, or nothing. -/
inductive Reply
  | order (status : Nat) (body : Option Body)
  | refusal (status : Nat) (body : Option Body)
  | nothing (message : String)

/-- The answer to a request of a placement, and the order it names; `none` where a correct target
    does not answer so. -/
def Reply.answer (reply : Reply) (c : PlacingCall) (p : Posted) :
    Option (Answer × Option PlacedResponse) :=
  match reply with
  | .order status body =>
    if status = 201 ∨ status = 200 then
      c.stored.map fun row => (⟨status, true, body, some row.id⟩, answerOf row)
    else none
  | .refusal status body =>
    -- a request that was refused has stored nothing
    if 400 ≤ status ∧ p.stored = none then some (⟨status, false, body, none⟩, none) else none
  | .nothing message => some (⟨0, false, some ⟨message, some message⟩, none⟩, none)

def Reply.refuses : Reply → Bool
  | .refusal _ _ => true
  | _ => false

/-- What the caller of a request is left with: whether the target refused it, what is recorded of
    the answer, and the order it names. -/
inductive Heard (c : PlacingCall) (p : Posted) : Bool → Answer → Option PlacedResponse → Prop
  | lost {refused answer} (hstatus : answer.status = 0)
      (hrefused : refused = true → p.stored = none) : Heard c p refused answer none
  | order {answer row} (hstatus : answer.status ≠ 0) (hid : answer.orderId = some row.id)
      (hrow : c.stored = some row) : Heard c p false answer (answerOf row)
  | refused {answer} (hstatus : answer.status ≠ 0) (hid : answer.orderId = none)
      (hstored : p.stored = none) : Heard c p true answer none

theorem heard_of_answer {reply : Reply} {c : PlacingCall} {p : Posted} {answer : Answer}
    {placed : Option PlacedResponse} (h : reply.answer c p = some (answer, placed)) :
    Heard c p reply.refuses answer placed := by
  cases reply with
  | order status body =>
    simp only [Reply.answer] at h
    split at h
    · rename_i hstatus
      obtain ⟨row, hrow, heq⟩ := Option.map_eq_some_iff.mp h
      cases heq
      exact .order (by show status ≠ 0; omega) rfl hrow
    · cases h
  | refusal status body =>
    simp only [Reply.answer] at h
    split at h
    · rename_i hcond
      cases h
      exact .refused (by show status ≠ 0; omega) rfl hcond.2
    · cases h
  | nothing message =>
    cases h
    exact .lost rfl (fun h => by cases h)

/-- An answer that chaos hides is a loss. -/
theorem Heard.hidden {c : PlacingCall} {p : Posted} {refused : Bool} {answer : Answer}
    {placed : Option PlacedResponse} (h : Heard c p refused answer placed) :
    Heard c p refused .hidden none := by
  refine .lost rfl fun hrefused => ?_
  cases h with
  | lost _ h => exact h hrefused
  | order => cases hrefused
  | refused _ _ h => exact h

/-! ### Cancels -/

inductive CancelStage
  | held
  | sent
  | over (status : Nat)
deriving DecidableEq, Repr

/-- A cancel the run asks for, and whether the target has performed it. -/
structure CancelCall where
  orderId : Int
  sentAt : Int
  performed : Option Bool
  stage : CancelStage

/-- What comes back of a cancel. -/
def Reply.cancelAnswer (reply : Reply) (c : CancelCall) : Option Answer :=
  match reply with
  | .order status body =>
    if status = 200 ∧ c.performed = some true then some ⟨status, true, body, none⟩ else none
  | .refusal status body =>
    if 400 ≤ status ∧ c.performed = some false then some ⟨status, false, body, none⟩ else none
  | .nothing message => some ⟨0, false, some ⟨message, some message⟩, none⟩

/-- The row a cancel is recorded under. -/
def CancelCall.attempt (c : CancelCall) (now : Int) (answer : Answer) (delayedMs : Int) :
    Attempt where
  id := 0
  sentAt := c.sentAt
  method := "PATCH"
  path := s!"/orders/{c.orderId}/cancel"
  latencyMs := now - c.sentAt + delayedMs
  status := answer.status
  ok := answer.ok
  sent := none
  body := answer.body
  expected := none
  actual := none
  orderId := none
  idempotencyKey := none
  chaos := if delayedMs > 0 then some ⟨some delayedMs, none, none, none⟩ else none

/-! ### The run -/

structure Cancels where
  requested : Nat
  cancelled : Nat
  conflicted : Nat
deriving DecidableEq, Repr

/-- What a run accumulates while it is being fired. -/
structure Tally where
  sent : Nat
  /-- The attempts not yet folded into the result. -/
  pending : List Nat
  latencies : List Int
  placements : List PlacedResponse
  resting : List Int
  cancelled : List Int
  cancels : Cancels

def Tally.empty : Tally := ⟨0, [], [], [], [], [], ⟨0, 0, 0⟩⟩

namespace Tally

/-- A call of the run is over. -/
def issued (tally : Tally) (attemptId : Nat) : Tally :=
  { tally with sent := tally.sent + 1, pending := tally.pending ++ [attemptId] }

/-- So is a placement, and this is the order it was answered with. -/
def place (tally : Tally) (attemptId : Nat) (placed : Option PlacedResponse) : Tally :=
  let tally := tally.issued attemptId
  match placed with
  | none => tally
  | some placed => { tally with
      placements := tally.placements ++ [placed]
      resting := if placed.status = "NEW" then tally.resting ++ [placed.orderId] else tally.resting }

/-- So is a cancel. -/
def cancel (tally : Tally) (attemptId : Nat) (orderId : Int) (answer : Answer) : Tally :=
  let tally := tally.issued attemptId
  let cancels := { tally.cancels with requested := tally.cancels.requested + 1 }
  if answer.ok then { tally with
    cancels := { cancels with cancelled := cancels.cancelled + 1 }
    cancelled := tally.cancelled ++ [orderId] }
  else if answer.status = 409 then { tally with
    cancels := { cancels with conflicted := cancels.conflicted + 1 } }
  else { tally with cancels := cancels }

end Tally

inductive RunPhase
  | placing
  | quiescing
  | checking
deriving DecidableEq, Repr

/-- The record of a run, as far as its waves write it. -/
structure RunResult where
  startedAt : Int
  phase : RunPhase
  sent : Nat
  byStatus : JsMap String Nat
  outcomes : JsMap String Nat
  shedding : Nat
  unanswered : Nat

/-- One more of a key. -/
def countOne (counts : JsMap String Nat) (key : String) : JsMap String Nat :=
  counts.set key ((counts.get? key).getD 0 + 1)

/-- One row of the recorder is folded into the result, if it is an attempt still pending. -/
def foldAttempt (acc : RunResult × Tally) (attempt : Attempt) : RunResult × Tally :=
  let (result, tally) := acc
  if attempt.id ∈ tally.pending then
    ({ result with
        byStatus := countOne result.byStatus (toString attempt.status)
        outcomes :=
          match attempt.actual with
          | some actual => countOne result.outcomes actual.text
          | none => result.outcomes },
      { tally with
        pending := tally.pending.erase attempt.id
        latencies := if attempt.status ≠ 0 then tally.latencies ++ [attempt.latencyMs]
          else tally.latencies })
  else acc

/-- A wave that has settled is folded out of the recorder. -/
def foldWave (store : AttemptsStore) (result : RunResult) (tally : Tally) : RunResult × Tally :=
  let (result, tally) := (store.recent ATTEMPTS_CAPACITY).foldl foldAttempt (result, tally)
  ({ result with
      sent := tally.sent
      shedding := (result.byStatus.get? "503").getD 0
      unanswered := (result.byStatus.get? "0").getD 0 }, tally)

/-- A run under way.  `firstAttempt` is the id the recorder gave out next when it was started. -/
structure LoadRun where
  result : RunResult
  tally : Tally
  firstAttempt : Nat
  highWaterMark : Option Int
  /-- The steps of the wave that are still to be fired, and the waves after it. -/
  due : Wave
  waves : List Wave
  rows : Option (List LedgerRow)

namespace LoadRun

/-- A run that is started. -/
def start (waves : List Wave) (now : Int) (nextId : Nat) : LoadRun where
  result := ⟨now, .placing, 0, .empty, .empty, 0, 0⟩
  tally := .empty
  firstAttempt := nextId
  highWaterMark := none
  due := []
  waves := waves
  rows := none

/-- The next wave, or the end of the last. -/
def next (run : LoadRun) : LoadRun :=
  match run.waves with
  | [] => { run with result := { run.result with phase := .quiescing } }
  | wave :: waves => { run with due := wave, waves := waves }

/-- The mark is read, before anything is placed. -/
def marked (run : LoadRun) (orders : Orders) : LoadRun :=
  LoadRun.next { run with highWaterMark := some (Tools.highWaterMark orders) }

/-- The wave has settled. -/
def fold (run : LoadRun) (store : AttemptsStore) : LoadRun :=
  let (result, tally) := foldWave store run.result run.tally
  LoadRun.next { run with result := result, tally := tally }

/-- The orders that were answered for: those the recorder still names, and the run's own. -/
def acknowledged (run : LoadRun) (store : AttemptsStore) : List Int :=
  (store.recent ATTEMPTS_CAPACITY).filterMap (·.orderId) ++ run.tally.placements.map (·.orderId)

/-- The placements that got no answer, from as long before the run as the target may take to
    store them. -/
def lost (run : LoadRun) (store : AttemptsStore) : List Attempt :=
  (store.recent ATTEMPTS_CAPACITY).filter fun attempt =>
    attempt.status = 0 ∧ attempt.method = "POST" ∧ route attempt.path = "/orders" ∧
      attempt.sentAt ≥ run.result.startedAt - LATE_COMMIT_MS

/-- How many rows there may be that nothing can name: `LoadService.unansweredIn`. -/
def unansweredIn (run : LoadRun) (store : AttemptsStore) : Nat :=
  (run.lost store).length + run.result.unanswered + run.tally.pending.length

end LoadRun

/-! ### What a fold leaves alone -/

theorem foldAttempt_eq (acc : RunResult × Tally) (attempt : Attempt) :
    ∃ byStatus outcomes pending latencies, foldAttempt acc attempt =
      ({ acc.1 with byStatus := byStatus, outcomes := outcomes },
        { acc.2 with pending := pending, latencies := latencies }) := by
  obtain ⟨result, tally⟩ := acc
  simp only [foldAttempt]
  split
  · exact ⟨_, _, _, _, rfl⟩
  · exact ⟨_, _, _, _, rfl⟩

/-- A fold moves attempts out of the pending ones, and is no answer to any call. -/
theorem foldWave_spec (store : AttemptsStore) (result : RunResult) (tally : Tally) :
    (∃ pending latencies, (foldWave store result tally).2 =
      { tally with pending := pending, latencies := latencies }) ∧
      (foldWave store result tally).1.startedAt = result.startedAt ∧
      (foldWave store result tally).1.phase = result.phase := by
  have key : ∀ (attempts : List Attempt) (acc : RunResult × Tally),
      (∃ pending latencies, (attempts.foldl foldAttempt acc).2 =
        { acc.2 with pending := pending, latencies := latencies }) ∧
        (attempts.foldl foldAttempt acc).1.startedAt = acc.1.startedAt ∧
        (attempts.foldl foldAttempt acc).1.phase = acc.1.phase := by
    intro attempts
    induction attempts with
    | nil => exact fun acc => ⟨⟨_, _, rfl⟩, rfl, rfl⟩
    | cons attempt attempts ih =>
      intro acc
      obtain ⟨b, o, p, l, heq⟩ := foldAttempt_eq acc attempt
      obtain ⟨⟨p', l', htally⟩, hstarted, hphase⟩ := ih (foldAttempt acc attempt)
      rw [heq] at htally hstarted hphase
      rw [List.foldl_cons, heq]
      exact ⟨⟨p', l', htally⟩, hstarted, hphase⟩
  exact key (store.recent ATTEMPTS_CAPACITY) (result, tally)

/-! ### What a fold counts -/

/-- How many calls there are counts of. -/
def counted (counts : JsMap String Nat) : Nat := (counts.entries.map Prod.snd).sum

theorem counted_countOne (counts : JsMap String Nat) (key : String) :
    counted (countOne counts key) = counted counts + 1 := by
  have hsum := JsMap.sum_set counts key ((counts.get? key).getD 0 + 1)
  unfold counted countOne
  omega

theorem counted_foldl (attempts : List Attempt) (acc : RunResult × Tally) :
    counted (attempts.foldl foldAttempt acc).1.byStatus +
        (attempts.foldl foldAttempt acc).2.pending.length =
      counted acc.1.byStatus + acc.2.pending.length := by
  induction attempts generalizing acc with
  | nil => rfl
  | cons attempt attempts ih =>
    rw [List.foldl_cons, ih]
    obtain ⟨result, tally⟩ := acc
    simp only [foldAttempt]
    split
    · rename_i hmem
      have hlength := List.length_erase_of_mem hmem
      have hpos := List.length_pos_of_mem hmem
      rw [counted_countOne, hlength]
      omega
    · rfl

theorem pending_foldl (attempts : List Attempt) {acc : RunResult × Tally}
    (hnodup : acc.2.pending.Nodup) : (attempts.foldl foldAttempt acc).2.pending =
      acc.2.pending.filter fun id => id ∉ attempts.map (·.id) := by
  induction attempts generalizing acc with
  | nil => simp
  | cons attempt attempts ih =>
    obtain ⟨result, tally⟩ := acc
    have hhead : (foldAttempt (result, tally) attempt).2.pending =
        tally.pending.filter (· ≠ attempt.id) := by
      simp only [foldAttempt]
      split
      · refine (hnodup.erase_eq_filter _).trans (List.filter_congr fun id _ => ?_)
        by_cases heq : id = attempt.id <;> simp [heq]
      · rename_i hmem
        refine (List.filter_eq_self.mpr fun id hid => decide_eq_true ?_).symm
        rintro rfl
        exact hmem hid
    rw [List.foldl_cons, ih (hhead ▸ hnodup.filter _), hhead, List.filter_filter]
    refine List.filter_congr fun id _ => ?_
    by_cases heq : id = attempt.id <;> simp [heq]

/-- **A fold counts what it takes out of the pending attempts.** -/
theorem counted_foldWave (store : AttemptsStore) (result : RunResult) (tally : Tally) :
    counted (foldWave store result tally).1.byStatus +
        (foldWave store result tally).2.pending.length =
      counted result.byStatus + tally.pending.length :=
  counted_foldl (store.recent ATTEMPTS_CAPACITY) (result, tally)

/-- **It takes out those the recorder still shows.** -/
theorem pending_foldWave (store : AttemptsStore) (result : RunResult) {tally : Tally}
    (hnodup : tally.pending.Nodup) : (foldWave store result tally).2.pending =
      tally.pending.filter fun id => id ∉ (store.recent ATTEMPTS_CAPACITY).map (·.id) :=
  pending_foldl (store.recent ATTEMPTS_CAPACITY) hnodup

namespace LoadRun

variable (run : LoadRun)

@[simp] theorem next_tally : run.next.tally = run.tally := by
  unfold next
  split <;> rfl

@[simp] theorem next_highWaterMark : run.next.highWaterMark = run.highWaterMark := by
  unfold next
  split <;> rfl

@[simp] theorem next_firstAttempt : run.next.firstAttempt = run.firstAttempt := by
  unfold next
  split <;> rfl

@[simp] theorem next_startedAt : run.next.result.startedAt = run.result.startedAt := by
  unfold next
  split <;> rfl

@[simp] theorem next_byStatus : run.next.result.byStatus = run.result.byStatus := by
  unfold next
  split <;> rfl

@[simp] theorem next_sent : run.next.result.sent = run.result.sent := by
  unfold next
  split <;> rfl

/-- After its last wave a run is to be stilled. -/
theorem next_phase (hphase : run.result.phase = .placing) (hdue : run.due = []) :
    run.next.result.phase = .placing ∨ run.next.result.phase = .quiescing ∧ run.next.due = [] := by
  unfold next
  split
  · exact .inr ⟨rfl, hdue⟩
  · exact .inl hphase

end LoadRun

end Cocos.Tools
