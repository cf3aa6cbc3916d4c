import Cocos.Lib.JsText
import Cocos.Tools.Attempts

namespace Cocos.Tools

open Cocos.Lib

/-!
# The rules of the back-office

`tools/src/backoffice/detectors.ts` and `anomaly.ts`: small functions from a row of the recorder,
and what the back-office knows beyond it, to a finding.

* `DETECTORS` — the rules that speak of a row alone;
* `lostCandidate`, `reconcilableAt` — a placement that was never answered, and when the target
  cannot store it any more;
* `RECONCILED_DETECTORS` — the rules that speak of it and of what the database holds then;
* `driftFindings` — the shadows' balances and the API's;
* `shedding_findings_iff` — the rows that are found to be shed when they should not have been.

An instant in the context of a finding is kept as its number of milliseconds.
-/

inductive Severity
  | info
  | warning
  | critical
deriving DecidableEq, Repr

/-- An order as the database holds it. -/
structure DbOrder where
  id : Int
  status : String
  datetime : Int
deriving DecidableEq, Repr

/-- An order, and whether some row of the recorder carries its id. -/
structure MatchedOrder where
  order : DbOrder
  acknowledged : Bool
deriving DecidableEq, Repr

/-- What the context of a finding holds under a name. -/
inductive Datum
  | number (n : Int)
  | text (s : String)
  /-- A text that may have been cut between the two units of a character. -/
  | units (s : List UInt16)
  | instant (ms : Int)
  | status (expected : Option Expectation) (actual : Option OrderStatus)
  | body (b : Option Body)
  | sent (order : Option OrderKey)
  | matched (orders : List MatchedOrder)
  | undefined
deriving DecidableEq, Repr

structure Finding where
  rule : String
  severity : Severity
  message : String
  context : List (String × Datum)
deriving DecidableEq, Repr

/-- What the back-office knows beyond the row. -/
structure DetectorContext where
  latencyThresholdMs : Int
  quietSince : Option Int

/-- A rule about a row. -/
abbrev Detector := Attempt → DetectorContext → Option Finding

/-! ### Rules about a row -/

/-- A slow answer; a call that was never answered is no slow one. -/
def latencyHigh : Detector := fun attempt context =>
  if attempt.status ≠ 0 ∧ attempt.latencyMs > context.latencyThresholdMs then
    some {
      rule := "latency_high"
      severity := .warning
      message := s!"{attempt.method} {attempt.path} answered in {attempt.latencyMs}ms, past the {context.latencyThresholdMs}ms threshold"
      context := [("latencyMs", .number attempt.latencyMs),
        ("latencyThresholdMs", .number context.latencyThresholdMs)] }
  else none

def BODY_LIMIT : Nat := 500

/-- A body of at most five hundred UTF-16 units, or the beginning of a longer one. -/
def brief (body : Option Body) : Datum :=
  match body with
  | some b =>
    let text := codeUnits b.text
    if text.length ≤ BODY_LIMIT then .body body
    else .units (text.take BODY_LIMIT ++ codeUnits s!"… ({text.length} characters)")
  | none => .body none

def transportMessage (body : Option Body) : String := (body.bind (·.message)).getD "no answer"

/-- A call that failed; a 503 is the target shedding load and no failure. -/
def http5xx : Detector := fun attempt _ =>
  if attempt.status = 503 ∨ (attempt.status ≠ 0 ∧ attempt.status < 500) then none
  else some {
    rule := "http_5xx"
    severity := .critical
    message :=
      if attempt.status = 0 then
        s!"{attempt.method} {attempt.path} never answered: {transportMessage attempt.body}"
      else s!"{attempt.method} {attempt.path} answered {attempt.status}"
    context := [("status", .number attempt.status), ("body", brief attempt.body)] }

/-- A 503 to a call sent since the harness was seen driving nothing. -/
def unexpectedShedding : Detector := fun attempt context =>
  match context.quietSince with
  | none => none
  | some quietSince =>
    if attempt.status = 503 ∧ attempt.sentAt ≥ quietSince then
      some {
        rule := "unexpected_shedding"
        severity := .warning
        message := s!"{attempt.method} {attempt.path} was shed with a 503 while neither the simulation nor a load run was driving the target"
        context := [("status", .number attempt.status), ("quietSince", .instant quietSince)] }
    else none

def Expectation.text : Expectation → String
  | .FILLED => "FILLED"
  | .REJECTED => "REJECTED"
  | .UNKNOWN => "UNKNOWN"

/-- An answer other than the one expected, where both are known. -/
def unexpectedStatus : Detector := fun attempt _ =>
  match attempt.expected, attempt.actual with
  | some expected, some actual =>
    if expected ≠ .UNKNOWN ∧ expected.text ≠ actual.text then
      some {
        rule := "unexpected_status"
        severity := .critical
        message := s!"The rules say this order was {expected.text}, the API answered {actual.text}"
        context := [("expected", .status (some expected) none), ("actual", .status none (some actual)),
          ("orderId", (attempt.orderId.map Datum.number).getD .undefined),
          ("sent", .sent attempt.sent)] }
    else none
  | _, _ => none

def DETECTORS : List Detector := [latencyHigh, http5xx, unexpectedShedding, unexpectedStatus]

/-- What the rules find in a row. -/
def findings (attempt : Attempt) (context : DetectorContext) : List Finding :=
  DETECTORS.filterMap fun detect => detect attempt context

section RowRules

variable {attempt : Attempt} {context : DetectorContext} {finding : Finding}

theorem mem_findings_iff : finding ∈ findings attempt context ↔
    latencyHigh attempt context = some finding ∨ http5xx attempt context = some finding ∨
      unexpectedShedding attempt context = some finding ∨
      unexpectedStatus attempt context = some finding := by
  simp [findings, DETECTORS, List.mem_filterMap]

/-! Each rule names itself. -/

theorem rule_latencyHigh (h : latencyHigh attempt context = some finding) :
    finding.rule = "latency_high" := by
  unfold latencyHigh at h
  split at h <;> cases h
  rfl

theorem rule_http5xx (h : http5xx attempt context = some finding) :
    finding.rule = "http_5xx" := by
  unfold http5xx at h
  split at h <;> cases h
  rfl

theorem rule_unexpectedStatus (h : unexpectedStatus attempt context = some finding) :
    finding.rule = "unexpected_status" := by
  unfold unexpectedStatus at h
  split at h
  · split at h <;> cases h
    rfl
  · cases h

theorem unexpectedShedding_spec (h : unexpectedShedding attempt context = some finding) :
    finding.rule = "unexpected_shedding" ∧ ∃ quietSince, context.quietSince = some quietSince ∧
      attempt.status = 503 ∧ quietSince ≤ attempt.sentAt := by
  unfold unexpectedShedding at h
  split at h
  · cases h
  · rename_i quietSince hquiet
    split at h
    · rename_i hcond
      cases h
      exact ⟨rfl, quietSince, hquiet, hcond.1, hcond.2⟩
    · cases h

/-- **Shedding is found where it is unexpected**: a 503 to a call sent since the quiet mark. -/
theorem shedding_findings_iff :
    (∃ finding ∈ findings attempt context, finding.rule = "unexpected_shedding") ↔
      ∃ quietSince, context.quietSince = some quietSince ∧ attempt.status = 503 ∧
        quietSince ≤ attempt.sentAt := by
  constructor
  · rintro ⟨finding, hmem, hrule⟩
    rcases mem_findings_iff.mp hmem with h | h | h | h
    · exact absurd ((rule_latencyHigh h).symm.trans hrule) (by decide)
    · exact absurd ((rule_http5xx h).symm.trans hrule) (by decide)
    · exact (unexpectedShedding_spec h).2
    · exact absurd ((rule_unexpectedStatus h).symm.trans hrule) (by decide)
  · rintro ⟨quietSince, hquiet, h503, hsince⟩
    obtain ⟨finding, hfound⟩ : ∃ finding, unexpectedShedding attempt context = some finding := by
      unfold unexpectedShedding
      rw [hquiet]
      exact ⟨_, if_pos ⟨h503, hsince⟩⟩
    exact ⟨finding, mem_findings_iff.mpr (.inr (.inr (.inl hfound))),
      (unexpectedShedding_spec hfound).1⟩

end RowRules

/-! ### Rules about an order that was never answered -/

/-- The target's own ceiling for storing a row, from the moment its handler starts. -/
def TARGET_CEILING_MS : Int := 15000

/-- Transit and clock rounding on top of the ceiling. -/
def MATCH_SLACK_MS : Int := 1000

/-- Measured from the send. -/
def LATE_COMMIT_MS : Int := TARGET_CEILING_MS + MATCH_SLACK_MS

/-- What a lost placement can be looked up by. -/
structure LostPlacement where
  userId : Int
  idempotencyKey : String
deriving DecidableEq, Repr

/-- A placement that was never answered, if it can be looked up. -/
def lostCandidate (attempt : Attempt) : Option LostPlacement :=
  if attempt.status = 0 ∧ isOrderPlacement attempt.method attempt.path then
    match attempt.sent, attempt.idempotencyKey with
    | some order, some key => some ⟨order.userId, key⟩
    | _, _ => none
  else none

/-- The moment the target can store no row for the call any more. -/
def reconcilableAt (attempt : Attempt) : Int := attempt.sentAt + LATE_COMMIT_MS

/-- What the database says of a placement that was never answered. -/
def lostOrder (attempt : Attempt) (found : List MatchedOrder) : Finding :=
  let named := ", ".intercalate (found.map fun o => s!"{o.order.id} ({o.order.status})")
  let call := s!"{attempt.method} {attempt.path}"
  {
    rule := "lost_order"
    severity := if found = [] then .critical else .warning
    message :=
      if found = [] then
        s!"{call} never answered and the database holds no order for its idempotency key: sent but never processed"
      else if found.all (·.acknowledged) then
        s!"{call} never answered but order {named} was replayed under the same idempotency key: recovered, not lost"
      else s!"{call} never answered but order {named} exists: processed but unacknowledged"
    context := [("sent", .sent attempt.sent), ("matched", .matched found)] }

/-- A rule about a row and what the database holds for it. -/
abbrev ReconciledDetector := Attempt → List MatchedOrder → Option Finding

/-- What names a logical order. -/
def logicalKey (sent : Option OrderKey) : Option String :=
  sent.map fun key => s!"{key.userId}/{key.instrumentId}/{key.side}/{key.size}/{key.type}"

/-- A retry that was executed again. -/
def duplicateExecution : ReconciledDetector := fun attempt found =>
  match attempt.idempotencyKey, attempt.chaos.bind (·.retriedBy) with
  | some key, some retriedBy =>
    if found.length < 2 then none
    else
      let fills := found.filter fun o => o.order.status = "FILLED"
      let order := logicalKey attempt.sent
      let named := order.getD "unrecognised"
      some {
        rule := "duplicate_execution"
        severity := .critical
        message := s!"One logical order ({named}) was sent twice under idempotency key {key} after its response was dropped, and the database holds {found.length} rows for it, {fills.length} of them FILLED: the API did not recognise its own key"
        context := [("order", (order.map Datum.text).getD .undefined),
          ("idempotencyKey", .text key), ("rows", .matched found),
          ("retriedBy", .number retriedBy),
          ("droppedStatus", ((attempt.chaos.bind (·.droppedStatus)).map fun status =>
            Datum.number status).getD .undefined)] }
  | _, _ => none

def RECONCILED_DETECTORS : List ReconciledDetector :=
  [fun attempt found => some (lostOrder attempt found), duplicateExecution]

/-- What the rules find in a placement that was never answered. -/
def reconciledFindings (attempt : Attempt) (found : List MatchedOrder) : List Finding :=
  RECONCILED_DETECTORS.filterMap fun detect => detect attempt found

/-- With nothing in the database there is one finding, and it is critical. -/
theorem reconciledFindings_nil (attempt : Attempt) :
    reconciledFindings attempt [] = [lostOrder attempt []] := by
  have hsingle : duplicateExecution attempt [] = none := by
    unfold duplicateExecution
    split
    · exact if_pos (by decide)
    · rfl
  simp [reconciledFindings, RECONCILED_DETECTORS, hsingle]

/-- A critical verdict is one of nothing found. -/
theorem lostOrder_critical_iff {attempt : Attempt} {found : List MatchedOrder} :
    (lostOrder attempt found).severity = .critical ↔ found = [] := by
  unfold lostOrder
  split <;> simp_all

/-! ### The rule about a balance -/

/-- One user's shadow before and after the API was asked: `none` where the two sides cannot be
    compared, and otherwise what the comparison finds. -/
def drift (later : JsMap Int ShadowUserSnapshot) (apiCash : JsMap Int String)
    (user : ShadowUserSnapshot) : Option (Option Finding) :=
  match later.get? user.userId, apiCash.get? user.userId with
  | some after, some api =>
    if ¬user.settled ∨ ¬after.settled ∨ user.cash ≠ after.cash then none
    else if user.cash = api then some none
    else some <| some {
      rule := "balance_drift"
      severity := .critical
      message := s!"User {user.userId} cash drifted: the shadow says {user.cash}, the API says {api}"
      context := [("userId", .number user.userId), ("shadow", .text user.cash),
        ("api", .text api)] }
  | _, _ => none

/-- How many users could be compared, and what that found. -/
def driftFindings (before after : List ShadowUserSnapshot) (apiCash : JsMap Int String) :
    Nat × List Finding :=
  let compared := before.filterMap
    (drift (.ofEntries (after.map fun user => (user.userId, user))) apiCash)
  (compared.length, compared.filterMap id)

end Cocos.Tools
