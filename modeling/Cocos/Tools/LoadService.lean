import Cocos.Tools.Firing
import Cocos.Tools.LoadChecks
import Cocos.Tools.RunFiles
import Cocos.Tools.Stats

namespace Cocos.Tools

open Cocos.Lib

/-!
# The load service

`LoadService` of `tools/src/load/load.service.ts`, from the request that starts a run to the last
statement of its `finally`, with the gateway and the target its waves are fired at.

* `RunRecord` — the record of a run, which outlives it;
* `LoadStage` — what the run under way waits for;
* `LoadService.start`, `execute` — the request, and the statements of a run between two awaits;
* `LoadEvent`, `loadService` — the steps: any await may end in an error, and whoever else uses the
  gateway goes on meanwhile;
* `Took`, `took_of_step` — **all a step can do**.

`round` is what a number keeps of an exact result.
-/

/-! ### The record of a run -/

inductive LoadPhase
  | placing
  | quiescing
  | checking
  | done
  | failed
deriving DecidableEq, Repr

def LoadPhase.text : LoadPhase → String
  | .placing => "placing"
  | .quiescing => "quiescing"
  | .checking => "checking"
  | .done => "done"
  | .failed => "failed"

def LoadMode.text : LoadMode → String
  | .burst => "burst"
  | .ramp => "ramp"
  | .contention => "contention"

structure LatencyMs where
  p50 : Int
  p95 : Int
  max : Int
  samples : Nat
deriving DecidableEq, Repr

/-- What the waves of a run add up to. -/
structure RunTotals where
  sent : Nat
  byStatus : JsMap String Nat
  latencyMs : LatencyMs
  outcomes : JsMap String Nat
  shedding : Nat
  unanswered : Nat
  cancels : Cancels

/-- The record of a run. -/
structure RunRecord where
  runId : String
  profile : LoadProfile
  startedAt : Int
  finishedAt : Option Int
  phase : LoadPhase
  totals : RunTotals
  quiesce : Option Quiesce
  invariants : List InvariantResult
  error : Option String

/-- An invariant that does not hold after a run, as it is recorded among the anomalies. -/
structure InvariantViolation where
  message : String
  runId : String
  invariant : String
  profile : LoadProfile

namespace RunRecord

/-- A run that begins. -/
def fresh (profile : LoadProfile) (now : Int) : RunRecord where
  runId := runIdFor s!"load-{profile.mode.text}" (toISOString now)
  profile := profile
  startedAt := now
  finishedAt := none
  phase := .placing
  totals := ⟨0, .empty, ⟨0, 0, 0, 0⟩, .empty, 0, 0, ⟨0, 0, 0⟩⟩
  quiesce := none
  invariants := []
  error := none

/-- What `report` records of it. -/
def violations (record : RunRecord) : List InvariantViolation :=
  (record.invariants.filter fun invariant => ¬invariant.pass).map fun invariant =>
    { message := s!"{invariant.name} does not hold after {record.runId}: {invariant.detail}"
      runId := record.runId
      invariant := invariant.name
      profile := record.profile }

end RunRecord

/-- The users a run places for. -/
def touched (profile : LoadProfile) : List Int :=
  if profile.mode = .contention then profile.users.take 1 else profile.users.eraseDups

/-! ### The service -/

/-- What the run under way waits for. -/
inductive LoadStage
  /-- The mark, and the shadows of its users. -/
  | marking
  | preparing
  /-- The answers to its waves. -/
  | firing
  /-- Its users to stand still, since an instant and for the next look. -/
  | stilling (since next : Int)
  | stilled
  /-- The balances of the users that are left, the rows, and the balances again. -/
  | reading (before : List ShadowUserSnapshot) (first : JsMap Int String) (left : List Int)
  | rereading (before : List ShadowUserSnapshot) (first second : JsMap Int String)
      (rows : List LedgerRow) (left : List Int)
  /-- The shadows again. -/
  | repreparing
  /-- Nothing but its `finally`. -/
  | settled

/-- The run under way: which of the records it writes to, and how far it has got. -/
structure LoadExecution where
  index : Nat
  stage : LoadStage

/-- The service, and what it works on.  `records` are the records of all its runs, which `held`
    refers to; `closed` is what the history was told, and `violations` what the anomalies were. -/
structure LoadService where
  firing : Firing
  profile : LoadProfile
  records : List RunRecord
  held : JsMap String Nat
  current : Option LoadExecution
  loadRunning : Bool
  violations : List InvariantViolation
  closed : List (String × RunRecord)

inductive LoadEvent
  /-- `POST /load/run`. -/
  | start (overrides : StartLoadDto)
  /-- The mark is read, or the shadows are seeded. -/
  | marked (answer : Except String Unit)
  | prepared (answer : Except String Unit)
  /-- A step of the gateway, the target or whoever uses them. -/
  | firing (e : FiringEvent)
  /-- A look at the shadows, and what is shown of them when the check begins. -/
  | poll (shadow : List ShadowUserSnapshot)
  | check (before : List ShadowUserSnapshot)
  /-- A balance is read, or the rows. -/
  | balance (cash : Option String)
  | rows (answer : Except String (List LedgerRow))
  /-- What is read is held against each other; `thrown` is what is thrown where it cannot be. -/
  | conclude (after : List ShadowUserSnapshot) (thrown : String)
  | close

/-- The step is one of the run, its calls included. -/
def FiringEvent.isOwn : FiringEvent → Bool
  | .fire .. | .post _ | .answer .. | .retryAnswer .. | .settle .. | .fold => true
  | .tick _ | .commit .. | .perform _ | .configure .. | .other _ | .annotate .. | .foreign _
  | .cancelled _ => false

def LoadEvent.isOwn : LoadEvent → Bool
  | .start _ => false
  | .firing e => e.isOwn
  | _ => true

/-- What the record shows of the waves so far. -/
def LoadRun.totals (round : ℚ → ℚ) (run : LoadRun) : RunTotals where
  sent := run.result.sent
  byStatus := run.result.byStatus
  -- a call is among the latencies once its wave was folded
  latencyMs :=
    { p50 := percentile round run.tally.latencies (1 / 2)
      p95 := percentile round run.tally.latencies (round (95 / 100))
      max := percentile round run.tally.latencies 1
      samples := run.tally.latencies.length }
  outcomes := run.result.outcomes
  shedding := run.result.shedding
  unanswered := run.result.unanswered
  cancels := run.tally.cancels

/-- A balance that was answered with is kept. -/
def keepCash (read : JsMap Int String) (u : Int) : Option String → JsMap Int String
  | some cash => read.set u cash
  | none => read

namespace LoadService

def RUNS_KEPT : Nat := 20

/-- The service as it is constructed, in front of some target. -/
def initial (firing : Firing) : LoadService :=
  ⟨firing, DEFAULT_PROFILE, [], .empty, none, false, [], []⟩

/-- `keep`: the newest runs are held. -/
def keep (held : JsMap String Nat) (runId : String) (index : Nat) : JsMap String Nat :=
  let held := held.set runId index
  (held.keys.take (held.keys.length - RUNS_KEPT)).foldl JsMap.delete held

/-- The record of the run with an id, where it is held. -/
def result (s : LoadService) (runId : String) : Except String RunRecord :=
  match (s.held.get? runId).bind (s.records[·]?) with
  | some record => .ok record
  | none => .error s!"No load run {runId} is held in memory"

/-- A request to start a run. -/
def start (s : LoadService) (overrides : StartLoadDto) : Except String LoadService :=
  match s.current with
  | some run =>
    match s.records[run.index]? with
    | some record => .error s!"Load run {record.runId} is already {record.phase.text}"
    | none => .error ""
  | none =>
    let profile := s.profile.overridden overrides
    let record := RunRecord.fresh profile s.firing.clock
    .ok { s with
      profile := profile
      records := s.records ++ [record]
      held := keep s.held record.runId s.records.length
      current := some ⟨s.records.length, .marking⟩
      loadRunning := true }

/-- The run writes to its record, and waits for what comes next. -/
def go (s : LoadService) (run : LoadExecution) (stage : LoadStage) (write : RunRecord → RunRecord) :
    LoadService :=
  { s with records := s.records.modify run.index write, current := some ⟨run.index, stage⟩ }

/-- An await ends in an error: the `catch` of `start`. -/
def fail (s : LoadService) (run : LoadExecution) (message : String) : LoadService :=
  s.go run .settled fun record => { record with phase := .failed, error := some message }

/-- The waves of a profile, with the mark read off the committed orders. -/
def marked (s : LoadService) (round : ℚ → ℚ) (record : RunRecord) : Firing :=
  { s.firing with
    calls := []
    run := (LoadRun.start (planWaves round record.profile) record.startedAt
      s.firing.store.nextId).marked s.firing.orders }

/-- What is checked once everything is read. -/
def evidence (s : LoadService) (users : List Int) (before after : List ShadowUserSnapshot)
    (first second : JsMap Int String) (rows : List LedgerRow) : RunEvidence where
  rows := rows
  highWaterMark := s.firing.run.highWaterMark.getD 0
  apiCash := stillCash users first second
  shadowCash := comparable before after users
  placements := s.firing.run.tally.placements
  acknowledged := s.firing.run.acknowledged s.firing.store
  unanswered := s.firing.run.unansweredIn s.firing.store
  cancelled := s.firing.run.tally.cancelled

/-- The invariants are checked, and reported. -/
def concluded (s : LoadService) (run : LoadExecution) (record : RunRecord)
    (results : List InvariantResult) : LoadService :=
  { s.go run .repreparing fun record => { record with invariants := results } with
    violations := s.violations ++ { record with invariants := results }.violations }

/-- The `finally` of `start`. -/
def finished (s : LoadService) (run : LoadExecution) (record : RunRecord) : LoadService :=
  let record := { record with finishedAt := some s.firing.clock }
  { s with
    records := s.records.set run.index record
    current := none
    loadRunning := false
    closed := s.closed ++ [(record.runId, record)] }

/-- A step of the run under way, `none` where it does not wait for that. -/
def execute (round : ℚ → ℚ) (s : LoadService) (run : LoadExecution) (record : RunRecord) :
    LoadEvent → Option LoadService
  | .marked answer =>
    match run.stage, answer with
    | .marking, .ok _ => some { s.go run .preparing id with firing := s.marked round record }
    | .marking, .error message => some (s.fail run message)
    | _, _ => none
  | .prepared answer =>
    match run.stage, answer with
    | .preparing, .ok _ => some (s.go run .firing id)
    | .repreparing, .ok _ => some (s.go run .settled fun record => { record with phase := .done })
    | .preparing, .error message | .repreparing, .error message => some (s.fail run message)
    | _, _ => none
  | .firing e =>
    match run.stage with
    | .firing =>
      (Cocos.Tools.firing.step s.firing e).map fun firing =>
        let totals := firing.run.totals round
        if firing.run.result.phase = .placing then
          { s.go run .firing fun record => { record with totals := totals } with firing := firing }
        else
          { s.go run (.stilling firing.clock firing.clock) fun record =>
              { record with totals := totals, phase := .quiescing } with firing := firing }
    | _ => none
  | .poll shadow =>
    match run.stage with
    | .stilling since next =>
      if next ≤ s.firing.clock then
        match quiesced shadow (touched record.profile) since s.firing.clock with
        | some q => some (s.go run .stilled fun record => { record with quiesce := some q })
        | none => some (s.go run (.stilling since (s.firing.clock + QUIESCE_POLL_MS)) id)
      else none
    | _ => none
  | .check before =>
    match run.stage with
    | .stilled => some (s.go run (.reading before .empty (touched record.profile))
        fun record => { record with phase := .checking })
    | _ => none
  | .balance cash =>
    match run.stage with
    | .reading before first (u :: left) =>
      some (s.go run (.reading before (keepCash first u cash) left) id)
    | .rereading before first second rows (u :: left) =>
      some (s.go run (.rereading before first (keepCash second u cash) rows left) id)
    | _ => none
  | .rows answer =>
    match run.stage, answer with
    | .reading before first [], .ok rows =>
      some (s.go run (.rereading before first .empty rows (touched record.profile)) id)
    | .reading _ _ [], .error message => some (s.fail run message)
    | _, _ => none
  | .conclude after thrown =>
    match run.stage with
    | .rereading before first second rows [] =>
      match checkInvariants (s.evidence (touched record.profile) before after first second rows) with
      | some results => some (s.concluded run record results)
      | none => some (s.fail run thrown)
    | _ => none
  | .close =>
    match run.stage with
    | .settled => some (s.finished run record)
    | _ => none
  | .start _ => none

/-- One step, `none` where it is not enabled or refused. -/
def step (round : ℚ → ℚ) (s : LoadService) (e : LoadEvent) : Option LoadService :=
  match e with
  | .start overrides => (s.start overrides).toOption
  | .firing e =>
    if e.isOwn then
      s.current.bind fun run => s.records[run.index]?.bind fun record =>
        s.execute round run record (.firing e)
    else (Cocos.Tools.firing.step s.firing e).map fun firing => { s with firing := firing }
  | e => s.current.bind fun run => s.records[run.index]?.bind fun record =>
      s.execute round run record e

end LoadService

/-- The load service, and whoever else uses the gateway. -/
def loadService (round : ℚ → ℚ) : Machine LoadService LoadEvent := ⟨LoadService.step round⟩

namespace LoadService

/-! ### What a step can do -/

/-- The run under way writes to this record. -/
def Runs (s : LoadService) (run : LoadExecution) (record : RunRecord) : Prop :=
  s.current = some run ∧ s.records[run.index]? = some record

/-- All a step can do. -/
inductive Took (round : ℚ → ℚ) (s : LoadService) : LoadEvent → LoadService → Prop
  | started {overrides} (hidle : s.current = none) :
      Took round s (.start overrides) { s with
        profile := s.profile.overridden overrides
        records := s.records ++ [.fresh (s.profile.overridden overrides) s.firing.clock]
        held := keep s.held (RunRecord.fresh (s.profile.overridden overrides) s.firing.clock).runId
          s.records.length
        current := some ⟨s.records.length, .marking⟩
        loadRunning := true }
  | beside {e firing} (hother : e.isOwn = false)
      (hstep : Cocos.Tools.firing.step s.firing e = some firing) :
      Took round s (.firing e) { s with firing := firing }
  | marked {run record answer} (hruns : s.Runs run record) (hstage : run.stage = .marking) :
      Took round s (.marked answer) { s.go run .preparing id with firing := s.marked round record }
  | prepared {run record answer} (hruns : s.Runs run record) (hstage : run.stage = .preparing) :
      Took round s (.prepared answer) (s.go run .firing id)
  | fired {run record e firing} (hruns : s.Runs run record) (hstage : run.stage = .firing)
      (hown : e.isOwn = true) (hstep : Cocos.Tools.firing.step s.firing e = some firing)
      (hphase : firing.run.result.phase = .placing) :
      Took round s (.firing e) { s.go run .firing fun record =>
        { record with totals := firing.run.totals round } with firing := firing }
  | placed {run record e firing} (hruns : s.Runs run record) (hstage : run.stage = .firing)
      (hown : e.isOwn = true) (hstep : Cocos.Tools.firing.step s.firing e = some firing)
      (hphase : firing.run.result.phase ≠ .placing) :
      Took round s (.firing e) { s.go run (.stilling firing.clock firing.clock) fun record =>
        { record with totals := firing.run.totals round, phase := .quiescing } with
          firing := firing }
  | looked {run record shadow since next} (hruns : s.Runs run record)
      (hstage : run.stage = .stilling since next) (hnext : next ≤ s.firing.clock)
      (hq : quiesced shadow (touched record.profile) since s.firing.clock = none) :
      Took round s (.poll shadow)
        (s.go run (.stilling since (s.firing.clock + QUIESCE_POLL_MS)) id)
  | stilled {run record shadow since next q} (hruns : s.Runs run record)
      (hstage : run.stage = .stilling since next)
      (hq : quiesced shadow (touched record.profile) since s.firing.clock = some q) :
      Took round s (.poll shadow)
        (s.go run .stilled fun record => { record with quiesce := some q })
  | checking {run record before} (hruns : s.Runs run record) (hstage : run.stage = .stilled) :
      Took round s (.check before) (s.go run (.reading before .empty (touched record.profile))
        fun record => { record with phase := .checking })
  | read {run record before first u left cash} (hruns : s.Runs run record)
      (hstage : run.stage = .reading before first (u :: left)) :
      Took round s (.balance cash) (s.go run (.reading before (keepCash first u cash) left) id)
  | rows {run record before first rows} (hruns : s.Runs run record)
      (hstage : run.stage = .reading before first []) :
      Took round s (.rows (.ok rows))
        (s.go run (.rereading before first .empty rows (touched record.profile)) id)
  | reread {run record before first second rows u left cash} (hruns : s.Runs run record)
      (hstage : run.stage = .rereading before first second rows (u :: left)) :
      Took round s (.balance cash)
        (s.go run (.rereading before first (keepCash second u cash) rows left) id)
  | concluded {run record before first second rows after thrown results}
      (hruns : s.Runs run record) (hstage : run.stage = .rereading before first second rows [])
      (hresults : checkInvariants
        (s.evidence (touched record.profile) before after first second rows) = some results) :
      Took round s (.conclude after thrown) (s.concluded run record results)
  | reprepared {run record answer} (hruns : s.Runs run record) (hstage : run.stage = .repreparing) :
      Took round s (.prepared answer) (s.go run .settled fun record => { record with phase := .done })
  | failed {run record e message} (hruns : s.Runs run record) (hstage : run.stage ≠ .settled)
      (hown : e.isOwn = true) : Took round s e (s.fail run message)
  | closed {run record} (hruns : s.Runs run record) (hstage : run.stage = .settled) :
      Took round s .close (s.finished run record)

/-- What the run under way can do. -/
theorem took_of_execute {round : ℚ → ℚ} {s s' : LoadService} {run : LoadExecution}
    {record : RunRecord} {e : LoadEvent} (hruns : s.Runs run record)
    (hown : e.isOwn = true) (h : s.execute round run record e = some s') : Took round s e s' := by
  cases e with
  | start => cases h
  | marked answer =>
    simp only [execute] at h
    split at h <;> cases h
    · exact .marked hruns ‹_›
    · exact .failed hruns (by simp [*]) rfl
  | prepared answer =>
    simp only [execute] at h
    split at h <;> cases h
    · exact .prepared hruns ‹_›
    · exact .reprepared hruns ‹_›
    · exact .failed hruns (by simp [*]) rfl
    · exact .failed hruns (by simp [*]) rfl
  | firing e =>
    simp only [execute] at h
    split at h
    · obtain ⟨firing, hstep, rfl⟩ := Option.map_eq_some_iff.mp h
      split
      · exact .fired hruns ‹_› hown hstep ‹_›
      · exact .placed hruns ‹_› hown hstep ‹_›
    · cases h
  | poll shadow =>
    simp only [execute] at h
    split at h
    · split at h
      · split at h <;> cases h
        · exact .stilled hruns ‹_› ‹_›
        · exact .looked hruns ‹_› ‹_› ‹_›
      · cases h
    · cases h
  | check before =>
    simp only [execute] at h
    split at h <;> cases h
    exact .checking hruns ‹_›
  | balance cash =>
    simp only [execute] at h
    split at h <;> cases h
    · exact .read hruns ‹_›
    · exact .reread hruns ‹_›
  | rows answer =>
    simp only [execute] at h
    split at h <;> cases h
    · exact .rows hruns ‹_›
    · exact .failed hruns (by simp [*]) rfl
  | conclude after thrown =>
    simp only [execute] at h
    split at h
    · split at h <;> cases h
      · exact .concluded hruns ‹_› ‹_›
      · exact .failed hruns (by simp [*]) rfl
    · cases h
  | close =>
    simp only [execute] at h
    split at h <;> cases h
    exact .closed hruns ‹_›

/-- **All a step can do.** -/
theorem took_of_step {round : ℚ → ℚ} {s s' : LoadService} {e : LoadEvent}
    (h : (loadService round).step s e = some s') : Took round s e s' := by
  have hexecute : ∀ {e}, e.isOwn = true → (s.current.bind fun run =>
      s.records[run.index]?.bind fun record => s.execute round run record e) = some s' →
      Took round s e s' := by
    intro e hown h
    obtain ⟨run, hcurrent, h⟩ := Option.bind_eq_some_iff.mp h
    obtain ⟨record, hrecord, h⟩ := Option.bind_eq_some_iff.mp h
    exact took_of_execute ⟨hcurrent, hrecord⟩ hown h
  cases e with
  | start overrides =>
    simp only [loadService, step, start] at h
    split at h
    · split at h <;> cases h
    · cases h
      exact .started ‹_›
  | firing e =>
    simp only [loadService, step] at h
    split at h
    · exact hexecute ‹_› h
    · rename_i hother
      obtain ⟨firing, hstep, rfl⟩ := Option.map_eq_some_iff.mp h
      exact .beside (Bool.eq_false_iff.mpr hother) hstep
  | marked | prepared | poll | check | balance | rows | conclude | close => exact hexecute rfl h

end LoadService

end Cocos.Tools
