import Cocos.Lib.Fanout
import Cocos.Lib.Lists
import Cocos.Tools.Anomalies
import Cocos.Tools.RunFiles

namespace Cocos.Tools

open Cocos.Lib

/-!
# The runs on a disk that fails

`tools/src/history/history.service.ts` with its error paths.  A directory may be refused when a run
is opened, a write may be refused when a row is appended, and a stream or the manifest may fail
later.  The run is then given up: it is dropped from the open ones, and an anomaly says so, which is
a row itself, appended to every run that is open, possibly in the middle of another row.

* `TraceRow`, `attemptsIn`, `anomaliesIn` — the rows of the two files;
* `writeFailed`, `Anomaly.disowned` — the anomaly, and the run it names;
* `DiskHistory`, `DiskEvent`, `failingDisk` — the recorder, the history and the event loop, with the
  disk as a parameter;
* `Files`, `files_step` — **what a step leaves in the files**;
* `failures_contained` — **a run that was given up is reported once, and all the others have every
  row of their window**.
-/

/-! ### Rows -/

/-- A line of one of the two files of a run. -/
inductive TraceRow
  | attempt (row : Attempt)
  | anomaly (row : Anomaly)

def TraceRow.attempt? : TraceRow → Option Attempt
  | .attempt row => some row
  | .anomaly _ => none

def TraceRow.anomaly? : TraceRow → Option Anomaly
  | .attempt _ => none
  | .anomaly row => some row

/-- What is in `attempts.jsonl`. -/
def attemptsIn (rows : List TraceRow) : List Attempt := rows.filterMap TraceRow.attempt?

/-- What is in `anomalies.jsonl`. -/
def anomaliesIn (rows : List TraceRow) : List Anomaly := rows.filterMap TraceRow.anomaly?

@[simp] theorem attemptsIn_append (rows rows' : List TraceRow) :
    attemptsIn (rows ++ rows') = attemptsIn rows ++ attemptsIn rows' := List.filterMap_append

@[simp] theorem anomaliesIn_append (rows rows' : List TraceRow) :
    anomaliesIn (rows ++ rows') = anomaliesIn rows ++ anomaliesIn rows' := List.filterMap_append

/-- The rule a run that is given up is reported under. -/
def HISTORY_WRITE_FAILED : String := "history_write_failed"

/-- What is reported of a run that is given up. -/
def writeFailed (runId error : String) : Finding where
  rule := HISTORY_WRITE_FAILED
  severity := .warning
  message := s!"Run {runId} is no longer being written to disk: {error}"
  context := [("runId", .text runId)]

/-- The run an anomaly reports as given up. -/
def Anomaly.disowned (anomaly : Anomaly) : Option String :=
  if anomaly.rule = HISTORY_WRITE_FAILED then
    match anomaly.context.get? "runId" with
    | some (.datum (.text runId)) => some runId
    | _ => none
  else none

/-- **The report names the run.** -/
theorem disowned_writeFailed (runId error : String) (id : Nat) (active : List ChaosMode)
    (now : Int) : ((writeFailed runId error).stamped id active now).disowned = some runId := by
  have hget : ((writeFailed runId error).noted active).get? "runId" =
      some (.datum (.text runId)) := by
    simp [Finding.noted, writeFailed, JsMap.ofEntries, JsMap.get?_set]
  refine (if_pos rfl).trans ?_
  show (match ((writeFailed runId error).noted active).get? "runId" with
    | some (.datum (.text runId)) => some runId
    | _ => none) = some runId
  rw [hget]

theorem disowned_of_ne {finding : Finding} (h : finding.rule ≠ HISTORY_WRITE_FAILED) (id : Nat)
    (active : List ChaosMode) (now : Int) : (finding.stamped id active now).disowned = none :=
  if_neg h

/-! ### The recorder, the history and the event loop -/

/-- What the clock and the chaos engine say when something happens. -/
structure Moment where
  active : List ChaosMode
  now : Int

/-- An anomaly is recorded under the id that follows those of all before it. -/
def Moment.anomaly (moment : Moment) (finding : Finding) (log : List TraceRow) : TraceRow :=
  .anomaly (finding.stamped ((anomaliesIn log).length + 1) moment.active moment.now)

/-- How a run that is given up is reported. -/
def Moment.notice (moment : Moment) (runId error : String) (log : List TraceRow) : TraceRow :=
  moment.anomaly (writeFailed runId error) log

/-- What a run's files should hold: what was handed over from its open until it was finished. -/
structure TraceWindow where
  runId : String
  rows : List TraceRow
  finished : Bool

def TraceWindow.hear (w : TraceWindow) (rows : List TraceRow) : TraceWindow :=
  if w.finished then w else { w with rows := w.rows ++ rows }

def TraceWindow.finish (w : TraceWindow) (runId : String) : TraceWindow :=
  if w.runId = runId then { w with finished := true } else w

@[simp] theorem TraceWindow.hear_runId (w : TraceWindow) (rows : List TraceRow) :
    (w.hear rows).runId = w.runId := by
  unfold TraceWindow.hear
  split <;> rfl

@[simp] theorem TraceWindow.finish_runId (w : TraceWindow) (runId : String) :
    (w.finish runId).runId = w.runId := by
  unfold TraceWindow.finish
  split <;> rfl

/-- The recorder, the runs and their files, and the immediates, the first to run first.  The windows
    are read by nobody: there is one for each open. -/
structure DiskHistory where
  store : AttemptsStore
  trace : Fanout String TraceRow
  queue : List Immediate
  windows : List TraceWindow

/-- A row is recorded, an anomaly is found, a run is opened, which the disk may refuse, or closed, a
    stream or the manifest of a run fails, or the next immediate runs. -/
inductive DiskEvent
  | record (attempt : Attempt)
  | found (finding : Finding)
  | openRun (mode instant : String) (thrown : Option String)
  | close (runId : String)
  | broke (runId error : String)
  | turn

/-- The attempt an event records. -/
def DiskEvent.attempt? : DiskEvent → Option Attempt
  | .record attempt => some attempt
  | _ => none

/-- The run an event says the disk failed. -/
def DiskEvent.broken? : DiskEvent → Option String
  | .openRun mode instant (some _) => some (runIdFor mode instant)
  | .broke runId _ => some runId
  | _ => none

namespace DiskHistory

def initial : DiskHistory := ⟨.empty, Fanout.empty, [], []⟩

def runIds (s : DiskHistory) : List String := s.windows.map (·.runId)

/-- The rows were handed over, and what became of them; every window has those said meanwhile. -/
def hand (s : DiskHistory) (trace : Fanout String TraceRow) : DiskHistory :=
  { s with
    trace := trace
    windows := s.windows.map (·.hear (trace.log.drop s.trace.log.length)) }

variable (fails : String → TraceRow → Option String)

/-- Every run open right now gets the row, and one that cannot take it is given up. -/
def append (s : DiskHistory) (moment : Moment) (row : TraceRow) : DiskHistory :=
  s.hand (s.trace.send fails moment.notice row)

/-- A run is given up, unless it was before: dropped first, so that it is not asked to take the
    report. -/
def disown (s : DiskHistory) (moment : Moment) (runId error : String) : DiskHistory :=
  s.hand (s.trace.drop fails moment.notice runId error)

/-- Opens a run, if its directory and its streams can be had. -/
def openRun (s : DiskHistory) (moment : Moment) (runId : String) (thrown : Option String) :
    DiskHistory :=
  let s : DiskHistory := { s with windows := s.windows ++ [⟨runId, [], false⟩] }
  match thrown with
  | none => { s with trace := s.trace.join runId }
  | some error => s.disown fails moment runId error

/-- The run is no longer open, if it was. -/
def finish (s : DiskHistory) (runId : String) : DiskHistory :=
  { s with trace := s.trace.leave runId, windows := s.windows.map (·.finish runId) }

/-- Runs the first immediate. -/
def turn (s : DiskHistory) (moment : Moment) : Option DiskHistory :=
  match s.queue with
  | [] => none
  | .append row :: queue => some (append fails { s with queue := queue } moment (.attempt row))
  | .finish runId :: queue => some (finish { s with queue := queue } runId)

/-- One step, at an instant. -/
def step (s : DiskHistory) : Moment × DiskEvent → Option DiskHistory
  | (_, .record attempt) => some { s with
      store := s.store.record attempt
      queue := s.queue ++ [.append { attempt with id := s.store.nextId }] }
  -- nothing but the history reports under its rule
  | (moment, .found finding) =>
    if finding.rule = HISTORY_WRITE_FAILED then none
    else some (s.append fails moment (moment.anomaly finding s.trace.log))
  | (moment, .openRun mode instant thrown) =>
    some (s.openRun fails moment (runIdFor mode instant) thrown)
  | (_, .close runId) => some { s with queue := s.queue ++ [.finish runId] }
  | (moment, .broke runId error) =>
    if runId ∈ s.runIds then some (s.disown fails moment runId error) else none
  | (moment, .turn) => s.turn fails moment

end DiskHistory

/-- The machine of the recorder and the history, on a disk that may refuse a row. -/
def failingDisk (fails : String → TraceRow → Option String) :
    Machine DiskHistory (Moment × DiskEvent) := ⟨DiskHistory.step fails⟩

/-! ### What is said -/

/-- Every report so far names a run that was given up, in order, and the anomalies are numbered. -/
structure Reports (trace : Fanout String TraceRow) : Prop where
  disowned : (anomaliesIn trace.log).filterMap Anomaly.disowned = trace.dropped
  ids : (anomaliesIn trace.log).map (·.id) = List.range' 1 (anomaliesIn trace.log).length

/-- The anomalies go on being numbered. -/
theorem ids_concat {log : List TraceRow} {finding : Finding} {moment : Moment}
    (h : (anomaliesIn log).map (·.id) = List.range' 1 (anomaliesIn log).length) :
    (anomaliesIn (log ++ [moment.anomaly finding log])).map (·.id) =
      List.range' 1 (anomaliesIn (log ++ [moment.anomaly finding log])).length := by
  have hone : anomaliesIn [moment.anomaly finding log] =
      [finding.stamped ((anomaliesIn log).length + 1) moment.active moment.now] := rfl
  rw [anomaliesIn_append, hone, List.map_append, h, List.length_append, List.length_singleton,
    List.range'_concat, Nat.one_mul, Nat.add_comm 1]
  rfl

/-- The reports of the runs that were given up. -/
theorem reports_of_told {moment : Moment} {log notices : List TraceRow} {lost : List String}
    (h : Fanout.Told moment.notice log lost notices) :
    attemptsIn notices = [] ∧ (anomaliesIn notices).filterMap Anomaly.disowned = lost ∧
      ((anomaliesIn log).map (·.id) = List.range' 1 (anomaliesIn log).length →
        (anomaliesIn (log ++ notices)).map (·.id) =
          List.range' 1 (anomaliesIn (log ++ notices)).length) := by
  induction h with
  | nil log => exact ⟨rfl, rfl, fun h => by rwa [List.append_nil]⟩
  | cons runId error rest ih =>
    obtain ⟨hattempts, hlost, hids⟩ := ih
    refine ⟨hattempts, ?_, fun h => ?_⟩
    · refine (List.filterMap_cons_some (disowned_writeFailed runId error _ _ _)).trans ?_
      exact congrArg (runId :: ·) hlost
    · have hrest := hids (ids_concat h)
      rwa [List.append_assoc] at hrest

/-! ### What is in the files -/

namespace DiskHistory

variable {s s' : DiskHistory} {w : TraceWindow} {said : List TraceRow} {lost : List String}
  {runId : String} {fails : String → TraceRow → Option String}

/-- The files of a run hold the first of its window's attempts and some of its anomalies, and all of
    them unless it was given up; it is open until then, or until it is finished. -/
structure FileOf (trace : Fanout String TraceRow) (w : TraceWindow) : Prop where
  attempts : attemptsIn (trace.inbox w.runId) <+: attemptsIn w.rows
  anomalies : (anomaliesIn (trace.inbox w.runId)).Subperm (anomaliesIn w.rows)
  whole : w.runId ∉ trace.dropped → attemptsIn (trace.inbox w.runId) = attemptsIn w.rows ∧
    (anomaliesIn (trace.inbox w.runId)).Perm (anomaliesIn w.rows)
  live : w.runId ∈ trace.live ↔ w.finished = false ∧ w.runId ∉ trace.dropped

/-- So it is with every window; the rows of a window were said one after the other, and are the last
    ones while it is open; and a run is one that was opened. -/
structure Files (s : DiskHistory) : Prop where
  sound : s.trace.Sound
  window : ∀ w ∈ s.windows, FileOf s.trace w
  slice : ∀ w ∈ s.windows, ∃ before after, s.trace.log = before ++ w.rows ++ after ∧
    (w.finished = false → after = [])
  known : ∀ runId ∉ s.runIds, runId ∉ s.trace.live ∧ runId ∉ s.trace.dropped ∧
    s.trace.inbox runId = []

theorem files_initial : Files initial where
  sound := ⟨.nil, .nil, nofun⟩
  window := nofun
  slice := nofun
  known _ _ := ⟨nofun, nofun, rfl⟩

/-- The files of a run once rows were handed over. -/
theorem FileOf.hand {trace trace' : Fanout String TraceRow} (h : FileOf trace w)
    (hhanded : Fanout.Handed fails trace trace' lost said fun _ => said)
    (hone : (attemptsIn said).length ≤ 1) : FileOf trace' (w.hear said) := by
  obtain ⟨new, hnew, hsub, hnone⟩ := hhanded.part w.runId
  have hdropped : w.runId ∉ trace'.dropped ↔ w.runId ∉ trace.dropped ∧ w.runId ∉ lost := by
    rw [hhanded.dropped, List.mem_append, not_or]
  have hlive : w.runId ∈ trace'.live ↔ w.finished = false ∧ w.runId ∉ trace'.dropped := by
    rw [hhanded.live, List.mem_filter, h.live, decide_eq_true_eq, hdropped, and_assoc]
  by_cases hfinished : w.finished = true
  -- nothing is handed over to a run that is finished
  · have hgone : w.runId ∉ trace.live := fun hmem => by
      rw [(h.live.mp hmem).1] at hfinished
      cases hfinished
    rw [TraceWindow.hear, if_pos hfinished]
    rw [hnone hgone, List.append_nil] at hnew
    refine ⟨hnew ▸ h.attempts, hnew ▸ h.anomalies, fun hkept => ?_, hlive⟩
    exact hnew ▸ h.whole (hdropped.mp hkept).1
  · rw [TraceWindow.hear, if_neg hfinished]
    have hopen : w.finished = false := Bool.eq_false_iff.mpr hfinished
    refine ⟨?_, ?_, fun hkept => ?_, hlive⟩
    · show attemptsIn (trace'.inbox w.runId) <+: attemptsIn (w.rows ++ said)
      rw [hnew, attemptsIn_append, attemptsIn_append]
      by_cases hmem : w.runId ∈ trace.live
      · rw [(h.whole (h.live.mp hmem).2).1, List.prefix_append_right_inj]
        exact prefix_of_subperm (subperm_filterMap hsub _) hone
      · rw [hnone hmem, show attemptsIn [] = [] from rfl, List.append_nil]
        exact h.attempts.trans (List.prefix_append ..)
    · show (anomaliesIn (trace'.inbox w.runId)).Subperm (anomaliesIn (w.rows ++ said))
      rw [hnew, anomaliesIn_append, anomaliesIn_append]
      exact h.anomalies.append (subperm_filterMap hsub _)
    · obtain ⟨new', hnew', hperm⟩ := hhanded.all w.runId (hlive.mpr ⟨hopen, hkept⟩)
      obtain ⟨hattempts, hanomalies⟩ := h.whole (hdropped.mp hkept).1
      constructor
      · show attemptsIn (trace'.inbox w.runId) = attemptsIn (w.rows ++ said)
        rw [hnew', attemptsIn_append, attemptsIn_append, hattempts]
        refine congrArg (_ ++ ·) ((prefix_of_subperm ?_ hone).eq_of_length ?_)
        · exact (hperm.filterMap _).subperm
        · exact (hperm.filterMap _).length_eq
      · show (anomaliesIn (trace'.inbox w.runId)).Perm (anomaliesIn (w.rows ++ said))
        rw [hnew', anomaliesIn_append, anomaliesIn_append]
        exact hanomalies.append (hperm.filterMap _)

theorem runIds_hand (s : DiskHistory) (trace : Fanout String TraceRow) :
    (s.hand trace).runIds = s.runIds := by
  show (s.windows.map _).map _ = _
  rw [List.map_map]
  exact List.map_congr_left fun w _ => w.hear_runId _

/-- **Once rows were handed over**, the files are as before. -/
theorem Files.hand (h : s.Files) {trace' : Fanout String TraceRow}
    (hhanded : Fanout.Handed fails s.trace trace' lost said fun _ => said)
    (hone : (attemptsIn said).length ≤ 1) : (s.hand trace').Files := by
  have hsaid : trace'.log.drop s.trace.log.length = said := by
    rw [hhanded.log]
    exact List.drop_left
  constructor
  · exact h.sound.handed hhanded
  · show ∀ w ∈ s.windows.map _, _
    rw [hsaid]
    exact List.forall_mem_map.mpr fun w hw => (h.window w hw).hand hhanded hone
  · show ∀ w ∈ s.windows.map _, _
    rw [hsaid]
    refine List.forall_mem_map.mpr fun w hw => ?_
    obtain ⟨before, after, hlog, hlast⟩ := h.slice w hw
    by_cases hfinished : w.finished = true
    · rw [TraceWindow.hear, if_pos hfinished]
      refine ⟨before, after ++ said, ?_, fun hopen => by simp [hfinished] at hopen⟩
      show trace'.log = _
      rw [hhanded.log, hlog, List.append_assoc]
    · rw [TraceWindow.hear, if_neg hfinished]
      refine ⟨before, [], ?_, fun _ => rfl⟩
      show trace'.log = before ++ (w.rows ++ said) ++ []
      rw [hhanded.log, hlog, hlast (Bool.eq_false_iff.mpr hfinished), List.append_nil,
        List.append_nil, List.append_assoc]
  · intro runId hnew
    rw [runIds_hand] at hnew
    obtain ⟨hlive, hdropped, hempty⟩ := h.known runId hnew
    obtain ⟨new, hinbox, -, hnone⟩ := hhanded.part runId
    refine ⟨fun hmem => ?_, fun hmem => ?_, ?_⟩
    · rw [show (s.hand trace').trace = trace' from rfl, hhanded.live] at hmem
      exact hlive (List.mem_filter.mp hmem).1
    · rw [show (s.hand trace').trace = trace' from rfl, hhanded.dropped] at hmem
      rcases List.mem_append.mp hmem with hmem | hmem
      · exact hdropped hmem
      · exact hlive (hhanded.were _ hmem)
    · show trace'.inbox runId = []
      rw [hinbox, hempty, hnone hlive]
      rfl

/-- A run that was opened is not open any more, and is given up. -/
theorem Files.lose (h : s.Files) (hknown : runId ∈ s.runIds) (hkept : runId ∉ s.trace.dropped) :
    Files { s with trace := { s.trace with
      live := s.trace.live.erase runId
      dropped := s.trace.dropped ++ [runId] } } where
  sound := h.sound.erase hkept
  window w hw := by
    obtain ⟨hattempts, hanomalies, hwhole, hlive⟩ := h.window w hw
    refine ⟨hattempts, hanomalies, fun hmem => hwhole fun hd => hmem (List.mem_append_left _ hd),
      ?_⟩
    show w.runId ∈ s.trace.live.erase runId ↔ _ ∧ w.runId ∉ s.trace.dropped ++ [runId]
    rw [h.sound.live.mem_erase_iff, hlive, List.mem_append, List.mem_singleton, not_or]
    tauto
  slice := h.slice
  known k hk := by
    obtain ⟨hlive, hdropped, hempty⟩ := h.known k hk
    refine ⟨fun hmem => hlive (List.mem_of_mem_erase hmem), fun hmem => ?_, hempty⟩
    rcases List.mem_append.mp hmem with hmem | hmem
    · exact hdropped hmem
    · exact hk (List.mem_singleton.mp hmem ▸ hknown)

/-- A run is opened under an id of its own. -/
theorem Files.join (h : s.Files) (hnew : runId ∉ s.runIds) :
    Files { s with
      trace := s.trace.join runId
      windows := s.windows ++ [⟨runId, [], false⟩] } := by
  obtain ⟨hlive, hdropped, hempty⟩ := h.known runId hnew
  have hjoin : (s.trace.join runId).live = s.trace.live ++ [runId] := if_neg hlive
  constructor
  · exact h.sound.join hdropped
  · refine List.forall_mem_append.mpr ⟨fun w hw => ?_, List.forall_mem_singleton.mpr ?_⟩
    · obtain ⟨hattempts, hanomalies, hwhole, hwlive⟩ := h.window w hw
      refine ⟨hattempts, hanomalies, hwhole, ?_⟩
      have hne : w.runId ≠ runId := fun heq => hnew (heq ▸ List.mem_map_of_mem hw)
      show w.runId ∈ (s.trace.join runId).live ↔ _
      rw [hjoin, List.mem_append, List.mem_singleton, or_iff_left hne]
      exact hwlive
    · have hinbox : (s.trace.join runId).inbox runId = [] := hempty
      refine ⟨?_, ?_, fun _ => ?_, ?_⟩
      · rw [hinbox]
      · rw [hinbox]
      · rw [hinbox]
        exact ⟨rfl, .nil⟩
      · show runId ∈ (s.trace.join runId).live ↔ _
        rw [hjoin]
        exact iff_of_true (List.mem_append_right _ (List.mem_singleton_self _)) ⟨rfl, hdropped⟩
  · refine List.forall_mem_append.mpr ⟨h.slice, List.forall_mem_singleton.mpr ?_⟩
    exact ⟨s.trace.log, [], by simp [Fanout.join], fun _ => rfl⟩
  · intro k hk
    rw [runIds, List.map_append, List.mem_append, not_or] at hk
    obtain ⟨hklive, hkdropped, hkempty⟩ := h.known k hk.1
    refine ⟨?_, hkdropped, hkempty⟩
    show k ∉ (s.trace.join runId).live
    rw [hjoin, List.mem_append, not_or]
    exact ⟨hklive, hk.2⟩

theorem runIds_finish (s : DiskHistory) (runId : String) : (s.finish runId).runIds = s.runIds := by
  show (s.windows.map _).map _ = _
  rw [List.map_map]
  exact List.map_congr_left fun w _ => w.finish_runId runId

/-- A run is finished. -/
theorem Files.finish (h : s.Files) (runId : String) : (s.finish runId).Files := by
  constructor
  · exact h.sound.leave runId
  · refine List.forall_mem_map.mpr fun w hw => ?_
    obtain ⟨hattempts, hanomalies, hwhole, hlive⟩ := h.window w hw
    have hmem : w.runId ∈ (s.trace.leave runId).live ↔
        w.runId ≠ runId ∧ w.runId ∈ s.trace.live := h.sound.live.mem_erase_iff
    by_cases heq : w.runId = runId
    · rw [TraceWindow.finish, if_pos heq]
      exact ⟨hattempts, hanomalies, hwhole,
        iff_of_false (fun hmem' => (hmem.mp hmem').1 heq) nofun⟩
    · rw [TraceWindow.finish, if_neg heq]
      exact ⟨hattempts, hanomalies, hwhole, hmem.trans ((and_iff_right heq).trans hlive)⟩
  · refine List.forall_mem_map.mpr fun w hw => ?_
    obtain ⟨before, after, hlog, hlast⟩ := h.slice w hw
    unfold TraceWindow.finish
    split
    · exact ⟨before, after, hlog, nofun⟩
    · exact ⟨before, after, hlog, hlast⟩
  · intro k hk
    rw [runIds_finish] at hk
    obtain ⟨hlive, hdropped, hempty⟩ := h.known k hk
    exact ⟨fun hmem => hlive (List.mem_of_mem_erase hmem), hdropped, hempty⟩

/-- A run that could not be opened is given up. -/
theorem Files.refused (h : s.Files) (hnew : runId ∉ s.runIds) :
    Files { s with
      trace := { s.trace with
        live := s.trace.live.erase runId
        dropped := s.trace.dropped ++ [runId] }
      windows := s.windows ++ [⟨runId, [], false⟩] } := by
  obtain ⟨hlive, hdropped, -⟩ := h.known runId hnew
  have hlose := (h.join hnew).lose
    (List.mem_map_of_mem (List.mem_append_right _ (List.mem_singleton_self _))) hdropped
  have hlive' : (s.trace.join runId).live.erase runId = s.trace.live.erase runId := by
    rw [Fanout.join, if_neg hlive, List.erase_append_right _ hlive, List.erase_of_not_mem hlive,
      List.erase_cons_head, List.append_nil]
  rwa [hlive'] at hlose

/-! ### Whole runs -/

/-- The rows that are on their way. -/
def queued (queue : List Immediate) : List Attempt :=
  queue.filterMap fun
    | .append row => some row
    | .finish _ => none

variable (fails) in
/-- The files are as they should be; every run that was given up is reported, and its disk failed;
    and every attempt was handed over or is on its way. -/
structure Kept (rows : List Attempt) (broken : List String) (s : DiskHistory) : Prop where
  files : s.Files
  reports : Reports s.trace
  failed : ∀ runId ∈ s.trace.dropped, runId ∈ broken ∨ ∃ row, fails runId row ≠ none
  recorded : attemptsIn s.trace.log ++ queued s.queue = rows
  nextId : s.store.nextId = rows.length + 1

theorem kept_initial : Kept fails [] [] initial :=
  ⟨files_initial, ⟨rfl, rfl⟩, nofun, rfl, rfl⟩

variable {rows : List Attempt} {broken : List String} {moment : Moment}

/-- A row is appended. -/
theorem Kept.append {queue : List Immediate} {row : TraceRow} (h : Kept fails rows broken s)
    (hqueue : queued s.queue = attemptsIn [row] ++ queued queue)
    (hother : (anomaliesIn [row]).filterMap Anomaly.disowned = [])
    (hids : (anomaliesIn (s.trace.log ++ [row])).map (·.id) =
      List.range' 1 (anomaliesIn (s.trace.log ++ [row])).length) :
    Kept fails rows broken (append fails { s with queue := queue } moment row) := by
  obtain ⟨lost, notices, htold, hhanded⟩ :=
    Fanout.handed_send fails moment.notice h.files.sound row
  obtain ⟨hattempts, hlost, hids'⟩ := reports_of_told htold
  have hrow : row :: notices = [row] ++ notices := rfl
  have hfiles : Files { s with queue := queue } := ⟨h.files.1, h.files.2, h.files.3, h.files.4⟩
  refine ⟨hfiles.hand hhanded ?_, ⟨?_, ?_⟩, ?_, ?_, h.nextId⟩
  · rw [hrow, attemptsIn_append, hattempts, List.append_nil]
    exact List.length_filterMap_le ..
  · show (anomaliesIn (s.trace.send fails moment.notice row).log).filterMap _ = _
    rw [hhanded.log, hrow, anomaliesIn_append, anomaliesIn_append, List.filterMap_append,
      List.filterMap_append, h.reports.disowned, hother, hlost, List.nil_append]
    exact hhanded.dropped.symm
  · show (anomaliesIn (s.trace.send fails moment.notice row).log).map _ = List.range' 1
      (anomaliesIn (s.trace.send fails moment.notice row).log).length
    rw [hhanded.log, hrow, ← List.append_assoc]
    exact hids' hids
  · show ∀ runId ∈ (s.trace.send fails moment.notice row).dropped, _
    rw [hhanded.dropped]
    exact List.forall_mem_append.mpr ⟨h.failed, fun k hk => .inr (hhanded.failed k hk)⟩
  · show attemptsIn (s.trace.send fails moment.notice row).log ++ queued queue = rows
    rw [hhanded.log, hrow, attemptsIn_append, attemptsIn_append, hattempts, List.append_nil,
      List.append_assoc, ← hqueue]
    exact h.recorded

/-- A run is given up, of which no file was lost yet. -/
theorem Kept.gone {error : String} (hsound : s.trace.Sound) (hkept : runId ∉ s.trace.dropped)
    (hfiles : Files { s with trace := { s.trace with
      live := s.trace.live.erase runId
      dropped := s.trace.dropped ++ [runId] } })
    (hreports : Reports s.trace)
    (hfailed : ∀ k ∈ s.trace.dropped ++ [runId], k ∈ broken ∨ ∃ row, fails k row ≠ none)
    (hrecorded : attemptsIn s.trace.log ++ queued s.queue = rows)
    (hnextId : s.store.nextId = rows.length + 1) :
    Kept fails rows broken (s.disown fails moment runId error) := by
  obtain ⟨lost, notices, htold, hhanded⟩ :=
    Fanout.handed_drop fails moment.notice hsound hkept error
  obtain ⟨hattempts, hlost, hids⟩ := reports_of_told htold
  have hlog : (s.trace.drop fails moment.notice runId error).log = s.trace.log ++ notices :=
    hhanded.log
  refine ⟨hfiles.hand hhanded ?_, ⟨?_, ?_⟩, ?_, ?_, hnextId⟩
  · rw [hattempts]
    exact Nat.zero_le 1
  · show (anomaliesIn (s.trace.drop fails moment.notice runId error).log).filterMap _ = _
    rw [hlog, anomaliesIn_append, List.filterMap_append, hreports.disowned, hlost]
    exact (hhanded.dropped.trans (List.append_assoc ..)).symm
  · show (anomaliesIn (s.trace.drop fails moment.notice runId error).log).map _ = List.range' 1
      (anomaliesIn (s.trace.drop fails moment.notice runId error).log).length
    rw [hlog]
    exact hids hreports.ids
  · show ∀ k ∈ (s.trace.drop fails moment.notice runId error).dropped, _
    rw [hhanded.dropped]
    exact List.forall_mem_append.mpr ⟨hfailed, fun k hk => .inr (hhanded.failed k hk)⟩
  · show attemptsIn (s.trace.drop fails moment.notice runId error).log ++ queued s.queue = rows
    rw [hlog, attemptsIn_append, hattempts, List.append_nil]
    exact hrecorded

/-- A run that was opened is given up, or was before. -/
theorem Kept.disown {error : String} (h : Kept fails rows broken s) (hknown : runId ∈ s.runIds)
    (hbroken : runId ∈ broken) :
    Kept fails rows broken (s.disown fails moment runId error) := by
  by_cases hkept : runId ∈ s.trace.dropped
  · rw [DiskHistory.disown, Fanout.drop_of_dropped fails moment.notice hkept]
    have hrefl : Fanout.Handed fails s.trace s.trace [] [] fun _ => [] := .refl _
    exact ⟨h.files.hand hrefl (Nat.zero_le 1), h.reports, h.failed, h.recorded, h.nextId⟩
  · exact .gone h.files.sound hkept (h.files.lose hknown hkept) h.reports
      (List.forall_mem_append.mpr ⟨h.failed, List.forall_mem_singleton.mpr (.inl hbroken)⟩)
      h.recorded h.nextId

/-- A run is opened, or given up at once. -/
theorem Kept.openRun (h : Kept fails rows broken s) (hnew : runId ∉ s.runIds)
    {thrown : Option String} (hbroken : thrown.isSome → runId ∈ broken) :
    Kept fails rows broken (s.openRun fails moment runId thrown) := by
  cases thrown with
  | none =>
    exact ⟨h.files.join hnew, ⟨h.reports.disowned, h.reports.ids⟩, h.failed, h.recorded, h.nextId⟩
  | some error =>
    exact .gone h.files.sound (h.files.known runId hnew).2.1 (h.files.refused hnew) h.reports
      (List.forall_mem_append.mpr ⟨h.failed, List.forall_mem_singleton.mpr (.inl (hbroken rfl))⟩)
      h.recorded h.nextId

/-- More runs may have failed than were given up. -/
theorem Kept.mono (h : Kept fails rows broken s) (more : List String) :
    Kept fails rows (broken ++ more) s :=
  ⟨h.files, h.reports, fun k hk => (h.failed k hk).imp_left (List.mem_append_left more ·),
    h.recorded, h.nextId⟩

theorem runIds_openRun (s : DiskHistory) (thrown : Option String) :
    (s.openRun fails moment runId thrown).runIds = s.runIds ++ [runId] := by
  cases thrown with
  | none => exact List.map_append
  | some error => exact (runIds_hand ..).trans List.map_append

/-- **One step keeps it so**, while no two runs have one id. -/
theorem Kept.step {e : Moment × DiskEvent} (h : Kept fails rows broken s) (hids : s'.runIds.Nodup)
    (hstep : (failingDisk fails).step s e = some s') :
    Kept fails (rows ++ (e.2.attempt?.map fun attempt =>
      { attempt with id := rows.length + 1 }).toList) (broken ++ e.2.broken?.toList) s' := by
  obtain ⟨moment, e⟩ := e
  have hbroken := h.mono e.broken?.toList
  cases e with
  | record attempt =>
    cases hstep
    refine ⟨⟨h.files.1, h.files.2, h.files.3, h.files.4⟩, h.reports, hbroken.failed, ?_, ?_⟩
    · show attemptsIn s.trace.log ++ queued (s.queue ++ [.append { attempt with
        id := s.store.nextId }]) = rows ++ [{ attempt with id := rows.length + 1 }]
      rw [queued, List.filterMap_append, ← List.append_assoc, ← h.nextId]
      exact congrArg (· ++ _) h.recorded
    · show s.store.nextId + 1 = (rows ++ [_]).length + 1
      rw [h.nextId, List.length_append, List.length_singleton]
  | found finding =>
    obtain ⟨hother, hstep⟩ := Option.ite_none_left_eq_some.mp hstep
    cases hstep
    show Kept fails (rows ++ []) _ _
    rw [List.append_nil]
    exact hbroken.append rfl (List.filterMap_cons_none (disowned_of_ne hother ..))
      (ids_concat h.reports.ids)
  | openRun mode instant thrown =>
    cases hstep
    show Kept fails (rows ++ []) _ _
    rw [List.append_nil]
    rw [runIds_openRun] at hids
    refine hbroken.openRun (fun hmem => (List.nodup_append.mp hids).2.2 _ hmem _
      (List.mem_singleton_self _) rfl) fun hthrown => ?_
    obtain ⟨error, rfl⟩ := Option.isSome_iff_exists.mp hthrown
    exact List.mem_append_right _ (List.mem_singleton_self _)
  | close runId =>
    cases hstep
    refine ⟨⟨h.files.1, h.files.2, h.files.3, h.files.4⟩, h.reports, hbroken.failed, ?_, ?_⟩
    · show attemptsIn s.trace.log ++ queued (s.queue ++ [.finish runId]) = rows ++ []
      rw [queued, List.filterMap_append, List.append_nil, ← h.recorded]
      exact congrArg _ (List.append_nil _)
    · show s.store.nextId = (rows ++ []).length + 1
      rw [h.nextId, List.append_nil]
  | broke runId error =>
    obtain ⟨hknown, hstep⟩ := Option.ite_none_right_eq_some.mp hstep
    cases hstep
    show Kept fails (rows ++ []) _ _
    rw [List.append_nil]
    exact hbroken.disown hknown (List.mem_append_right _ (List.mem_singleton_self _))
  | turn =>
    show Kept fails (rows ++ []) _ _
    rw [List.append_nil]
    obtain ⟨store, trace, queue, windows⟩ := s
    cases queue with
    | nil => cases hstep
    | cons task queue =>
      cases task with
      | append row =>
        cases hstep
        refine hbroken.append rfl rfl ?_
        rw [anomaliesIn_append, show anomaliesIn [.attempt row] = [] from rfl, List.append_nil]
        exact h.reports.ids
      | finish runId =>
        cases hstep
        have hfiles : Files ⟨store, trace, queue, windows⟩ :=
          ⟨h.files.1, h.files.2, h.files.3, h.files.4⟩
        exact ⟨hfiles.finish runId, ⟨h.reports.disowned, h.reports.ids⟩, hbroken.failed,
          h.recorded, h.nextId⟩

end DiskHistory

end Cocos.Tools
