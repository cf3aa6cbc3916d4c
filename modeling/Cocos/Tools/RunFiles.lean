import Cocos.Lib.JsMap
import Cocos.Lib.Machine
import Cocos.Tools.Chaos

namespace Cocos.Tools

open Cocos.Lib

/-!
# The files of the runs

`tools/src/history/history.service.ts`: while a run is open every attempt is appended to its file.
The recorder hands a row over one turn of the event loop after it was recorded, and a run is closed
a turn after it was told to; it is opened at once.

* `HistoryService.openRun`, `append`, `finish` — what becomes of the runs and of their files;
* `Recording`, `recording` — the recorder, the history and the immediates that wait their turn;
* `Window`, `Exact` — what was recorded between the open and the close of a run, and that its file
  holds just that;
* `OpensInTheClear` — a run is opened with no row on its way, and under an id of its own;
* `exact_iff` — **the files are exact, whatever happens next, just where every run opens so**.
-/

/-! ### The history -/

/-- What waits for the next turn of the event loop: a row to be handed over, or a run to be
    closed. -/
inductive Immediate
  | append (row : Attempt)
  | finish (runId : String)
deriving DecidableEq

def Immediate.isAppend : Immediate → Bool
  | .append _ => true
  | .finish _ => false

/-- A run that is open. -/
structure OpenRun where
  mode : String
  startedAt : String

/-- The runs that are open, and the attempts file of every run. -/
structure HistoryService where
  running : JsMap String OpenRun
  files : String → List Attempt

/-- The instant with its colons and dots replaced, and the mode. -/
def runIdFor (mode instant : String) : String :=
  String.ofList (instant.toList.map fun c => if c = ':' ∨ c = '.' then '-' else c) ++ "-" ++ mode

namespace HistoryService

def initial : HistoryService := ⟨.empty, fun _ => []⟩

/-- Opens a run, at an instant. -/
def openRun (s : HistoryService) (mode instant : String) : HistoryService :=
  { s with running := s.running.set (runIdFor mode instant) ⟨mode, instant⟩ }

/-- Every run open right now gets the row. -/
def append (s : HistoryService) (row : Attempt) : HistoryService :=
  { s with
    files := s.running.keys.foldl
      (fun files runId => Function.update files runId (files runId ++ [row])) s.files }

/-- The run is no longer open, if it was. -/
def finish (s : HistoryService) (runId : String) : HistoryService :=
  { s with running := s.running.delete runId }

/-- **Every open run gets the row, once**, and no other does. -/
theorem files_append (s : HistoryService) (row : Attempt) (runId : String) :
    (s.append row).files runId =
      s.files runId ++ if runId ∈ s.running.keys then [row] else [] := by
  have key : ∀ (runs : List String) (files : String → List Attempt), runs.Nodup →
      runs.foldl (fun files r => Function.update files r (files r ++ [row])) files runId =
        files runId ++ if runId ∈ runs then [row] else [] := by
    intro runs
    induction runs with
    | nil => exact fun files _ => (List.append_nil _).symm
    | cons r runs ih =>
      intro files hnodup
      obtain ⟨hr, hruns⟩ := List.nodup_cons.mp hnodup
      rw [List.foldl_cons, ih _ hruns]
      by_cases h : runId = r
      · subst h
        rw [Function.update_self, if_neg hr, if_pos List.mem_cons_self, List.append_nil]
      · rw [Function.update_of_ne h]
        simp only [List.mem_cons, h, false_or]
  exact key _ _ s.running.nodup

end HistoryService

/-! ### The recorder, the history and the event loop -/

/-- What a run's file should hold: what was recorded since its open, up to its close. -/
structure Window where
  runId : String
  rows : List Attempt
  closed : Bool

def Window.record (w : Window) (row : Attempt) : Window :=
  if w.closed then w else { w with rows := w.rows ++ [row] }

def Window.close (w : Window) (runId : String) : Window :=
  if w.runId = runId then { w with closed := true } else w

@[simp] theorem Window.record_runId (w : Window) (row : Attempt) :
    (w.record row).runId = w.runId := by
  unfold Window.record
  split <;> rfl

@[simp] theorem Window.close_runId (w : Window) (runId : String) :
    (w.close runId).runId = w.runId := by
  unfold Window.close
  split <;> rfl

/-- The recorder, the history and the immediates, the first to run first.  The windows are read by
    nobody: there is one for each open. -/
structure Recording where
  store : AttemptsStore
  history : HistoryService
  queue : List Immediate
  windows : List Window

/-- A row is recorded, a run is opened or closed, or the next immediate runs. -/
inductive RecordingEvent
  | record (attempt : Attempt)
  | openRun (mode instant : String)
  | close (runId : String)
  | turn

/-- The event opens a run. -/
def RecordingEvent.opens : RecordingEvent → Bool
  | .openRun .. => true
  | _ => false

namespace Recording

/-- Nothing recorded yet. -/
def initial : Recording := ⟨.empty, .initial, [], []⟩

/-- Runs the first immediate. -/
def turn (s : Recording) : Option Recording :=
  match s.queue with
  | [] => none
  | .append row :: queue => some { s with history := s.history.append row, queue := queue }
  | .finish runId :: queue => some { s with history := s.history.finish runId, queue := queue }

/-- One step; the immediates run in the order they were queued in. -/
def step (s : Recording) : RecordingEvent → Option Recording
  | .record attempt =>
    let row := { attempt with id := s.store.nextId }
    some { s with
      store := s.store.record attempt
      queue := s.queue ++ [.append row]
      windows := s.windows.map (·.record row) }
  | .openRun mode instant => some { s with
      history := s.history.openRun mode instant
      windows := s.windows ++ [⟨runIdFor mode instant, [], false⟩] }
  | .close runId => some { s with
      queue := s.queue ++ [.finish runId]
      windows := s.windows.map (·.close runId) }
  | .turn => s.turn

end Recording

/-- The machine of the recorder and the history. -/
def recording : Machine Recording RecordingEvent := ⟨Recording.step⟩

/-- The rows that are handed over before a run is closed. -/
def due (runId : String) : List Immediate → List Attempt
  | [] => []
  | .append row :: queue => row :: due runId queue
  | .finish runId' :: queue => if runId' = runId then [] else due runId queue

/-- A row that is queued is due, unless the run is closed before it. -/
theorem due_append_append (runId : String) (queue : List Immediate) (row : Attempt) :
    due runId (queue ++ [.append row]) =
      due runId queue ++ if .finish runId ∈ queue then [] else [row] := by
  induction queue with
  | nil => rfl
  | cons task queue ih =>
    cases task with
    | append row' =>
      show row' :: due runId (queue ++ _) = row' :: due runId queue ++ _
      rw [ih]
      simp only [List.mem_cons, reduceCtorEq, false_or, List.cons_append]
    | finish runId' =>
      show (if runId' = runId then [] else due runId (queue ++ _)) =
        (if runId' = runId then [] else due runId queue) ++ _
      by_cases h : runId' = runId
      · rw [if_pos h, if_pos h, if_pos (h ▸ List.mem_cons_self)]
        rfl
      · rw [if_neg h, if_neg h, ih]
        simp only [List.mem_cons, Immediate.finish.injEq, Ne.symm h, false_or]

theorem due_append_finish (runId runId' : String) (queue : List Immediate) :
    due runId (queue ++ [.finish runId']) = due runId queue := by
  induction queue with
  | nil => exact ite_self _
  | cons task queue ih =>
    cases task with
    | append row => exact congrArg (row :: ·) ih
    | finish runId₁ =>
      show (if runId₁ = runId then [] else due runId (queue ++ _)) = _
      rw [ih]
      rfl

theorem due_eq_nil {queue : List Immediate} (h : ∀ task ∈ queue, task.isAppend = false)
    (runId : String) :
    due runId queue = [] := by
  induction queue with
  | nil => rfl
  | cons task queue ih =>
    cases task with
    | append row => cases h _ List.mem_cons_self
    | finish runId' =>
      have hrest := ih fun task htask => h task (List.mem_cons_of_mem _ htask)
      show (if runId' = runId then [] else due runId queue) = []
      rw [hrest, ite_self]

namespace Recording

variable {s s' : Recording} {e : RecordingEvent} {attempt : Attempt}

/-- The rows the file of a run is still to get. -/
def dueTo (s : Recording) (runId : String) : List Attempt :=
  if runId ∈ s.history.running.keys then due runId s.queue else []

/-- **The files are exact**: each has the first of its window's rows, all of them once the queue is
    empty, and a file that is no run's has none. -/
def Exact (s : Recording) : Prop :=
  (∀ w ∈ s.windows, s.history.files w.runId <+: w.rows ∧
    (s.queue = [] → s.history.files w.runId = w.rows)) ∧
  ∀ runId, (∀ w ∈ s.windows, w.runId ≠ runId) → s.history.files runId = []

/-- A run is opened with no row on its way to be handed over, under an id that is not about to be
    closed, and that no run had before it, unless to no effect so far. -/
def OpensInTheClear (s : Recording) : RecordingEvent → Prop
  | .openRun mode instant =>
    (∀ task ∈ s.queue, task.isAppend = false) ∧ .finish (runIdFor mode instant) ∉ s.queue ∧
      ∀ w ∈ s.windows, w.runId = runIdFor mode instant → w.rows = [] ∧ w.closed = false
  | _ => True

instance (s : Recording) : ∀ e, Decidable (s.OpensInTheClear e)
  | .openRun _ _ => inferInstanceAs (Decidable (_ ∧ _ ∧ _))
  | .record _ | .close _ | .turn => isTrue trivial

/-- The file of a window's run has what it should, but for the rows that are due to it. -/
structure Accounts (s : Recording) (w : Window) : Prop where
  rows : s.history.files w.runId ++ s.dueTo w.runId = w.rows
  opened : w.closed = false → w.runId ∈ s.history.running.keys ∧ .finish w.runId ∉ s.queue
  closing : w.closed = true → w.runId ∈ s.history.running.keys → .finish w.runId ∈ s.queue

/-- So it is with every window; and what was never opened has no file. -/
structure Accounted (s : Recording) : Prop where
  windows : ∀ w ∈ s.windows, s.Accounts w
  others : ∀ runId, (∀ w ∈ s.windows, w.runId ≠ runId) →
    runId ∉ s.history.running.keys ∧ s.history.files runId = []

theorem accounted_initial : Accounted initial where
  windows := by simp [initial]
  others := by simp [initial, HistoryService.initial, JsMap.keys, JsMap.empty]

/-- **What is accounted for is exact.** -/
theorem Accounted.exact (h : Accounted s) : s.Exact := by
  refine ⟨fun w hw => ⟨⟨_, (h.windows w hw).rows⟩, fun hnil => ?_⟩,
    fun runId hne => (h.others runId hne).2⟩
  have hdue : s.dueTo w.runId = [] := by
    rw [dueTo, hnil]
    exact ite_self _
  rw [← (h.windows w hw).rows, hdue, List.append_nil]

/-- A run that is open as before, with as much in its file and on its way to it. -/
theorem Accounts.transfer {w : Window} (h : s.Accounts w)
    (hrows : s'.history.files w.runId ++ s'.dueTo w.runId =
      s.history.files w.runId ++ s.dueTo w.runId)
    (hkeys : w.runId ∈ s'.history.running.keys ↔ w.runId ∈ s.history.running.keys)
    (hfinish : .finish w.runId ∈ s'.queue ↔ .finish w.runId ∈ s.queue) : s'.Accounts w where
  rows := hrows.trans h.rows
  opened hopen := ⟨hkeys.mpr (h.opened hopen).1, fun hmem => (h.opened hopen).2 (hfinish.mp hmem)⟩
  closing hclosed hrunning := hfinish.mpr (h.closing hclosed (hkeys.mp hrunning))

/-- What is due to a run once a row is queued. -/
theorem dueTo_record (hstep : recording.step s (.record attempt) = some s') (runId : String) :
    s'.dueTo runId = s.dueTo runId ++
      if runId ∈ s.history.running.keys ∧ .finish runId ∉ s.queue then
        [{ attempt with id := s.store.nextId }] else [] := by
  cases hstep
  unfold dueTo
  by_cases hrunning : runId ∈ s.history.running.keys
  · show (if _ then due runId (s.queue ++ _) else []) = _
    rw [if_pos hrunning, if_pos hrunning, due_append_append]
    by_cases hfinish : .finish runId ∈ s.queue
    · rw [if_pos hfinish, if_neg fun h => h.2 hfinish]
    · rw [if_neg hfinish, if_pos ⟨hrunning, hfinish⟩]
  · rw [if_neg (show runId ∉ s.history.running.keys from hrunning), if_neg hrunning,
      if_neg fun h => hrunning h.1]
    rfl

/-- **A row that is recorded** is due to the runs that are open, and to no other. -/
theorem Accounted.record (h : Accounted s)
    (hstep : recording.step s (.record attempt) = some s') : Accounted s' := by
  have hdue := dueTo_record hstep
  cases hstep
  constructor
  · intro w' hw'
    obtain ⟨w, hw, rfl⟩ := List.mem_map.mp hw'
    obtain ⟨hrows, hopened, hclosing⟩ := h.windows w hw
    cases hclosed : w.closed with
    | true =>
      rw [Window.record, if_pos hclosed]
      refine ⟨?_, fun hopen => ?_,
        fun _ hrunning => List.mem_append_left _ (hclosing hclosed hrunning)⟩
      · rw [hdue, if_neg fun hdue => hdue.2 (hclosing hclosed hdue.1), List.append_nil]
        exact hrows
      · cases hclosed.symm.trans hopen
    | false =>
      obtain ⟨hrunning, hfinish⟩ := hopened hclosed
      rw [Window.record, if_neg (by rw [hclosed]; nofun)]
      refine ⟨?_, fun _ => ⟨hrunning, ?_⟩, fun hclosed' => ?_⟩
      · rw [hdue, if_pos ⟨hrunning, hfinish⟩, ← List.append_assoc, ← hrows]
      · simpa using hfinish
      · cases hclosed.symm.trans hclosed'
  · intro runId hne
    exact h.others runId fun w hw => by simpa using hne _ (List.mem_map_of_mem hw)

/-- **A run that is opened in the clear** is due nothing yet. -/
theorem Accounted.openRun (h : Accounted s) {mode instant : String}
    (hclear : s.OpensInTheClear (.openRun mode instant))
    (hstep : recording.step s (.openRun mode instant) = some s') : Accounted s' := by
  obtain ⟨hnone, hfinish, hfresh⟩ := hclear
  cases hstep
  have hkeys : ∀ runId, runId ∈ (s.history.openRun mode instant).running.keys ↔
      runId = runIdFor mode instant ∨ runId ∈ s.history.running.keys :=
    fun runId => JsMap.mem_keys_set ..
  constructor
  · intro w hw
    rcases List.mem_append.mp hw with hw | hw
    · have hacc := h.windows w hw
      have hsame : w.runId ∈ (s.history.openRun mode instant).running.keys ↔
          w.runId ∈ s.history.running.keys := by
        rw [hkeys, or_iff_right_of_imp]
        exact fun heq => (hacc.opened (hfresh w hw heq).2).1
      refine hacc.transfer ?_ hsame Iff.rfl
      simp only [dueTo, hsame]
      rfl
    -- nothing is in the file, and nothing is on its way
    · obtain rfl := List.mem_singleton.mp hw
      have hempty : s.history.files (runIdFor mode instant) = [] := by
        by_cases hused : ∀ w ∈ s.windows, w.runId ≠ runIdFor mode instant
        · exact (h.others _ hused).2
        · push Not at hused
          obtain ⟨w, hw, heq⟩ := hused
          have hrows := (h.windows w hw).rows
          rw [(hfresh w hw heq).1, heq] at hrows
          exact (List.append_eq_nil_iff.mp hrows).1
      refine ⟨?_, fun _ => ⟨(hkeys _).mpr (.inl rfl), hfinish⟩, nofun⟩
      show s.history.files _ ++ (if _ then due _ s.queue else []) = []
      rw [hempty, due_eq_nil hnone, ite_self]
      rfl
  · intro runId hne
    have hother := h.others runId fun w hw => hne w (List.mem_append_left _ hw)
    have hnew := hne _ (List.mem_append_right _ (List.mem_singleton_self _))
    exact ⟨fun hmem => ((hkeys _).mp hmem).elim (fun heq => hnew heq.symm) hother.1, hother.2⟩

/-- A close leaves what is due as it is. -/
theorem Accounted.close (h : Accounted s) {runId : String}
    (hstep : recording.step s (.close runId) = some s') : Accounted s' := by
  cases hstep
  have hdue : ∀ r, dueTo { s with
      queue := s.queue ++ [.finish runId]
      windows := s.windows.map (·.close runId) } r = s.dueTo r := fun r => by
    unfold dueTo
    rw [due_append_finish]
  constructor
  · intro w' hw'
    obtain ⟨w, hw, rfl⟩ := List.mem_map.mp hw'
    have hacc := h.windows w hw
    by_cases heq : w.runId = runId
    · rw [Window.close, if_pos heq]
      refine ⟨?_, nofun, fun _ _ => List.mem_append_right _ (by simp [heq])⟩
      rw [hdue]
      exact hacc.rows
    · rw [Window.close, if_neg heq]
      refine hacc.transfer (by rw [hdue]) Iff.rfl ?_
      simp [heq]
  · exact fun r hne => h.others r fun w hw => by simpa using hne _ (List.mem_map_of_mem hw)

/-- What a turn takes from the queue, and which runs are open after it. -/
theorem turn_spec (hstep : recording.step s .turn = some s') :
    ∃ task, s.queue = task :: s'.queue ∧ s'.windows = s.windows ∧
      ∀ runId, runId ∈ s'.history.running.keys ↔
        runId ∈ s.history.running.keys ∧ task ≠ .finish runId := by
  obtain ⟨store, history, queue, windows⟩ := s
  cases queue with
  | nil => cases hstep
  | cons task queue =>
    cases task with
    | append row =>
      cases hstep
      exact ⟨_, rfl, rfl, fun runId => (and_iff_left nofun).symm⟩
    | finish runId =>
      cases hstep
      refine ⟨_, rfl, rfl, fun r => (JsMap.mem_keys_delete ..).trans (and_congr_right fun _ => ?_)⟩
      rw [ne_eq, ne_eq, Immediate.finish.injEq, eq_comm]

/-- **A turn moves a row that is due into the file**; a run that is closed is due nothing. -/
theorem turn_rows (hstep : recording.step s .turn = some s') (runId : String) :
    s'.history.files runId ++ s'.dueTo runId = s.history.files runId ++ s.dueTo runId := by
  obtain ⟨store, history, queue, windows⟩ := s
  cases queue with
  | nil => cases hstep
  | cons task queue =>
    cases task with
    | append row =>
      cases hstep
      show (history.append row).files runId ++
        (if runId ∈ history.running.keys then due runId queue else []) =
          history.files runId ++ (if runId ∈ history.running.keys then row :: _ else [])
      rw [HistoryService.files_append, List.append_assoc]
      split <;> rfl
    | finish runId' =>
      cases hstep
      have hkeys : runId ∈ (history.finish runId').running.keys ↔
          runId ∈ history.running.keys ∧ runId ≠ runId' := JsMap.mem_keys_delete ..
      refine congrArg (history.files runId ++ ·) ?_
      rw [dueTo, dueTo, due]
      simp only [hkeys]
      by_cases heq : runId = runId'
      · rw [if_neg fun h => h.2 heq, if_pos heq.symm, ite_self]
      · rw [if_neg (Ne.symm heq)]
        simp only [heq, ne_eq, not_false_eq_true, and_true]

/-- **The next immediate** hands a row over to the runs it is due to, or closes a run that is due
    nothing more. -/
theorem Accounted.turn (h : Accounted s) (hstep : recording.step s .turn = some s') :
    Accounted s' := by
  obtain ⟨task, hqueue, hwindows, hkeys⟩ := turn_spec hstep
  have hfinish : ∀ runId, .finish runId ∈ s.queue ↔
      task = .finish runId ∨ .finish runId ∈ s'.queue := fun runId => by
    rw [hqueue, List.mem_cons, eq_comm]
  constructor
  · intro w hw
    obtain ⟨hrows, hopened, hclosing⟩ := h.windows w (hwindows ▸ hw)
    refine ⟨(turn_rows hstep _).trans hrows, fun hopen => ?_, fun hclosed hrunning => ?_⟩
    · obtain ⟨hrunning, hnone⟩ := hopened hopen
      obtain ⟨htask, hrest⟩ := not_or.mp ((hfinish _).not.mp hnone)
      exact ⟨(hkeys _).mpr ⟨hrunning, htask⟩, hrest⟩
    · obtain ⟨hrunning, htask⟩ := (hkeys _).mp hrunning
      exact ((hfinish _).mp (hclosing hclosed hrunning)).resolve_left htask
  · intro runId hne
    obtain ⟨hrunning, hempty⟩ := h.others runId (hwindows ▸ hne)
    have hrows := turn_rows hstep runId
    rw [hempty, dueTo, dueTo, if_neg hrunning] at hrows
    exact ⟨fun hmem => hrunning ((hkeys _).mp hmem).1, (List.append_eq_nil_iff.mp hrows).1⟩

theorem Accounted.step (h : Accounted s) (hclear : s.OpensInTheClear e)
    (hstep : recording.step s e = some s') : Accounted s' := by
  cases e with
  | record attempt => exact h.record hstep
  | openRun mode instant => exact h.openRun hclear hstep
  | close runId => exact h.close hstep
  | turn => exact h.turn hstep

/-! ### Where a file is not exact -/

/-- The immediates that wait run, one after the other. -/
theorem exists_drained (s : Recording) : ∃ s', recording.run s
    (List.replicate s.queue.length .turn) = some s' ∧ s'.queue = [] ∧ s'.windows = s.windows ∧
    ∀ runId, s'.history.files runId = s.history.files runId ++ s.dueTo runId ∧
      (runId ∈ s'.history.running.keys ↔
        runId ∈ s.history.running.keys ∧ .finish runId ∉ s.queue) := by
  induction hlength : s.queue.length generalizing s with
  | zero =>
    have hnil := List.length_eq_zero_iff.mp hlength
    refine ⟨s, rfl, hnil, rfl, fun runId => ⟨?_, by simp [hnil]⟩⟩
    rw [dueTo, hnil, due, ite_self, List.append_nil]
  | succ n ih =>
    obtain ⟨s₁, hstep⟩ : ∃ s₁, recording.step s .turn = some s₁ := by
      obtain ⟨store, history, queue, windows⟩ := s
      cases queue with
      | nil => cases hlength
      | cons task queue =>
        cases task with
        | append row => exact ⟨_, rfl⟩
        | finish runId => exact ⟨_, rfl⟩
    obtain ⟨task, hqueue, hwindows, hkeys⟩ := turn_spec hstep
    rw [hqueue, List.length_cons, Nat.succ_inj] at hlength
    obtain ⟨s', hrun, hnil, hwindows', hends⟩ := ih s₁ hlength
    refine ⟨s', ?_, hnil, hwindows'.trans hwindows, fun runId => ⟨?_, ?_⟩⟩
    · rw [List.replicate_succ, Machine.run_cons, hstep]
      exact hrun
    · rw [(hends runId).1, turn_rows hstep]
    · rw [(hends runId).2, hkeys, hqueue, List.mem_cons, not_or, and_assoc, ne_comm]

/-- With nothing on its way, one more row is recorded and handed over. -/
theorem exists_recorded (hnil : s.queue = []) (attempt : Attempt) : ∃ s',
    recording.run s [.record attempt, .turn] = some s' ∧ s'.queue = [] ∧
    s'.windows = s.windows.map (·.record { attempt with id := s.store.nextId }) ∧
    ∀ runId, s'.history.files runId = s.history.files runId ++
      if runId ∈ s.history.running.keys then [{ attempt with id := s.store.nextId }] else [] := by
  obtain ⟨store, history, queue, windows⟩ := s
  obtain rfl : queue = [] := hnil
  exact ⟨⟨store.record attempt, history.append { attempt with id := store.nextId }, [],
    windows.map (·.record { attempt with id := store.nextId })⟩, rfl, rfl, rfl,
    fun runId => HistoryService.files_append history _ runId⟩

/-- A row on its way is due to a run, unless the run is about to be closed. -/
theorem finish_mem_of_due {runId : String} {queue : List Immediate} {row : Attempt}
    (hrow : .append row ∈ queue) (h : due runId queue = []) : .finish runId ∈ queue := by
  induction queue with
  | nil => cases hrow
  | cons task queue ih =>
    cases task with
    | append row' => cases h
    | finish runId' =>
      by_cases heq : runId' = runId
      · rw [heq]
        exact List.mem_cons_self
      · rw [due, if_neg heq] at h
        have hrest := (List.mem_cons.mp hrow).resolve_left Immediate.noConfusion
        exact List.mem_cons_of_mem _ (ih hrest h)

/-- Where nothing of a run is in its file or on its way, and an open is not in the clear all the
    same, an earlier run had its name, and is closed. -/
theorem Accounted.closed_of_not_clear (h : Accounted s) {mode instant : String}
    (hbad : ¬s.OpensInTheClear (.openRun mode instant))
    (hfinish : .finish (runIdFor mode instant) ∉ s.queue)
    (hfile : s.history.files (runIdFor mode instant) = [])
    (hdue : due (runIdFor mode instant) s.queue = []) :
    ∃ w ∈ s.windows, w.runId = runIdFor mode instant ∧ w.rows = [] ∧ w.closed = true := by
  have hrows : ∀ w ∈ s.windows, w.runId = runIdFor mode instant → w.rows = [] := by
    intro w hw heq
    have hrows := (h.windows w hw).rows
    rw [heq, dueTo, hfile, hdue, ite_self] at hrows
    exact hrows.symm
  by_contra hfresh
  push Not at hfresh
  refine hbad ⟨?_, hfinish, fun w hw heq => ?_⟩
  · intro task htask
    cases task with
    | append row => exact absurd (finish_mem_of_due htask hdue) hfinish
    | finish => rfl
  · exact ⟨hrows w hw heq, Bool.eq_false_iff.mpr (hfresh w hw heq (hrows w hw heq))⟩

/-- **A run that is opened otherwise**: its file, or the one of an earlier run of its name, will not
    be exact. -/
theorem Accounted.breaks (h : Accounted s) (hbad : ¬s.OpensInTheClear e)
    (hstep : recording.step s e = some s') :
    ∃ gs s'', (∀ g ∈ gs, g.opens = false) ∧
      recording.run s' gs = some s'' ∧ ¬s''.Exact := by
  cases e with
  | record | close | turn => exact absurd trivial hbad
  | openRun mode instant =>
    cases hstep
    let runId := runIdFor mode instant
    have hkey : runId ∈ (s.history.openRun mode instant).running.keys :=
      (JsMap.mem_keys_set ..).mpr (.inl rfl)
    obtain ⟨s₁, hrun₁, hnil₁, hwindows₁, hends⟩ := exists_drained
      { s with
        history := s.history.openRun mode instant
        windows := s.windows ++ [⟨runId, [], false⟩] }
    have hnew : ⟨runId, [], false⟩ ∈ s₁.windows := by
      rw [hwindows₁]
      exact List.mem_append_right _ (List.mem_singleton_self _)
    have hfile : s₁.history.files runId = s.history.files runId ++ due runId s.queue := by
      rw [(hends runId).1, dueTo, if_pos hkey]
      rfl
    have hrunning : runId ∈ s₁.history.running.keys ↔ .finish runId ∉ s.queue :=
      (hends runId).2.trans (and_iff_right hkey)
    by_cases hempty : s₁.history.files runId = []
    -- the run misses the next row, or an earlier run of its name gets it
    · obtain ⟨s₂, hrun₂, hnil₂, hwindows₂, hfiles₂⟩ :=
        exists_recorded hnil₁ (chaosEvent .db_pause true ⟨"", none⟩ 0 0)
      refine ⟨_, s₂, ?_, recording.run_trans hrun₁ hrun₂, fun hexact => ?_⟩
      · intro g hg
        rcases List.mem_append.mp hg with hturn | hg
        · rw [List.eq_of_mem_replicate hturn]
          rfl
        · rcases List.mem_pair.mp hg with rfl | rfl
          · rfl
          · rfl
      · have hmem : ∀ w ∈ s₁.windows, w.record _ ∈ s₂.windows := fun w hw =>
          hwindows₂ ▸ List.mem_map_of_mem hw
        by_cases hfinish : .finish runId ∈ s.queue
        · have hrow := (hexact.1 _ (hmem _ hnew)).2 hnil₂
          rw [Window.record_runId, hfiles₂, hempty,
            if_neg fun hmem => hrunning.mp hmem hfinish] at hrow
          cases hrow
        · rw [hempty] at hfile
          obtain ⟨hfile, hdue⟩ := List.append_eq_nil_iff.mp hfile.symm
          obtain ⟨w, hw, heq, hrows, hclosed⟩ := h.closed_of_not_clear hbad hfinish hfile hdue
          have hrow := (hexact.1 _ (hmem w (hwindows₁ ▸ List.mem_append_left _ hw))).2 hnil₂
          rw [Window.record_runId, heq, hfiles₂, hempty, if_pos (hrunning.mpr hfinish),
            Window.record, if_pos hclosed, hrows] at hrow
          cases hrow
    -- the file begins with a row from before the open
    · refine ⟨_, s₁, fun g hg => ?_, hrun₁, fun hexact => hempty ((hexact.1 _ hnew).2 hnil₁)⟩
      rw [List.eq_of_mem_replicate hg]
      rfl

/-- **The files are exact**, at the end of every run and whatever happens after any part of it but
    the open of another, just where every run was opened in the clear. -/
theorem exact_iff {es : List RecordingEvent} (hrun : recording.run initial es = some s) :
    recording.Along OpensInTheClear initial es ↔
      ∀ fs gs s', fs <+: es → (∀ g ∈ gs, g.opens = false) →
        recording.run initial (fs ++ gs) = some s' → s'.Exact :=
  recording.along_iff_of_forall accounted_initial Accounted.step Accounted.exact
    (fun s g hg => by cases g with
      | openRun => cases hg
      | record | close | turn => trivial)
    (fun h => h.breaks) hrun

/-- Two runs that overlap, opened with nothing on its way. -/
def overlapping : List RecordingEvent :=
  [.openRun "sim" "2026-01-01T00:00:00.000Z", .openRun "load-burst" "2026-01-01T00:00:01.000Z",
    .record (chaosEvent .client_retry true ⟨"", none⟩ 0 0),
    .close "2026-01-01T00-00-00-000Z-sim", .turn,
    .record (chaosEvent .client_retry true ⟨"", none⟩ 0 0), .turn, .turn]

/-- Their files are exact, and stay so while no run is opened. -/
theorem exact_overlapping : ∃ s, recording.run initial overlapping = some s ∧
    ∀ gs s', (∀ g ∈ gs, g.opens = false) →
      recording.run initial (overlapping ++ gs) = some s' → s'.Exact := by
  obtain ⟨s, hs, -⟩ := recording.exists_run initial overlapping (P := fun _ => True) (by decide)
  exact ⟨s, hs, fun gs s' => (exact_iff hs).mp (by decide) overlapping gs s' (List.prefix_refl _)⟩

/-- A run opened on a row that is still to be handed over. -/
def openedLate : List RecordingEvent :=
  [.record (chaosEvent .latency_injection true ⟨"", none⟩ 0 0),
    .openRun "sim" "2026-01-01T00:00:00.000Z", .turn]

/-- **Its file holds a row from before it.** -/
theorem inexact_openedLate :
    ¬∀ es s, recording.run initial es = some s → s.Exact := by
  intro h
  obtain ⟨s, hs, hnil, w, hw, hne⟩ := recording.exists_run initial openedLate
    (P := fun s => s.queue = [] ∧ ∃ w ∈ s.windows, s.history.files w.runId ≠ w.rows) (by decide)
  exact hne (((h _ s hs).1 w hw).2 hnil)

end Recording

end Cocos.Tools
