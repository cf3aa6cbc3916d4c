import Cocos.Tools.LoadService
import Cocos.Tools.Resting
import Mathlib.Data.List.DropRight

namespace Cocos.Tools

open Cocos.Lib

/-!
# One load run at a time

The runs of `LoadService` over its whole life: however often it is asked for one, and whatever
comes of what a run waits for.

* `RunRecord.Whole`, `RunRecord.Ended` — what the record of a run shows once it is over;
* `LoadStage.Shows` — what it shows before;
* `Books` — the records of the runs that are over, and the one of the run under way;
* `books_step` — **one step keeps them**;
* `Orderly`, `runs_orderly` — **no two runs overlap, each leaves one record that is never written
  to again, and no broken invariant is left out or reported twice**.
-/

/-! ### Records -/

/-- A run that is done has sent every order of its profile, waited for its users, and checked all
    there is to check. -/
structure RunRecord.Whole (record : RunRecord) : Prop where
  sent : record.totals.sent = record.profile.totalOrders
  still : ∃ q, record.quiesce = some q ∧ q.Honest (touched record.profile)
  checked : record.invariants.map (·.name) = INVARIANTS

/-- A run is over: done, or failed for a reason. -/
def RunRecord.Ended (record : RunRecord) : Prop :=
  record.phase = .done ∧ record.error = none ∧ record.Whole ∨
    record.phase = .failed ∧ record.error.isSome

/-- One run is over before another starts. -/
def RunRecord.Before (record record' : RunRecord) : Prop :=
  ∃ t, record.finishedAt = some t ∧ t ≤ record'.startedAt

/-- What the record shows of a run that has come so far. -/
def LoadStage.Shows (firing : Firing) (record : RunRecord) : LoadStage → Prop
  | .marking => record.phase = .placing ∧ record.error = none ∧ record.invariants = []
  | .preparing | .firing =>
    (record.phase = .placing ∧ record.error = none ∧ record.invariants = []) ∧
      firing.Planned record.profile.totalOrders ∧ firing.run.result.phase = .placing
  | .stilling .. =>
    (record.phase = .quiescing ∧ record.error = none ∧ record.invariants = []) ∧
      record.totals.sent = record.profile.totalOrders
  | .stilled =>
    (record.phase = .quiescing ∧ record.error = none ∧ record.invariants = []) ∧
      record.totals.sent = record.profile.totalOrders ∧
      ∃ q, record.quiesce = some q ∧ q.Honest (touched record.profile)
  | .reading .. | .rereading .. =>
    (record.phase = .checking ∧ record.error = none ∧ record.invariants = []) ∧
      record.totals.sent = record.profile.totalOrders ∧
      ∃ q, record.quiesce = some q ∧ q.Honest (touched record.profile)
  | .repreparing => record.phase = .checking ∧ record.error = none ∧ record.Whole
  | .settled => record.Ended

namespace Firing

variable {s s' : Firing} {e : FiringEvent}

/-- Time does not go back. -/
theorem clock_le_of_step (h : firing.step s e = some s') : s.clock ≤ s'.clock := by
  cases took_of_step h with
  | ticked hclock => exact hclock
  | @settled j expected c result =>
    show s.clock ≤ (s.settle j c result expected).clock
    unfold settle
    split <;> exact le_rfl
  | _ => exact le_rfl

/-- Nobody else writes to the run. -/
theorem run_of_beside (hother : e.isOwn = false) (h : firing.step s e = some s') :
    s'.run = s.run := by
  cases took_of_step h with
  | firedCancel | fired | posted | answered | probed | settled | folded => cases hother
  | _ => rfl

end Firing

/-- What others do is not to be seen in the record. -/
theorem LoadStage.Shows.beside {stage : LoadStage} {firing firing' : Firing} {record : RunRecord}
    (h : stage.Shows firing record) {e : FiringEvent} (hother : e.isOwn = false)
    (hstep : Cocos.Tools.firing.step firing e = some firing') : stage.Shows firing' record := by
  cases stage with
  | preparing | firing =>
    obtain ⟨hrecord, hplanned, hphase⟩ := h
    refine ⟨hrecord, hplanned.step hstep, ?_⟩
    rw [Firing.run_of_beside hother hstep]
    exact hphase
  | _ => exact h

/-! ### The books -/

namespace LoadService

variable {round : ℚ → ℚ} {s s' : LoadService} {old : List RunRecord}

/-- The runs the service holds, of those it has started. -/
def newest (records : List RunRecord) : List (String × Nat) :=
  ((records.map (·.runId)).zipIdx).rtake RUNS_KEPT

/-- The records of the runs that are over, and the one of the run under way. -/
structure Books (s : LoadService) (old : List RunRecord)
    (now : Option (RunRecord × LoadStage)) : Prop where
  records : s.records = old ++ (now.map Prod.fst).toList
  current : s.current = now.map fun x => ⟨old.length, x.2⟩
  running : s.loadRunning = now.isSome
  ended : ∀ record ∈ old, record.finishedAt.isSome ∧ record.Ended
  under : ∀ record stage, now = some (record, stage) →
    record.finishedAt = none ∧ stage.Shows s.firing record
  closed : s.closed = old.map fun record => (record.runId, record)
  violations : s.violations = s.records.flatMap RunRecord.violations
  held : (s.records.map (·.runId)).Nodup → s.held.entries = newest s.records
  apart : s.records.Pairwise RunRecord.Before
  clock : ∀ record ∈ s.records, record.startedAt ≤ s.firing.clock ∧
    ∀ t, record.finishedAt = some t → t ≤ s.firing.clock
  admitted : s.profile.Admitted ∧ ∀ record ∈ s.records, record.profile.Admitted

theorem books_initial (firing : Firing) : (initial firing).Books [] none where
  records := rfl
  current := rfl
  running := rfl
  ended _ h := absurd h List.not_mem_nil
  under _ _ h := by cases h
  closed := rfl
  violations := rfl
  held _ := rfl
  apart := .nil
  clock _ h := absurd h List.not_mem_nil
  admitted := ⟨LoadProfile.admitted_default, fun _ h => absurd h List.not_mem_nil⟩

/-- The run under way writes to the newest record. -/
theorem Books.runs {now : Option (RunRecord × LoadStage)} (h : s.Books old now)
    {run : LoadExecution} {record : RunRecord} (hruns : s.Runs run record) :
    now = some (record, run.stage) ∧ run.index = old.length := by
  obtain ⟨hcurrent, hrecord⟩ := hruns
  rw [h.current] at hcurrent
  obtain ⟨⟨record', stage⟩, rfl, rfl⟩ := Option.map_eq_some_iff.mp hcurrent
  rw [h.records, List.getElem?_append_right le_rfl] at hrecord
  cases hrecord.symm.trans (by simp : _ = some record')
  exact ⟨rfl, rfl⟩

/-- What a run writes to its record does not touch what the run is. -/
structure Frame (record record' : RunRecord) : Prop where
  runId : record'.runId = record.runId
  profile : record'.profile = record.profile
  startedAt : record'.startedAt = record.startedAt
  finishedAt : record'.finishedAt = record.finishedAt

/-- What a run leaves alone while it goes on. -/
structure Leaves (s s' : LoadService) : Prop where
  profile : s'.profile = s.profile
  held : s'.held = s.held
  loadRunning : s'.loadRunning = s.loadRunning
  closed : s'.closed = s.closed

/-- **A run goes on**, and writes to its record. -/
theorem Books.go {record record' : RunRecord} {stage stage' : LoadStage}
    (h : s.Books old (some (record, stage))) (hframe : Frame record record')
    (hrecords : s'.records = old ++ [record']) (hcurrent : s'.current = some ⟨old.length, stage'⟩)
    (hclock : s.firing.clock ≤ s'.firing.clock) (hshows : stage'.Shows s'.firing record')
    (hviolations : s'.violations = old.flatMap RunRecord.violations ++ record'.violations)
    (hleaves : s.Leaves s') : s'.Books old (some (record', stage')) := by
  have hold : s.records = old ++ [record] := h.records
  have hids : s'.records.map (·.runId) = s.records.map (·.runId) := by
    rw [hrecords, hold, List.map_append, List.map_append, List.map_singleton, List.map_singleton,
      hframe.runId]
  obtain ⟨hadmitted, hprofiles⟩ := h.admitted
  have happart := h.apart
  have hclocks := h.clock
  rw [hold] at happart hclocks hprofiles
  constructor
  · exact hrecords
  · exact hcurrent
  · exact hleaves.loadRunning.trans h.running
  · exact h.ended
  · rintro _ _ ⟨⟩
    exact ⟨hframe.finishedAt.trans (h.under record stage rfl).1, hshows⟩
  · exact hleaves.closed.trans h.closed
  · rw [hviolations, hrecords, List.flatMap_append, List.flatMap_singleton]
  · rw [hids, hleaves.held, newest, hids]
    exact h.held
  · rw [hrecords, List.pairwise_append] at *
    obtain ⟨hold, -, hlast⟩ := happart
    refine ⟨hold, List.pairwise_singleton _ _, fun r hr r' hr' => ?_⟩
    obtain ⟨t, hfinished, hle⟩ := hlast r hr record List.mem_cons_self
    rw [List.mem_singleton.mp hr']
    exact ⟨t, hfinished, hle.trans_eq hframe.startedAt.symm⟩
  · rw [hrecords]
    obtain ⟨hr, hlast⟩ := List.forall_mem_append.mp hclocks
    obtain ⟨hstarted, hfinished⟩ := hlast record List.mem_cons_self
    refine forall_mem_concat (fun r hr' => ?_) ⟨?_, fun t ht => ?_⟩
    · exact ⟨(hr r hr').1.trans hclock, fun t ht => ((hr r hr').2 t ht).trans hclock⟩
    · exact hframe.startedAt.le.trans (hstarted.trans hclock)
    · exact (hfinished t (hframe.finishedAt ▸ ht)).trans hclock
  · rw [hrecords, hleaves.profile]
    refine ⟨hadmitted, forall_mem_concat (fun r hr => ?_) ?_⟩
    · exact hprofiles r (List.mem_append_left _ hr)
    · rw [hframe.profile]
      exact hprofiles record (List.mem_append_right _ List.mem_cons_self)

/-- What was reported before a run writes something that needs no report. -/
theorem Books.reported {record record' : RunRecord} {stage : LoadStage}
    (h : s.Books old (some (record, stage))) (hsame : record'.violations = record.violations) :
    s.violations = old.flatMap RunRecord.violations ++ record'.violations := by
  have hold : s.records = old ++ [record] := h.records
  rw [h.violations, hold, List.flatMap_append, List.flatMap_singleton, hsame]

theorem records_go {record : RunRecord} {run : LoadExecution}
    (hrecords : s.records = old ++ [record]) (hindex : run.index = old.length) (stage : LoadStage)
    (write : RunRecord → RunRecord) : (s.go run stage write).records = old ++ [write record] := by
  show s.records.modify run.index write = _
  rw [hrecords, hindex, List.modify_eq_take_cons_drop (by simp)]
  simp

/-- The same, where what is written needs no report. -/
theorem Books.wrote {now : Option (RunRecord × LoadStage)} (h : s.Books old now)
    {run : LoadExecution} {record : RunRecord} (hruns : s.Runs run record)
    {write : RunRecord → RunRecord} {stage : LoadStage} (firing : Firing)
    (hframe : Frame record (write record)) (hsame : (write record).violations = record.violations)
    (hclock : s.firing.clock ≤ firing.clock) (hshows : stage.Shows firing (write record)) :
    Books { s.go run stage write with firing := firing } old (some (write record, stage)) := by
  obtain ⟨rfl, hindex⟩ := h.runs hruns
  refine h.go hframe (records_go h.records hindex stage write) ?_ hclock hshows
    (h.reported hsame) ⟨rfl, rfl, rfl, rfl⟩
  show some _ = some _
  rw [hindex]

/-- An await ends in an error. -/
theorem Books.fail {now : Option (RunRecord × LoadStage)} (h : s.Books old now)
    {run : LoadExecution} {record : RunRecord} (hruns : s.Runs run record) (message : String) :
    ∃ now', (s.fail run message).Books old now' :=
  ⟨_, h.wrote hruns s.firing ⟨rfl, rfl, rfl, rfl⟩ rfl le_rfl (.inr ⟨rfl, rfl⟩)⟩

/-- The waves of a profile, none of them fired. -/
theorem planned_marked (s : LoadService) (record : RunRecord) :
    (s.marked round record).Planned record.profile.totalOrders ∧
      (s.marked round record).run.result.phase = .placing := by
  have h := Firing.planned_start round record.profile s.firing.modes s.firing.orders s.firing.store
    record.startedAt
  refine ⟨⟨h.fired, h.sent, h.done⟩, ?_⟩
  -- there is an order to send, so there is a wave to send it in
  have hsum := sum_length_planWaves round record.profile
  have hpos := record.profile.totalOrders_pos
  show (LoadRun.next _).result.phase = .placing
  unfold LoadRun.next
  split
  · rename_i hnone
    rw [show planWaves round record.profile = [] from hnone] at hsum
    exact absurd hsum hpos.ne
  · rfl

/-- Once its waves are over a run has sent what it was to send. -/
theorem sent_of_planned {firing : Firing} {total : Nat} (h : firing.Planned total)
    (hphase : firing.run.result.phase ≠ .placing) : (firing.run.totals round).sent = total := by
  obtain ⟨hdue, hwaves, hsettled, hsent⟩ := h.done hphase
  have hfired := h.fired
  have hcount : firing.calls.countP (·.stage.isOver) = firing.calls.length :=
    List.countP_eq_length.mpr hsettled
  rw [hdue, hwaves] at hfired
  calc (firing.run.totals round).sent = firing.run.tally.sent := hsent
    _ = firing.calls.length := h.sent.trans hcount
    _ = total := by simpa using hfired

/-- A run under an id of its own is held, with the newest of the others. -/
theorem entries_keep {held : JsMap String Nat} {runId : String} (h : runId ∉ held.keys)
    (index : Nat) :
    (keep held runId index).entries = (held.entries ++ [(runId, index)]).rtake RUNS_KEPT := by
  have hset := JsMap.entries_set_of_notMem h index
  rw [keep, JsMap.entries_foldl_delete, hset, List.rtake, JsMap.keys, List.length_map, hset]

theorem rtake_newest (records : List RunRecord) (record : RunRecord) :
    (newest records ++ [(record.runId, records.length)]).rtake RUNS_KEPT =
      newest (records ++ [record]) := by
  rw [newest, newest, List.map_append, List.map_singleton, List.zipIdx_append, List.length_map,
    Nat.zero_add, List.zipIdx_singleton, RUNS_KEPT, List.rtake_concat_succ, List.rtake_concat_succ]
  simp only [List.rtake_eq_reverse_take_reverse, List.reverse_reverse, List.take_take]
  rfl

/-- A run is started. -/
theorem Books.started (h : s.Books old none) (overrides : StartLoadDto) :
    Books { s with
      profile := s.profile.overridden overrides
      records := s.records ++ [.fresh (s.profile.overridden overrides) s.firing.clock]
      held := keep s.held (RunRecord.fresh (s.profile.overridden overrides) s.firing.clock).runId
        s.records.length
      current := some ⟨s.records.length, .marking⟩
      loadRunning := true } old
        (some (.fresh (s.profile.overridden overrides) s.firing.clock, .marking)) := by
  have hold : s.records = old := by simpa using h.records
  obtain ⟨hadmitted, hprofiles⟩ := h.admitted
  have hover : ∀ record ∈ s.records, record.finishedAt.isSome := fun record hrecord =>
    (h.ended record (hold ▸ hrecord)).1
  generalize hrecord : RunRecord.fresh (s.profile.overridden overrides) s.firing.clock = record
  have hstarted : record.startedAt = s.firing.clock := by rw [← hrecord]; rfl
  constructor
  · rw [hold]
    rfl
  · rw [hold]
    rfl
  · rfl
  · exact h.ended
  · rintro _ _ ⟨⟩
    rw [← hrecord]
    exact ⟨rfl, rfl, rfl, rfl⟩
  · exact h.closed
  · rw [List.flatMap_append, List.flatMap_singleton, ← hrecord]
    show s.violations = _ ++ []
    rw [List.append_nil]
    exact h.violations
  · intro hids
    rw [List.map_append, List.map_singleton] at hids
    obtain ⟨hnodup, -, hfresh⟩ := List.nodup_append.mp hids
    have hheld := h.held hnodup
    have hnotMem : record.runId ∉ s.held.keys := by
      intro hmem
      obtain ⟨e, he, heq⟩ := List.mem_map.mp hmem
      rw [hheld, newest] at he
      have hid := List.fst_mem_of_mem_zipIdx (List.drop_subset _ _ he)
      exact hfresh _ hid _ List.mem_cons_self heq
    exact (entries_keep hnotMem s.records.length).trans (by rw [hheld, rtake_newest])
  · refine List.pairwise_append.mpr ⟨h.apart, List.pairwise_singleton _ _, fun r hr r' hr' => ?_⟩
    obtain ⟨t, ht⟩ := Option.isSome_iff_exists.mp (hover r hr)
    rw [List.mem_singleton.mp hr', RunRecord.Before, hstarted]
    exact ⟨t, ht, (h.clock r hr).2 t ht⟩
  · refine forall_mem_concat h.clock ⟨hstarted.le, fun t ht => ?_⟩
    rw [← hrecord] at ht
    cases ht
  · refine ⟨hadmitted.overridden overrides, forall_mem_concat hprofiles ?_⟩
    rw [← hrecord]
    exact hadmitted.overridden overrides

/-- The `finally` of a run. -/
theorem Books.finished {now : Option (RunRecord × LoadStage)} (h : s.Books old now)
    {run : LoadExecution} {record : RunRecord} (hruns : s.Runs run record)
    (hstage : run.stage = .settled) :
    (s.finished run record).Books
      (old ++ [{ record with finishedAt := some s.firing.clock }]) none := by
  obtain ⟨rfl, hindex⟩ := h.runs hruns
  have hold : s.records = old ++ [record] := h.records
  have hended : record.Ended := by
    have hshows := (h.under record run.stage rfl).2
    rw [hstage] at hshows
    exact hshows
  have hrecords : (s.finished run record).records =
      old ++ [{ record with finishedAt := some s.firing.clock }] := by
    show s.records.set run.index _ = _
    rw [hold, hindex, List.set_append_right _ _ le_rfl]
    simp
  have hids : (s.finished run record).records.map (·.runId) = s.records.map (·.runId) := by
    rw [hrecords, hold, List.map_append, List.map_append]
    rfl
  obtain ⟨hadmitted, hprofiles⟩ := h.admitted
  have happart := h.apart
  have hclock := h.clock
  rw [hold] at happart hclock hprofiles
  constructor
  · rw [hrecords]
    exact (List.append_nil _).symm
  · rfl
  · rfl
  · refine forall_mem_concat h.ended ⟨rfl, hended.imp_left ?_⟩
    exact fun ⟨hphase, herror, hwhole⟩ =>
      ⟨hphase, herror, hwhole.sent, hwhole.still, hwhole.checked⟩
  · rintro _ _ ⟨⟩
  · rw [List.map_append, ← h.closed]
    rfl
  · rw [hrecords, List.flatMap_append, List.flatMap_singleton]
    exact h.reported rfl
  · rw [hids, newest, hids]
    exact h.held
  · rw [hrecords, List.pairwise_append] at *
    refine ⟨happart.1, List.pairwise_singleton _ _, fun r hr r' hr' => ?_⟩
    rw [List.mem_singleton.mp hr']
    exact happart.2.2 r hr record List.mem_cons_self
  · rw [hrecords]
    obtain ⟨hr, hlast⟩ := List.forall_mem_append.mp hclock
    refine forall_mem_concat hr ⟨(hlast record List.mem_cons_self).1, ?_⟩
    rintro _ ⟨⟩
    exact le_rfl
  · rw [hrecords]
    refine ⟨hadmitted, forall_mem_concat (fun r hr => hprofiles r (List.mem_append_left _ hr)) ?_⟩
    exact hprofiles record (List.mem_append_right _ List.mem_cons_self)

/-- **One step keeps the books.** -/
theorem books_step {now : Option (RunRecord × LoadStage)} (h : s.Books old now) {e : LoadEvent}
    (h' : (loadService round).step s e = some s') : ∃ old' now', s'.Books old' now' := by
  -- what the record shows is what it shows at the stage of its run
  have hshows : ∀ {run record stage}, s.Runs run record → run.stage = stage →
      stage.Shows s.firing record := by
    intro run record stage hruns hstage
    rw [← hstage]
    exact (h.under _ _ (h.runs hruns).1).2
  cases took_of_step h' with
  | started hidle =>
    have hnone : now = none := Option.map_eq_none_iff.mp (h.current.symm.trans hidle)
    subst hnone
    exact ⟨_, _, h.started _⟩
  | @beside e firing hother hstep =>
    refine ⟨old, now, ?_⟩
    have hclock := Firing.clock_le_of_step hstep
    exact { h with
      under := fun record stage hnow =>
        ⟨(h.under record stage hnow).1, (h.under record stage hnow).2.beside hother hstep⟩
      clock := fun record hrecord => ⟨(h.clock record hrecord).1.trans hclock,
        fun t ht => ((h.clock record hrecord).2 t ht).trans hclock⟩ }
  | @marked run record _ hruns hstage =>
    have hrecord := hshows hruns hstage
    exact ⟨_, _, h.wrote hruns _ ⟨rfl, rfl, rfl, rfl⟩ rfl le_rfl
      ⟨hrecord, planned_marked s record⟩⟩
  | prepared hruns hstage =>
    have hrecord := hshows hruns hstage
    exact ⟨_, _, h.wrote hruns s.firing ⟨rfl, rfl, rfl, rfl⟩ rfl le_rfl hrecord⟩
  | fired hruns hstage _ hstep hphase =>
    obtain ⟨hrecord, hplanned, -⟩ := hshows hruns hstage
    exact ⟨_, _, h.wrote hruns _ ⟨rfl, rfl, rfl, rfl⟩ rfl (Firing.clock_le_of_step hstep)
      ⟨hrecord, hplanned.step hstep, hphase⟩⟩
  | placed hruns hstage _ hstep hphase =>
    obtain ⟨⟨-, hrecord⟩, hplanned, -⟩ := hshows hruns hstage
    exact ⟨_, _, h.wrote hruns _ ⟨rfl, rfl, rfl, rfl⟩ rfl (Firing.clock_le_of_step hstep)
      ⟨⟨rfl, hrecord⟩, sent_of_planned (hplanned.step hstep) hphase⟩⟩
  | looked hruns hstage =>
    have hrecord := hshows hruns hstage
    exact ⟨_, _, h.wrote hruns s.firing ⟨rfl, rfl, rfl, rfl⟩ rfl le_rfl hrecord⟩
  | @stilled run record shadow since next q hruns hstage hq =>
    obtain ⟨hrecord, hsent⟩ := hshows hruns hstage
    exact ⟨_, _, h.wrote hruns s.firing ⟨rfl, rfl, rfl, rfl⟩ rfl le_rfl
      ⟨hrecord, hsent, q, rfl, honest_of_quiesced hq⟩⟩
  | checking hruns hstage =>
    obtain ⟨⟨-, hrecord⟩, hwaited⟩ := hshows hruns hstage
    exact ⟨_, _, h.wrote hruns s.firing ⟨rfl, rfl, rfl, rfl⟩ rfl le_rfl
      ⟨⟨rfl, hrecord⟩, hwaited⟩⟩
  | read hruns hstage | rows hruns hstage | reread hruns hstage =>
    have hrecord := hshows hruns hstage
    exact ⟨_, _, h.wrote hruns s.firing ⟨rfl, rfl, rfl, rfl⟩ rfl le_rfl hrecord⟩
  | @concluded run record before first second rows after thrown results hruns hstage hresults =>
    obtain ⟨⟨hphase, herror, hnone⟩, hsent, hstill⟩ := hshows hruns hstage
    obtain ⟨rfl, hindex⟩ := h.runs hruns
    have hold : s.records = old ++ [record] := h.records
    have hrecords : (s.concluded run record results).records =
        old ++ [{ record with invariants := results }] :=
      records_go h.records hindex .repreparing _
    have hwhole : LoadStage.Shows s.firing { record with invariants := results } .repreparing :=
      ⟨hphase, herror, hsent, hstill, names_checkInvariants hresults⟩
    refine ⟨_, _, h.go ?_ hrecords ?_ le_rfl hwhole ?_ ⟨rfl, rfl, rfl, rfl⟩⟩
    · exact ⟨rfl, rfl, rfl, rfl⟩
    · show some _ = some _
      rw [hindex]
    · show s.violations ++ _ = _
      have hquiet : record.violations = [] := by
        rw [RunRecord.violations, hnone]
        rfl
      have hreported : s.violations = _ ++ record.violations := h.reported rfl
      rw [hreported, hquiet, List.append_nil]
  | reprepared hruns hstage =>
    obtain ⟨-, herror, hwhole⟩ := hshows hruns hstage
    exact ⟨_, _, h.wrote hruns s.firing ⟨rfl, rfl, rfl, rfl⟩ rfl le_rfl
      (.inl ⟨rfl, herror, hwhole.sent, hwhole.still, hwhole.checked⟩)⟩
  | failed hruns => exact ⟨old, h.fail hruns _⟩
  | closed hruns hstage => exact ⟨_, _, h.finished hruns hstage⟩

theorem booksKept_run {firing : Firing} {es : List LoadEvent}
    (hrun : (loadService round).run (initial firing) es = some s) :
    ∃ old now, s.Books old now :=
  (loadService round).invariant_run (I := fun s => ∃ old now, s.Books old now)
    (fun ⟨_, _, h⟩ hstep => books_step h hstep) ⟨_, _, books_initial firing⟩ hrun

/-- What the history was told stays so. -/
theorem closed_step {e : LoadEvent} (hstep : (loadService round).step s e = some s') :
    s.closed <+: s'.closed := by
  cases took_of_step hstep with
  | closed => exact List.prefix_append _ _
  | _ => exact List.prefix_rfl

/-! ### The runs of a service -/

/-- The runs of a service are in order. -/
structure Orderly (s : LoadService) : Prop where
  /-- At most one run is under way, and that is the newest one; the back-office knows. -/
  newest_current : ∀ run, s.current = some run → run.index + 1 = s.records.length
  told : s.loadRunning = s.current.isSome
  /-- It is the only one that is not over. -/
  ended : ∀ i record, s.records[i]? = some record →
    (s.current.map (·.index) = some i ∧ record.finishedAt = none) ∨
      (record.finishedAt.isSome ∧ record.Ended)
  apart : s.records.Pairwise RunRecord.Before
  /-- The history has the records of those that are over, as they stand. -/
  closed : s.closed =
    (s.records.filter (·.finishedAt.isSome)).map fun record => (record.runId, record)
  /-- What is recorded are the invariants that do not hold, run by run. -/
  violations : s.violations = s.records.flatMap RunRecord.violations
  /-- Where ids are different the last twenty runs are held. -/
  held : (s.records.map (·.runId)).Nodup → s.held.entries = newest s.records
  admitted : ∀ record ∈ s.records, record.profile.Admitted

theorem Books.orderly {now : Option (RunRecord × LoadStage)} (h : s.Books old now) :
    s.Orderly := by
  have hover : old.filter (·.finishedAt.isSome) = old :=
    List.filter_eq_self.mpr fun record hrecord => (h.ended record hrecord).1
  constructor
  · intro run hrun
    obtain ⟨x, rfl, rfl⟩ := Option.map_eq_some_iff.mp (h.current.symm.trans hrun)
    rw [h.records, List.length_append]
    rfl
  · rw [h.running, h.current, Option.isSome_map]
  · intro i record hi
    rw [h.records, List.getElem?_append] at hi
    split at hi
    · exact .inr (h.ended record (List.mem_of_getElem? hi))
    · rename_i hlt
      cases now with
      | none => cases hi
      | some x =>
        obtain ⟨record', stage⟩ := x
        have hi : [record'][i - old.length]? = some record := hi
        rw [List.getElem?_singleton] at hi
        split at hi <;> cases hi
        have hi : old.length = i := by omega
        exact .inl ⟨by rw [h.current]; exact congrArg some hi, (h.under _ stage rfl).1⟩
  · exact h.apart
  · rw [h.closed, h.records, List.filter_append, hover, List.map_append]
    cases now with
    | none => exact (List.append_nil _).symm
    | some x =>
      obtain ⟨record, stage⟩ := x
      have hopen := (h.under record stage rfl).1
      simp [hopen]
  · exact h.violations
  · exact h.held
  · exact h.admitted.2

/-- **No two runs overlap, each leaves one record that is never written to again, and no broken
    invariant is left out or reported twice**, however often the service is asked for a run and
    whatever comes of what a run waits for. -/
theorem runs_orderly {firing : Firing} {es fs : List LoadEvent}
    (hrun : (loadService round).run (initial firing) es = some s)
    (hrest : (loadService round).run s fs = some s') : s'.Orderly ∧ s.closed <+: s'.closed := by
  obtain ⟨old, now, hbooks⟩ := booksKept_run ((loadService round).run_trans hrun hrest)
  have hclosed := (loadService round).related_run (I := fun _ => True)
    (R := fun s s' => s.closed <+: s'.closed) (fun _ _ => trivial)
    (fun _ => List.prefix_rfl) (fun h h' => h.trans h') (fun _ hstep => closed_step hstep) trivial hrest
  exact ⟨hbooks.orderly, hclosed⟩

/-- A target with no orders, and nothing recorded. -/
def untouched : Firing := ⟨0, initialModes, [], [], .empty, .start [] 0 0⟩

/-- One order, and whatever else the last run was started with. -/
def oneOrder : StartLoadDto := ⟨none, none, some ⟨1, le_rfl, Nat.succ_pos 4999⟩, none, none, none⟩

/-- The order is never answered for; the users stand still at once, and the balance is read on both
    sides of no rows. -/
def unansweredRun : List LoadEvent :=
  [.start oneOrder, .marked (.ok ()), .prepared (.ok ()), .firing (.fire "a" zero),
    .firing (.post 0), .firing (.tick 7), .firing (.answer 0 (.nothing "timeout") zero zero),
    .firing (.settle 0 .UNKNOWN), .firing .fold, .poll [], .check [], .balance (some "1.00"),
    .rows (.ok []), .balance (some "1.00"), .conclude [] "", .prepared (.ok ()), .close]

/-- Another run is started, and the database is down. -/
def unmarkedRun : List LoadEvent := [.start oneOrder, .marked (.error "down"), .close]

theorem runs_orderly_unmarked : ∃ s s',
    (loadService toDouble).run (initial untouched) unansweredRun = some s ∧
      (loadService toDouble).run s unmarkedRun = some s' ∧
      s'.records.map (·.phase) = [.done, .failed] ∧ s'.Orderly ∧ s.closed <+: s'.closed := by
  obtain ⟨s', hrun, hphases⟩ := (loadService toDouble).exists_run (initial untouched)
    (unansweredRun ++ unmarkedRun) (P := fun s => s.records.map (·.phase) = [.done, .failed])
    (by decide +kernel)
  obtain ⟨s, hrun, hrest⟩ := (loadService toDouble).run_append_eq_some.mp hrun
  exact ⟨s, s', hrun, hrest, hphases, runs_orderly hrun hrest⟩

end LoadService

end Cocos.Tools
