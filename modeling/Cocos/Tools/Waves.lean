import Cocos.Lib.Tally
import Cocos.Tools.Firing

namespace Cocos.Tools

open Cocos.Lib

/-!
# What a fold makes of a wave

After a wave has settled its attempts are counted by their status, out of a recorder that keeps the
newest five thousand rows.  A step may have it record four: the call, the retry, and a row of chaos
beside each.

* `Firing.Fits` — nothing of the wave has been overwritten when it is folded;
* `Firing.Whole` — every attempt of the run so far has been counted, and once;
* `Firing.Recorded.whole_iff_fits` — **a fold is whole exactly when its wave fits**;
* `folds_whole_iff_fit` — and so are all folds of a run;
* `narrow_folds_whole` — those of a run that nobody else records beside are, up to a concurrency of
  1250;
* `outage_overruns` — **one wave can outgrow the ring**: with an outage and the retry on, the rows
  of three thousand steps are nine thousand.
-/

/-! ### The recorder -/

namespace AttemptsStore

/-- More has been recorded, or annotated. -/
structure Grows (store store' : AttemptsStore) : Prop where
  holds : (∃ rows, store.Holds rows) → ∃ rows, store'.Holds rows
  nextId : store.nextId ≤ store'.nextId

variable {store store' store'' : AttemptsStore}

theorem Grows.refl (store : AttemptsStore) : store.Grows store := ⟨fun h => h, le_rfl⟩

theorem Grows.trans (h : store.Grows store') (h' : store'.Grows store'') : store.Grows store'' :=
  ⟨fun hs => h'.holds (h.holds hs), h.nextId.trans h'.nextId⟩

theorem grows_record (store : AttemptsStore) (attempt : Attempt) :
    store.Grows (store.record attempt) where
  holds := fun ⟨_, h⟩ => ⟨_, h.record attempt⟩
  nextId := Nat.le_succ _

theorem grows_annotate (store : AttemptsStore) (id : Nat) {details : Attempt → Attempt}
    (hid : ∀ row, (details row).id = row.id) : store.Grows (store.annotate id details) where
  holds := fun ⟨_, h⟩ => ⟨_, h.annotate id details hid⟩
  nextId := le_rfl

end AttemptsStore

/-- The row of a step, once it is recorded. -/
def FiredStep.attemptId (c : FiredStep) : Option Nat := c.stage.result.map (·.attemptId)

/-- The row of a step, once the run has its answer. -/
def FiredStep.issuedId (c : FiredStep) : Option Nat :=
  if c.stage.isOver then c.attemptId else none

theorem FiredStep.attemptId_of_issuedId {c : FiredStep} {id : Nat} (h : c.issuedId = some id) :
    c.attemptId = some id := by
  unfold issuedId at h
  split at h
  · exact h
  · cases h

namespace Firing

variable {s s' : Firing}

/-- A first call has a row recorded, and then maybe one of chaos. -/
theorem grows_answered (s : Firing) (c : FiredStep) (came : Came) (drop retry : Roll) :
    ∃ attempt, (s.store.record attempt).Grows (s.answered c came drop retry).1 := by
  by_cases hdrops : s.Drops c came drop
  · refine ⟨c.attempt s.clock .hidden
      { delayMark c with droppedStatus := some came.answer.status }, ?_⟩
    simp only [answered, if_pos hdrops]
    split
    · exact AttemptsStore.grows_record ..
    · exact AttemptsStore.grows_record ..
  · refine ⟨c.attempt s.clock came.answer (delayMark c), ?_⟩
    simp only [answered, if_neg hdrops]
    split
    · exact .refl _
    · exact .refl _

theorem grows_probed (s : Firing) (order : SimOrder) (key : String) (lost : GatewayResult)
    (mark : ChaosMark) (sentAt : Int) (came : Came) :
    s.store.Grows (s.probed order key lost mark sentAt came) := by
  unfold probed
  refine ((AttemptsStore.grows_record _ _).trans (AttemptsStore.grows_annotate _ _ ?_)).trans
    (AttemptsStore.grows_record _ _)
  exact fun row => rfl

/-- What a run keeps of a step: it is one more, and its row is pending. -/
theorem settle_spec (s : Firing) (j : Nat) (c : FiredStep) (result : GatewayResult)
    (expected : Expectation) :
    (s.settle j c result expected).calls = s.calls.set j { c with stage := .over result } ∧
      (s.settle j c result expected).run.result = s.run.result ∧
      (s.settle j c result expected).run.tally.pending =
        s.run.tally.pending ++ [result.attemptId] ∧
      (s.settle j c result expected).run.tally.sent = s.run.tally.sent + 1 ∧
      s.store.Grows (s.settle j c result expected).store := by
  unfold settle
  split
  · refine ⟨rfl, rfl, ?_, ?_, AttemptsStore.grows_annotate _ _ fun _ => rfl⟩
    · dsimp only
      cases result.told <;> rfl
    · dsimp only
      cases result.told <;> rfl
  · refine ⟨rfl, rfl, ?_, ?_, .refl _⟩
    · unfold Tally.cancel
      split_ifs <;> rfl
    · unfold Tally.cancel
      split_ifs <;> rfl

theorem settle_due (s : Firing) (j : Nat) (c : FiredStep) (result : GatewayResult)
    (expected : Expectation) :
    (s.settle j c result expected).run.due = s.run.due ∧
      (s.settle j c result expected).run.waves = s.run.waves := by
  unfold settle
  split <;> exact ⟨rfl, rfl⟩

/-! ### What is pending -/

/-- Every step that was recorded has a row of its own, and the rows that are pending are those of
    steps the run was answered for, and have not been counted. -/
structure Recorded (s : Firing) : Prop where
  holds : ∃ rows, s.store.Holds rows
  ids : (s.calls.filterMap FiredStep.attemptId).Nodup
  given : ∀ id ∈ s.calls.filterMap FiredStep.attemptId, 0 < id ∧ id < s.store.nextId
  nodup : s.run.tally.pending.Nodup
  issued : ∀ id ∈ s.run.tally.pending, id ∈ s.calls.filterMap FiredStep.issuedId
  counts : counted s.run.result.byStatus + s.run.tally.pending.length = s.run.tally.sent

theorem recorded_start {store : AttemptsStore} (hstore : ∃ rows, store.Holds rows) (round : ℚ → ℚ)
    (profile : LoadProfile) (modes : ChaosConfig) (orders : Orders) (now : Int) :
    (start round profile modes orders store now).Recorded where
  holds := hstore
  ids := List.nodup_nil
  given id hid := absurd hid List.not_mem_nil
  nodup := by simp [start, LoadRun.marked, LoadRun.start, Tally.empty]
  issued := by simp [start, LoadRun.marked, LoadRun.start, Tally.empty]
  counts := by simp [start, LoadRun.marked, LoadRun.start, Tally.empty, counted, JsMap.empty]

theorem Recorded.pending_given (h : s.Recorded) {id : Nat} (hid : id ∈ s.run.tally.pending) :
    0 < id ∧ id < s.store.nextId := by
  obtain ⟨c, hc, hissued⟩ := List.mem_filterMap.mp (h.issued id hid)
  exact h.given id (List.mem_filterMap.mpr ⟨c, hc, FiredStep.attemptId_of_issuedId hissued⟩)

/-- Nothing the run waits for is recorded, and it is told nothing. -/
theorem Recorded.idle (h : s.Recorded)
    (hids : s'.calls.filterMap FiredStep.attemptId = s.calls.filterMap FiredStep.attemptId)
    (hissued : s'.calls.filterMap FiredStep.issuedId = s.calls.filterMap FiredStep.issuedId)
    (hpending : s'.run.tally.pending = s.run.tally.pending)
    (hsent : s'.run.tally.sent = s.run.tally.sent) (hresult : s'.run.result = s.run.result)
    (hgrows : s.store.Grows s'.store) : s'.Recorded where
  holds := hgrows.holds h.holds
  ids := hids ▸ h.ids
  given id hid := by
    obtain ⟨hpos, hlt⟩ := h.given id (hids ▸ hid)
    exact ⟨hpos, hlt.trans_le hgrows.nextId⟩
  nodup := hpending ▸ h.nodup
  issued id hid := hissued ▸ h.issued id (hpending ▸ hid)
  counts := by
    rw [hresult, hpending, hsent]
    exact h.counts

/-- The same, where a step moves on and its row stays what it was. -/
theorem Recorded.moved (h : s.Recorded) {j : Nat} {c c' : FiredStep} (hj : s.calls[j]? = some c)
    (hcalls : s'.calls = s.calls.set j c') (hid : c'.attemptId = c.attemptId)
    (hover : c'.stage.isOver = c.stage.isOver) (hrun : s'.run = s.run)
    (hgrows : s.store.Grows s'.store) : s'.Recorded := by
  have hissued : c'.issuedId = c.issuedId := by
    unfold FiredStep.issuedId
    rw [hid, hover]
  exact h.idle (hcalls ▸ filterMap_set_of_eq hj hid) (hcalls ▸ filterMap_set_of_eq hj hissued)
    (by rw [hrun]) (by rw [hrun]) (by rw [hrun]) hgrows

/-- A step is recorded, and gets the next row. -/
theorem Recorded.answered (h : s.Recorded) {j : Nat} {c : FiredStep} (hj : s.calls[j]? = some c)
    (hstage : c.stage = .sent) (came : Came) (drop retry : Roll) :
    Recorded { s.setCall j { c with stage := (s.answered c came drop retry).2 } with
      store := (s.answered c came drop retry).1 } := by
  obtain ⟨result, hresult, -, hreturned⟩ := answered_spec s c came drop retry
  obtain ⟨attempt, hgrows⟩ := grows_answered s c came drop retry
  have hgrown := (AttemptsStore.grows_record s.store attempt).trans hgrows
  have hnew : s.store.nextId < (s.answered c came drop retry).1.nextId := hgrows.nextId
  set c' : FiredStep := { c with stage := (s.answered c came drop retry).2 } with hc'
  have hid : c'.attemptId = some s.store.nextId := by
    rcases hreturned with hstage' | ⟨-, mark, hstage'⟩ <;>
      simp [hc', FiredStep.attemptId, hstage', FiredStage.result, hresult]
  have hnone : c.attemptId = none := by simp [FiredStep.attemptId, hstage, FiredStage.result]
  have hperm := filterMap_set_perm (f := FiredStep.attemptId) hj hnone hid
  have hissued : c'.issuedId = c.issuedId := by
    rcases hreturned with hstage' | ⟨-, mark, hstage'⟩ <;>
      simp [hc', FiredStep.issuedId, hstage', hstage, FiredStage.isOver]
  constructor
  · exact hgrown.holds h.holds
  · refine hperm.nodup_iff.mpr (List.nodup_cons.mpr ⟨fun hmem => ?_, h.ids⟩)
    exact absurd (h.given _ hmem).2 (lt_irrefl _)
  · intro id hmem
    rcases List.mem_cons.mp (hperm.mem_iff.mp hmem) with rfl | hmem
    · obtain ⟨rows, hrows⟩ := h.holds
      exact ⟨hrows.nextId ▸ Nat.succ_pos _, hnew⟩
    · obtain ⟨hpos, hlt⟩ := h.given id hmem
      exact ⟨hpos, hlt.trans hnew⟩
  · exact h.nodup
  · intro id hmem
    exact filterMap_set_of_eq hj hissued ▸ h.issued id hmem
  · exact h.counts

/-- The run is told of a step, and its row is pending from then on. -/
theorem Recorded.settled (h : s.Recorded) {j : Nat} {c : FiredStep} {result : GatewayResult}
    (hj : s.calls[j]? = some c) (hstage : c.stage = .returned result) (expected : Expectation) :
    (s.settle j c result expected).Recorded := by
  obtain ⟨hcalls, hresult, hpending, hsent, hgrows⟩ := settle_spec s j c result expected
  have hid : c.attemptId = some result.attemptId := by
    simp [FiredStep.attemptId, hstage, FiredStage.result]
  have hnone : c.issuedId = none := by simp [FiredStep.issuedId, hstage, FiredStage.isOver]
  have hids := filterMap_set_of_eq (f := FiredStep.attemptId)
    (b := { c with stage := .over result }) hj hid.symm
  have hperm := filterMap_set_perm (f := FiredStep.issuedId)
    (b := { c with stage := .over result }) hj hnone rfl
  -- the rows of the steps told of so far are all different, so this one is not among them
  have hfresh : result.attemptId ∉ s.run.tally.pending := by
    have hnodup : ((s.calls.set j { c with stage := .over result }).filterMap
        FiredStep.issuedId).Nodup :=
      nodup_filterMap_of_imp (hids ▸ h.ids) fun _ _ _ => FiredStep.attemptId_of_issuedId
    exact fun hmem => (List.nodup_cons.mp (hperm.nodup_iff.mp hnodup)).1 (h.issued _ hmem)
  constructor
  · exact hgrows.holds h.holds
  · rw [hcalls, hids]
    exact h.ids
  · intro id hmem
    rw [hcalls, hids] at hmem
    obtain ⟨hpos, hlt⟩ := h.given id hmem
    exact ⟨hpos, hlt.trans_le hgrows.nextId⟩
  · rw [hpending]
    exact h.nodup.append (List.nodup_singleton _) (by simpa using hfresh)
  · intro id hmem
    rw [hcalls, hperm.mem_iff, List.mem_cons]
    rw [hpending, List.mem_append, List.mem_singleton] at hmem
    exact hmem.symm.imp_right (h.issued id)
  · have hcounts := h.counts
    rw [hresult, hpending, hsent, List.length_append, List.length_singleton]
    omega

/-- A fold leaves what has been overwritten pending. -/
theorem Recorded.folded (h : s.Recorded) :
    Recorded { s with run := s.run.fold s.store } := by
  have hpending := pending_foldWave s.store s.run.result h.nodup
  have hcounted := counted_foldWave s.store s.run.result s.run.tally
  have hsub : ∀ id ∈ (foldWave s.store s.run.result s.run.tally).2.pending,
      id ∈ s.run.tally.pending := fun id hid => List.mem_of_mem_filter (hpending ▸ hid)
  obtain ⟨pending, latencies, htally⟩ := (foldWave_spec s.store s.run.result s.run.tally).1
  constructor
  · exact h.holds
  · exact h.ids
  · exact h.given
  · simp only [LoadRun.fold, LoadRun.next_tally]
    rw [hpending]
    exact h.nodup.filter _
  · intro id hmem
    simp only [LoadRun.fold, LoadRun.next_tally] at hmem
    exact h.issued id (hsub id hmem)
  · simp only [LoadRun.fold, LoadRun.next_tally, LoadRun.next_byStatus]
    rw [hcounted, h.counts, htally]

/-- **One step keeps the rows.** -/
theorem Recorded.step (h : s.Recorded) {e : FiringEvent} (hstep : firing.step s e = some s') :
    s'.Recorded := by
  cases took_of_step hstep with
  | ticked | foreign | cancelled => exact h.idle rfl rfl rfl rfl rfl (.refl _)
  | firedCancel | fired =>
    exact h.idle (filterMap_concat_of_none _ rfl) (filterMap_concat_of_none _ rfl) rfl rfl rfl
      (.refl _)
  | posted hj hstage =>
    refine h.moved hj rfl ?_ ?_ rfl (.refl _)
    · simp [FiredStep.attemptId, hstage, FiredStage.result]
    · simp [hstage, FiredStage.isOver]
  | committed hj => exact h.moved hj rfl rfl rfl rfl (.refl _)
  | performed hj => exact h.moved hj rfl rfl rfl rfl (.refl _)
  | answered hj hstage => exact h.answered hj hstage ..
  | probed hj hstage =>
    refine h.moved hj rfl ?_ ?_ rfl (grows_probed ..)
    · simp [FiredStep.attemptId, hstage, FiredStage.result]
    · simp [hstage, FiredStage.isOver]
  | settled hj hstage => exact h.settled hj hstage _
  | folded => exact h.folded
  | configured => exact h.idle rfl rfl rfl rfl rfl (AttemptsStore.grows_record ..)
  | other => exact h.idle rfl rfl rfl rfl rfl (AttemptsStore.grows_record ..)
  | annotated =>
    exact h.idle rfl rfl rfl rfl rfl (AttemptsStore.grows_annotate _ _ fun _ => rfl)

/-! ### Whole folds -/

/-- At most five thousand rows are recorded from the first attempt of the wave to the fold. -/
def Fits (s : Firing) : Prop :=
  ∀ id ∈ s.run.tally.pending, s.store.nextId ≤ id + ATTEMPTS_CAPACITY

/-- Every attempt is counted: none is pending, and the counts are as many as the attempts sent. -/
def Whole (s : Firing) : Prop :=
  s.run.tally.pending = [] ∧ counted s.run.result.byStatus = s.run.result.sent

/-- **A fold is whole exactly when its wave fits.** -/
theorem Recorded.whole_iff_fits (h : s.Recorded) (hstep : firing.step s .fold = some s') :
    s'.Whole ↔ s.Fits := by
  have hcounts := h.folded.counts
  cases took_of_step hstep with
  | folded =>
    obtain ⟨rows, hrows⟩ := h.holds
    have hpending : (s.run.fold s.store).tally.pending = s.run.tally.pending.filter fun id =>
        id ∉ (s.store.recent ATTEMPTS_CAPACITY).map (·.id) := by
      simp only [LoadRun.fold, LoadRun.next_tally]
      exact pending_foldWave s.store s.run.result h.nodup
    have hempty : (s.run.fold s.store).tally.pending = [] ↔ s.Fits := by
      rw [hpending, List.filter_eq_nil_iff]
      refine forall₂_congr fun id hid => ?_
      obtain ⟨hpos, hlt⟩ := h.pending_given hid
      rw [decide_eq_true_eq, not_not, hrows.mem_ids_recent_iff hpos hlt]
    have hsent : (s.run.fold s.store).result.sent = (s.run.fold s.store).tally.sent := by
      simp only [LoadRun.fold, LoadRun.next_sent, LoadRun.next_tally]
      rfl
    rw [← hempty]
    constructor
    · exact And.left
    · intro hnone
      refine ⟨hnone, ?_⟩
      dsimp only at hcounts ⊢
      rw [hnone, List.length_nil] at hcounts
      omega

end Firing

open Firing

/-- A fold, where the step is one, is whole. -/
def FoldsWhole (s : Firing) : FiringEvent → Prop
  | .fold => ∀ s', firing.step s .fold = some s' → s'.Whole
  | _ => True

/-- A wave that is folded fits. -/
def FoldsFit (s : Firing) : FiringEvent → Prop
  | .fold => (firing.step s .fold).isSome → s.Fits
  | _ => True

instance (s : Firing) (e : FiringEvent) : Decidable (FoldsFit s e) :=
  match e with
  | .fold => inferInstanceAs (Decidable (_ → ∀ id ∈ s.run.tally.pending, _))
  | .tick _ | .fire .. | .post _ | .commit .. | .perform _ | .answer .. | .retryAnswer ..
  | .settle .. | .configure .. | .other _ | .annotate .. | .foreign _ | .cancelled _ =>
    isTrue trivial

/-- **The folds of a run are whole exactly when its waves fit.** -/
theorem folds_whole_iff_fit {store : AttemptsStore} (hstore : ∃ rows, store.Holds rows)
    (round : ℚ → ℚ) (profile : LoadProfile) (modes : ChaosConfig) (orders : Orders) (now : Int)
    (es : List FiringEvent) :
    firing.Along FoldsWhole (start round profile modes orders store now) es ↔
      firing.Along FoldsFit (start round profile modes orders store now) es := by
  have hstart := recorded_start hstore round profile modes orders now
  constructor
  · refine firing.along_mono (fun hi _ hstep => Recorded.step hi hstep)
      (fun s e hi hwhole => ?_) hstart
    cases e with
    | fold =>
      intro hsome
      obtain ⟨s', hs'⟩ := Option.isSome_iff_exists.mp hsome
      exact (hi.whole_iff_fits hs').mp (hwhole s' hs')
    | _ => trivial
  · refine firing.along_mono (fun hi _ hstep => Recorded.step hi hstep)
      (fun s e hi hfits => ?_) hstart
    cases e with
    | fold =>
      intro s' hs'
      exact (hi.whole_iff_fits hs').mpr (hfits (Option.isSome_iff_exists.mpr ⟨s', hs'⟩))
    | _ => trivial

/-! ### Narrow waves -/

/-- How many rows a step may still have recorded: the call and the retry, and one of chaos beside
    each. -/
def FiredStep.rowsLeft (c : FiredStep) : Int :=
  match c.stage with
  | .held | .sent => 4
  | .retrying .. => 2
  | .returned _ | .over _ => 0

/-- The recorder is given rows of the run only. -/
def FiringEvent.ofRun : FiringEvent → Bool
  | .other _ | .configure .. => false
  | .tick _ | .fire .. | .post _ | .commit .. | .perform _ | .answer .. | .retryAnswer ..
  | .settle .. | .fold | .annotate .. | .foreign _ | .cancelled _ => true

/-- The rows of a wave that is no wider than `width` start at `base`, and there is room for those it
    may still have recorded. -/
structure Firing.Narrow (width base : Nat) (s : Firing) : Prop where
  waves : ∀ wave ∈ s.run.waves, wave.length ≤ width
  base_le : base ≤ s.store.nextId
  room : s.store.nextId + tally FiredStep.rowsLeft s.calls + 4 * s.run.due.length ≤ base + 4 * width
  pending : ∀ id ∈ s.run.tally.pending, base ≤ id
  recorded : ∀ c ∈ s.calls, c.stage.isOver = false → ∀ id, c.attemptId = some id → base ≤ id

namespace Firing

variable {s s' : Firing} {width base : Nat}

theorem rowsLeft_nonneg (c : FiredStep) : 0 ≤ c.rowsLeft := by
  unfold FiredStep.rowsLeft
  split <;> decide

theorem rowsLeft_of_over {c : FiredStep} (h : c.stage.isOver) : c.rowsLeft = 0 := by
  unfold FiredStep.rowsLeft
  cases hstage : c.stage with
  | held | sent | retrying | returned => simp [hstage, FiredStage.isOver] at h
  | _ => rfl

theorem narrow_next (run : LoadRun) (hdue : run.due = [])
    (hwaves : ∀ wave ∈ run.waves, wave.length ≤ width) :
    run.next.due.length ≤ width ∧ ∀ wave ∈ run.next.waves, wave.length ≤ width := by
  unfold LoadRun.next
  split
  · exact ⟨by simp [hdue], hwaves⟩
  · rename_i wave waves hsome
    rw [hsome] at hwaves
    exact List.forall_mem_cons.mp hwaves

theorem narrow_start {round : ℚ → ℚ} {profile : LoadProfile}
    (hwaves : ∀ wave ∈ planWaves round profile, wave.length ≤ width) (modes : ChaosConfig)
    (orders : Orders) (store : AttemptsStore) (now : Int) :
    (start round profile modes orders store now).Narrow width store.nextId := by
  obtain ⟨hdue, hwaves'⟩ := narrow_next
    { LoadRun.start (planWaves round profile) now store.nextId with
      highWaterMark := some (highWaterMark orders) } rfl hwaves
  constructor
  · exact hwaves'
  · exact le_rfl
  · have hleft : (start round profile modes orders store now).run.due.length ≤ width := hdue
    show (store.nextId : Int) + 0 +
      4 * (start round profile modes orders store now).run.due.length ≤ _
    omega
  · simp [start, LoadRun.marked, LoadRun.start, Tally.empty]
  · exact fun c hc => absurd hc List.not_mem_nil

/-- A step moves on, and has recorded no more than it may. -/
theorem Narrow.moved (h : s.Narrow width base) {j : Nat} {c c' : FiredStep}
    (hj : s.calls[j]? = some c) (hcalls : s'.calls = s.calls.set j c') (hrun : s'.run = s.run)
    (hgrows : s.store.nextId ≤ s'.store.nextId)
    (hrows : s'.store.nextId + c'.rowsLeft ≤ s.store.nextId + c.rowsLeft)
    (hids : c'.stage.isOver = false → ∀ id, c'.attemptId = some id →
      c.stage.isOver = false ∧ c.attemptId = some id ∨ id = s.store.nextId) :
    s'.Narrow width base where
  waves := hrun ▸ h.waves
  base_le := h.base_le.trans hgrows
  room := by
    have hroom := h.room
    rw [hcalls, tally_set hj, hrun]
    omega
  pending := hrun ▸ h.pending
  recorded := by
    rw [hcalls]
    refine forall_mem_set h.recorded (fun hopen id hid => ?_) j
    rcases hids hopen id hid with ⟨hopen, hid⟩ | rfl
    · exact h.recorded c (List.mem_of_getElem? hj) hopen id hid
    · exact h.base_le

/-- A step is fired, out of the wave that is due. -/
theorem Narrow.fire (h : s.Narrow width base) {step : Step} {due : Wave}
    (hdue : s.run.due = step :: due) (outgoing : Outgoing) (delayedMs : Int)
    (hcalls : s'.calls = s.calls ++ [.fresh outgoing delayedMs]) (hdue' : s'.run.due = due)
    (hwaves : s'.run.waves = s.run.waves) (hstore : s'.store = s.store)
    (hpending : s'.run.tally.pending = s.run.tally.pending) : s'.Narrow width base where
  waves := hwaves ▸ h.waves
  base_le := hstore ▸ h.base_le
  room := by
    have hroom := h.room
    rw [hdue, List.length_cons] at hroom
    rw [hcalls, tally_concat, hdue', hstore]
    show _ + (_ + 4) + _ ≤ _
    push_cast at hroom
    omega
  pending := hpending ▸ h.pending
  recorded := by
    rw [hcalls]
    exact forall_mem_concat h.recorded fun _ id hid => by cases hid

/-- A step is over, and its row is one of the wave's. -/
theorem Narrow.settled (h : s.Narrow width base) {j : Nat} {c : FiredStep} {result : GatewayResult}
    (hj : s.calls[j]? = some c) (hstage : c.stage = .returned result) (expected : Expectation) :
    (s.settle j c result expected).Narrow width base := by
  obtain ⟨hcalls, -, hpending, -, hgrows⟩ := settle_spec s j c result expected
  obtain ⟨hdue, hwaves⟩ := settle_due s j c result expected
  have hnextId : (s.settle j c result expected).store.nextId = s.store.nextId := by
    unfold settle
    split <;> rfl
  have hrows : ({ c with stage := .over result } : FiredStep).rowsLeft = c.rowsLeft := by
    unfold FiredStep.rowsLeft
    rw [hstage]
  constructor
  · exact hwaves ▸ h.waves
  · exact hnextId ▸ h.base_le
  · rw [hcalls, tally_set_of_eq hj hrows, hdue, hnextId]
    exact h.room
  · intro id hid
    rw [hpending, List.mem_append, List.mem_singleton] at hid
    rcases hid with hid | rfl
    · exact h.pending id hid
    · refine h.recorded c (List.mem_of_getElem? hj) (by rw [hstage]; rfl) _ ?_
      simp [FiredStep.attemptId, hstage, FiredStage.result]
  · rw [hcalls]
    exact forall_mem_set h.recorded (fun hopen => by cases hopen) j

/-- What the gateway records of a first call leaves room for the retry. -/
theorem rows_answered (s : Firing) (c : FiredStep) (came : Came) (drop retry : Roll) :
    s.store.nextId ≤ (s.answered c came drop retry).1.nextId ∧
      (s.answered c came drop retry).1.nextId +
        ({ c with stage := (s.answered c came drop retry).2 } : FiredStep).rowsLeft ≤
          s.store.nextId + 4 := by
  by_cases hdrops : s.Drops c came drop
  · simp only [answered, if_pos hdrops]
    split
    · simp only [FiredStep.rowsLeft, AttemptsStore.record]
      omega
    · simp only [FiredStep.rowsLeft, AttemptsStore.record]
      omega
  · simp only [answered, if_neg hdrops]
    split
    · simp only [FiredStep.rowsLeft, AttemptsStore.record]
      omega
    · simp only [FiredStep.rowsLeft, AttemptsStore.record]
      omega

/-- **A narrow wave fits**: with four rows for each of its steps it is within the ring. -/
theorem Narrow.fits (h : s.Narrow width base) (hwidth : 4 * width ≤ ATTEMPTS_CAPACITY) :
    s.Fits := by
  intro id hid
  have hroom := h.room
  have hbase := h.pending id hid
  have hleft : 0 ≤ tally FiredStep.rowsLeft s.calls := tally_nonneg fun c _ => rowsLeft_nonneg c
  omega

/-- A wave is folded, and the rows of the next one start where the recorder is. -/
theorem Narrow.folded (h : s.Narrow width base) (hwidth : 4 * width ≤ ATTEMPTS_CAPACITY)
    (hrecorded : s.Recorded) (hphase : s.run.result.phase = .placing) (hdue : s.run.due = [])
    (hsettled : s.Settled) : Narrow width s.store.nextId { s with run := s.run.fold s.store } := by
  have hstep : firing.step s .fold = some { s with run := s.run.fold s.store } :=
    if_pos ⟨hphase, hdue, hsettled⟩
  have hwhole := ((hrecorded.whole_iff_fits hstep).mpr (h.fits hwidth)).1
  obtain ⟨hdue', hwaves'⟩ := narrow_next { s.run with
    result := (foldWave s.store s.run.result s.run.tally).1
    tally := (foldWave s.store s.run.result s.run.tally).2 } hdue h.waves
  constructor
  · exact hwaves'
  · exact le_rfl
  · have hnone : tally FiredStep.rowsLeft s.calls = 0 :=
      tally_eq_zero fun c hc => rowsLeft_of_over (hsettled c hc)
    have hleft : (s.run.fold s.store).due.length ≤ width := hdue'
    show (s.store.nextId : Int) + tally FiredStep.rowsLeft s.calls +
      4 * (s.run.fold s.store).due.length ≤ s.store.nextId + 4 * width
    omega
  · intro id hid
    rw [hwhole] at hid
    cases hid
  · intro c hc hopen
    rw [hsettled c hc] at hopen
    cases hopen

/-- **One step of the run alone keeps its waves narrow.** -/
theorem Narrow.step (h : s.Narrow width base) (hwidth : 4 * width ≤ ATTEMPTS_CAPACITY)
    (hrecorded : s.Recorded) {e : FiringEvent} (hown : e.ofRun)
    (hstep : firing.step s e = some s') : ∃ base', s'.Narrow width base' := by
  cases took_of_step hstep with
  | ticked | foreign | cancelled | annotated =>
    exact ⟨base, h.waves, h.base_le, h.room, h.pending, h.recorded⟩
  | configured | other => cases hown
  | firedCancel hdue => exact ⟨base, h.fire hdue _ _ rfl rfl rfl rfl rfl⟩
  | fired hdue => exact ⟨base, h.fire hdue _ _ rfl rfl rfl rfl rfl⟩
  | posted hj hstage =>
    refine ⟨base, h.moved hj rfl rfl le_rfl ?_ fun _ id hid => by cases hid⟩
    simp [FiredStep.rowsLeft, hstage, setCall]
  | committed hj =>
    exact ⟨base, h.moved hj rfl rfl le_rfl le_rfl fun hopen id hid => .inl ⟨hopen, hid⟩⟩
  | performed hj =>
    exact ⟨base, h.moved hj rfl rfl le_rfl le_rfl fun hopen id hid => .inl ⟨hopen, hid⟩⟩
  | @answered j came drop retry c hj hstage =>
    obtain ⟨hgrows, hrows⟩ := rows_answered s c came drop retry
    refine ⟨base, h.moved hj rfl rfl hgrows ?_ fun _ id hid => .inr ?_⟩
    · rw [show c.rowsLeft = 4 by simp [FiredStep.rowsLeft, hstage]]
      exact hrows
    · obtain ⟨result, hresult, -, hreturned⟩ := answered_spec s c came drop retry
      rcases hreturned with hstage' | ⟨-, mark, hstage'⟩
      · simpa [FiredStep.attemptId, hstage', FiredStage.result, hresult, eq_comm] using hid
      · simpa [FiredStep.attemptId, hstage', FiredStage.result, hresult, eq_comm] using hid
  | @probed j came c order key lost mark sentAt hj hstage =>
    refine ⟨base, h.moved hj rfl rfl (grows_probed ..).nextId ?_ fun _ id hid => .inl ?_⟩
    · have hnextId : (s.probed order key lost mark sentAt came).nextId = s.store.nextId + 2 := rfl
      simp [FiredStep.rowsLeft, hstage, hnextId]
    · rw [hstage]
      refine ⟨rfl, ?_⟩
      simpa [FiredStep.attemptId, hstage, FiredStage.result] using hid
  | settled hj hstage => exact ⟨base, h.settled hj hstage _⟩
  | folded hphase hdue hsettled => exact ⟨_, h.folded hwidth hrecorded hphase hdue hsettled⟩

end Firing

/-- **A run of narrow waves is counted whole**, whatever chaos does to it, where the recorder is
    given rows of no one else: a concurrency of 1250 is safe. -/
theorem narrow_folds_whole {store : AttemptsStore} (hstore : ∃ rows, store.Holds rows)
    {profile : LoadProfile} (hwidth : 4 * profile.concurrency ≤ ATTEMPTS_CAPACITY)
    (modes : ChaosConfig) (orders : Orders) (now : Int) {es : List FiringEvent}
    (hown : ∀ e ∈ es, e.ofRun) :
    firing.Along FoldsWhole (start toDouble profile modes orders store now) es := by
  have hconcurrency : profile.concurrency < 2 ^ 53 := by
    have hcapacity : ATTEMPTS_CAPACITY < 2 ^ 53 := by decide
    omega
  have hwaves : ∀ wave ∈ planWaves toDouble profile, wave.length ≤ profile.concurrency :=
    fun wave hwave => length_le_of_mem_planWaves toDouble_le hconcurrency hwave
  rw [folds_whole_iff_fit hstore]
  refine firing.along_mono (I := fun t => t.Recorded ∧ ∃ base, t.Narrow profile.concurrency base)
    (P := fun _ e => e.ofRun) (fun hi hown hstep => ?_) (fun s e hi _ => ?_)
    ⟨recorded_start hstore .., store.nextId, narrow_start hwaves ..⟩ (firing.along_of_forall hown)
  · obtain ⟨hrecorded, base, hnarrow⟩ := hi
    exact ⟨hrecorded.step hstep, hnarrow.step hwidth hrecorded hown hstep⟩
  · obtain ⟨-, base, hnarrow⟩ := hi
    cases e with
    | fold => exact fun _ => hnarrow.fits hwidth
    | _ => trivial

/-! ### An outage -/

/-- No delay, and a die that always hits. -/
def zero : Roll := Draw.zero

/-- A placement of the run is answered, and settled. -/
def placedAs (j : Nat) (came : Came) : List FiringEvent :=
  [.post j, .answer j came zero zero, .settle j .UNKNOWN]

/-- Two orders in one wave. -/
def pairOfOrders : LoadProfile := { DEFAULT_PROFILE with
  concurrency := 2
  totalOrders := 2
  concurrency_pos := Nat.two_pos
  totalOrders_pos := Nat.two_pos }

/-- Both are refused, the second one first. -/
def bothRefused : List FiringEvent :=
  [.fire "a" zero, .fire "b" zero] ++
    placedAs 1 (.response ⟨503, by decide⟩ none none none) ++
    placedAs 0 (.response ⟨404, by decide⟩ none none none) ++ [.fold]

theorem folds_whole_iff_fit_bothRefused :
    (firing.run (start toDouble pairOfOrders initialModes [] .empty 0) bothRefused).isSome ∧
      firing.Along FoldsWhole (start toDouble pairOfOrders initialModes [] .empty 0) bothRefused :=
  ⟨by decide +kernel,
    (folds_whole_iff_fit ⟨[], AttemptsStore.holds_empty⟩ ..).mpr (by decide +kernel)⟩

/-- The widest wave there is. -/
def widest : LoadProfile := { DEFAULT_PROFILE with
  concurrency := 3000
  totalOrders := 3000
  concurrency_pos := by decide
  totalOrders_pos := by decide }

/-- Every lost order is sent again. -/
def retrying : ChaosConfig := Function.update initialModes .client_retry ⟨true, 1⟩

/-- A key for every order. -/
def keyOf (i : Nat) : String := String.ofList (List.replicate i 'k')

theorem keyOf_injective {i j : Nat} (h : keyOf i = keyOf j) : i = j := by
  have hlength := congrArg (·.toList.length) h
  simpa [keyOf] using hlength

/-- An order gets no answer, and neither does the retry. -/
def lostAs (j : Nat) : List FiringEvent :=
  [.post j, .answer j (.nothing "fetch failed") zero zero, .retryAnswer j (.nothing "fetch failed"),
    .settle j .UNKNOWN]

/-- A wave goes out, and is lost. -/
def outage (n : Nat) : List FiringEvent :=
  (List.range n).map (fun i => .fire (keyOf i) zero) ++ (List.range n).flatMap lostAs

/-- `m` of `n` orders have gone out. -/
structure GoneOut (n m : Nat) (s : Firing) : Prop where
  modes : s.modes = retrying
  length : s.calls.length = m
  held : ∀ (i : Nat) (c : FiredStep), s.calls[i]? = some c →
    c.stage = .held ∧ ∃ order, c.outgoing = .place order (keyOf i)
  due : s.run.due.length + m = n
  places : ∀ step ∈ s.run.due, ∃ order, step = .place order
  phase : s.run.result.phase = .placing
  nextId : s.store.nextId = 1

theorem GoneOut.fire {n m : Nat} {s : Firing} (h : GoneOut n m s) (hm : m < n) :
    ∃ s', firing.step s (.fire (keyOf m) zero) = some s' ∧ GoneOut n (m + 1) s' := by
  have hlength := h.due
  obtain ⟨step, due, hdue⟩ : ∃ step due, s.run.due = step :: due := by
    cases hdue : s.run.due with
    | nil => simp [hdue] at hlength; omega
    | cons step due => exact ⟨step, due, rfl⟩
  obtain ⟨order, rfl⟩ := h.places step (hdue ▸ List.mem_cons_self)
  have hkey : ∀ c ∈ s.calls, c.key ≠ some (keyOf m) := by
    intro c hc heq
    obtain ⟨i, hi⟩ := List.mem_iff_getElem?.mp hc
    obtain ⟨-, order, houtgoing⟩ := h.held i c hi
    obtain ⟨hlt, -⟩ := List.getElem?_eq_some_iff.mp hi
    have hsame : keyOf i = keyOf m := by simpa [FiredStep.key, houtgoing] using heq
    have hi' := keyOf_injective hsame
    have hcalls := h.length
    omega
  refine ⟨_, by simp only [firing, Firing.step, hdue, if_pos hkey]; rfl, ?_⟩
  constructor
  · exact h.modes
  · simp [h.length]
  · intro i c hi
    rcases getElem?_concat_eq_some.mp hi with hi | ⟨rfl, rfl⟩
    · exact h.held i c hi
    · exact ⟨rfl, order, by rw [h.length]; rfl⟩
  · rw [hdue, List.length_cons] at hlength
    simp only
    omega
  · exact fun step hstep => h.places step (hdue ▸ List.mem_cons_of_mem _ hstep)
  · exact h.phase
  · exact h.nextId

/-- All have gone out, and `m` of them are lost twice. -/
structure Lost (n m : Nat) (s : Firing) : Prop where
  modes : s.modes = retrying
  length : s.calls.length = n
  lost : ∀ (i : Nat) (c : FiredStep), s.calls[i]? = some c → i < m → c.stage.isOver
  held : ∀ (i : Nat) (c : FiredStep), s.calls[i]? = some c → m ≤ i →
    c.stage = .held ∧ ∃ order key, c.outgoing = .place order key
  due : s.run.due = []
  phase : s.run.result.phase = .placing
  nextId : s.store.nextId = 3 * m + 1
  pending : 0 < m → 1 ∈ s.run.tally.pending

theorem GoneOut.lost {n : Nat} {s : Firing} (h : GoneOut n n s) : Lost n 0 s where
  modes := h.modes
  length := h.length
  lost i c hi hlt := absurd hlt (Nat.not_lt_zero i)
  held i c hi _ := by
    obtain ⟨hstage, order, houtgoing⟩ := h.held i c hi
    exact ⟨hstage, order, keyOf i, houtgoing⟩
  due := by
    have hdue := h.due
    exact List.eq_nil_of_length_eq_zero (by omega)
  phase := h.phase
  nextId := h.nextId
  pending hpos := absurd hpos (lt_irrefl 0)

section Steps

variable {s : Firing} {j : Nat} {c : FiredStep}

theorem getElem?_setCall (hj : s.calls[j]? = some c) (c' : FiredStep) :
    (s.setCall j c').calls[j]? = some c' :=
  List.getElem?_set_self (List.getElem?_eq_some_iff.mp hj).1

theorem step_post (hj : s.calls[j]? = some c) (hstage : c.stage = .held) :
    firing.step s (.post j) = some (s.setCall j { c with stage := .sent, sentAt := s.clock }) := by
  simp only [firing, Firing.step, hj, hstage]

theorem step_answer (hj : s.calls[j]? = some c) (hstage : c.stage = .sent) {came : Came}
    (howns : c.Owns came) (drop retry : Roll) :
    firing.step s (.answer j came drop retry) = some
      { s.setCall j { c with stage := (s.answered c came drop retry).2 } with
        store := (s.answered c came drop retry).1 } := by
  simp only [firing, Firing.step, hj, hstage, if_pos howns]

theorem step_retryAnswer (hj : s.calls[j]? = some c) {lost : GatewayResult} {mark : ChaosMark}
    {sentAt : Int} (hstage : c.stage = .retrying lost mark sentAt) {order : SimOrder} {key : String}
    (hplace : c.outgoing = .place order key) (came : Came) :
    firing.step s (.retryAnswer j came) = some
      { s.setCall j { c with stage := .returned lost } with
        store := s.probed order key lost mark sentAt came } := by
  simp only [firing, Firing.step, hj, hstage, hplace]

theorem step_settle (hj : s.calls[j]? = some c) {result : GatewayResult}
    (hstage : c.stage = .returned result) (expected : Expectation) :
    firing.step s (.settle j expected) = some (s.settle j c result expected) := by
  simp only [firing, Firing.step, hj, hstage]

/-- A placement that gets no answer is sent again. -/
theorem answered_nothing (hmodes : s.modes = retrying) (hplace : c.isPlacement) (message : String) :
    s.answered c (.nothing message) zero zero =
      (s.store.record (c.attempt s.clock (Came.nothing message).answer (delayMark c)),
        .retrying ⟨s.store.nextId, (Came.nothing message).answer, none⟩ (delayMark c) s.clock) := by
  have hkept : ¬s.Drops c (.nothing message) zero := fun hdrops => hdrops.1 rfl
  have hretried : (s.modes .client_retry).rolls zero := by
    rw [hmodes]
    decide
  simp only [answered, if_neg hkept]
  rw [if_pos ⟨rfl, hplace, hretried⟩]
  rfl

end Steps

/-- A placement that is lost twice has three rows recorded, and its own is the first of them. -/
theorem run_lostAs {s : Firing} {j : Nat} {c : FiredStep} {order : SimOrder} {key : String}
    (hj : s.calls[j]? = some c) (hstage : c.stage = .held) (hplace : c.outgoing = .place order key)
    (hmodes : s.modes = retrying) : ∃ s' c', firing.run s (lostAs j) = some s' ∧
      c'.stage.isOver ∧ s'.calls = s.calls.set j c' ∧ s'.modes = s.modes ∧
      s'.run.due = s.run.due ∧ s'.run.result = s.run.result ∧
      s'.run.tally.pending = s.run.tally.pending ++ [s.store.nextId] ∧
      s'.store.nextId = s.store.nextId + 3 := by
  let came : Came := .nothing "fetch failed"
  let sent : FiredStep := { c with stage := .sent, sentAt := s.clock }
  let lost : GatewayResult := ⟨s.store.nextId, came.answer, none⟩
  let retried : FiredStep := { sent with stage := .retrying lost (delayMark sent) s.clock }
  let returned : FiredStep := { sent with stage := .returned lost }
  have hplacement : sent.isPlacement := by
    simp [sent, FiredStep.isPlacement, FiredStep.key, hplace]
  let s₁ := s.setCall j sent
  let s₂ : Firing := { s₁.setCall j retried with
    store := s.store.record (sent.attempt s.clock came.answer (delayMark sent)) }
  let s₃ : Firing := { s₂.setCall j returned with
    store := s₂.probed order key lost (delayMark sent) s.clock came }
  have hj₁ : s₁.calls[j]? = some sent := getElem?_setCall hj sent
  have hj₂ : s₂.calls[j]? = some retried := getElem?_setCall hj₁ retried
  have hj₃ : s₃.calls[j]? = some returned := getElem?_setCall hj₂ returned
  have hanswered : firing.step s₁ (.answer j came zero zero) = some s₂ := by
    have howns : sent.Owns came := fun _ hok => by cases hok
    rw [step_answer hj₁ rfl howns, answered_nothing (s := s₁) hmodes hplacement]
    rfl
  have hprobed : firing.step s₂ (.retryAnswer j came) = some s₃ :=
    step_retryAnswer hj₂ rfl hplace came
  have hsettled : s₃.settle j returned lost .UNKNOWN =
      { s₃.setCall j { returned with stage := .over lost } with
        store := s₃.store.annotate lost.attemptId (annotateOf .UNKNOWN lost.told).write
        run := { s₃.run with tally := s₃.run.tally.place lost.attemptId lost.told } } := by
    simp only [settle, returned, sent, hplace]
  refine ⟨s₃.settle j returned lost .UNKNOWN, { returned with stage := .over lost }, ?_, rfl, ?_⟩
  · simp only [lostAs, firing.run_cons, step_post hj hstage, Option.bind_some]
    show (firing.step s₁ (.answer j came zero zero)).bind _ = _
    simp only [hanswered, Option.bind_some]
    show (firing.step s₂ (.retryAnswer j came)).bind _ = _
    simp only [hprobed, Option.bind_some, step_settle hj₃ rfl, firing.run_nil]
  · rw [hsettled]
    refine ⟨?_, rfl, rfl, rfl, rfl, rfl⟩
    show (((s.calls.set j sent).set j retried).set j returned).set j _ = _
    rw [List.set_set, List.set_set, List.set_set]

/-- One more order is lost. -/
theorem Lost.more {n m : Nat} {s : Firing} (h : Lost n m s) (hm : m < n) :
    ∃ s', firing.run s (lostAs m) = some s' ∧ Lost n (m + 1) s' := by
  have hlt : m < s.calls.length := h.length ▸ hm
  obtain ⟨c, hj⟩ : ∃ c, s.calls[m]? = some c := ⟨_, List.getElem?_eq_getElem hlt⟩
  obtain ⟨hstage, order, key, hplace⟩ := h.held m c hj le_rfl
  obtain ⟨s', c', hrun, hover, hcalls, hmodes, hdue, hresult, hpending, hnextId⟩ :=
    run_lostAs hj hstage hplace h.modes
  refine ⟨s', hrun, ?_⟩
  constructor
  · exact hmodes.trans h.modes
  · rw [hcalls, List.length_set]
    exact h.length
  · intro i d hi hle
    rw [hcalls] at hi
    rcases (getElem?_set_eq_some hj).mp hi with ⟨-, rfl⟩ | ⟨hne, hi⟩
    · exact hover
    · exact h.lost i d hi (by omega)
  · intro i d hi hle
    rw [hcalls] at hi
    rcases (getElem?_set_eq_some hj).mp hi with ⟨rfl, -⟩ | ⟨hne, hi⟩
    · omega
    · exact h.held i d hi (by omega)
  · exact hdue.trans h.due
  · rw [hresult]
    exact h.phase
  · rw [hnextId, h.nextId]
    omega
  · intro _
    rw [hpending, List.mem_append, List.mem_singleton]
    rcases Nat.eq_zero_or_pos m with rfl | hpos
    · exact .inr h.nextId.symm
    · exact .inl (h.pending hpos)

/-- A wave of placements goes out, and all of it is lost. -/
theorem run_outage {n : Nat} {s : Firing} (h : GoneOut n 0 s) :
    ∃ s', firing.run s (outage n) = some s' ∧ Lost n n s' := by
  have hout : ∀ m ≤ n, ∃ s', firing.run s ((List.range m).map fun i => .fire (keyOf i) zero) =
      some s' ∧ GoneOut n m s' := by
    intro m
    induction m with
    | zero => exact fun _ => ⟨s, rfl, h⟩
    | succ m ih =>
      intro hm
      obtain ⟨s₁, hrun, h₁⟩ := ih (by omega)
      obtain ⟨s₂, hstep, h₂⟩ := h₁.fire (by omega)
      refine ⟨s₂, ?_, h₂⟩
      rw [List.range_succ, List.map_append]
      exact firing.run_concat.mpr ⟨s₁, hrun, hstep⟩
  obtain ⟨s₁, hrun₁, h₁⟩ := hout n le_rfl
  have hlost : ∀ m ≤ n, ∃ s', firing.run s₁ ((List.range m).flatMap lostAs) = some s' ∧
      Lost n m s' := by
    intro m
    induction m with
    | zero => exact fun _ => ⟨s₁, rfl, h₁.lost⟩
    | succ m ih =>
      intro hm
      obtain ⟨s₂, hrun, h₂⟩ := ih (by omega)
      obtain ⟨s₃, hstep, h₃⟩ := h₂.more (by omega)
      refine ⟨s₃, ?_, h₃⟩
      rw [List.range_succ, List.flatMap_append, List.flatMap_singleton]
      exact firing.run_trans hrun hstep
  obtain ⟨s₂, hrun₂, h₂⟩ := hlost n le_rfl
  exact ⟨s₂, firing.run_trans hrun₁ hrun₂, h₂⟩

/-- **One wave can outgrow the ring.**  Three thousand orders in one wave, all of them lost and sent
    again: nine thousand rows, and the first ones are gone when the wave is folded. -/
theorem outage_overruns : widest.Admitted ∧ ∃ s s',
    firing.run (start toDouble widest retrying [] .empty 0) (outage 3000) = some s ∧
      firing.step s .fold = some s' ∧ ¬s'.Whole := by
  refine ⟨⟨le_rfl, by decide, by decide⟩, ?_⟩
  have hplan : planWaves toDouble widest = [waveAt toDouble widest 0] :=
    planWaves_of_le _ _ (by decide) le_rfl
  have hwidth : widthAt toDouble widest 0 = 3000 := rfl
  have hstart : GoneOut 3000 0 (start toDouble widest retrying [] .empty 0) := by
    constructor
    · rfl
    · rfl
    · exact fun i c hi => by cases hi
    · simp [start, LoadRun.marked, LoadRun.start, LoadRun.next, hplan, waveAt, hwidth]
    · intro step hstep
      simp only [start, LoadRun.marked, LoadRun.start, LoadRun.next, hplan, waveAt] at hstep
      obtain ⟨i, -, rfl⟩ := List.mem_map.mp hstep
      exact ⟨_, stepAt_of_ne _ _ (by decide) _⟩
    · simp [start, LoadRun.marked, LoadRun.start, LoadRun.next, hplan]
    · rfl
  obtain ⟨s, hrun, hlost⟩ := run_outage hstart
  have hsettled : s.Settled := fun c hc => by
    obtain ⟨i, hi⟩ := List.mem_iff_getElem?.mp hc
    obtain ⟨hlt, -⟩ := List.getElem?_eq_some_iff.mp hi
    exact hlost.lost i c hi (hlost.length ▸ hlt)
  have hfold : firing.step s .fold = some { s with run := s.run.fold s.store } :=
    if_pos ⟨hlost.phase, hlost.due, hsettled⟩
  have hrecorded : s.Recorded :=
    firing.invariant_run (fun hi hstep => Recorded.step hi hstep)
      (recorded_start ⟨[], AttemptsStore.holds_empty⟩ ..) hrun
  refine ⟨s, _, hrun, hfold, fun hwhole => ?_⟩
  have hfits := (hrecorded.whole_iff_fits hfold).mp hwhole 1 (hlost.pending (by decide))
  rw [hlost.nextId] at hfits
  exact absurd hfits (by decide)

end Cocos.Tools
