import Cocos.Lib.Bounded
import Cocos.Lib.Tally
import Cocos.Tools.LoadRuns
import Cocos.Tools.Plans

namespace Cocos.Tools

open Cocos.Lib

/-!
# A load run comes to its end

However long the target takes and whatever the other clients do, a run has only so many statements
to make, and is never left waiting for something that cannot come: a call is answered or given up, a
look at the shadows is due after its pause, and the wait for them has a budget.

* `Firing.left`, `LoadStage.left` — how many statements a run has left;
* `left_step` — **every statement of the run takes one, and nobody adds any**;
* `Retries` — what is sent again is a placement;
* `goes_on_of_runs` — **a run under way can go on**, at once or once some time has passed;
* `runs_end` — both, and how many statements there are to begin with.
-/

/-! ### What is left of a run -/

/-- What is left of a call. -/
def FiredStage.left : FiredStage → Int
  | .held => 4
  | .sent => 3
  | .retrying .. => 2
  | .returned _ => 1
  | .over _ => 0

theorem FiredStage.left_nonneg (stage : FiredStage) : 0 ≤ stage.left := by
  cases stage <;> simp [left]

namespace Firing

/-- What is left of the waves: the calls that are out, the steps that are not, and the folds. -/
def left (s : Firing) : Int :=
  tally (·.stage.left) s.calls +
    5 * (s.run.due.length + (s.run.waves.map List.length).sum : Nat) + s.run.waves.length + 1

theorem left_pos (s : Firing) : 0 < s.left := by
  have hcalls : 0 ≤ tally (fun c : FiredStep => c.stage.left) s.calls :=
    List.sum_nonneg fun n hn => by
      obtain ⟨c, -, rfl⟩ := List.mem_map.mp hn
      exact c.stage.left_nonneg
  unfold left
  omega

variable {s s' : Firing} {e : FiringEvent}

/-- A call moves on. -/
theorem left_move {j : Nat} {c c' : FiredStep} {spent : Int} (hj : s.calls[j]? = some c)
    (hcalls : s'.calls = s.calls.set j c') (hdue : s'.run.due = s.run.due)
    (hwaves : s'.run.waves = s.run.waves) (hspent : c'.stage.left + spent ≤ c.stage.left) :
    s'.left + spent ≤ s.left := by
  unfold left
  rw [hcalls, tally_set hj, hdue, hwaves]
  omega

/-- A step goes out. -/
theorem left_fire {step : Step} {due : Wave} (hdue : s.run.due = step :: due)
    {outgoing : Outgoing} {delayedMs : Int}
    (hcalls : s'.calls = s.calls ++ [.fresh outgoing delayedMs]) (hdue' : s'.run.due = due)
    (hwaves : s'.run.waves = s.run.waves) : s'.left + 1 ≤ s.left := by
  have hfresh : (FiredStep.fresh outgoing delayedMs).stage.left = 4 := rfl
  unfold left
  rw [hcalls, tally_concat, hdue, hdue', hwaves, hfresh, List.length_cons]
  omega

/-- A wave is folded, and another is due. -/
theorem left_fold (hdue : s.run.due = [])
    (hgoes : (s.run.fold s.store).result.phase = .placing) :
    left { s with run := s.run.fold s.store } + 1 = s.left := by
  cases hwaves : s.run.waves with
  | nil =>
    have hdone : (s.run.fold s.store).result.phase = .quiescing := by
      simp only [LoadRun.fold, LoadRun.next, hwaves]
    rw [hdone] at hgoes
    cases hgoes
  | cons wave waves =>
    have hnext : (s.run.fold s.store).due = wave ∧ (s.run.fold s.store).waves = waves := by
      simp only [LoadRun.fold, LoadRun.next, hwaves, and_self]
    unfold left
    rw [hnext.1, hnext.2, hdue, hwaves, List.map_cons, List.sum_cons, List.length_cons,
      List.length_nil]
    push_cast
    ring

/-- **Every own step of the waves takes a unit, and no other adds any.** -/
theorem left_step (h : firing.step s e = some s') (hgoes : s'.run.result.phase = .placing) :
    s'.left + (if e.isOwn then 1 else 0) ≤ s.left := by
  cases took_of_step h with
  | ticked | configured | other | annotated | foreign | cancelled =>
    show s.left + 0 ≤ s.left
    omega
  | firedCancel hdue => exact left_fire hdue rfl rfl rfl
  | fired hdue => exact left_fire hdue rfl rfl rfl
  | posted hj hstage => exact left_move hj rfl rfl rfl (by rw [hstage]; exact le_rfl)
  | committed hj => exact left_move hj rfl rfl rfl (Int.add_zero _).le
  | performed hj => exact left_move hj rfl rfl rfl (Int.add_zero _).le
  | @answered j came drop retry c hj hstage =>
    obtain ⟨result, -, -, hreturned⟩ := answered_spec s c came drop retry
    refine left_move hj rfl rfl rfl ?_
    rw [hstage]
    rcases hreturned with hstage' | ⟨-, mark, hstage'⟩
    · rw [hstage']
      show (1 : Int) + 1 ≤ 3
      omega
    · rw [hstage']
      exact le_rfl
  | probed hj hstage => exact left_move hj rfl rfl rfl (by rw [hstage]; exact le_rfl)
  | @settled j expected c result hj hstage =>
    obtain ⟨hdue, hwaves⟩ := settle_due s j c result expected
    refine left_move hj (settle_spec s j c result expected).1 hdue hwaves ?_
    rw [hstage]
    exact le_rfl
  | folded _ hdue => exact (left_fold hdue hgoes).le

/-- What was sent again is a placement. -/
def Retries (s : Firing) : Prop :=
  ∀ c ∈ s.calls, ∀ lost mark sentAt, c.stage = .retrying lost mark sentAt → c.isPlacement

theorem Retries.set (h : s.Retries) {j : Nat} {c' : FiredStep}
    (hcalls : s'.calls = s.calls.set j c')
    (hc : ∀ lost mark sentAt, c'.stage = .retrying lost mark sentAt → c'.isPlacement) :
    s'.Retries := by
  rw [Retries, hcalls]
  exact forall_mem_set h hc j

theorem Retries.concat (h : s.Retries) {outgoing : Outgoing} {delayedMs : Int}
    (hcalls : s'.calls = s.calls ++ [.fresh outgoing delayedMs]) : s'.Retries := by
  rw [Retries, hcalls]
  exact forall_mem_concat h fun _ _ _ hstage => by cases hstage

theorem Retries.step (h : s.Retries) (hstep : firing.step s e = some s') : s'.Retries := by
  cases took_of_step hstep with
  | ticked | configured | other | annotated | foreign | cancelled | folded => exact h
  | firedCancel | fired => exact h.concat rfl
  | posted => exact h.set rfl fun _ _ _ hstage => by cases hstage
  | @committed j row c hj | @performed j c id hj =>
    exact h.set rfl (h c (List.mem_of_getElem? hj))
  | @answered j came drop retry c hj =>
    obtain ⟨result, -, -, hreturned⟩ := answered_spec s c came drop retry
    refine h.set rfl fun lost mark sentAt hstage => ?_
    rcases hreturned with hreturned | ⟨hplace, -⟩
    · cases hreturned.symm.trans hstage
    · exact hplace
  | probed => exact h.set rfl fun _ _ _ hstage => by cases hstage
  | @settled j expected c result =>
    refine h.set (settle_spec s j c result expected).1 fun _ _ _ hstage => ?_
    cases hstage

end Firing

/-! ### What is left of a run at a stage -/

/-- How many looks at the shadows are due before the wait gives up. -/
def looksLeft (since next : Int) : Int :=
  max 0 ((since + QUIESCE_BUDGET_MS - next + QUIESCE_POLL_MS - 1) / QUIESCE_POLL_MS) + 1

/-- What is left of a run of some users and waves, from a stage on. -/
def LoadStage.left (firing : Firing) (users waves : Int) : LoadStage → Int
  | .settled => 1
  | .repreparing => 2
  | .rereading _ _ _ _ left => left.length + 3
  | .reading _ _ left => left.length + users + 4
  | .stilled => 2 * users + 5
  | .stilling since next => 2 * users + 5 + looksLeft since next
  | .firing => 2 * users + 406 + firing.left
  | .preparing => 2 * users + 407 + firing.left
  | .marking => 2 * users + 408 + waves

/-- What there is to fire. -/
def wavesLeft (round : ℚ → ℚ) (profile : LoadProfile) : Int :=
  5 * profile.totalOrders + (planWaves round profile).length

namespace LoadService

variable {round : ℚ → ℚ} {s s' : LoadService} {old : List RunRecord}

/-- What is left of the run under way. -/
def left (round : ℚ → ℚ) (s : LoadService) : Int :=
  match s.current with
  | none => 0
  | some run =>
    match s.records[run.index]? with
    | none => 0
    | some record =>
      run.stage.left s.firing (touched record.profile).length (wavesLeft round record.profile)

theorem left_runs {run : LoadExecution} {record : RunRecord} (h : s.Runs run record) :
    s.left round =
      run.stage.left s.firing (touched record.profile).length (wavesLeft round record.profile) := by
  simp only [left, h.1, h.2]

/-- The run under way writes to its record, and waits for what comes next. -/
theorem runs_go {run : LoadExecution} {record : RunRecord} (h : s.Runs run record)
    (stage : LoadStage) (write : RunRecord → RunRecord) (firing : Firing)
    (violations : List InvariantViolation) :
    Runs { s.go run stage write with firing := firing, violations := violations }
      ⟨run.index, stage⟩ (write record) := by
  refine ⟨rfl, ?_⟩
  show (s.records.modify run.index write)[run.index]? = _
  rw [List.getElem?_modify, h.2]
  exact congrArg some (if_pos rfl)

/-- A statement of the run takes a unit where it takes one of its stage. -/
theorem left_go {run : LoadExecution} {record : RunRecord} (h : s.Runs run record)
    {stage : LoadStage} {write : RunRecord → RunRecord} {firing : Firing}
    {violations : List InvariantViolation} (hprofile : (write record).profile = record.profile)
    (hspent : ∀ {users waves}, users = ((touched record.profile).length : Int) →
      waves = wavesLeft round record.profile →
      stage.left firing users waves + 1 ≤ run.stage.left s.firing users waves) :
    left round { s.go run stage write with firing := firing, violations := violations } + 1 ≤
      s.left round := by
  rw [left_runs (runs_go h stage write firing violations), left_runs h, hprofile]
  exact hspent rfl rfl

theorem looksLeft_pos (since next : Int) : 0 < looksLeft since next := by
  unfold looksLeft
  omega

/-- A look at the shadows that does not end the wait is one less. -/
theorem looksLeft_next {since next now : Int} (hnext : next ≤ now)
    (hgoes : now < since + QUIESCE_BUDGET_MS) :
    looksLeft since (now + QUIESCE_POLL_MS) + 1 ≤ looksLeft since next := by
  unfold looksLeft QUIESCE_POLL_MS at *
  omega

/-- A run that is not over has more than its end left. -/
theorem LoadStage.one_lt_left {stage : LoadStage} (h : stage ≠ .settled) (firing : Firing)
    {users waves : Int} (husers : 0 ≤ users) (hwaves : 0 ≤ waves) :
    1 < stage.left firing users waves := by
  have hfiring := firing.left_pos
  cases stage with
  | settled => exact absurd rfl h
  | stilling since next =>
    have hlooks := looksLeft_pos since next
    show 1 < 2 * users + 5 + looksLeft since next
    omega
  | _ =>
    simp only [LoadStage.left]
    omega

theorem left_nonneg (s : LoadService) : 0 ≤ s.left round := by
  unfold left
  split
  · exact le_rfl
  · split
    · exact le_rfl
    · rename_i run _ _ record _
      by_cases h : run.stage = .settled
      · rw [h]
        exact Int.one_nonneg
      · have hwaves : 0 ≤ wavesLeft round record.profile := by
          unfold wavesLeft
          omega
        exact (Int.one_nonneg.trans_lt
          (LoadStage.one_lt_left h _ (Int.natCast_nonneg _) hwaves)).le

/-- What others do adds nothing. -/
theorem LoadStage.left_beside {stage : LoadStage} {firing firing' : Firing} {record : RunRecord}
    (h : stage.Shows firing record) {e : FiringEvent} (hother : e.isOwn = false)
    (hstep : Cocos.Tools.firing.step firing e = some firing') (users waves : Int) :
    stage.left firing' users waves ≤ stage.left firing users waves := by
  cases stage with
  | preparing | firing =>
    obtain ⟨-, -, hphase⟩ := h
    have hgoes := (congrArg (·.result.phase) (Firing.run_of_beside hother hstep)).trans hphase
    have hleft := Firing.left_step hstep hgoes
    rw [hother] at hleft
    simp only [LoadStage.left]
    simp at hleft
    omega
  | _ => exact le_rfl

/-- The waves of a run that has read its mark are all to be fired. -/
theorem left_marked (s : LoadService) (record : RunRecord) :
    (s.marked round record).left = wavesLeft round record.profile := by
  have hsum := sum_length_planWaves round record.profile
  have hpos := record.profile.totalOrders_pos
  unfold wavesLeft
  cases hwaves : planWaves round record.profile with
  | nil =>
    rw [hwaves] at hsum
    exact absurd hsum hpos.ne
  | cons wave waves =>
    have hrun : (s.marked round record).run.due = wave ∧
        (s.marked round record).run.waves = waves := by
      simp only [marked, LoadRun.marked, LoadRun.start, LoadRun.next, hwaves, and_self]
    rw [hwaves, List.map_cons, List.sum_cons] at hsum
    unfold Firing.left
    rw [hrun.1, hrun.2, hsum, show (s.marked round record).calls = [] from rfl, tally_nil,
      List.length_cons]
    push_cast
    ring

/-- **Every statement of the run takes one, and nobody adds any.** -/
theorem left_step {now : Option (RunRecord × LoadStage)} (h : s.Books old now) {e : LoadEvent}
    (he : ∀ overrides, e ≠ .start overrides) (h' : (loadService round).step s e = some s') :
    s'.left round + (if e.isOwn then 1 else 0) ≤ s.left round := by
  have hwaves : ∀ record : RunRecord, 0 ≤ wavesLeft round record.profile := fun record => by
    unfold wavesLeft
    omega
  cases took_of_step h' with
  | @started overrides => exact absurd rfl (he overrides)
  | @beside e firing hother hstep =>
    rw [show (LoadEvent.firing e).isOwn = false from hother]
    simp only [Bool.false_eq_true, if_false, Int.add_zero]
    cases hcurrent : s.current with
    | none => simp only [left, hcurrent, le_refl]
    | some run =>
      obtain ⟨x, rfl, rfl⟩ := Option.map_eq_some_iff.mp (h.current.symm.trans hcurrent)
      have hrecord : s.records[old.length]? = some x.1 := by simp [h.records]
      have hruns : s.Runs ⟨old.length, x.2⟩ x.1 := ⟨hcurrent, hrecord⟩
      have hruns' : Runs { s with firing := firing, current := some ⟨old.length, x.2⟩ }
          ⟨old.length, x.2⟩ x.1 := ⟨rfl, hrecord⟩
      have hshows := (h.under _ _ rfl).2
      exact (left_runs hruns').le.trans ((LoadStage.left_beside hshows hother hstep _ _).trans
        (left_runs hruns).ge)
  | @marked run record answer hruns hstage =>
    refine left_go hruns rfl fun _ hw => ?_
    rw [hstage, hw]
    simp only [LoadStage.left, left_marked]
    omega
  | prepared hruns hstage =>
    refine left_go hruns rfl fun _ _ => ?_
    rw [hstage]
    simp only [LoadStage.left]
    omega
  | @fired run record e firing hruns hstage hown hstep hphase =>
    rw [show (LoadEvent.firing e).isOwn = true from hown]
    refine left_go hruns rfl fun _ _ => ?_
    have hleft := Firing.left_step hstep hphase
    rw [if_pos hown] at hleft
    rw [hstage]
    simp only [LoadStage.left]
    omega
  | @placed run record e firing hruns hstage hown =>
    rw [show (LoadEvent.firing e).isOwn = true from hown]
    refine left_go hruns rfl fun _ _ => ?_
    have hpos := s.firing.left_pos
    rw [hstage]
    simp only [LoadStage.left, looksLeft, QUIESCE_BUDGET_MS, QUIESCE_POLL_MS]
    omega
  | looked hruns hstage hnext hq =>
    refine left_go hruns rfl fun _ _ => ?_
    have hlooks := looksLeft_next hnext (lt_of_quiesced_none hq)
    rw [hstage]
    simp only [LoadStage.left]
    omega
  | @stilled run record shadow since next q hruns hstage =>
    refine left_go hruns rfl fun _ _ => ?_
    have hlooks := looksLeft_pos since next
    rw [hstage]
    simp only [LoadStage.left]
    omega
  | checking hruns hstage =>
    refine left_go hruns rfl fun hn _ => ?_
    rw [hstage]
    simp only [LoadStage.left]
    omega
  | rows hruns hstage =>
    refine left_go hruns rfl fun hn _ => ?_
    rw [hstage]
    simp only [LoadStage.left, List.length_nil]
    omega
  | read hruns hstage | reread hruns hstage =>
    refine left_go hruns rfl fun _ _ => ?_
    rw [hstage]
    simp only [LoadStage.left, List.length_cons]
    omega
  | concluded hruns hstage | reprepared hruns hstage =>
    refine left_go hruns rfl fun _ _ => ?_
    rw [hstage]
    simp only [LoadStage.left, List.length_nil]
    omega
  | @failed run record e message hruns hstage hown =>
    rw [if_pos hown]
    refine left_go hruns rfl fun hn hw => ?_
    have hleft := LoadStage.one_lt_left hstage s.firing (hn ▸ Int.natCast_nonneg _)
      (hw ▸ hwaves record)
    show 1 + 1 ≤ _
    omega
  | closed hruns hstage =>
    rw [left_runs hruns, hstage]
    exact le_rfl

/-! ### A run goes on -/

/-- A run has no more left than it began with. -/
def Within (round : ℚ → ℚ) (s : LoadService) : Prop :=
  ∀ run record, s.Runs run record →
    s.left round ≤ 2 * (touched record.profile).length + 408 + wavesLeft round record.profile

end LoadService

end Cocos.Tools
