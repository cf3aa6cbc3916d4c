import Cocos.Tools.Answers
import Cocos.Tools.Waves
import Mathlib.Data.Fintype.EquivFin

namespace Cocos.Tools

open Cocos.Lib

/-!
# The queue of resting orders

A cancel step takes the oldest order the run was told is resting, and places one where there is
none; the placements that are answered feed the queue behind it.

* `Firing.Planned` — every step of the plan is due, or was fired, and those that are over are
  counted;
* `Firing.Queued` — what was sent to cancel and what is in the queue are the orders the run was told
  are resting;
* `Firing.Owned` — no two placements are told of the same order;
* `Firing.Standing` — against a correct target those orders stand until they are cancelled;
* `sent_once_each` — **one step is one request, and no order is cancelled twice**.
-/

namespace Firing

variable {s s' : Firing}

/-! ### The plan -/

/-- Every step is still to be fired or is one call, and the calls that are over are counted. -/
structure Planned (total : Nat) (s : Firing) : Prop where
  fired : s.calls.length + s.run.due.length + (s.run.waves.map List.length).sum = total
  sent : s.run.tally.sent = s.calls.countP (·.stage.isOver)
  done : s.run.result.phase ≠ .placing →
    s.run.due = [] ∧ s.run.waves = [] ∧ s.Settled ∧ s.run.result.sent = s.run.tally.sent

theorem planned_next {total : Nat} (run : LoadRun) (hdue : run.due = [])
    (hphase : run.result.phase = .placing) (hwaves : (run.waves.map List.length).sum = total) :
    run.next.due.length + (run.next.waves.map List.length).sum = total ∧
      (run.next.result.phase ≠ .placing → run.next.due = [] ∧ run.next.waves = []) := by
  unfold LoadRun.next
  split
  · rename_i hnone
    exact ⟨by simpa [hdue, hnone] using hwaves, fun _ => ⟨hdue, hnone⟩⟩
  · rename_i wave waves hsome
    exact ⟨by simpa [hsome] using hwaves, fun hne => absurd hphase hne⟩

theorem planned_start (round : ℚ → ℚ) (profile : LoadProfile) (modes : ChaosConfig)
    (orders : Orders) (store : AttemptsStore) (now : Int) :
    (start round profile modes orders store now).Planned profile.totalOrders := by
  have hnext := planned_next { LoadRun.start (planWaves round profile) now store.nextId with
    highWaterMark := some (highWaterMark orders) } rfl rfl (sum_length_planWaves round profile)
  constructor
  · simpa [start, LoadRun.marked] using hnext.1
  · simp [start, LoadRun.marked, LoadRun.start, Tally.empty]
  · intro hphase
    obtain ⟨hdue, hwaves⟩ := hnext.2 hphase
    refine ⟨hdue, hwaves, fun c hc => absurd hc List.not_mem_nil, ?_⟩
    simp [start, LoadRun.marked, LoadRun.start, Tally.empty]

/-- A step that is over stays over, and no other is. -/
theorem Planned.moved {total : Nat} (h : s.Planned total) {j : Nat} {c c' : FiredStep}
    (hj : s.calls[j]? = some c) (hcalls : s'.calls = s.calls.set j c')
    (hover : c'.stage.isOver = c.stage.isOver) (hrun : s'.run = s.run) : s'.Planned total := by
  obtain ⟨hlt, hget⟩ := List.getElem?_eq_some_iff.mp hj
  constructor
  · rw [hcalls, List.length_set, hrun]
    exact h.fired
  · rw [hcalls, List.countP_set hlt, hget, hover, hrun, h.sent]
    split
    · rename_i hc
      have hpos := List.countP_pos_iff (p := fun d : FiredStep => d.stage.isOver).mpr
        ⟨c, List.mem_of_getElem? hj, hc⟩
      omega
    · rfl
  · intro hphase
    rw [hrun] at hphase ⊢
    obtain ⟨hdue, hwaves, hsettled, hsent⟩ := h.done hphase
    refine ⟨hdue, hwaves, fun d hd => ?_, hsent⟩
    have hc := hsettled c (List.mem_of_getElem? hj)
    exact forall_mem_set hsettled (hover.trans hc) j d (hcalls ▸ hd)

/-- A call that is not over is one of a wave. -/
theorem Planned.placing {total : Nat} (h : s.Planned total) {j : Nat} {c : FiredStep}
    (hj : s.calls[j]? = some c) (hstage : c.stage.isOver = false) :
    s.run.result.phase = .placing := by
  by_contra hphase
  obtain ⟨-, -, hsettled, -⟩ := h.done hphase
  have hover := hsettled c (List.mem_of_getElem? hj)
  rw [hstage] at hover
  cases hover

/-- A step is over, and counts. -/
theorem Planned.settled {total : Nat} (h : s.Planned total) {j : Nat} {c : FiredStep}
    {result : GatewayResult} (hj : s.calls[j]? = some c) (hstage : c.stage = .returned result)
    (expected : Expectation) : (s.settle j c result expected).Planned total := by
  obtain ⟨hcalls, hresult, -, hsent, -⟩ := settle_spec s j c result expected
  obtain ⟨hdue, hwaves⟩ := settle_due s j c result expected
  obtain ⟨hlt, hget⟩ := List.getElem?_eq_some_iff.mp hj
  have hopen : c.stage.isOver = false := by rw [hstage]; rfl
  constructor
  · rw [hcalls, List.length_set, hdue, hwaves]
    exact h.fired
  · rw [hcalls, hsent, List.countP_set hlt, hget, hopen, h.sent]
    rfl
  · intro hphase
    rw [hresult] at hphase
    exact absurd (h.placing hj hopen) hphase

/-- A step is fired, and is no more due. -/
theorem Planned.fire {total : Nat} (h : s.Planned total) {step : Step} {due : Wave}
    (hdue : s.run.due = step :: due) (outgoing : Outgoing) (delayedMs : Int)
    (hcalls : s'.calls = s.calls ++ [.fresh outgoing delayedMs]) (hdue' : s'.run.due = due)
    (hwaves : s'.run.waves = s.run.waves) (hresult : s'.run.result = s.run.result)
    (hsent : s'.run.tally.sent = s.run.tally.sent) : s'.Planned total := by
  have hfired := h.fired
  rw [hdue, List.length_cons] at hfired
  constructor
  · rw [hcalls, List.length_append, List.length_singleton, hdue', hwaves]
    omega
  · rw [hcalls, List.countP_append, hsent, h.sent]
    rfl
  · intro hphase
    rw [hresult] at hphase
    have hnone := (h.done hphase).1
    rw [hdue] at hnone
    cases hnone

/-- A wave is folded, and the next one is due. -/
theorem Planned.folded {total : Nat} (h : s.Planned total) (hphase : s.run.result.phase = .placing)
    (hdue : s.run.due = []) (hsettled : s.Settled) :
    Planned total { s with run := s.run.fold s.store } := by
  obtain ⟨⟨pending, latencies, htally⟩, -, hsame⟩ :=
    foldWave_spec s.store s.run.result s.run.tally
  have hfired := h.fired
  rw [hdue, List.length_nil, Nat.add_zero] at hfired
  have hnext := planned_next { s.run with
    result := (foldWave s.store s.run.result s.run.tally).1
    tally := (foldWave s.store s.run.result s.run.tally).2 } hdue (hsame.trans hphase) rfl
  have htally' : (s.run.fold s.store).tally.sent = s.run.tally.sent := by
    simp only [LoadRun.fold, LoadRun.next_tally]
    rw [htally]
  constructor
  · have hleft :
        (s.run.fold s.store).due.length + ((s.run.fold s.store).waves.map List.length).sum =
        (s.run.waves.map List.length).sum := hnext.1
    show s.calls.length + (s.run.fold s.store).due.length +
      ((s.run.fold s.store).waves.map List.length).sum = total
    omega
  · exact htally'.trans h.sent
  · intro hdone
    obtain ⟨hdue', hwaves'⟩ := hnext.2 hdone
    refine ⟨hdue', hwaves', hsettled, ?_⟩
    simp only [LoadRun.fold, LoadRun.next_sent, LoadRun.next_tally]
    rfl

/-- **One step keeps to the plan.** -/
theorem Planned.step {total : Nat} (h : s.Planned total) {e : FiringEvent}
    (hstep : firing.step s e = some s') : s'.Planned total := by
  cases took_of_step hstep with
  | ticked | configured | other | annotated | foreign | cancelled => exact ⟨h.fired, h.sent, h.done⟩
  | firedCancel hdue => exact h.fire hdue _ _ rfl rfl rfl rfl rfl
  | fired hdue => exact h.fire hdue _ _ rfl rfl rfl rfl rfl
  | posted hj hstage => exact h.moved hj rfl (by rw [hstage]; rfl) rfl
  | committed hj => exact h.moved hj rfl rfl rfl
  | performed hj => exact h.moved hj rfl rfl rfl
  | @answered j came drop retry c hj hstage =>
    refine h.moved hj rfl ?_ rfl
    obtain ⟨result, -, -, hreturned⟩ := answered_spec s c came drop retry
    rcases hreturned with hstage' | ⟨-, mark, hstage'⟩ <;> rw [hstage, hstage'] <;> rfl
  | probed hj hstage => exact h.moved hj rfl (by rw [hstage]; rfl) rfl
  | settled hj hstage => exact h.settled hj hstage _
  | folded hphase hdue hsettled => exact h.folded hphase hdue hsettled

/-- While its steps settle a run goes on. -/
theorem goes_on (hphase : s.run.result.phase = .placing) (hsettled : s.Settled) :
    (∃ key, ∀ delay, (firing.step s (.fire key delay)).isSome) ∨ (firing.step s .fold).isSome := by
  cases hdue : s.run.due with
  | nil =>
    refine .inr ?_
    simp only [firing, Firing.step]
    rw [if_pos ⟨hphase, hdue, hsettled⟩]
    rfl
  | cons step due =>
    -- some key was never used
    obtain ⟨key, hkey⟩ :=
      Infinite.exists_notMem_finset (s.calls.filterMap FiredStep.key).toFinset
    have hfresh : ∀ c ∈ s.calls, c.key ≠ some key := fun c hc heq =>
      hkey (List.mem_toFinset.mpr (List.mem_filterMap.mpr ⟨c, hc, heq⟩))
    refine .inl ⟨key, fun delay => ?_⟩
    simp only [firing, Firing.step, hdue, if_pos hfresh]
    split <;> first | rfl | contradiction

/-! ### The queue -/

/-- What was sent to cancel and what is in the queue are the orders that were answered for as
    resting; and a cancel comes after the answer. -/
structure Queued (s : Firing) : Prop where
  balance : (s.calls.filterMap FiredStep.cancels ++ s.run.tally.resting).Perm
    (s.calls.filterMap FiredStep.rested)
  earlier : ∀ (k : Nat) (c : FiredStep) (id : Int), s.calls[k]? = some c → c.cancels = some id →
    ∃ (j : Nat) (d : FiredStep), j < k ∧ s.calls[j]? = some d ∧ d.rested = some id

theorem queued_start (round : ℚ → ℚ) (profile : LoadProfile) (modes : ChaosConfig) (orders : Orders)
    (store : AttemptsStore) (now : Int) :
    (start round profile modes orders store now).Queued where
  balance := by simp [start, LoadRun.marked, LoadRun.start, Tally.empty]
  earlier k c id hk := by cases hk

/-- A cancel still comes after the answer when a step goes on and rests no less than it did. -/
theorem Queued.earlier_set (h : s.Queued) {j : Nat} {c c' : FiredStep} (hj : s.calls[j]? = some c)
    (hcancels : c'.cancels = c.cancels) (hrested : ∀ id, c.rested = some id → c'.rested = some id)
    {k : Nat} {d : FiredStep} {id : Int} (hk : (s.calls.set j c')[k]? = some d)
    (hd : d.cancels = some id) :
    ∃ (i : Nat) (b : FiredStep), i < k ∧ (s.calls.set j c')[i]? = some b ∧ b.rested = some id := by
  obtain ⟨d₀, hk₀, hd₀⟩ : ∃ d₀, s.calls[k]? = some d₀ ∧ d₀.cancels = some id := by
    rcases (getElem?_set_eq_some hj).mp hk with ⟨rfl, rfl⟩ | ⟨-, hk⟩
    · exact ⟨c, hj, hcancels ▸ hd⟩
    · exact ⟨d, hk, hd⟩
  obtain ⟨i, b, hlt, hi, hb⟩ := h.earlier k d₀ id hk₀ hd₀
  by_cases hij : i = j
  · subst hij
    cases hj.symm.trans hi
    exact ⟨i, c', hlt, getElem?_setCall hj c', hrested id hb⟩
  · exact ⟨i, b, hlt, (getElem?_set_eq_some hj).mpr (.inr ⟨hij, hi⟩), hb⟩

/-- A step moves on, and rests what it did. -/
theorem Queued.moved (h : s.Queued) {j : Nat} {c c' : FiredStep} (hj : s.calls[j]? = some c)
    (hcalls : s'.calls = s.calls.set j c') (hcancels : c'.cancels = c.cancels)
    (hrested : c'.rested = c.rested) (hresting : s'.run.tally.resting = s.run.tally.resting) :
    s'.Queued where
  balance := by
    rw [hcalls, filterMap_set_of_eq hj hcancels, filterMap_set_of_eq hj hrested, hresting]
    exact h.balance
  earlier k d id hk hd := by
    rw [hcalls] at hk ⊢
    exact h.earlier_set hj hcancels (fun id' hid => hrested.trans hid) hk hd

/-- A step is fired, and whoever it is to cancel was taken out of the queue. -/
theorem Queued.fire (h : s.Queued) (outgoing : Outgoing) (delayedMs : Int)
    (hcalls : s'.calls = s.calls ++ [.fresh outgoing delayedMs])
    (hresting : s.run.tally.resting =
      (FiredStep.fresh outgoing delayedMs).cancels.toList ++ s'.run.tally.resting) :
    s'.Queued := by
  have hrested : (FiredStep.fresh outgoing delayedMs).rested = none := by
    cases outgoing <;> rfl
  have hperm : (s'.calls.filterMap FiredStep.cancels ++ s'.run.tally.resting).Perm
      (s.calls.filterMap FiredStep.rested) := by
    rw [hcalls, List.filterMap_append, List.append_assoc]
    refine .trans (.of_eq ?_) h.balance
    rw [hresting]
    cases hcancels : (FiredStep.fresh outgoing delayedMs).cancels <;> simp [hcancels]
  constructor
  · have hsame : s'.calls.filterMap FiredStep.rested = s.calls.filterMap FiredStep.rested := by
      rw [hcalls]
      exact filterMap_concat_of_none _ hrested
    exact hsame ▸ hperm
  · intro k c id hk hc
    rw [hcalls] at hk ⊢
    rcases getElem?_concat_eq_some.mp hk with hk | ⟨rfl, rfl⟩
    · obtain ⟨j, d, hlt, hj, hd⟩ := h.earlier k c id hk hc
      exact ⟨j, d, hlt, getElem?_concat_eq_some.mpr (.inl hj), hd⟩
    · -- the order was in the queue, so a step that is over was answered for it
      have hqueued : id ∈ s.run.tally.resting := by
        rw [hresting, hc]
        exact List.mem_append_left _ List.mem_cons_self
      have hmem := h.balance.mem_iff.mp (List.mem_append_right _ hqueued)
      obtain ⟨d, hd, hid⟩ := List.mem_filterMap.mp hmem
      obtain ⟨j, hj⟩ := List.mem_iff_getElem?.mp hd
      obtain ⟨hlt, -⟩ := List.getElem?_eq_some_iff.mp hj
      exact ⟨j, d, hlt, getElem?_concat_eq_some.mpr (.inl hj), hid⟩

/-- What the run is told is resting goes to the end of the queue. -/
theorem resting_settle (s : Firing) (j : Nat) (c : FiredStep) (result : GatewayResult)
    (expected : Expectation) : (s.settle j c result expected).run.tally.resting =
      s.run.tally.resting ++ ({ c with stage := .over result } : FiredStep).rested.toList := by
  unfold settle FiredStep.rested
  cases c.outgoing with
  | cancel orderId =>
    have hresting := (Tally.cancel_spec s.run.tally result.attemptId orderId result.answer).2.1
    simpa using hresting
  | place order key =>
    cases hplaced : result.told with
    | none => simp [Tally.place, Tally.issued, hplaced]
    | some placed =>
      by_cases hnew : placed.status = "NEW"
      · simp [Tally.place, Tally.issued, hplaced, hnew]
      · simp [Tally.place, Tally.issued, hplaced, hnew]

/-- A step is over, and the order it rests is queued. -/
theorem Queued.settled (h : s.Queued) {j : Nat} {c : FiredStep} {result : GatewayResult}
    (hj : s.calls[j]? = some c) (hstage : c.stage = .returned result) (expected : Expectation) :
    (s.settle j c result expected).Queued := by
  have hcalls := (settle_spec s j c result expected).1
  have hresting := resting_settle s j c result expected
  have hnone : c.rested = none := by
    simp [FiredStep.rested, hstage]
  cases hrested : ({ c with stage := .over result } : FiredStep).rested with
  | none =>
    rw [hrested, Option.toList_none, List.append_nil] at hresting
    exact h.moved hj hcalls rfl (hrested.trans hnone.symm) hresting
  | some id =>
    rw [hrested, Option.toList_some] at hresting
    have hcancels : ({ c with stage := .over result } : FiredStep).cancels = c.cancels := rfl
    constructor
    · rw [hcalls, filterMap_set_of_eq hj hcancels, hresting, ← List.append_assoc]
      refine (List.perm_append_singleton ..).trans (.trans (.cons id h.balance) ?_)
      exact (filterMap_set_perm hj hnone hrested).symm
    · intro k d id' hk hd
      rw [hcalls] at hk ⊢
      -- no earlier cancel came after the step that is over now
      refine h.earlier_set hj hcancels (fun id'' hid => ?_) hk hd
      rw [hnone] at hid
      cases hid

/-- A step that is not over is not told of any order that rests. -/
theorem rested_of_open {c : FiredStep} (h : c.stage.isOver = false) : c.rested = none := by
  unfold FiredStep.rested
  split
  · rename_i hstage
    rw [hstage] at h
    cases h
  · rfl

/-- What `LoadRun.fold` leaves in the queue. -/
theorem resting_fold (run : LoadRun) (store : AttemptsStore) :
    (run.fold store).tally.resting = run.tally.resting := by
  obtain ⟨pending, latencies, htally⟩ := (foldWave_spec store run.result run.tally).1
  simp only [LoadRun.fold, LoadRun.next_tally]
  rw [htally]

/-- **One step keeps the queue.** -/
theorem Queued.step (h : s.Queued) {e : FiringEvent} (hstep : firing.step s e = some s') :
    s'.Queued := by
  cases took_of_step hstep with
  | ticked | configured | other | annotated | foreign | cancelled => exact ⟨h.balance, h.earlier⟩
  | firedCancel _ hresting => exact h.fire _ _ rfl hresting
  | fired => exact h.fire _ _ rfl rfl
  | @posted j c hj hstage =>
    refine h.moved hj rfl rfl ?_ rfl
    rw [rested_of_open rfl, rested_of_open (by rw [hstage]; rfl)]
  | committed hj => exact h.moved hj rfl rfl rfl rfl
  | performed hj => exact h.moved hj rfl rfl rfl rfl
  | @answered j came drop retry c hj hstage =>
    refine h.moved hj rfl rfl ?_ rfl
    obtain ⟨result, -, -, hreturned⟩ := answered_spec s c came drop retry
    rw [rested_of_open (c := c) (by rw [hstage]; rfl)]
    rcases hreturned with hstage' | ⟨-, mark, hstage'⟩
    · exact rested_of_open (by rw [hstage']; rfl)
    · exact rested_of_open (by rw [hstage']; rfl)
  | probed hj hstage =>
    refine h.moved hj rfl rfl ?_ rfl
    rw [rested_of_open rfl, rested_of_open (by rw [hstage]; rfl)]
  | settled hj hstage => exact h.settled hj hstage _
  | folded => exact ⟨(resting_fold ..).symm ▸ h.balance, h.earlier⟩

/-! ### Whose an order is -/

/-- The order that is stored for a placement. -/
def storedId (c : FiredStep) : Option Int := c.stored.map (·.id)

/-- A placement is told of no order but its own, and no two have the same. -/
structure Owned (s : Firing) : Prop where
  told : ∀ c ∈ s.calls, c.isPlacement → ∀ result, c.stage.result = some result →
    ∀ placed, result.told = some placed → storedId c = some placed.orderId
  distinct : (s.calls.filterMap storedId).Nodup
  kept : ∀ id ∈ s.calls.filterMap storedId, id ∈ s.orders.map (·.id)

theorem owned_start (round : ℚ → ℚ) (profile : LoadProfile) (modes : ChaosConfig) (orders : Orders)
    (store : AttemptsStore) (now : Int) : (start round profile modes orders store now).Owned where
  told _ hc := absurd hc List.not_mem_nil
  distinct := List.nodup_nil
  kept _ hid := absurd hid List.not_mem_nil

theorem Owned.congr (h : s.Owned) (hcalls : s'.calls = s.calls)
    (horders : ∀ id ∈ s.orders.map (·.id), id ∈ s'.orders.map (·.id)) : s'.Owned where
  told := hcalls ▸ h.told
  distinct := hcalls ▸ h.distinct
  kept id hid := horders id (h.kept id (hcalls ▸ hid))

/-- A step moves on, and what it is told of is its own. -/
theorem Owned.moved (h : s.Owned) {j : Nat} {c c' : FiredStep} (hj : s.calls[j]? = some c)
    (hcalls : s'.calls = s.calls.set j c') (hstored : c'.stored = c.stored)
    (horders : ∀ id ∈ s.orders.map (·.id), id ∈ s'.orders.map (·.id))
    (htold : c'.isPlacement → ∀ result, c'.stage.result = some result →
      ∀ placed, result.told = some placed → storedId c' = some placed.orderId) : s'.Owned := by
  have hsame : s'.calls.filterMap storedId = s.calls.filterMap storedId := by
    rw [hcalls]
    exact filterMap_set_of_eq hj (congrArg (Option.map fun row : OrderRow => row.id) hstored)
  constructor
  · rw [hcalls]
    exact forall_mem_set h.told htold j
  · exact hsame ▸ h.distinct
  · exact fun id hid => horders id (h.kept id (hsame ▸ hid))

/-- An order is stored for a placement, under an id that is new. -/
theorem Owned.committed (h : s.Owned) {j : Nat} {c : FiredStep} (hj : s.calls[j]? = some c)
    (hstored : c.stored = none) {row : OrderRow} (hid : row.id ∉ s.orders.map (·.id)) :
    Owned { s.setCall j { c with stored := some row } with orders := s.orders ++ [row] } := by
  have hnone : storedId c = none := by rw [storedId, hstored]; rfl
  have hperm := filterMap_set_perm (f := storedId) (b := { c with stored := some row }) hj hnone rfl
  have horders : (s.orders ++ [row]).map (·.id) = s.orders.map (·.id) ++ [row.id] :=
    List.map_append
  constructor
  · refine forall_mem_set h.told (fun hplace result hresult placed htold => ?_) j
    -- nothing was stored, so nothing was told
    have hown := h.told c (List.mem_of_getElem? hj) hplace result hresult placed htold
    rw [hnone] at hown
    cases hown
  · exact hperm.nodup_iff.mpr (List.nodup_cons.mpr ⟨fun hmem => hid (h.kept _ hmem), h.distinct⟩)
  · intro id hmem
    show id ∈ (s.orders ++ [row]).map (·.id)
    rw [horders]
    rcases List.mem_cons.mp (hperm.mem_iff.mp hmem) with rfl | hmem
    · exact List.mem_append_right _ List.mem_cons_self
    · exact List.mem_append_left _ (h.kept id hmem)

/-- What a placement is told of an answer is what came of it, unless that was hidden. -/
theorem told_answered {c : FiredStep} {came : Came} {drop retry : Roll} {result : GatewayResult}
    (h : (s.answered c came drop retry).2.result = some result) {placed : PlacedResponse}
    (htold : result.told = some placed) :
    came.answer.ok ∧ came.placed = some placed := by
  unfold GatewayResult.told at htold
  split at htold
  · rename_i hok
    rcases result_answered h with ⟨hanswer, hplaced⟩ | ⟨hhidden, -⟩
    · exact ⟨hanswer ▸ hok, hplaced ▸ htold⟩
    · rw [hhidden] at hok
      cases hok
  · cases htold

theorem ids_afterCancel (orders : Orders) (id : Int) :
    (orders.map (OrderRow.afterCancel id)).map (·.id) = orders.map (·.id) := by
  rw [List.map_map]
  exact List.map_congr_left fun row _ => afterCancel_id ..

/-- **One step keeps the orders apart.** -/
theorem Owned.step (h : s.Owned) {e : FiringEvent} (hstep : firing.step s e = some s') :
    s'.Owned := by
  have hall : ∀ id ∈ s.orders.map (·.id), id ∈ s.orders.map (·.id) := fun _ hid => hid
  cases took_of_step hstep with
  | ticked | configured | other | annotated | folded => exact h.congr rfl hall
  | foreign =>
    refine h.congr rfl fun id hid => ?_
    rw [List.map_append]
    exact List.mem_append_left _ hid
  | cancelled =>
    refine h.congr rfl fun id hid => ?_
    rw [ids_afterCancel]
    exact hid
  | firedCancel | fired =>
    refine ⟨forall_mem_concat h.told ?_, ?_, ?_⟩
    · exact fun _ result hresult => by cases hresult
    · rw [filterMap_concat_of_none _ rfl]
      exact h.distinct
    · rw [filterMap_concat_of_none _ rfl]
      exact h.kept
  | posted hj hstage =>
    refine h.moved hj rfl rfl hall fun _ result hresult => ?_
    cases hresult
  | committed hj _ hstored _ hid => exact h.committed hj hstored hid
  | @performed j c _ hj =>
    refine h.moved hj rfl rfl (fun id hid => ?_) (h.told c (List.mem_of_getElem? hj))
    rw [ids_afterCancel]
    exact hid
  | answered hj _ howns =>
    refine h.moved hj rfl rfl hall fun hplace result hresult placed htold => ?_
    obtain ⟨hok, hplaced⟩ := told_answered hresult htold
    exact howns hplace hok placed hplaced
  | probed hj hstage =>
    refine h.moved hj rfl rfl hall fun hplace result hresult => ?_
    exact h.told _ (List.mem_of_getElem? hj) hplace result (by rw [hstage]; exact hresult)
  | @settled j expected c result hj hstage =>
    refine h.moved hj (settle_spec ..).1 rfl ?_ fun hplace result' hresult => ?_
    · unfold settle
      split <;> exact hall
    · exact h.told c (List.mem_of_getElem? hj) hplace result' (by rw [hstage]; exact hresult)

/-- What rests for a step is its own order. -/
theorem Owned.storedId_of_rested (h : s.Owned) {c : FiredStep} (hc : c ∈ s.calls) {id : Int}
    (hrested : c.rested = some id) : ∃ result placed, c.isPlacement ∧ c.stage.result = some result ∧
      result.told = some placed ∧ placed.status = "NEW" ∧ placed.orderId = id ∧
      storedId c = some id := by
  unfold FiredStep.rested at hrested
  split at hrested
  · rename_i order key result houtgoing hstage
    obtain ⟨placed, htold, hnew⟩ := Option.bind_eq_some_iff.mp hrested
    split at hnew
    · rename_i hstatus
      have hplace : c.isPlacement := by simp [FiredStep.isPlacement, FiredStep.key, houtgoing]
      have hresult : c.stage.result = some result := by rw [hstage]; rfl
      have hid := Option.some.inj hnew
      exact ⟨result, placed, hplace, hresult, htold, hstatus, hid,
        hid ▸ h.told c hc hplace result hresult placed htold⟩
    · cases hnew
  · cases hrested

/-- **No order is sent to cancel twice.** -/
theorem nodup_cancels (hqueued : s.Queued) (howned : s.Owned) :
    (s.calls.filterMap FiredStep.cancels).Nodup := by
  have hrested : (s.calls.filterMap FiredStep.rested).Nodup := by
    refine nodup_filterMap_of_imp howned.distinct fun c hc id hid => ?_
    obtain ⟨-, -, -, -, -, -, -, hstored⟩ := howned.storedId_of_rested hc hid
    exact hstored
  exact (hqueued.balance.nodup_iff.mpr hrested).of_append_left

/-! ### A correct target -/

/-- A correct target says that an order is resting where it stored it so, and refuses a cancel with
    409 where the `UPDATE` matched no row. -/
def Correct (s : Firing) : FiringEvent → Prop
  | .answer j came _ _ => ∀ c ∈ s.calls[j]?,
    (c.isPlacement → came.answer.ok → ∀ placed ∈ came.placed, placed.status = "NEW" →
      ∀ row ∈ c.stored, row.status = some OrderStatus.NEW.text) ∧
    (c.cancels.isSome → came.answer.status = 409 → c.performed = some false)
  | _ => True

instance (s : Firing) (e : FiringEvent) : Decidable (Correct s e) :=
  match e with
  | .answer .. => inferInstanceAs (Decidable (∀ c ∈ s.calls[_]?, _))
  | .tick _ | .fire .. | .post _ | .commit .. | .perform _ | .retryAnswer .. | .settle .. | .fold
  | .configure .. | .other _ | .annotate .. | .foreign _ | .cancelled _ => isTrue trivial

/-- What the run was told is resting is resting, until the run has it cancelled. -/
structure Standing (s : Firing) : Prop where
  told : ∀ c ∈ s.calls, c.isPlacement → ∀ result, c.stage.result = some result →
    ∀ placed, result.told = some placed → placed.status = "NEW" →
      ∀ row, c.stored = some row → row.status = some OrderStatus.NEW.text
  standing : ∀ c ∈ s.calls, ∀ row, c.stored = some row → row.status = some OrderStatus.NEW.text →
    (∀ d ∈ s.calls, d.cancels = some row.id → d.performed = none) →
      ∃ r ∈ s.orders, r.id = row.id ∧ r.status = some OrderStatus.NEW.text
  performed : ∀ d ∈ s.calls, ∀ id, d.cancels = some id → d.performed ≠ some false
  answered : ∀ d ∈ s.calls, ∀ id, d.cancels = some id → ∀ result, d.stage.result = some result →
    result.answer.status ≠ 409

theorem standing_start (round : ℚ → ℚ) (profile : LoadProfile) (modes : ChaosConfig)
    (orders : Orders) (store : AttemptsStore) (now : Int) :
    (start round profile modes orders store now).Standing where
  told _ hc := absurd hc List.not_mem_nil
  standing _ hc := absurd hc List.not_mem_nil
  performed _ hd := absurd hd List.not_mem_nil
  answered _ hd := absurd hd List.not_mem_nil

/-- Nothing is stored for the run, and no order is cancelled. -/
theorem Standing.congr (h : s.Standing) (hcalls : s'.calls = s.calls)
    (horders : ∀ r ∈ s.orders, r ∈ s'.orders) : s'.Standing where
  told := hcalls ▸ h.told
  standing c hc row hrow hnew hnone := by
    rw [hcalls] at hc hnone
    obtain ⟨r, hr, hr'⟩ := h.standing c hc row hrow hnew hnone
    exact ⟨r, horders r hr, hr'⟩
  performed := hcalls ▸ h.performed
  answered := hcalls ▸ h.answered

/-- A step moves on, and no order is stored or cancelled for it. -/
theorem Standing.moved (h : s.Standing) {j : Nat} {c c' : FiredStep} (hj : s.calls[j]? = some c)
    (hcalls : s'.calls = s.calls.set j c') (horders : s'.orders = s.orders)
    (houtgoing : c'.outgoing = c.outgoing) (hstored : c'.stored = c.stored)
    (hperformed : c'.performed = c.performed)
    (htold : c'.isPlacement → ∀ result, c'.stage.result = some result →
      ∀ placed, result.told = some placed → placed.status = "NEW" →
        ∀ row, c.stored = some row → row.status = some OrderStatus.NEW.text)
    (hanswered : ∀ id, c'.cancels = some id → ∀ result, c'.stage.result = some result →
      result.answer.status ≠ 409) : s'.Standing := by
  have hc := List.mem_of_getElem? hj
  have hcancels : c'.cancels = c.cancels := by
    unfold FiredStep.cancels
    rw [houtgoing]
  obtain ⟨hlt, -⟩ := List.getElem?_eq_some_iff.mp hj
  constructor
  · rw [hcalls]
    exact forall_mem_set h.told (hstored ▸ htold) j
  · intro d hd row hrow hnew hnone
    rw [hcalls] at hd hnone
    rw [horders]
    obtain ⟨d₀, hd₀, hrow₀⟩ : ∃ d₀ ∈ s.calls, d₀.stored = some row := by
      rcases List.mem_or_eq_of_mem_set hd with hd | rfl
      · exact ⟨d, hd, hrow⟩
      · exact ⟨c, hc, hstored ▸ hrow⟩
    refine h.standing d₀ hd₀ row hrow₀ hnew fun b hb hid => ?_
    rcases mem_set_or hb j c' with hb' | hreplaced
    · exact hnone b hb' hid
    · cases hj.symm.trans hreplaced
      rw [← hperformed]
      exact hnone c' (List.mem_set hlt c') (hcancels.trans hid)
  · rw [hcalls]
    refine forall_mem_set h.performed (fun id hid => ?_) j
    rw [hperformed]
    exact h.performed c hc id (hcancels ▸ hid)
  · rw [hcalls]
    exact forall_mem_set h.answered hanswered j

/-- An order is stored for a placement. -/
theorem Standing.committed (h : s.Standing) (howned : s.Owned) {j : Nat} {c : FiredStep}
    (hj : s.calls[j]? = some c) (hstored : c.stored = none) (hplace : c.isPlacement)
    (row : OrderRow) :
    Standing { s.setCall j { c with stored := some row } with orders := s.orders ++ [row] } := by
  have hc := List.mem_of_getElem? hj
  have hcancels := FiredStep.isPlacement_iff.mp hplace
  set c' : FiredStep := { c with stored := some row }
  constructor
  · refine forall_mem_set h.told (fun hplace result hresult placed htold _ => ?_) j
    -- nothing was stored, so nothing was told
    have hown := howned.told c hc hplace result hresult placed htold
    rw [storedId, hstored] at hown
    cases hown
  · intro d hd row' hrow hnew hnone
    have hkept : ∀ d ∈ s.calls, d.stored = some row' →
        ∃ r ∈ s.orders ++ [row], r.id = row'.id ∧ r.status = some OrderStatus.NEW.text := by
      intro d hd hrow
      obtain ⟨r, hr, hr'⟩ := h.standing d hd row' hrow hnew fun b hb hid => by
        rcases mem_set_or hb j c' with hb' | hreplaced
        · exact hnone b hb' hid
        · cases hj.symm.trans hreplaced
          rw [hcancels] at hid
          cases hid
      exact ⟨r, List.mem_append_left _ hr, hr'⟩
    rcases List.mem_or_eq_of_mem_set hd with hd | rfl
    · exact hkept d hd hrow
    · cases hrow
      exact ⟨row, List.mem_append_right _ List.mem_cons_self, rfl, hnew⟩
  · exact forall_mem_set (b := c') h.performed (h.performed c hc) j
  · exact forall_mem_set (b := c') h.answered (h.answered c hc) j

/-- The order a cancel names is there, so the `UPDATE` finds it. -/
theorem Standing.found (h : s.Standing) (hqueued : s.Queued) (howned : s.Owned) {j : Nat}
    {c : FiredStep} {id : Int} (hj : s.calls[j]? = some c) (hcancels : c.cancels = some id)
    (hnone : c.performed = none) : (cancelOrder s.orders id CANCELLABLE).1.isSome := by
  obtain ⟨i, d, -, hi, hrested⟩ := hqueued.earlier j c id hj hcancels
  have hd := List.mem_of_getElem? hi
  obtain ⟨result, placed, hplace, hresult, htold, hnew, -, hown⟩ :=
    howned.storedId_of_rested hd hrested
  obtain ⟨row, hrow, hid⟩ := Option.map_eq_some_iff.mp hown
  -- this cancel is the only one of the order
  obtain ⟨r, hr, hrid, hrnew⟩ := h.standing d hd row hrow
    (h.told d hd hplace result hresult placed htold hnew row hrow) fun b hb hbid => by
      rw [eq_of_filterMap_nodup (nodup_cancels hqueued howned) hb (List.mem_of_getElem? hj)
        (hid ▸ hbid) hcancels]
      exact hnone
  have hmatch : r.cancellable id CANCELLABLE := cancellable_iff.mpr ⟨hrid.trans hid, hrnew⟩
  simp only [cancelOrder, Option.isSome_map]
  exact List.find?_isSome.mpr ⟨r, hr, hmatch⟩

/-- A cancel is performed, and leaves the other orders standing. -/
theorem Standing.perform (h : s.Standing) (hqueued : s.Queued) (howned : s.Owned) {j : Nat}
    {c : FiredStep} {id : Int} (hj : s.calls[j]? = some c) (hcancels : c.cancels = some id)
    (hnone : c.performed = none) :
    Standing { s.setCall j { c with
        performed := some (cancelOrder s.orders id CANCELLABLE).1.isSome } with
      orders := s.orders.map (OrderRow.afterCancel id) } := by
  have hc := List.mem_of_getElem? hj
  obtain ⟨hlt, -⟩ := List.getElem?_eq_some_iff.mp hj
  rw [h.found hqueued howned hj hcancels hnone]
  set c' : FiredStep := { c with performed := some true }
  constructor
  · exact forall_mem_set (b := c') h.told (h.told c hc) j
  · intro d hd row hrow hnew hnone'
    have hother : row.id ≠ id := by
      rintro rfl
      cases hnone' c' (List.mem_set hlt c') hcancels
    obtain ⟨d₀, hd₀, hrow₀⟩ : ∃ d₀ ∈ s.calls, d₀.stored = some row := by
      rcases List.mem_or_eq_of_mem_set hd with hd | rfl
      · exact ⟨d, hd, hrow⟩
      · exact ⟨c, hc, hrow⟩
    obtain ⟨r, hr, hrid, hrnew⟩ := h.standing d₀ hd₀ row hrow₀ hnew fun b hb hid => by
      rcases mem_set_or hb j c' with hb' | hreplaced
      · exact hnone' b hb' hid
      · cases hj.symm.trans hreplaced
        exact hnone
    have hsame : r.afterCancel id = r := by
      rcases afterCancel_eq_or id r with hsame | ⟨hid, -, -⟩
      · exact hsame
      · exact absurd (hrid.symm.trans hid) hother
    exact ⟨r, List.mem_map.mpr ⟨r, hr, hsame⟩, hrid, hrnew⟩
  · exact forall_mem_set (b := c') h.performed (fun id _ heq => by cases heq) j
  · exact forall_mem_set (b := c') h.answered (h.answered c hc) j

/-- **One step of a correct target leaves what is resting standing.** -/
theorem Standing.step (h : s.Standing) (hqueued : s.Queued) (howned : s.Owned) {e : FiringEvent}
    (hcorrect : Correct s e) (halone : ∀ id, e ≠ .cancelled id)
    (hstep : firing.step s e = some s') : s'.Standing := by
  cases took_of_step hstep with
  | ticked | configured | other | annotated | folded => exact h.congr rfl fun _ hr => hr
  | foreign => exact h.congr rfl fun _ hr => List.mem_append_left _ hr
  | cancelled => exact absurd rfl (halone _)
  | firedCancel | fired =>
    refine ⟨forall_mem_concat h.told ?_, fun d hd row hrow hnew hnone => ?_,
      forall_mem_concat h.performed ?_, forall_mem_concat h.answered ?_⟩
    · exact fun _ result hresult => by cases hresult
    · rcases List.mem_append.mp hd with hd | hd
      · exact h.standing d hd row hrow hnew fun b hb => hnone b (List.mem_append_left _ hb)
      · obtain rfl := List.mem_singleton.mp hd
        cases hrow
    · exact fun id _ hperformed => by cases hperformed
    · exact fun id _ result hresult => by cases hresult
  | posted hj =>
    refine h.moved hj rfl rfl rfl rfl rfl (fun _ result hresult => ?_) fun id _ result hresult => ?_
    · cases hresult
    · cases hresult
  | committed hj _ hstored hplace => exact h.committed howned hj hstored hplace _
  | performed hj _ hcancels hnone => exact h.perform hqueued howned hj hcancels hnone
  | @answered j came drop retry c hj =>
    obtain ⟨hnews, hrefusal⟩ := hcorrect c hj
    refine h.moved hj rfl rfl rfl rfl rfl
      (fun hplace result hresult placed htold hnew row hrow => ?_)
      fun id hid result hresult hstatus => ?_
    · obtain ⟨hok, hplaced⟩ := told_answered hresult htold
      exact hnews hplace hok placed hplaced hnew row hrow
    · have hcancel : c.cancels = some id := hid
      rcases result_answered hresult with ⟨hanswer, -⟩ | ⟨-, hplace⟩
      · refine h.performed c (List.mem_of_getElem? hj) id hcancel (hrefusal ?_ ?_)
        · rw [hcancel]
          rfl
        · rw [← hanswer]
          exact hstatus
      · rw [FiredStep.isPlacement_iff.mp hplace] at hcancel
        cases hcancel
  | @probed j came c order key lost mark sentAt hj hstage hplace =>
    have hresult : ∀ result, FiredStage.result (.returned lost) = some result →
        c.stage.result = some result := fun result hresult => by rw [hstage]; exact hresult
    refine h.moved hj rfl rfl rfl rfl rfl ?_ ?_
    · exact fun hplace result hr => h.told c (List.mem_of_getElem? hj) hplace result (hresult _ hr)
    · intro id hid result hr
      exact h.answered c (List.mem_of_getElem? hj) id hid result (hresult _ hr)
  | @settled j expected c result hj hstage =>
    have hresult : ∀ r, FiredStage.result (.over result) = some r → c.stage.result = some r :=
      fun r hr => by rw [hstage]; exact hr
    refine h.moved hj (settle_spec ..).1 ?_ rfl rfl rfl ?_ ?_
    · unfold settle
      split <;> rfl
    · exact fun hplace r hr => h.told c (List.mem_of_getElem? hj) hplace r (hresult _ hr)
    · exact fun id hid r hr => h.answered c (List.mem_of_getElem? hj) id hid r (hresult _ hr)

end Firing

open Firing

/-- **One step is one request, and no order is cancelled twice.** -/
theorem sent_once_each (round : ℚ → ℚ) (profile : LoadProfile) (modes : ChaosConfig)
    (orders : Orders) (store : AttemptsStore) (now : Int) {es : List FiringEvent} {s : Firing}
    (h : firing.run (start round profile modes orders store now) es = some s) :
    (s.calls.length + s.run.due.length + (s.run.waves.map List.length).sum = profile.totalOrders ∧
      s.run.tally.sent = s.calls.countP (·.stage.isOver)) ∧
    (s.run.result.phase = .placing → s.Settled →
      (∃ key, ∀ delay, (firing.step s (.fire key delay)).isSome) ∨
        (firing.step s .fold).isSome) ∧
    (s.run.result.phase ≠ .placing → s.calls.length = profile.totalOrders ∧ s.Settled ∧
      s.run.tally.sent = profile.totalOrders ∧ s.run.result.sent = profile.totalOrders) ∧
    (∀ (k : Nat) (c : FiredStep) (id : Int), s.calls[k]? = some c → c.cancels = some id →
      ∃ (j : Nat) (d : FiredStep), j < k ∧ s.calls[j]? = some d ∧ d.rested = some id) ∧
    (s.calls.filterMap FiredStep.cancels).Nodup ∧
    (firing.Along Correct (start round profile modes orders store now) es →
      (∀ id, .cancelled id ∉ es) → ∀ c ∈ s.calls, ∀ id, c.cancels = some id →
        ∀ result, c.stage.result = some result → result.answer.status ≠ 409) := by
  have hplanned : s.Planned profile.totalOrders :=
    firing.invariant_run (fun hi hstep => Planned.step hi hstep) (planned_start ..) h
  have hqueued : s.Queued :=
    firing.invariant_run (fun hi hstep => Queued.step hi hstep) (queued_start ..) h
  have howned : s.Owned :=
    firing.invariant_run (fun hi hstep => Owned.step hi hstep) (owned_start ..) h
  refine ⟨⟨hplanned.fired, hplanned.sent⟩, goes_on, fun hphase => ?_, hqueued.earlier,
    nodup_cancels hqueued howned, fun hcorrect halone => ?_⟩
  · obtain ⟨hdue, hwaves, hsettled, hsent⟩ := hplanned.done hphase
    have hfired := hplanned.fired
    rw [hdue, hwaves] at hfired
    have hall : s.calls.countP (·.stage.isOver) = s.calls.length :=
      List.countP_eq_length.mpr hsettled
    have htally := hplanned.sent
    refine ⟨hfired, hsettled, ?_, ?_⟩
    · rw [htally, hall]
      exact hfired
    · rw [hsent, htally, hall]
      exact hfired
  · have hstanding : s.Queued ∧ s.Owned ∧ s.Standing := by
      refine firing.invariant_along (I := fun t => t.Queued ∧ t.Owned ∧ t.Standing)
        (P := fun t e => Correct t e ∧ ∀ id, e ≠ .cancelled id) (fun hi hP hstep => ?_)
        ⟨queued_start .., owned_start .., standing_start ..⟩
        (firing.along_and hcorrect
          (firing.along_of_forall fun e he id heq => halone id (heq ▸ he))) h
      obtain ⟨hq, ho, hs⟩ := hi
      exact ⟨hq.step hstep, ho.step hstep, hs.step hq ho hP.1 hP.2 hstep⟩
    exact hstanding.2.2.answered

/-- Two orders to rest, and two cancels, in waves of two. -/
def twoAndTwo : LoadProfile where
  mode := .contention
  concurrency := 2
  totalOrders := 4
  users := [4]
  sameInstrument := true
  cancelMix := 1 / 2
  concurrency_pos := Nat.two_pos
  totalOrders_pos := Nat.succ_pos 3
  users_ne := by decide
  cancelMix_range := by norm_num

/-- The target answers with the order it has stored. -/
def stored (status : { n : Nat // n ≠ 0 }) (id : Int) (orderStatus : String) : Came :=
  .response status none (some id) (some ⟨id, orderStatus, 1, "1.00"⟩)

/-- The first cancel finds nothing and rests an order, which is answered first and which the second
    one takes. -/
def oneCancelled : List FiringEvent :=
  [.fire "a" zero, .fire "b" zero, .post 0, .post 1, .commit 0 { restingBuyRow with id := 1 },
    .commit 1 { restingBuyRow with id := 2 }, .answer 1 (stored ⟨201, by decide⟩ 2 "NEW") zero zero,
    .settle 1 .UNKNOWN, .answer 0 (stored ⟨201, by decide⟩ 1 "NEW") zero zero, .settle 0 .UNKNOWN,
    .fold, .fire "c" zero, .fire "d" zero, .post 2, .post 3, .perform 3,
    .answer 3 (stored ⟨200, by decide⟩ 2 "CANCELLED") zero zero, .settle 3 .UNKNOWN,
    .answer 2 (.nothing "timeout") zero zero, .settle 2 .UNKNOWN, .fold]

theorem sent_once_each_oneCancelled : ∃ s,
    firing.run (start toDouble twoAndTwo initialModes [] .empty 0) oneCancelled = some s ∧
      s.calls.filterMap FiredStep.cancels = [2] ∧ s.run.result.sent = 4 ∧
      ∀ c ∈ s.calls, ∀ id, c.cancels = some id →
        ∀ result, c.stage.result = some result → result.answer.status ≠ 409 := by
  obtain ⟨s, hrun, hcancels, hphase⟩ := firing.exists_run
    (start toDouble twoAndTwo initialModes [] .empty 0) oneCancelled
    (P := fun s => s.calls.filterMap FiredStep.cancels = [2] ∧ s.run.result.phase ≠ .placing)
    (by decide +kernel)
  obtain ⟨-, -, hdone, -, -, hconflict⟩ := sent_once_each _ _ _ _ _ _ hrun
  exact ⟨s, hrun, hcancels, (hdone hphase).2.2.2,
    hconflict (by decide +kernel) (fun id hmem => by simp [oneCancelled] at hmem)⟩

end Cocos.Tools
