import Cocos.Tools.Answers
import Cocos.Tools.Recorded

namespace Cocos.Tools

open Cocos.Lib

/-!
# The rows of a run

`responseDbAgreement` allows as many rows above the mark that nothing names as there are losses
that may have stored them.

* `Harness.Windowed`, `Harness.Window`, `known_run` — what a row above the mark says of the
  placement it was stored for, in every state of a run;
* `Harness.Accounted` — a placement that is named or counted when the check is made;
* `rows_accounted` — **where every placement with a row above the mark is, each such row is
  acknowledged or a loss of its own, and no row is a phantom**.
-/

namespace Harness

variable {users : List Int} {s s' : Harness}

/-! ### Rows above the mark -/

/-- An order was stored for a placement. -/
def Sourced (s : Harness) (id : Int) : Prop :=
  ∃ c ∈ s.calls, ∃ born, c.stored = some born ∧ born.id = id

/-- What a row above the mark of a run says. -/
structure Windowed (users : List Int) (startedAt : Int) (firstAttempt : Nat) (mark : Int)
    (s : Harness) : Prop where
  /-- The request it was stored for may have been on its way when the run was started. -/
  late : ∀ c ∈ s.calls, ∀ born, c.stored = some born → mark < born.id → ∀ again p,
    c.request again = some p → p.stored = some born → startedAt ≤ p.call.sentAt + LATE_COMMIT_MS
  /-- An answer that was recorded before names an order below the mark. -/
  early : ∀ c ∈ s.calls, ∀ id, c.first.attemptId = some id → id < firstAttempt →
    c.stage.placed.isSome → ∀ born, c.stored = some born → born.id ≤ mark
  /-- The users of the run place through the gateway only. -/
  source : ∀ row ∈ s.orders, (∃ u ∈ users, row.userId = some u) → mark < row.id → s.Sourced row.id

variable {startedAt : Int} {firstAttempt : Nat} {mark : Int}

/-- The mark is read: there is nothing above it. -/
theorem windowed_mark (users : List Int) (h : s.Stored) (startedAt : Int) (firstAttempt : Nat) :
    s.Windowed users startedAt firstAttempt (highWaterMark s.orders) := by
  have hbelow : ∀ c ∈ s.calls, ∀ born, c.stored = some born → born.id ≤ highWaterMark s.orders :=
    fun c hc born hborn => by
      obtain ⟨row, hrow, hbecame⟩ := h.rows c hc born hborn
      exact hbecame.id_eq ▸ le_highWaterMark hrow
  refine ⟨fun c hc born hborn habove => ?_, fun c hc _ _ _ _ => hbelow c hc,
    fun row hrow _ habove => ?_⟩
  · exact absurd habove (not_lt.mpr (hbelow c hc born hborn))
  · exact absurd habove (not_lt.mpr (le_highWaterMark hrow))

/-- A placement is taken on. -/
theorem Windowed.take (h : s.Windowed users startedAt firstAttempt mark) {client : Client}
    {call : KeyedCall} (hcalls : s'.calls = s.calls ++ [.fresh client call])
    (horders : s'.orders = s.orders) : s'.Windowed users startedAt firstAttempt mark where
  late := by
    rw [hcalls]
    exact forall_mem_concat h.late fun born hborn => by cases hborn
  early := by
    rw [hcalls]
    exact forall_mem_concat h.early fun id hid => by cases hid
  source row hrow huser habove := by
    obtain ⟨c, hc, hborn⟩ := h.source row (horders ▸ hrow) huser habove
    exact ⟨c, by rw [hcalls]; exact List.mem_append_left _ hc, hborn⟩

/-- A call moves on; an order may be stored for it. -/
theorem Windowed.setCall (h : s.Windowed users startedAt firstAttempt mark) {j : Nat}
    {c c' : PlacingCall} (hj : s.calls[j]? = some c) (hcalls : s'.calls = s.calls.set j c')
    (horders : ∀ row ∈ s'.orders, row ∈ s.orders ∨ c'.stored = some row)
    (hkept : ∀ born, c.stored = some born → c'.stored = some born)
    (hlate : ∀ born, c'.stored = some born → mark < born.id → ∀ again p,
      c'.request again = some p → p.stored = some born → startedAt ≤ p.call.sentAt + LATE_COMMIT_MS)
    (hearly : ∀ id, c'.first.attemptId = some id → id < firstAttempt → c'.stage.placed.isSome →
      ∀ born, c'.stored = some born → born.id ≤ mark) :
    s'.Windowed users startedAt firstAttempt mark where
  late := by
    rw [hcalls]
    exact forall_mem_set h.late hlate j
  early := by
    rw [hcalls]
    exact forall_mem_set h.early hearly j
  source row hrow huser habove := by
    rw [Sourced, hcalls]
    rcases horders row hrow with hold | hnew
    · exact exists_mem_set hj (h.source row hold huser habove) fun ⟨born, hborn, hid⟩ =>
        ⟨born, hkept born hborn, hid⟩
    · exact ⟨c', List.mem_set (List.getElem?_eq_some_iff.mp hj).1 c', row, hnew, rfl⟩

/-- A call moves on, and its requests are the ones they were. -/
theorem Windowed.move (h : s.Windowed users startedAt firstAttempt mark) {j : Nat}
    {c c' : PlacingCall} (hj : s.calls[j]? = some c) (hcalls : s'.calls = s.calls.set j c')
    (horders : s'.orders = s.orders) (hstored : c'.stored = c.stored)
    (hrequest : ∀ again p, c'.request again = some p → p.stored.isSome →
      ∃ q, c.request again = some q ∧ q.stored = p.stored ∧ q.call.sentAt = p.call.sentAt)
    (hearly : ∀ id, c'.first.attemptId = some id → id < firstAttempt → c'.stage.placed.isSome →
      ∀ born, c'.stored = some born → born.id ≤ mark) :
    s'.Windowed users startedAt firstAttempt mark := by
  refine h.setCall hj hcalls (fun row hrow => .inl (horders ▸ hrow)) (fun _ h => hstored ▸ h)
    (fun born hborn habove again p hp hpborn => ?_) hearly
  obtain ⟨q, hq, hsame, hsent⟩ := hrequest again p hp (by simp [hpborn])
  rw [← hsent]
  exact h.late c (List.mem_of_getElem? hj) born (hstored ▸ hborn) habove again q hq
    (hsame.trans hpborn)

/-- An order is stored while the request may be. -/
theorem Windowed.committed (h : s.Windowed users startedAt firstAttempt mark) {j : Nat}
    {again : Bool} {row : OrderRow} {c : PlacingCall} {p : Posted} (htold : c.Told users)
    (hj : s.calls[j]? = some c) (hreq : c.request again = some p) (hmay : s.MayStore p)
    (hnone : c.stored = none) (hclock : startedAt ≤ s.clock) :
    Windowed users startedAt firstAttempt mark
      { s.setCall j (c.setRequest again { p with stored := some row }) with
        orders := s.orders ++ [row] } := by
  refine h.setCall hj rfl (fun old hold => ?_) (fun _ hborn => (by cases hnone.symm.trans hborn))
    (fun born _ _ again' q hq hqborn => ?_) (fun id _ _ hplaced => ?_)
  · rcases List.mem_append.mp hold with hold | hold
    · exact .inl hold
    · cases List.mem_singleton.mp hold
      exact .inr (PlacingCall.stored_setRequest hreq hnone row)
  · rcases PlacingCall.request_setRequest hq with rfl | hother
    · have hlimit := hmay.2
      show startedAt ≤ p.call.sentAt + LATE_COMMIT_MS
      omega
    · cases (PlacingCall.stored_eq_none hnone hother).symm.trans hqborn
  · -- nothing is stored yet, so nobody was told of an order
    rw [PlacingCall.stage_setRequest] at hplaced
    obtain ⟨placed, hplaced⟩ := Option.isSome_iff_exists.mp hplaced
    obtain ⟨_, hstored, -⟩ := htold.told placed hplaced
    cases hnone.symm.trans hstored

/-- The gateway has what came of the first request, under an id that is new. -/
theorem Windowed.answered (h : s.Windowed users startedAt firstAttempt mark) {j : Nat}
    {c : PlacingCall} (hj : s.calls[j]? = some c) (hnone : c.retry = none)
    (hfirst : firstAttempt ≤ s.store.nextId) {refused : Bool} {status : Nat}
    {placed : Option PlacedResponse} {call : KeyedCall} {retry : Option Posted} {stage : Stage}
    (hnext : retry = c.retry ∧ stage = .returned placed ∨
      status = 0 ∧ stage = .retrying ∧ retry = some (.fresh call))
    (hcalls : s'.calls = s.calls.set j ⟨c.client,
      { c.first with refused := refused, attemptId := some s.store.nextId }, retry, stage⟩)
    (horders : s'.orders = s.orders) : s'.Windowed users startedAt firstAttempt mark := by
  refine h.move hj hcalls horders (PlacingCall.stored_answered hnone hnext)
    (fun again p hreq hstored => ?_) (fun id hid hlt => ?_)
  · cases again with
    | false =>
      cases hreq
      exact ⟨c.first, rfl, rfl, rfl⟩
    | true =>
      rcases hnext with ⟨rfl, -⟩ | ⟨-, -, rfl⟩
      · cases hnone.symm.trans hreq
      · cases hreq
        cases hstored
  · cases hid
    exact absurd hlt (not_lt.mpr hfirst)

/-- The table changes, and what is stored for the users of the run does not. -/
theorem Windowed.orders (h : s.Windowed users startedAt firstAttempt mark)
    (hcalls : s'.calls = s.calls) (horders : ∀ row ∈ s'.orders, (∃ u ∈ users, row.userId = some u) →
      ∃ old ∈ s.orders, old.id = row.id ∧ old.userId = row.userId) :
    s'.Windowed users startedAt firstAttempt mark where
  late := hcalls ▸ h.late
  early := hcalls ▸ h.early
  source row hrow huser habove := by
    obtain ⟨old, hold, hid, hu⟩ := horders row hrow huser
    rw [Sourced, hcalls, ← hid]
    exact h.source old hold (hu ▸ huser) (hid ▸ habove)

/-- The run is the one there was, in what its check reads of it. -/
def Continues (s s' : Harness) : Prop :=
  ∀ run', s'.run = some run' → ∃ run, s.run = some run ∧
    run'.result.startedAt = run.result.startedAt ∧ run'.firstAttempt = run.firstAttempt ∧
      run'.highWaterMark = run.highWaterMark

theorem continues_of_counted (h : Counted s.run s'.run) : s.Continues s' := by
  intro run' hrun'
  obtain ⟨f, heq⟩ := h
  obtain ⟨run, hrun, rfl⟩ := Option.map_eq_some_iff.mp (heq.symm.trans hrun')
  exact ⟨run, hrun, rfl, rfl, rfl⟩

/-- What the rows above the mark of a run say, and that the run keeps its own answers. -/
structure Window (users : List Int) (s : Harness) : Prop where
  started : ∀ run, s.run = some run →
    run.result.startedAt ≤ s.clock ∧ run.firstAttempt ≤ s.store.nextId
  window : ∀ run mark, s.run = some run → run.highWaterMark = some mark →
    s.Windowed users run.result.startedAt run.firstAttempt mark
  kept : ∀ c ∈ s.calls, c.client = .load → ∀ p, c.stage = .over (some p) →
    p ∈ s.tally.placements

theorem window_start (users : List Int) (orders : Orders) : (start orders).Window users where
  started run h := by cases h
  window run mark h := by cases h
  kept := by simp [start]

/-- A step of a run that goes on. -/
theorem Window.go (h : s.Window users) (hrun : s.Continues s') (hclock : s.clock ≤ s'.clock)
    (hnext : s.store.nextId ≤ s'.store.nextId)
    (hwindow : ∀ startedAt firstAttempt mark, startedAt ≤ s.clock →
      firstAttempt ≤ s.store.nextId → s.Windowed users startedAt firstAttempt mark →
      s'.Windowed users startedAt firstAttempt mark)
    (hkept : ∀ c ∈ s'.calls, c.client = .load → ∀ p, c.stage = .over (some p) →
      p ∈ s'.tally.placements) : s'.Window users where
  started run' hrun' := by
    obtain ⟨run, hrun, hstarted, hfirst, -⟩ := hrun run' hrun'
    obtain ⟨h₁, h₂⟩ := h.started run hrun
    exact ⟨hstarted ▸ h₁.trans hclock, hfirst ▸ h₂.trans hnext⟩
  window run' mark hrun' hmark := by
    obtain ⟨run, hrun, hstarted, hfirst, hsame⟩ := hrun run' hrun'
    obtain ⟨h₁, h₂⟩ := h.started run hrun
    rw [hstarted, hfirst]
    exact hwindow _ _ _ h₁ h₂ (h.window run mark hrun (hsame ▸ hmark))
  kept := hkept

/-- A call moves on, and is not over. -/
theorem Window.kept_setCall (h : s.Window users) {j : Nat} {c c' : PlacingCall}
    (hj : s.calls[j]? = some c) (hcalls : s'.calls = s.calls.set j c') (htally : s'.tally = s.tally)
    (hclient : c'.client = c.client)
    (hstage : c'.stage = c.stage ∨ ∀ placed, c'.stage ≠ .over placed) :
    ∀ c ∈ s'.calls, c.client = .load → ∀ p, c.stage = .over (some p) → p ∈ s'.tally.placements := by
  rw [hcalls, htally]
  refine forall_mem_set h.kept (fun hload p hover => ?_) j
  have hsame := hstage.resolve_right fun hne => hne _ hover
  exact h.kept c (List.mem_of_getElem? hj) (hclient ▸ hload) p (hsame ▸ hover)

/-- A placement is taken on. -/
theorem Window.take (h : s.Window users) {client : Client} {call : KeyedCall}
    (hcalls : s'.calls = s.calls ++ [.fresh client call]) (horders : s'.orders = s.orders)
    (hclock : s'.clock = s.clock) (hstore : s'.store = s.store) (hrun : s.Continues s')
    (hplacements : s'.tally.placements = s.tally.placements) : s'.Window users := by
  refine h.go hrun hclock.ge (by rw [hstore]) (fun _ _ _ _ _ hw => hw.take hcalls horders)
    fun c hc hload p hover => ?_
  rcases List.mem_append.mp (hcalls ▸ hc) with hc | hc
  · exact hplacements ▸ h.kept c hc hload p hover
  · cases List.mem_singleton.mp hc
    cases hover

/-- A placement of the run is kept when it is over. -/
theorem placements_settle (hp : s.Phases) {j : Nat} {c : PlacingCall} (hj : s.calls[j]? = some c)
    (id : Nat) (placed : Option PlacedResponse) (expected : Expectation) :
    (∀ p ∈ s.tally.placements, p ∈ (s.settle j c id placed expected).tally.placements) ∧
      (c.client = .load → ∀ p, placed = some p →
        p ∈ (s.settle j c id placed expected).tally.placements) := by
  rw [tally_settle hp hj]
  split
  · rw [Tally.placements_place]
    exact ⟨fun p hp => List.mem_append_left _ hp, fun _ p hplaced => by simp [hplaced]⟩
  · rename_i hother
    exact ⟨fun _ h => h, fun h => absurd h hother⟩

theorem nextId_settle (s : Harness) (j : Nat) (c : PlacingCall) (id : Nat)
    (placed : Option PlacedResponse) (expected : Expectation) :
    (s.settle j c id placed expected).store.nextId = s.store.nextId := by
  unfold settle
  cases annotateOf c expected placed <;> rfl

/-- **One step keeps to the window.** -/
theorem Window.step (h : s.Window users) (hp : s.Phases) (ht : s.Truthful users) (hs : s.Stored)
    {recorded : List Attempt} (hf : s.Filed recorded) {e : HarnessEvent}
    (hstep : (harness users).step s e = some s') : s'.Window users := by
  have hrefl : s.Continues s := fun run hrun => ⟨run, hrun, rfl, rfl, rfl⟩
  cases took_of_step hstep with
  | ticked hclock =>
    exact h.go hrefl hclock le_rfl (fun _ _ _ _ _ hw => ⟨hw.late, hw.early, hw.source⟩) h.kept
  | other =>
    exact h.go hrefl le_rfl (Nat.le_succ _)
      (fun _ _ _ _ _ hw => ⟨hw.late, hw.early, hw.source⟩) h.kept
  | postedCancel | shedCancel =>
    exact h.go hrefl le_rfl le_rfl (fun _ _ _ _ _ hw => ⟨hw.late, hw.early, hw.source⟩) h.kept
  | placed => exact h.take rfl rfl rfl rfl hrefl rfl
  | started hrun =>
    have hnone := (hp.early fun run hrun' => by cases hrun.symm.trans hrun').2
    refine ⟨fun _ hrun' => ?_, fun _ _ hrun' hmark => ?_,
      fun c hc hload => absurd hload (hnone c hc)⟩
    · cases hrun'
      exact ⟨le_rfl, le_rfl⟩
    · cases hrun'
      cases hmark
  | @marked run hrun hnone =>
    have hcalls := (hp.early fun run' hrun' => by cases hrun.symm.trans hrun'; exact hnone).2
    refine ⟨fun _ hrun' => ?_, fun _ _ hrun' hmark => ?_,
      fun c hc hload => absurd hload (hcalls c hc)⟩
    · cases hrun'
      simpa [LoadRun.marked] using h.started run hrun
    · cases hrun'
      simp only [LoadRun.marked, LoadRun.next_highWaterMark, Option.some.injEq] at hmark
      subst hmark
      show Windowed users (LoadRun.next _).result.startedAt (LoadRun.next _).firstAttempt _ _
      rw [LoadRun.next_startedAt, LoadRun.next_firstAttempt]
      have hw := windowed_mark users hs run.result.startedAt run.firstAttempt
      exact ⟨hw.late, hw.early, hw.source⟩
  | @firedCancel _ run _ _ _ _ hrun =>
    refine h.go (fun _ hrun' => ?_) le_rfl le_rfl
      (fun _ _ _ _ _ hw => ⟨hw.late, hw.early, hw.source⟩) ?_
    · cases hrun'
      exact ⟨run, hrun, rfl, rfl, rfl⟩
    · simpa [tally, hrun] using h.kept
  | @fired _ run _ _ hrun =>
    refine h.take rfl rfl rfl rfl (fun _ hrun' => ?_) (by simp [tally, hrun])
    cases hrun'
    exact ⟨run, hrun, rfl, rfl, rfl⟩
  | @posted j c hj hstage =>
    have hmem := List.mem_of_getElem? hj
    have hnone := (hf.calls c hmem).held hstage
    refine h.go hrefl le_rfl le_rfl (fun _ _ _ _ _ hw => hw.setCall hj rfl (fun _ h => .inl h)
      (fun _ h => h) (fun born hborn => ?_) (fun _ _ _ hplaced => by cases hplaced))
      (h.kept_setCall hj rfl rfl rfl (.inr fun _ h => by cases h))
    cases hnone.symm.trans hborn
  | committed hj hreq _ hmay hnone =>
    exact h.go hrefl le_rfl le_rfl (fun _ _ _ hclock _ hw =>
      hw.committed (ht.calls _ (List.mem_of_getElem? hj)) hj hreq hmay hnone hclock)
      (h.kept_setCall hj rfl rfl (PlacingCall.client_setRequest ..)
        (.inl (PlacingCall.stage_setRequest ..)))
  | answered hj hstage =>
    obtain ⟨retry, stage, heq, hnext⟩ := recordFirst_spec ..
    rw [heq]
    refine h.go hrefl le_rfl (Nat.le_succ _) (fun _ _ _ _ hfirst hw => hw.answered hj
      ((ht.calls _ (List.mem_of_getElem? hj)).unsent (.inr hstage)) hfirst hnext rfl rfl)
      (h.kept_setCall hj rfl rfl rfl (.inr fun placed hover => ?_))
    rcases hnext with ⟨-, rfl⟩ | ⟨-, rfl, -⟩ <;> cases hover
  | @retryAnswered j _ c retry lost refused answer placed hj hstage hretry =>
    refine h.go hrefl le_rfl (Nat.le_succ _) (fun _ _ _ _ _ hw => hw.move hj rfl rfl
      (by simp [PlacingCall.stored, hretry]) (fun again p hreq _ => ?_)
      (fun _ _ _ hplaced => (by cases hplaced)))
      (h.kept_setCall hj rfl rfl rfl (.inr fun _ h => by cases h))
    cases again with
    | false => exact ⟨p, hreq, rfl, rfl⟩
    | true =>
      cases hreq
      exact ⟨retry, hretry, rfl, rfl⟩
  | @settled j expected c placed id hj hstage hid =>
    refine h.go (continues_of_counted (counted_settle ..)) le_rfl (nextId_settle ..).ge
      (fun _ _ _ _ _ hw => hw.move hj rfl rfl rfl (fun _ p hreq _ => ⟨p, hreq, rfl, rfl⟩) ?_) ?_
    · intro i hi hlt hplaced
      exact hw.early c (List.mem_of_getElem? hj) i hi hlt (by rw [hstage]; exact hplaced)
    · obtain ⟨hsame, hload⟩ := placements_settle hp hj id placed expected
      refine forall_mem_set (fun d hd hdload p hover => hsame p (h.kept d hd hdload p hover))
        (fun hcload p hover => ?_) j
      cases hover
      exact hload hcload _ rfl
  | performedCancel =>
    refine h.go hrefl le_rfl le_rfl (fun _ _ _ _ _ hw => hw.orders rfl fun row hrow _ => ?_) h.kept
    obtain ⟨old, hold, rfl⟩ := List.mem_map.mp hrow
    obtain ⟨status, hstatus⟩ := exists_status_afterCancel _ old
    exact ⟨old, hold, (afterCancel_id ..).symm, by rw [hstatus]⟩
  | @answeredCancel k _ _ d answer =>
    refine h.go (continues_of_counted ⟨(Tally.cancel · s.store.nextId d.orderId answer), rfl⟩)
      le_rfl (Nat.le_succ _) (fun _ _ _ _ _ hw => ⟨hw.late, hw.early, hw.source⟩)
      fun c hc hload p hover => ?_
    have hkept := h.kept c hc hload p hover
    cases hrun : s.run with
    | none => simp [tally, hrun, Tally.empty] at hkept
    | some run =>
      obtain ⟨hplacements, -⟩ := run.tally.cancel_spec s.store.nextId d.orderId answer
      simpa [tally, hrun, hplacements] using hkept
  | @folded run hrun =>
    obtain ⟨⟨pending, latencies, heq⟩, hstarted, -⟩ := foldWave_spec s.store run.result run.tally
    refine h.go (fun _ hrun' => ?_) le_rfl le_rfl
      (fun _ _ _ _ _ hw => ⟨hw.late, hw.early, hw.source⟩) ?_
    · cases hrun'
      exact ⟨run, hrun, by simpa [LoadRun.fold] using hstarted, by simp [LoadRun.fold],
        by simp [LoadRun.fold]⟩
    · simpa [tally, hrun, LoadRun.fold, heq] using h.kept
  | @read run hrun =>
    refine h.go (fun _ hrun' => ?_) le_rfl le_rfl
      (fun _ _ _ _ _ hw => ⟨hw.late, hw.early, hw.source⟩) ?_
    · cases hrun'
      exact ⟨run, hrun, rfl, rfl, rfl⟩
    · simpa [tally, hrun] using h.kept
  | foreign huser =>
    refine h.go hrefl le_rfl le_rfl (fun _ _ _ _ _ hw => hw.orders rfl fun row hrow hu => ?_) h.kept
    rcases List.mem_append.mp hrow with hrow | hrow
    · exact ⟨row, hrow, rfl, rfl⟩
    · obtain ⟨u, hmem, hu⟩ := hu
      cases List.mem_singleton.mp hrow
      exact absurd hmem (huser u hu)

/-- All that is known of a state of a run. -/
structure Known (users : List Int) (s : Harness) : Prop where
  phases : s.Phases
  truthful : s.Truthful users
  stored : s.Stored
  filed : ∃ recorded, s.Filed recorded
  window : s.Window users

theorem Known.step (h : s.Known users) {e : HarnessEvent}
    (hstep : (harness users).step s e = some s') : s'.Known users := by
  obtain ⟨recorded, hf⟩ := h.filed
  exact ⟨h.phases.step hstep, h.truthful.step hstep, h.stored.step h.truthful hstep,
    hf.step h.truthful hstep, h.window.step h.phases h.truthful h.stored hf hstep⟩

theorem Known.run (h : s.Known users) {es : List HarnessEvent}
    (hrun : (harness users).run s es = some s') : s'.Known users :=
  (harness users).invariant_run (fun hi hstep => Known.step hi hstep) h hrun

theorem known_run {orders : Orders} (hids : (orders.map (·.id)).Nodup) {es : List HarnessEvent}
    (h : (harness users).run (start orders) es = some s) : s.Known users :=
  Known.run ⟨phases_start orders, truthful_start users orders, stored_start hids,
    ⟨[], filed_start orders⟩, window_start users orders⟩ h

/-- What was stored for a placement stays with it. -/
theorem Sourced.step {id : Int} (h : s.Sourced id) (ht : s.Truthful users) {e : HarnessEvent}
    (hstep : (harness users).step s e = some s') : s'.Sourced id := by
  cases took_of_step hstep with
  | ticked | started | marked | firedCancel | postedCancel | shedCancel | performedCancel
  | answeredCancel | folded | read | other | foreign => exact h
  | placed | fired =>
    obtain ⟨c, hc, hborn⟩ := h
    exact ⟨c, List.mem_append_left _ hc, hborn⟩
  | posted hj | settled hj => exact exists_mem_set hj h fun h => h
  | committed hj hp _ _ hnone =>
    exact exists_mem_set hj h fun ⟨born, hborn, _⟩ => by cases hnone.symm.trans hborn
  | answered hj hstage =>
    obtain ⟨retry, stage, heq, hnext⟩ := recordFirst_spec ..
    rw [heq]
    refine exists_mem_set hj h fun ⟨born, hborn, hid⟩ => ⟨born, ?_, hid⟩
    rwa [PlacingCall.stored_answered ((ht.calls _ (List.mem_of_getElem? hj)).unsent (.inr hstage))
      hnext]
  | retryAnswered hj _ hretry =>
    refine exists_mem_set hj h fun ⟨born, hborn, hid⟩ => ⟨born, ?_, hid⟩
    simpa [PlacingCall.stored, hretry] using hborn

theorem Sourced.run {id : Int} (h : s.Sourced id) (ht : s.Truthful users) {es : List HarnessEvent}
    (hrun : (harness users).run s es = some s') : s'.Sourced id := by
  have key := (harness users).invariant_run (I := fun t => t.Truthful users ∧ t.Sourced id)
    (fun hi hstep => ⟨hi.1.step hstep, hi.2.step hi.1 hstep⟩) ⟨ht, h⟩ hrun
  exact key.2

/-! ### Accounted placements -/

/-- The recorder still has the row that stands for a placement nobody was told of. -/
def Remembers (s : Harness) (c : PlacingCall) : Prop :=
  ∀ id ∈ c.loss, s.store.nextId ≤ id + ATTEMPTS_CAPACITY

instance (s : Harness) (c : PlacingCall) : Decidable (s.Remembers c) :=
  inferInstanceAs (Decidable (∀ id ∈ c.loss, _))

/-- A placement is named or counted: its client is through with it and, where it was answered, is
    the load run or the loop; or its loss is recorded. -/
def Accounted (s : Harness) (startedAt : Int) (c : PlacingCall) : Prop :=
  match c.stage with
  | .over (some _) => c.client ≠ .proxy
  | .over none | .returned none => s.Remembers c
  | .retrying => startedAt ≤ c.first.call.sentAt + LATE_COMMIT_MS ∧ s.Remembers c
  | .held | .sent | .returned (some _) => False

instance (s : Harness) (startedAt : Int) (c : PlacingCall) : Decidable (s.Accounted startedAt c) := by
  unfold Accounted
  split <;> infer_instance

/-- The row of the recorder is of the placement an order was stored for. -/
def LossOf (s : Harness) (id : Int) (attempt : Attempt) : Prop :=
  ∃ c ∈ s.calls, attempt.idempotencyKey = some c.first.call.key ∧
    ∃ born, c.stored = some born ∧ born.id = id

variable {recorded : List Attempt} {run : LoadRun} {c : PlacingCall} {born : OrderRow}

/-- A row of the recorder is of one order at most. -/
theorem LossOf.unique (hf : s.Filed recorded) {i j : Int} {attempt : Attempt}
    (h : s.LossOf i attempt) (h' : s.LossOf j attempt) : i = j := by
  obtain ⟨c, hc, hkey, born, hborn, hid⟩ := h
  obtain ⟨c', hc', hkey', born', hborn', hid'⟩ := h'
  obtain rfl : c = c' := List.inj_on_of_nodup_map hf.keys hc hc'
    (Option.some.inj (hkey.symm.trans hkey'))
  cases hborn.symm.trans hborn'
  exact hid.symm.trans hid'

/-- A row the recorder still has names its order. -/
theorem Filed.mem_acknowledged (hf : s.Filed recorded) {row : Attempt} (hrow : row ∈ recorded)
    (hnew : s.store.nextId ≤ row.id + ATTEMPTS_CAPACITY) {id : Int} (hid : row.orderId = some id) :
    id ∈ run.acknowledged s.store :=
  List.mem_append_left _ (List.mem_filterMap.mpr ⟨row, hf.holds.mem_recent hrow hnew, hid⟩)

/-- An order nobody was told of is named by its retry, or counted. -/
theorem Windowed.lost (hw : s.Windowed users run.result.startedAt run.firstAttempt mark)
    (ht : s.Truthful users) (hf : s.Filed recorded) (hc : c ∈ s.calls)
    (hborn : c.stored = some born) (habove : mark < born.id)
    (hstage : c.stage ≠ .held ∧ c.stage ≠ .sent ∧ c.stage.placed = none)
    (hremembers : s.Remembers c) (hretrying : c.stage = .retrying →
      run.result.startedAt ≤ c.first.call.sentAt + LATE_COMMIT_MS) :
    born.id ∈ run.acknowledged s.store ∨ ∃ attempt ∈ run.lost s.store, s.LossOf born.id attempt := by
  obtain ⟨row, p, again, hp, hrow, hloss, hwhy⟩ := (hf.calls c hc).row_of_loss hborn hstage
    (run.result.startedAt - LATE_COMMIT_MS)
    (fun again p hp hpborn => by
      have := hw.late c hc born hborn habove again p hp hpborn
      omega)
    (fun hout => by
      have := hretrying hout
      omega)
  have hnew := hremembers row.id hloss
  rcases hwhy with hid | ⟨hstatus, hsince⟩
  · exact .inl (hf.mem_acknowledged hrow.mem hnew hid)
  · have hplacement := hrow.placement
    simp only [isOrderPlacement, decide_eq_true_eq] at hplacement
    refine .inr ⟨row, List.mem_filter.mpr ⟨hf.holds.mem_recent hrow.mem hnew,
      decide_eq_true ⟨hstatus, hplacement.1, hplacement.2, hsince⟩⟩, c, hc, ?_, born, hborn, rfl⟩
    rw [hrow.key]
    cases again with
    | false =>
      cases hp
      rfl
    | true => rw [((ht.calls c hc).retry p hp).2]

/-- An order the load run or the loop has taken the answer for is named. -/
theorem Window.named (h : s.Window users) (ht : s.Truthful users) (hf : s.Filed recorded)
    (hrun : s.run = some run) (hmark : run.highWaterMark = some mark)
    (hfew : s.store.nextId - run.firstAttempt < ATTEMPTS_CAPACITY) (hc : c ∈ s.calls)
    (hborn : c.stored = some born) (habove : mark < born.id) {p : PlacedResponse}
    (hstage : c.stage = .over (some p)) (hclient : c.client ≠ .proxy) :
    born.id ∈ run.acknowledged s.store := by
  obtain ⟨row, hrow, hanswer⟩ := (ht.calls c hc).told p (by rw [hstage]; rfl)
  obtain rfl : row = born := Option.some.inj (hrow.symm.trans hborn)
  have hid := (answerOf_eq_some hanswer).1
  cases hwho : c.client with
  | load =>
    have hkept := h.kept c hc hwho p hstage
    rw [tally, hrun] at hkept
    exact List.mem_append_right _ (List.mem_map.mpr ⟨p, hkept, hid.symm⟩)
  | simulation =>
    obtain ⟨row', hrow', hwhy⟩ := (hf.calls c hc).named hwho p hstage
    -- the answer is one of the run's time, so the recorder still has it
    have hlate : run.firstAttempt ≤ row'.id := by
      by_contra hearly
      have := (h.window run mark hrun hmark).early c hc row'.id hrow'.id (by omega)
        (by rw [hstage]; rfl) row hborn
      omega
    have hnext := hf.holds.nextId
    refine hf.mem_acknowledged hrow'.mem (by omega) ?_
    rw [hid]
    exact hwhy.resolve_right fun hgone => by omega
  | proxy => exact absurd hwho hclient

/-- **The row of a placement that is accounted for is acknowledged, or a loss of its own.** -/
theorem Window.accounted (h : s.Window users) (ht : s.Truthful users) (hf : s.Filed recorded)
    (hrun : s.run = some run) (hmark : run.highWaterMark = some mark)
    (hfew : s.store.nextId - run.firstAttempt < ATTEMPTS_CAPACITY) (hc : c ∈ s.calls)
    (hborn : c.stored = some born) (habove : mark < born.id)
    (haccounted : s.Accounted run.result.startedAt c) :
    born.id ∈ run.acknowledged s.store ∨
      ∃ attempt ∈ run.lost s.store, s.LossOf born.id attempt := by
  have hw := h.window run mark hrun hmark
  unfold Accounted at haccounted
  split at haccounted
  · exact .inl (h.named ht hf hrun hmark hfew hc hborn habove ‹_› haccounted)
  · rename_i hstage
    exact hw.lost ht hf hc hborn habove (by simp [hstage, Stage.placed]) haccounted
      (by simp [hstage])
  · rename_i hstage
    exact hw.lost ht hf hc hborn habove (by simp [hstage, Stage.placed]) haccounted
      (by simp [hstage])
  · rename_i hstage
    exact hw.lost ht hf hc hborn habove (by simp [hstage, Stage.placed]) haccounted.2
      fun _ => haccounted.1
  · cases haccounted
  · cases haccounted
  · cases haccounted

/-- Every row that is read above the mark was stored for a placement. -/
theorem Window.sourced (h : s.Window users) (hrun : s.run = some run)
    (hmark : run.highWaterMark = some mark) {row : LedgerRow}
    (hrow : row ∈ created (ledger s.orders users) mark) : mark < row.id ∧ s.Sourced row.id := by
  obtain ⟨hmem, habove⟩ := List.mem_filter.mp hrow
  obtain ⟨row, hstored, rfl, u, hu, huser⟩ := userId_of_mem_ledger hmem
  exact ⟨of_decide_eq_true habove, (h.window run mark hrun hmark).source row hstored ⟨u, hu, huser⟩
    (of_decide_eq_true habove)⟩

/-- Where every unmatched row has a loss of its own, there are as many losses. -/
theorem length_unmatched_le (hf : s.Filed recorded) {rows : List LedgerRow}
    (hrows : (rows.map (·.id)).Nodup) {acknowledged : List Int} {lost : List Attempt}
    (heach : ∀ row ∈ created rows mark, row.id ∈ acknowledged ∨
      ∃ attempt ∈ lost, s.LossOf row.id attempt) :
    (unmatched rows mark acknowledged).length ≤ lost.length := by
  refine length_le_of_related (R := fun row attempt => s.LossOf row.id attempt)
    (((List.Nodup.of_map _ hrows).filter _).filter _) (fun row hrow => ?_)
    fun a ha b hb attempt h h' => ?_
  · obtain ⟨hcreated, hnot⟩ := List.mem_filter.mp hrow
    exact (heach row hcreated).resolve_left (of_decide_eq_true hnot)
  · exact List.inj_on_of_nodup_map hrows (List.mem_of_mem_filter (List.mem_of_mem_filter ha))
      (List.mem_of_mem_filter (List.mem_of_mem_filter hb)) (h.unique hf h')

end Harness

/-- **The rows of a run are accounted for where its placements are.**  In every run against a
    correct target, when it checks the rows it has read and the recorder was given fewer than five
    thousand rows since the run was started: if every placement with a row above the mark is
    accounted for, each of those rows is acknowledged or is a loss that is counted, so no more of
    them are unmatched than are allowed for, and no row is a phantom. -/
theorem rows_accounted {users : List Int} {orders : Orders} {es fs : List HarnessEvent}
    {s s' s'' : Harness} {run : LoadRun} {rows : List LedgerRow} {mark : Int}
    (hids : (orders.map (·.id)).Nodup)
    (hrun : (harness users).run (.start orders) es = some s)
    (hread : (harness users).step s .rows = some s')
    (hrun' : (harness users).run s' fs = some s'') (hcheck : s''.run = some run)
    (hrows : run.rows = some rows) (hmark : run.highWaterMark = some mark)
    (hfew : s''.store.nextId - run.firstAttempt < ATTEMPTS_CAPACITY)
    (haccounted : ∀ c ∈ s''.calls, ∀ born, c.stored = some born →
      (∃ row ∈ created rows mark, row.id = born.id) → s''.Accounted run.result.startedAt c) :
    (∀ row ∈ created rows mark, row.id ∈ run.acknowledged s''.store ∨
      ∃ attempt ∈ run.lost s''.store, s''.LossOf row.id attempt) ∧
    (unmatched rows mark (run.acknowledged s''.store)).length ≤ run.unansweredIn s''.store ∧
    phantomBreach (unmatched rows mark (run.acknowledged s''.store)) (run.unansweredIn s''.store) =
      none := by
  have hknown := Harness.known_run hids hrun
  have hknown' := hknown.step hread
  have hknown'' := hknown'.run hrun'
  obtain ⟨recorded, hf⟩ := hknown''.filed
  obtain ⟨run₀, hrun₀, -, hchecked⟩ := Harness.read_run hknown.phases hread hrun'
  have hsame := Option.some.inj (hcheck.symm.trans hchecked)
  have hledger : rows = ledger s.orders users := by
    rw [hsame] at hrows
    exact (Option.some.inj hrows).symm
  have hmark₀ : run₀.highWaterMark = some mark := by rwa [hsame] at hmark
  subst hledger
  have heach : ∀ row ∈ created (ledger s.orders users) mark, row.id ∈ run.acknowledged s''.store ∨
      ∃ attempt ∈ run.lost s''.store, s''.LossOf row.id attempt := by
    intro row hrow
    obtain ⟨habove, hsource⟩ := hknown.window.sourced hrun₀ hmark₀ hrow
    obtain ⟨c, hc, born, hborn, hid⟩ :=
      (hsource.step hknown.truthful hread).run hknown'.truthful hrun'
    have h := hknown''.window.accounted hknown''.truthful hf hcheck hmark hfew hc hborn
      (hid ▸ habove) (haccounted c hc born hborn ⟨row, hrow, hid.symm⟩)
    rwa [hid] at h
  have hids' : ((ledger s.orders users).map (·.id)).Nodup :=
    List.pairwise_map.mpr ((pairwise_ledger hknown.stored.ids users).imp fun h => h.ne)
  have hallowed := (Harness.length_unmatched_le hf hids' heach).trans
    (show _ ≤ run.unansweredIn s''.store by
      rw [LoadRun.unansweredIn, Nat.add_assoc]
      exact Nat.le_add_right ..)
  exact ⟨heach, hallowed, if_neg (not_lt.mpr hallowed)⟩

/-! ### A placement from the panel -/

/-- A run places one order, of which `own` becomes, and another client is answered with the order
    it places. -/
def placedBeside (client : Client) (own : List HarnessEvent) : List HarnessEvent :=
  [.start [[.place restingBuy]], .mark, .fire "k", .place client 4 (some restingBuy.key) "/orders" "l",
    .post 0, .post 1] ++ own ++ [.settle 0 .UNKNOWN,
    .commit 1 false { restingBuyRow with id := 13, idempotencyKey := some "l" },
    .answer 1 (.order 201 none) 0 false false, .settle 1 .UNKNOWN, .fold]

/-- It is stored and never answered for. -/
def lostOwn : List HarnessEvent :=
  [.commit 0 false restingBuyRow, .answer 0 (.nothing "timeout") 0 false false]

/-- It is shed. -/
def shedOwn : List HarnessEvent := [.answer 0 (.refusal 503 none) 0 false false]

/-- The order of the run is lost and that of the loop is named. -/
theorem rows_accounted_besideLoop : ∃ s run rows,
    (harness [4]).run (.start []) (placedBeside .simulation lostOwn ++ [.rows]) =
      some s ∧ s.run = some run ∧ run.rows = some rows ∧
    phantomBreach (unmatched rows 0 (run.acknowledged s.store)) (run.unansweredIn s.store) =
      none := by
  obtain ⟨s', hrun', haccounted, hcheck⟩ := (harness [4]).exists_run (.start [])
    (placedBeside .simulation lostOwn ++ [.rows])
    (P := fun s => (∀ c ∈ s.calls, s.Accounted 0 c) ∧ s.run.any fun run => run.rows.isSome ∧
      run.result.startedAt = 0 ∧ run.highWaterMark = some 0 ∧
        s.store.nextId - run.firstAttempt < ATTEMPTS_CAPACITY) (by decide +kernel)
  obtain ⟨run, hrun, hfields⟩ := (Option.any_eq_true _ _).mp hcheck
  obtain ⟨hsome, hstarted, hmark, hfew⟩ := of_decide_eq_true hfields
  obtain ⟨rows, hrows⟩ := Option.isSome_iff_exists.mp hsome
  obtain ⟨s, hs, hread⟩ := (harness [4]).run_concat.mp hrun'
  have h := @rows_accounted [4] [] _ [] s s' s' run rows 0 (by decide) hs hread rfl hrun hrows hmark
    hfew fun c hc _ _ _ => by
      rw [hstarted]
      exact haccounted c hc
  exact ⟨s', run, rows, hrun', hrun, hrows, h.2.2⟩

/-- **A phantom from the panel**: an order that was answered, and that nobody names. -/
theorem proxied_phantom : ∃ s, (harness [4]).run (.start [])
      (placedBeside .proxy shedOwn ++ [.rows]) = some s ∧
    (s.calls.map (·.stage.placed.isSome)) = [false, true] ∧ (s.store.recent 5000).map (·.status) =
      [201, 503] ∧
    ∃ run rows, s.run = some run ∧ run.rows = some rows ∧ run.highWaterMark = some 0 ∧
      phantomBreach (unmatched rows 0 (run.acknowledged s.store)) (run.unansweredIn s.store) =
        some "1 rows in the run window were never answered for but only 0 calls went unanswered: 13" := by
  obtain ⟨s, hs, hanswers, hstatus, hcheck⟩ := (harness [4]).exists_run (.start [])
    (placedBeside .proxy shedOwn ++ [.rows])
    (P := fun s => (s.calls.map (·.stage.placed.isSome)) = [false, true] ∧
      (s.store.recent 5000).map (·.status) = [201, 503] ∧
      s.run.any fun run => run.highWaterMark = some 0 ∧ run.rows.any fun rows =>
        phantomBreach (unmatched rows 0 (run.acknowledged s.store)) (run.unansweredIn s.store) =
          some "1 rows in the run window were never answered for but only 0 calls went unanswered: 13")
    (by decide +kernel)
  obtain ⟨run, hrun, hfields⟩ := (Option.any_eq_true _ _).mp hcheck
  obtain ⟨hmark, hbreach⟩ := of_decide_eq_true hfields
  obtain ⟨rows, hrows, hbreach⟩ := (Option.any_eq_true _ _).mp hbreach
  exact ⟨s, hs, hanswers, hstatus, run, rows, hrun, hrows, hmark, of_decide_eq_true hbreach⟩

end Cocos.Tools
