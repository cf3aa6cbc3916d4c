import Cocos.Tools.Target

namespace Cocos.Tools

open Cocos.Lib

/-!
# The answers of a run and its rows

`responseDbAgreement` holds every answered placement against its row, and excuses a resting order
that reads CANCELLED where the run was told of the cancel.  A cancel that is performed and never
answered is not among those.

* `Harness.Counts`, `counts_run` — **what a run keeps is what it was told**;
* `agreement_iff` — **no placement is accused if and only if every cancel that was performed was
  answered**.
-/

namespace Tally

variable (tally : Tally) (attemptId : Nat)

theorem placements_place (placed : Option PlacedResponse) :
    (tally.place attemptId placed).placements = tally.placements ++ placed.toList := by
  cases placed <;> simp [place, issued]

theorem mem_resting_place {placed : Option PlacedResponse} {id : Int}
    (h : id ∈ (tally.place attemptId placed).resting) :
    id ∈ tally.resting ∨ ∃ p, placed = some p ∧ p.orderId = id ∧ p.status = "NEW" := by
  cases placed with
  | none => exact .inl h
  | some p =>
    simp only [place, issued] at h
    split at h
    · rename_i hnew
      rcases List.mem_append.mp h with h | h
      · exact .inl h
      · exact .inr ⟨p, rfl, (List.mem_singleton.mp h).symm, hnew⟩
    · exact .inl h

@[simp] theorem cancelled_place (placed : Option PlacedResponse) :
    (tally.place attemptId placed).cancelled = tally.cancelled := by
  cases placed <;> rfl

/-- A cancel is no placement, and is kept where the target says that it is done. -/
theorem cancel_spec (orderId : Int) (answer : Answer) :
    (tally.cancel attemptId orderId answer).placements = tally.placements ∧
      (tally.cancel attemptId orderId answer).resting = tally.resting ∧
      (tally.cancel attemptId orderId answer).cancelled =
        if answer.ok then tally.cancelled ++ [orderId] else tally.cancelled := by
  unfold cancel issued
  split
  · exact ⟨rfl, rfl, rfl⟩
  · split <;> exact ⟨rfl, rfl, rfl⟩

end Tally

/-- A cancel got its answer. -/
def CancelCall.Answered (d : CancelCall) : Prop := ∃ status, d.stage = .over status ∧ status ≠ 0

instance (d : CancelCall) : Decidable d.Answered :=
  match h : d.stage with
  | .over status => decidable_of_iff (status ≠ 0) (by simp [CancelCall.Answered, h])
  | .held | .sent => isFalse (by simp [CancelCall.Answered, h])

/-- A cancel is lost, done, or refused. -/
theorem cancelAnswer_eq_some {reply : Reply} {d : CancelCall} {answer : Answer}
    (h : reply.cancelAnswer d = some answer) : answer.status = 0 ∧ answer.ok = false ∨
      answer.status ≠ 0 ∧ d.performed = some answer.ok := by
  cases reply with
  | order status body =>
    simp only [Reply.cancelAnswer] at h
    split at h <;> cases h
    rename_i hcond
    exact .inr ⟨by show status ≠ 0; omega, hcond.2⟩
  | refusal status body =>
    simp only [Reply.cancelAnswer] at h
    split at h <;> cases h
    rename_i hcond
    exact .inr ⟨by show status ≠ 0; omega, hcond.2⟩
  | nothing message =>
    cases h
    exact .inl ⟨rfl, rfl⟩

namespace Harness

/-- What the run keeps of its answers, if there is a run. -/
def tally (s : Harness) : Tally := (s.run.map (·.tally)).getD .empty

/-- What a run keeps is what it was told: the orders its placements were answered with, those of
    them that rest and are not asked to be cancelled, and those it was told are cancelled. -/
structure Counts (s : Harness) : Prop where
  placed : ∀ p ∈ s.tally.placements, ∃ c ∈ s.calls, c.client = .load ∧ c.stage = .over (some p)
  resting : ∀ id ∈ s.tally.resting, ∃ p ∈ s.tally.placements, p.orderId = id ∧ p.status = "NEW"
  asked : ∀ d ∈ s.cancels, ∃ p ∈ s.tally.placements, p.orderId = d.orderId ∧ p.status = "NEW"
  cancelled : ∀ id ∈ s.tally.cancelled, ∃ d ∈ s.cancels,
    d.orderId = id ∧ d.performed = some true ∧ d.Answered
  answered : ∀ d ∈ s.cancels, d.Answered →
    d.performed = some false ∨ d.performed = some true ∧ d.orderId ∈ s.tally.cancelled

variable {users : List Int} {s s' : Harness}

theorem counts_start (orders : Orders) : (start orders).Counts where
  placed := by simp [tally, start, Tally.empty]
  resting := by simp [tally, start, Tally.empty]
  asked := by simp [start]
  cancelled := by simp [tally, start, Tally.empty]
  answered := by simp [start]

/-- Nothing is answered. -/
theorem Counts.congr (h : s.Counts)
    (hcalls : ∀ p, (∃ c ∈ s.calls, c.client = .load ∧ c.stage = .over (some p)) →
      ∃ c ∈ s'.calls, c.client = .load ∧ c.stage = .over (some p))
    (hcancels : s'.cancels = s.cancels) (hplacements : s'.tally.placements = s.tally.placements)
    (hresting : s'.tally.resting = s.tally.resting)
    (hcancelled : s'.tally.cancelled = s.tally.cancelled) : s'.Counts where
  placed p hp := hcalls p (h.placed p (hplacements ▸ hp))
  resting := by simpa only [hresting, hplacements] using h.resting
  asked := by simpa only [hcancels, hplacements] using h.asked
  cancelled := by simpa only [hcancels, hcancelled] using h.cancelled
  answered := by simpa only [hcancels, hcancelled] using h.answered

/-- A call moves on, and is not over. -/
theorem Counts.setCall (h : s.Counts) {j : Nat} {c c' : PlacingCall}
    (hcalls : s'.calls = s.calls.set j c') (hj : s.calls[j]? = some c)
    (hcancels : s'.cancels = s.cancels) (htally : s'.tally = s.tally)
    (hclient : c'.client = c.client)
    (hstage : c'.stage = c.stage ∨ ∀ placed, c.stage ≠ .over placed) : s'.Counts := by
  refine h.congr (fun p hp => ?_) hcancels (congrArg _ htally) (congrArg _ htally)
    (congrArg _ htally)
  rw [hcalls]
  refine exists_mem_set hj hp fun ⟨hload, hover⟩ => ⟨hclient.trans hload, ?_⟩
  exact (hstage.resolve_right fun hne => hne _ hover).trans hover

/-- The run keeps a placement of its own when that is over, and no other. -/
theorem tally_settle (hp : s.Phases) {j : Nat} {c : PlacingCall} (hj : s.calls[j]? = some c)
    (id : Nat) (placed : Option PlacedResponse) (expected : Expectation) :
    (s.settle j c id placed expected).tally =
      if c.client = .load then s.tally.place id placed else s.tally := by
  split
  · rename_i hload
    cases hrun : s.run with
    | none =>
      -- there is no placement of a run before there is a run
      have hnone := (hp.early fun run h => by cases hrun.symm.trans h).2
      exact absurd hload (hnone c (List.mem_of_getElem? hj))
    | some run => simp [tally, Harness.settle, hload, hrun]
  · rename_i hother
    simp [tally, Harness.settle, hother]

/-- A placement is over, and the run keeps its own. -/
theorem Counts.settle (h : s.Counts) (hp : s.Phases) {j : Nat} {c : PlacingCall}
    {placed : Option PlacedResponse} (hj : s.calls[j]? = some c)
    (hstage : c.stage = .returned placed) (id : Nat) (expected : Expectation) :
    (s.settle j c id placed expected).Counts := by
  have hcalls : (s.settle j c id placed expected).calls =
      s.calls.set j { c with stage := .over placed } := rfl
  have htally := tally_settle hp hj id placed expected
  split at htally
  · rename_i hload
    have hplacements := (congrArg Tally.placements htally).trans (Tally.placements_place ..)
    have hkept : ∀ {P : PlacedResponse → Prop}, (∃ p ∈ s.tally.placements, P p) →
        ∃ p ∈ (s.settle j c id placed expected).tally.placements, P p := fun ⟨p, hp, hP⟩ =>
      ⟨p, hplacements ▸ List.mem_append_left _ hp, hP⟩
    refine ⟨fun p hp => ?_, fun i hi => ?_, fun d hd => hkept (h.asked d hd), ?_, ?_⟩
    · rw [hcalls]
      rw [hplacements] at hp
      rcases List.mem_append.mp hp with hp | hp
      · exact exists_mem_set hj (h.placed p hp) fun ⟨_, hover⟩ => by cases hstage.symm.trans hover
      · obtain rfl := Option.mem_toList.mp hp
        exact ⟨_, List.mem_set (List.getElem?_eq_some_iff.mp hj).1 _, hload, rfl⟩
    · rw [htally] at hi
      rcases Tally.mem_resting_place _ _ hi with hi | ⟨p, rfl, hid, hnew⟩
      · exact hkept (h.resting i hi)
      · exact ⟨p, by simp [hplacements], hid, hnew⟩
    · rw [htally, Tally.cancelled_place]
      exact h.cancelled
    · rw [htally, Tally.cancelled_place]
      exact h.answered
  · exact h.setCall hcalls hj rfl htally rfl (.inr (by simp [hstage]))

/-- A cancel moves on, and is not answered. -/
theorem Counts.setCancel (h : s.Counts) {k : Nat} {d d' : CancelCall}
    (hcancels : s'.cancels = s.cancels.set k d') (hk : s.cancels[k]? = some d)
    (hcalls : s'.calls = s.calls) (htally : s'.tally = s.tally) (hid : d'.orderId = d.orderId)
    (hstage : d'.stage = d.stage ∧ d.performed = none ∨
      d.stage = .held ∧ d'.stage = .sent ∧ d'.performed = d.performed) : s'.Counts := by
  have hunanswered : ¬d'.Answered := fun ⟨status, hover, hne⟩ => by
    rcases hstage with ⟨hsame, hnone⟩ | ⟨-, hsent, -⟩
    · have hanswered := h.answered d (List.mem_of_getElem? hk) ⟨status, hsame ▸ hover, hne⟩
      rcases hanswered with hp | ⟨hp, -⟩ <;> cases hnone.symm.trans hp
    · cases hsent.symm.trans hover
  refine ⟨?_, ?_, ?_, fun id hid' => ?_, ?_⟩
  · simpa only [hcalls, htally] using h.placed
  · simpa only [htally] using h.resting
  · rw [hcancels, htally]
    exact forall_mem_set h.asked (hid ▸ h.asked d (List.mem_of_getElem? hk)) k
  · rw [hcancels]
    refine exists_mem_set hk (h.cancelled id (htally ▸ hid')) fun ⟨_, hp, status, hover, _⟩ => ?_
    rcases hstage with ⟨-, hnone⟩ | ⟨hheld, -, -⟩
    · cases hnone.symm.trans hp
    · cases hheld.symm.trans hover
  · rw [hcancels, htally]
    exact forall_mem_set h.answered (fun h => absurd h hunanswered) k

/-- A cancel is answered or given up, and the run keeps what it is told. -/
theorem Counts.answerCancel (h : s.Counts) {k : Nat} {d d' : CancelCall} {answer : Answer}
    (hcancels : s'.cancels = s.cancels.set k d') (hk : s.cancels[k]? = some d)
    (hcalls : s'.calls = s.calls) (hsent : d.stage = .sent) (hid : d'.orderId = d.orderId)
    (hstage : d'.stage = .over answer.status) (hperformed : d'.performed = d.performed)
    (hanswer : answer.status = 0 ∧ answer.ok = false ∨
      answer.status ≠ 0 ∧ d.performed = some answer.ok) (attemptId : Nat)
    (htally : s'.tally = s.tally.cancel attemptId d.orderId answer) : s'.Counts := by
  obtain ⟨hplacements, hresting, hcancelled⟩ := s.tally.cancel_spec attemptId d.orderId answer
  rw [← htally] at hplacements hresting hcancelled
  have hmem := List.mem_of_getElem? hk
  have hlt := (List.getElem?_eq_some_iff.mp hk).1
  have hkept : ∀ id ∈ s.tally.cancelled, id ∈ s'.tally.cancelled := fun id hid => by
    rw [hcancelled]
    split
    · exact List.mem_append_left _ hid
    · exact hid
  refine ⟨?_, ?_, ?_, fun id hid' => ?_, ?_⟩
  · simpa only [hcalls, hplacements] using h.placed
  · simpa only [hresting, hplacements] using h.resting
  · rw [hcancels, hplacements]
    exact forall_mem_set h.asked (hid ▸ h.asked d hmem) k
  · have hold : id ∈ s.tally.cancelled → ∃ d ∈ s'.cancels,
        d.orderId = id ∧ d.performed = some true ∧ d.Answered := fun hid' => by
      rw [hcancels]
      refine exists_mem_set hk (h.cancelled id hid') fun ⟨_, _, status, hover, _⟩ => ?_
      cases hsent.symm.trans hover
    rw [hcancelled] at hid'
    split at hid'
    · rename_i hok
      rcases List.mem_append.mp hid' with hid' | hid'
      · exact hold hid'
      · obtain rfl := List.mem_singleton.mp hid'
        rcases hanswer with ⟨-, hnot⟩ | ⟨hne, hp⟩
        · cases hok.symm.trans hnot
        · exact ⟨d', hcancels ▸ List.mem_set hlt d', hid, by rw [hperformed, hp, hok],
            answer.status, hstage, hne⟩
    · exact hold hid'
  · rw [hcancels]
    refine forall_mem_set (fun e he hanswered => ?_) (fun ⟨status, hover, hne⟩ => ?_) k
    · exact (h.answered e he hanswered).imp_right fun ⟨hp, hin⟩ => ⟨hp, hkept _ hin⟩
    · cases hstage.symm.trans hover
      have hp := (hanswer.resolve_left fun hlost => hne hlost.1).2
      rw [hperformed, hp, hid, hcancelled]
      cases answer.ok with
      | false => exact .inl rfl
      | true => exact .inr ⟨rfl, by simp⟩

/-- **One step keeps count.** -/
theorem Counts.step (h : s.Counts) (hp : s.Phases) {e : HarnessEvent}
    (hstep : (harness users).step s e = some s') : s'.Counts := by
  cases took_of_step hstep with
  | ticked | other | foreign => exact ⟨h.placed, h.resting, h.asked, h.cancelled, h.answered⟩
  | placed =>
    exact h.congr (fun p ⟨c, hc, hover⟩ => ⟨c, List.mem_append_left _ hc, hover⟩) rfl rfl rfl rfl
  | started hrun =>
    have htally : s.tally = .empty := by simp [tally, hrun]
    exact h.congr (fun p hp => hp) rfl (congrArg _ htally.symm) (congrArg _ htally.symm)
      (congrArg _ htally.symm)
  | @marked run hrun =>
    have htally : s.tally = run.tally := by simp [tally, hrun]
    refine h.congr (fun p hp => hp) rfl ?_ ?_ ?_ <;> simp [tally, hrun, LoadRun.marked]
  | @firedCancel _ run fallback due id resting hrun _ hresting =>
    have htally : s.tally = run.tally := by simp [tally, hrun]
    refine ⟨?_, fun i hi => ?_, fun d hd => ?_, fun i hi => ?_, fun d hd hanswered => ?_⟩
    · simpa [tally, hrun] using h.placed
    · have := h.resting i (by rw [htally, hresting]; exact List.mem_cons_of_mem _ hi)
      simpa [tally, hrun] using this
    · rcases List.mem_append.mp hd with hd | hd
      · simpa [tally, hrun] using h.asked d hd
      · cases List.mem_singleton.mp hd
        have := h.resting id (by rw [htally, hresting]; exact List.mem_cons_self)
        simpa [tally, hrun] using this
    · obtain ⟨d, hd, hrest⟩ := h.cancelled i (by simpa [tally, hrun] using hi)
      exact ⟨d, List.mem_append_left _ hd, hrest⟩
    · rcases List.mem_append.mp hd with hd | hd
      · simpa [tally, hrun] using h.answered d hd hanswered
      · cases List.mem_singleton.mp hd
        obtain ⟨status, hover, -⟩ := hanswered
        cases hover
  | fired hrun =>
    refine h.congr (fun p ⟨c, hc, hover⟩ => ⟨c, List.mem_append_left _ hc, hover⟩) rfl ?_ ?_ ?_ <;>
      simp [tally, hrun]
  | posted hj hstage => exact h.setCall rfl hj rfl rfl rfl (.inr (by simp [hstage]))
  | committed hj =>
    exact h.setCall rfl hj rfl rfl (PlacingCall.client_setRequest ..)
      (.inl (PlacingCall.stage_setRequest ..))
  | answered hj hstage =>
    obtain ⟨retry, stage, heq, -⟩ := recordFirst_spec ..
    rw [heq]
    exact h.setCall rfl hj rfl rfl rfl (.inr (by simp [hstage]))
  | retryAnswered hj hstage => exact h.setCall rfl hj rfl rfl rfl (.inr (by simp [hstage]))
  | settled hj hstage => exact h.settle hp hj hstage _ _
  | postedCancel hk hstage => exact h.setCancel rfl hk rfl rfl rfl (.inr ⟨hstage, rfl, rfl⟩)
  | shedCancel hk _ hnone | performedCancel hk _ hnone =>
    exact h.setCancel rfl hk rfl rfl rfl (.inl ⟨rfl, hnone⟩)
  | answeredCancel hk hstage hreply =>
    obtain ⟨p, hp', -⟩ := h.asked _ (List.mem_of_getElem? hk)
    refine h.answerCancel rfl hk rfl hstage rfl rfl rfl (cancelAnswer_eq_some hreply)
      s.store.nextId ?_
    cases hrun : s.run with
    | none => simp [tally, hrun, Tally.empty] at hp'
    | some run => simp [tally, hrun]
  | @folded run hrun =>
    obtain ⟨⟨pending, latencies, heq⟩, -⟩ := foldWave_spec s.store run.result run.tally
    refine h.congr (fun p hp => hp) rfl ?_ ?_ ?_ <;> simp [tally, hrun, LoadRun.fold, heq]
  | read hrun => refine h.congr (fun p hp => hp) rfl ?_ ?_ ?_ <;> simp [tally, hrun]

theorem counts_run {orders : Orders} {es : List HarnessEvent}
    (h : (harness users).run (start orders) es = some s) : s.Counts := by
  have key : s.Phases ∧ s.Counts :=
    (harness users).invariant_run (I := fun s => s.Phases ∧ s.Counts)
      (fun hi hstep => ⟨hi.1.step hstep, hi.2.step hi.1 hstep⟩)
      ⟨phases_start orders, counts_start orders⟩ h
  exact key.2

end Harness

/-! ### The answers against the rows -/

/-- A placement of a stored order is not accused exactly if its row agrees with it. -/
theorem responseBreach_eq_none_iff {orders : Orders} {users : List Int} {row : OrderRow} {u : Int}
    {placement : PlacedResponse} {cancelled : List Int} (hids : (orders.map (·.id)).Nodup)
    (hrow : row ∈ orders) (huser : row.userId = some u) (hu : u ∈ users)
    (hid : row.id = placement.orderId) (hsize : row.size = some placement.size)
    (hprice : row.price.map priceText = some placement.price) :
    responseBreach (.ofEntries ((ledger orders users).map fun row => (row.id, row))) cancelled
        placement = none ↔ agrees cancelled (ledgerRow row) placement = true := by
  have hkeys : ((ledger orders users).map (·.id)).Nodup :=
    List.pairwise_map.mpr ((pairwise_ledger hids users).imp fun h => h.ne)
  have hmem : ledgerRow row ∈ ledger orders users :=
    (ledger_perm orders users).mem_iff.mpr
      (List.mem_map_of_mem (List.mem_filter.mpr ⟨hrow, by simp [huser, hu]⟩))
  have hheld : (JsMap.ofEntries ((ledger orders users).map fun row => (row.id, row))).get?
      placement.orderId = some (ledgerRow row) := (JsMap.get?_ofEntries_key hkeys).mpr ⟨hmem, hid⟩
  rw [responseBreach, hheld]
  simp [ledgerRow, hsize, hprice]

namespace Harness

variable {users : List Int} {s : Harness}

/-- Where every cancel that was performed was answered, every placement is its row or excused,
    and a cancel that was not answered leaves one that is neither. -/
theorem breaches_iff (htruth : s.Truthful users) (hstored : s.Stored) (hcounts : s.Counts) :
    responseBreaches s.tally.placements (ledger s.orders users) s.tally.cancelled = [] ↔
      ∀ d ∈ s.cancels, d.performed = some true → d.Answered := by
  -- the order of a placement, as it was stored and as it is read
  have hplaced : ∀ p ∈ s.tally.placements, ∃ born row, row ∈ s.orders ∧ s.Became born row ∧
      born.id = p.orderId ∧ born.status = some p.status ∧
      (responseBreach (.ofEntries ((ledger s.orders users).map fun row => (row.id, row)))
        s.tally.cancelled p = none ↔ agrees s.tally.cancelled (ledgerRow row) p = true) := by
    intro p hp
    obtain ⟨c, hc, hload, hover⟩ := hcounts.placed p hp
    have htold := htruth.calls c hc
    obtain ⟨born, hborn, hanswer⟩ := htold.told p (by rw [hover]; rfl)
    obtain ⟨row, hrow, hbecame⟩ := hstored.rows c hc born hborn
    obtain ⟨hid, hstatus, hsize, hprice⟩ := answerOf_eq_some hanswer
    have hkey := (htold.stored born hborn).1
    have huser : born.userId = some c.first.call.userId := by
      simp only [OrderRow.hasKey, decide_eq_true_eq] at hkey
      exact hkey.1
    refine ⟨born, row, hrow, hbecame, hid, hstatus, ?_⟩
    rcases hbecame with rfl | ⟨-, rfl, -⟩ <;>
      exact responseBreach_eq_none_iff hstored.ids hrow huser (htold.user hload) hid hsize hprice
  rw [responseBreaches, List.filterMap_eq_nil_iff]
  constructor
  · intro hnone d hd hp
    by_contra hunanswered
    obtain ⟨p, hmem, hid, hnew⟩ := hcounts.asked d hd
    obtain ⟨born, row, hrow, hbecame, hborn, hstatus, hiff⟩ := hplaced p hmem
    -- the order has been taken, so its row reads CANCELLED
    obtain ⟨taken, htaken, htid, hcancelled⟩ := hstored.taken d hd hp
    have hsame : taken = row := List.inj_on_of_nodup_map hstored.ids htaken hrow
      (by rw [htid, hbecame.id_eq, hborn, hid])
    rw [hsame] at hcancelled
    have hagrees := hiff.mp (hnone p hmem)
    -- and nothing was said of it: the one cancel that took it is this one
    have hunsaid : row.id ∉ s.tally.cancelled := fun hin => by
      obtain ⟨d', hd', hid', hp', hanswered'⟩ := hcounts.cancelled _ hin
      obtain ⟨k, hk⟩ := List.mem_iff_getElem?.mp hd
      obtain ⟨k', hk'⟩ := List.mem_iff_getElem?.mp hd'
      have hk_eq := hstored.once k k' d d' hk hk' hp hp' (by rw [hid', ← htid, hsame])
      subst hk_eq
      cases hk.symm.trans hk'
      exact hunanswered hanswered'
    simp [agrees, ledgerRow, hcancelled, hnew, hunsaid, OrderStatus.text] at hagrees
  · intro hall p hmem
    obtain ⟨born, row, hrow, hbecame, hborn, hstatus, hiff⟩ := hplaced p hmem
    refine hiff.mpr ?_
    rcases hbecame with rfl | ⟨hnew, rfl, d, hd, hid, hp⟩
    · simp [agrees, ledgerRow, hstatus]
    · have hin : born.id ∈ s.tally.cancelled := by
        rcases hcounts.answered d hd (hall d hd hp) with hrefused | ⟨-, hin⟩
        · cases hp.symm.trans hrefused
        · exact hid ▸ hin
      have hpnew : p.status = "NEW" := Option.some.inj (hstatus.symm.trans hnew)
      simp [agrees, ledgerRow, OrderRow.cancelled, OrderStatus.text, hpnew, hin]

end Harness

/-- **No placement is accused exactly if every cancel that was performed was answered.**  In every
    run against a correct target, whatever is lost of its answers: when the run checks what it was
    answered against the rows it has read, all of its placements agree exactly if each cancel the
    target had performed by then got its answer. -/
theorem agreement_iff {users : List Int} {orders : Orders} {es fs : List HarnessEvent}
    {s s' s'' : Harness} (hids : (orders.map (·.id)).Nodup)
    (hrun : (harness users).run (.start orders) es = some s)
    (hread : (harness users).step s .rows = some s')
    (hrun' : (harness users).run s' fs = some s'') :
    ∃ run rows, s''.run = some run ∧ run.rows = some rows ∧
      (responseBreaches run.tally.placements rows run.tally.cancelled = [] ↔
        ∀ d ∈ s.cancels, d.performed = some true → d.Answered) := by
  obtain ⟨run, hrun₀, -, hchecked⟩ := Harness.read_run (Harness.phases_run hrun) hread hrun'
  refine ⟨_, _, hchecked, rfl, ?_⟩
  have hiff := Harness.breaches_iff (Harness.truthful_run hrun) (Harness.stored_run hids hrun)
    (Harness.counts_run hrun)
  rwa [show s.tally = run.tally by simp [Harness.tally, hrun₀]] at hiff

/-! ### A cancel without an answer -/

/-- A resting buy of user 4, and the row the target stores for it. -/
def restingBuy : SimOrder := ⟨4, 31, .BUY, 1, .LIMIT "1.00", Int.one_pos⟩

def restingBuyRow : OrderRow :=
  ⟨12, some 31, some 4, some 1, some 100, some "LIMIT", some "BUY", some "NEW", some 5, some "k"⟩

/-- A run places the order, and cancels it; the cancel is performed, and this comes back of it. -/
def cancelledAfter (reply : Reply) : List HarnessEvent :=
  [.start [[.place restingBuy], [.cancel restingBuy]], .mark, .fire "k", .post 0,
    .commit 0 false restingBuyRow, .answer 0 (.order 201 none) 0 false false, .settle 0 .UNKNOWN,
    .fold, .fire "l", .postCancel 0, .performCancel 0 false, .answerCancel 0 reply 0, .fold]

/-- The answer to the cancel arrives, and nothing is accused. -/
theorem agreement_cancelAnswered : ∃ s run rows,
    (harness [4]).run (.start []) (cancelledAfter (.order 200 none) ++ [.rows]) = some s ∧
    s.run = some run ∧ run.rows = some rows ∧
    responseBreaches run.tally.placements rows run.tally.cancelled = [] := by
  obtain ⟨s', hrun', -⟩ := (harness [4]).exists_run (.start [])
    (cancelledAfter (.order 200 none) ++ [.rows]) (P := fun _ => True) (by decide +kernel)
  obtain ⟨s, hrun, hanswered⟩ := (harness [4]).exists_run (.start [])
    (cancelledAfter (.order 200 none))
    (P := fun s => ∀ d ∈ s.cancels, d.performed = some true → d.Answered) (by decide +kernel)
  obtain ⟨s₁, hrun₁, hread⟩ := (harness [4]).run_concat.mp hrun'
  cases hrun.symm.trans hrun₁
  obtain ⟨run, rows, hrun'', hrows, hiff⟩ := @agreement_iff [4] [] _ [] s s' s' (by decide) hrun
    hread rfl
  exact ⟨s', run, rows, hrun', hrun'', hrows, hiff.mpr hanswered⟩

/-- **A placement accused of a cancel that the run asked for.** -/
theorem cancel_accused : ∃ s,
    (harness [4]).run (.start []) (cancelledAfter (.nothing "timeout") ++ [.rows]) = some s ∧
    (s.cancels.map fun d => (d.orderId, d.performed)) = [(12, some true)] ∧
    ∃ run rows, s.run = some run ∧ run.rows = some rows ∧
      responseBreaches run.tally.placements rows run.tally.cancelled =
        ["order 12: the response said NEW/1/1.00, the row says CANCELLED/1/1.00"] := by
  obtain ⟨s, hs, hcancels, hbreaches⟩ := (harness [4]).exists_run (.start [])
    (cancelledAfter (.nothing "timeout") ++ [.rows])
    (P := fun s => (s.cancels.map fun d => (d.orderId, d.performed)) = [(12, some true)] ∧
      s.run.any fun run => run.rows.any fun rows =>
        responseBreaches run.tally.placements rows run.tally.cancelled =
          ["order 12: the response said NEW/1/1.00, the row says CANCELLED/1/1.00"])
    (by decide +kernel)
  obtain ⟨run, hrun, hbreaches⟩ := (Option.any_eq_true _ _).mp hbreaches
  obtain ⟨rows, hrows, hbreaches⟩ := (Option.any_eq_true _ _).mp hbreaches
  exact ⟨s, hs, hcancels, run, rows, hrun, hrows, of_decide_eq_true hbreaches⟩

end Cocos.Tools
