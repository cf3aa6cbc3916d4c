import Cocos.Tools.Target

namespace Cocos.Tools

open Cocos.Lib

/-!
# What the recorder has of a placement

* `PlacingCall.Filed` — the rows that were recorded for a placement, as far as it has got: a loss,
  a refusal, or an order it was answered with, which the row names only once it is annotated;
* `Harness.Filed`, `Filed.step` — **every placement of a run is on file**;
* `PlacingCall.loss`, `Filed.row_of_loss` — the row that stands for a placement nobody was told of.
-/

/-- The columns of a row that no annotation touches. -/
structure Attempt.Like (a b : Attempt) : Prop where
  id : a.id = b.id
  method : a.method = b.method
  path : a.path = b.path
  sentAt : a.sentAt = b.sentAt
  status : a.status = b.status
  key : a.idempotencyKey = b.idempotencyKey

theorem Attempt.Like.refl (a : Attempt) : a.Like a := ⟨rfl, rfl, rfl, rfl, rfl, rfl⟩

/-- The row a request was recorded under. -/
structure Posted.RowIn (recorded : List Attempt) (p : Posted) (row : Attempt) : Prop where
  mem : row ∈ recorded
  id : p.attemptId = some row.id
  placement : isOrderPlacement row.method row.path = true
  sentAt : row.sentAt = p.call.sentAt
  key : row.idempotencyKey = some p.call.key

theorem Posted.RowIn.like {recorded recorded' : List Attempt} {p : Posted} {row row' : Attempt}
    (h : p.RowIn recorded row) (hrow : row' ∈ recorded') (hlike : row'.Like row) :
    p.RowIn recorded' row' where
  mem := hrow
  id := hlike.id ▸ h.id
  placement := by rw [hlike.method, hlike.path]; exact h.placement
  sentAt := hlike.sentAt.trans h.sentAt
  key := hlike.key.trans h.key

namespace PlacingCall

/-- What was recorded of a placement. -/
structure Filed (recorded : List Attempt) (c : PlacingCall) : Prop where
  path : isOrderPlacement "POST" c.first.call.path = true
  held : c.stage = .held → c.stored = none
  refused : ∀ again p, c.request again = some p → p.refused = true → p.stored = none
  first : c.stage ≠ .held → c.stage ≠ .sent → ∃ row, c.first.RowIn recorded row ∧
    (row.status = 0 ∨ c.retry = none ∧ (c.first.refused = true ∨ c.stage.placed.isSome))
  retry : ∀ r, c.retry = some r → r.call.path = c.first.call.path ∧ r.call.retryOf.isSome ∧
    c.first.call.sentAt ≤ r.call.sentAt ∧ c.stage.placed = none
  again : ∀ r, c.retry = some r → c.stage = .retrying ∧ r.attemptId = none ∨
    ∃ row, r.RowIn recorded row ∧ (row.status = 0 ∨ r.refused = true ∨
      ∃ born, c.stored = some born ∧ row.orderId = some born.id)
  named : c.client = .simulation → ∀ p, c.stage = .over (some p) →
    ∃ row, c.first.RowIn recorded row ∧
      (row.orderId = some p.orderId ∨ recorded.length ≥ row.id + ATTEMPTS_CAPACITY)

variable {users : List Int} {recorded recorded' : List Attempt} {c : PlacingCall}

theorem filed_fresh {client : Client} {call : KeyedCall}
    (hpath : isOrderPlacement "POST" call.path = true) : (fresh client call).Filed recorded where
  path := hpath
  held _ := rfl
  refused again p hp hrefused := by
    cases again <;> cases hp
    cases hrefused
  first hheld := absurd rfl hheld
  retry r h := by cases h
  again r h := by cases h
  named _ p h := by cases h

/-- More is recorded, and rows are annotated. -/
theorem Filed.mono (h : c.Filed recorded) (htold : c.Told users) {f : Attempt → Attempt}
    (hrows : ∀ row ∈ recorded, f row ∈ recorded') (hlength : recorded.length ≤ recorded'.length)
    (hlike : ∀ row, (f row).Like row)
    (horder : c.retry.isSome ∨ (∃ p, c.stage = .over (some p)) → ∀ row ∈ recorded,
      row.idempotencyKey = some c.first.call.key → (f row).orderId = row.orderId) :
    c.Filed recorded' where
  path := h.path
  held := h.held
  refused := h.refused
  first hheld hsent := by
    obtain ⟨row, hrow, hwhy⟩ := h.first hheld hsent
    refine ⟨f row, hrow.like (hrows row hrow.mem) (hlike row), ?_⟩
    rwa [(hlike row).status]
  retry := h.retry
  again r hr := by
    refine (h.again r hr).imp_right fun ⟨row, hrow, hwhy⟩ => ?_
    refine ⟨f row, hrow.like (hrows row hrow.mem) (hlike row), ?_⟩
    rwa [(hlike row).status, horder (.inl (by simp [hr])) row hrow.mem
      (by rw [hrow.key, (htold.retry r hr).2])]
  named hclient p hp := by
    obtain ⟨row, hrow, hwhy⟩ := h.named hclient p hp
    refine ⟨f row, hrow.like (hrows row hrow.mem) (hlike row), ?_⟩
    rw [(hlike row).id, horder (.inr ⟨p, hp⟩) row hrow.mem hrow.key]
    exact hwhy.imp_right fun hgone => hgone.trans hlength

/-- A call goes out. -/
theorem Filed.posted (h : c.Filed recorded) (htold : c.Told users) (hstage : c.stage = .held)
    (now : Int) : Filed recorded { c with
      first := { c.first with call := { c.first.call with sentAt := now } }
      stage := .sent } := by
  have hnone := htold.unsent (.inl hstage)
  refine ⟨h.path, fun h => (by cases h), fun again p hp hrefused => ?_, fun _ h => absurd rfl h,
    fun r hr => ?_, fun r hr => ?_, fun _ p h => (by cases h)⟩
  · cases again with
    | false =>
      cases hp
      exact h.refused false c.first rfl hrefused
    | true => exact h.refused true p hp hrefused
  · cases hnone.symm.trans hr
  · cases hnone.symm.trans hr

/-- An order is stored for a request that was not refused. -/
theorem Filed.committed (h : c.Filed recorded) {again : Bool} {p : Posted} {row : OrderRow}
    (hp : c.request again = some p) (hnone : c.stored = none) (hstage : c.stage ≠ .held)
    (hopen : p.refused = false) :
    (c.setRequest again { p with stored := some row }).Filed recorded := by
  have hagain : ∀ r, c.retry = some r → c.stage = .retrying ∧ r.attemptId = none ∨
      ∃ row, r.RowIn recorded row ∧ (row.status = 0 ∨ r.refused = true) := fun r hr => by
    refine (h.again r hr).imp_right fun ⟨row, hrow, hwhy⟩ => ⟨row, hrow, ?_⟩
    rcases hwhy with hlost | hrefused | ⟨born, hborn, -⟩
    · exact .inl hlost
    · exact .inr hrefused
    · cases hnone.symm.trans hborn
  cases again with
  | false =>
    cases hp
    refine ⟨h.path, fun hheld => absurd hheld hstage, fun again' q hq hrefused => ?_,
      fun hheld hsent => ?_, h.retry, fun r hr => ?_, fun hclient q hq => ?_⟩
    · cases again' with
      | false =>
        cases hq
        cases hopen.symm.trans hrefused
      | true => exact h.refused true q hq hrefused
    · obtain ⟨row, hrow, hwhy⟩ := h.first hheld hsent
      exact ⟨row, ⟨hrow.mem, hrow.id, hrow.placement, hrow.sentAt, hrow.key⟩, hwhy⟩
    · refine (hagain r hr).imp_right fun ⟨row, hrow, hwhy⟩ => ⟨row, hrow, ?_⟩
      exact hwhy.imp_right .inl
    · obtain ⟨row, hrow, hwhy⟩ := h.named hclient q hq
      exact ⟨row, ⟨hrow.mem, hrow.id, hrow.placement, hrow.sentAt, hrow.key⟩, hwhy⟩
  | true =>
    have hr : c.retry = some p := hp
    refine ⟨h.path, fun hheld => absurd hheld hstage, fun again' q hq hrefused => ?_,
      fun hheld hsent => ?_, fun r hr' => ?_, fun r hr' => ?_, h.named⟩
    · cases again' with
      | false => exact h.refused false q hq hrefused
      | true =>
        cases hq
        cases hopen.symm.trans hrefused
    · obtain ⟨row, hrow, hwhy⟩ := h.first hheld hsent
      refine ⟨row, hrow, .inl (hwhy.resolve_right fun hno => ?_)⟩
      cases hno.1.symm.trans hr
    · cases hr'
      exact h.retry p hr
    · cases hr'
      refine (hagain p hr).imp_right fun ⟨row, hrow, hwhy⟩ => ⟨row, ?_, hwhy.imp_right .inl⟩
      exact ⟨hrow.mem, hrow.id, hrow.placement, hrow.sentAt, hrow.key⟩

/-- The row that is recorded of a first request. -/
theorem Filed.rowIn_attempt (h : c.Filed recorded) (refused : Bool) (now : Int) (answer : Answer)
    (delayedMs : Int) (chaos : Option ChaosMark) (id : Nat) :
    Posted.RowIn (recorded ++ [{ c.first.call.attempt now answer delayedMs chaos with id := id }])
      { c.first with refused := refused, attemptId := some id }
      { c.first.call.attempt now answer delayedMs chaos with id := id } where
  mem := List.mem_append_right _ List.mem_cons_self
  id := rfl
  placement := h.path
  sentAt := rfl
  key := rfl

/-- The gateway has what came of the first request, and may send it again. -/
theorem Filed.answered (h : c.Filed recorded) (htold : c.Told users) (hstage : c.stage = .sent)
    {refused : Bool} {answer : Answer} {placed : Option PlacedResponse}
    (hheard : Heard c c.first refused answer placed) {id : Nat} {retry : Option Posted}
    {stage : Stage} {now : Int} (hnow : c.first.call.sentAt ≤ now) {delayedMs : Int}
    {chaos : Option ChaosMark} (hnext : retry = c.retry ∧ stage = .returned placed ∨
      answer.status = 0 ∧ stage = .retrying ∧ retry = some (.fresh
        { c.first.call with sentAt := now, retryOf := some id })) :
    Filed (recorded ++ [{ c.first.call.attempt now answer delayedMs chaos with id := id }])
      ⟨c.client, { c.first with refused := refused, attemptId := some id }, retry, stage⟩ := by
  have hnone := htold.unsent (.inr hstage)
  have hrow := h.rowIn_attempt refused now answer delayedMs chaos id
  have hrefused : refused = true → c.first.stored = none := fun hrefused => by
    cases hheard with
    | lost _ h => exact h hrefused
    | order => cases hrefused
    | refused _ _ hstored => exact hstored
  rcases hnext with ⟨rfl, rfl⟩ | ⟨hlost, rfl, rfl⟩
  · refine ⟨h.path, fun hheld => (by cases hheld), fun again p hp hp' => ?_,
      fun _ _ => ⟨_, hrow, ?_⟩, fun r hr => ?_, fun r hr => ?_, fun _ p hover => (by cases hover)⟩
    · cases again with
      | false =>
        cases hp
        exact hrefused hp'
      | true => cases hnone.symm.trans hp
    · cases hheard with
      | lost hstatus => exact .inl hstatus
      | @order _ row _ _ hstored => exact .inr ⟨hnone, .inr (htold.stored row hstored).2⟩
      | refused => exact .inr ⟨hnone, .inl rfl⟩
    · cases hnone.symm.trans hr
    · cases hnone.symm.trans hr
  · refine ⟨h.path, fun hheld => (by cases hheld), fun again p hp hp' => ?_,
      fun _ _ => ⟨_, hrow, .inl hlost⟩, fun r hr => ?_, fun r hr => ?_,
      fun _ p hover => (by cases hover)⟩
    · cases again with
      | false =>
        cases hp
        exact hrefused hp'
      | true =>
        cases hp
        rfl
    · cases hr
      exact ⟨rfl, rfl, hnow, rfl⟩
    · cases hr
      exact .inl ⟨rfl, rfl⟩

/-- The row that is recorded of a retry. -/
theorem Filed.rowIn_retry (h : c.Filed recorded) {retry : Posted} (hretry : c.retry = some retry)
    (refused : Bool) (now : Int) (answer : Answer) (chaos : Option ChaosMark) (id : Nat) :
    Posted.RowIn (recorded ++ [{ retry.call.attempt now answer 0 chaos with id := id }])
      { retry with refused := refused, attemptId := some id }
      { retry.call.attempt now answer 0 chaos with id := id } where
  mem := List.mem_append_right _ List.mem_cons_self
  id := rfl
  placement := by
    show isOrderPlacement "POST" retry.call.path = true
    rw [(h.retry retry hretry).1]
    exact h.path
  sentAt := rfl
  key := rfl

/-- The gateway has what came of the retry; `recorded` has the row of it already. -/
theorem Filed.retryAnswered (h : c.Filed recorded) {retry : Posted} (hretry : c.retry = some retry)
    (hstage : c.stage = .retrying) {refused : Bool} {answer : Answer}
    {placed : Option PlacedResponse} (hheard : Heard c retry refused answer placed) {id : Nat}
    {row : Attempt}
    (hrow : Posted.RowIn recorded { retry with refused := refused, attemptId := some id } row)
    (hstatus : row.status = answer.status) (horder : row.orderId = answer.orderId) :
    Filed recorded { c with
      retry := some { retry with refused := refused, attemptId := some id }
      stage := .returned none } := by
  obtain ⟨hpath, hretryOf, hsentAt, -⟩ := h.retry retry hretry
  refine ⟨h.path, fun hheld => (by cases hheld), fun again p hp hp' => ?_, fun _ _ => ?_,
    fun r hr => ?_, fun r hr => ?_, fun _ p hover => (by cases hover)⟩
  · cases again with
    | false => exact h.refused false p hp hp'
    | true =>
      cases hp
      cases hheard with
      | lost _ h => exact h hp'
      | order => cases hp'
      | refused _ _ hstored => exact hstored
  · obtain ⟨first, hfirst, hwhy⟩ := h.first (by simp [hstage]) (by simp [hstage])
    refine ⟨first, hfirst, .inl (hwhy.resolve_right fun hno => ?_)⟩
    cases hno.1.symm.trans hretry
  · cases hr
    exact ⟨hpath, hretryOf, hsentAt, rfl⟩
  · cases hr
    refine .inr ⟨row, hrow, ?_⟩
    cases hheard with
    | lost hlost => exact .inl (hstatus.trans hlost)
    | @order _ born _ hid hborn =>
      exact .inr (.inr ⟨born, by simpa [PlacingCall.stored, hretry] using hborn, horder.trans hid⟩)
    | refused => exact .inr (.inl rfl)

/-- The client takes what it is told; a row of the loop names the order by then. -/
theorem Filed.settled (h : c.Filed recorded) {placed : Option PlacedResponse}
    (hstage : c.stage = .returned placed)
    (hnamed : c.client = .simulation → ∀ p, placed = some p → ∃ row, c.first.RowIn recorded row ∧
      (row.orderId = some p.orderId ∨ recorded.length ≥ row.id + ATTEMPTS_CAPACITY)) :
    Filed recorded { c with stage := .over placed } := by
  refine ⟨h.path, fun hheld => (by cases hheld), h.refused, fun _ _ => ?_, fun r hr => ?_,
    fun r hr => ?_, fun hclient p hp => ?_⟩
  · obtain ⟨row, hrow, hwhy⟩ := h.first (by simp [hstage]) (by simp [hstage])
    exact ⟨row, hrow, by simpa [hstage, Stage.placed] using hwhy⟩
  · simpa [hstage, Stage.placed] using h.retry r hr
  · exact .inr ((h.again r hr).resolve_left fun hno => by cases hstage.symm.trans hno.1)
  · cases hp
    exact hnamed hclient p rfl

/-! ### Losses -/

/-- The row that stands for a placement nobody was told of: that of its retry, unless the retry is
    still out or was refused. -/
def loss (c : PlacingCall) : Option Nat :=
  match c.retry with
  | some r => if r.refused then c.first.attemptId else r.attemptId.or c.first.attemptId
  | none => c.first.attemptId

/-- **A stored order nobody was told of has a row**: one that names the order, or a loss that is
    not from before `since`, if no request that may have stored it is. -/
theorem Filed.row_of_loss (h : c.Filed recorded) {born : OrderRow} (hborn : c.stored = some born)
    (hstage : c.stage ≠ .held ∧ c.stage ≠ .sent ∧ c.stage.placed = none) (since : Int)
    (hsince : ∀ again p, c.request again = some p → p.stored = some born → since ≤ p.call.sentAt)
    (hretrying : c.stage = .retrying → since ≤ c.first.call.sentAt) :
    ∃ row p again, c.request again = some p ∧ p.RowIn recorded row ∧ c.loss = some row.id ∧
      (row.orderId = some born.id ∨ row.status = 0 ∧ since ≤ row.sentAt) := by
  obtain ⟨first, hfirst, hwhy⟩ := h.first hstage.1 hstage.2.1
  cases hr : c.retry with
  | none =>
    have hstored : c.first.stored = some born := by simpa [stored, hr] using hborn
    refine ⟨first, c.first, false, rfl, hfirst, by simp [loss, hr, hfirst.id], .inr ⟨?_, ?_⟩⟩
    · rcases hwhy with hlost | ⟨-, hrefused | htold⟩
      · exact hlost
      · cases hstored.symm.trans (h.refused false _ rfl hrefused)
      · simp [hstage.2.2] at htold
    · rw [hfirst.sentAt]
      exact hsince false _ rfl hstored
  | some r =>
    have hlost : first.status = 0 := hwhy.resolve_right fun hno => by cases hno.1.symm.trans hr
    have hstored : c.first.stored = some born ∨ r.stored = some born := by
      simp only [stored, hr, Option.bind_some, Option.or_eq_some_iff] at hborn
      exact hborn.imp_right And.right
    rcases h.again r hr with ⟨hwaits, hnone⟩ | ⟨row, hrow, hwhy'⟩
    -- the retry is out: the first request is the loss
    · refine ⟨first, c.first, false, rfl, hfirst, ?_, .inr ⟨hlost, ?_⟩⟩
      · simp [loss, hr, hnone, hfirst.id]
      · rw [hfirst.sentAt]
        exact hretrying hwaits
    · cases hrefused : r.refused with
      -- it was refused: so the first request stored the order
      | true =>
        have hfirst_stored : c.first.stored = some born := hstored.resolve_right fun hno => by
          cases hno.symm.trans (h.refused true r hr hrefused)
        refine ⟨first, c.first, false, rfl, hfirst, by simp [loss, hr, hrefused, hfirst.id],
          .inr ⟨hlost, ?_⟩⟩
        rw [hfirst.sentAt]
        exact hsince false _ rfl hfirst_stored
      | false =>
        refine ⟨row, r, true, hr, hrow, by simp [loss, hr, hrefused, hrow.id], ?_⟩
        rcases hwhy' with hlost' | hno | ⟨born', hborn', hid⟩
        · refine .inr ⟨hlost', ?_⟩
          rw [hrow.sentAt]
          rcases hstored with hfirst_stored | hretry_stored
          · exact (hsince false _ rfl hfirst_stored).trans (h.retry r hr).2.2.1
          · exact hsince true _ hr hretry_stored
        · cases hrefused.symm.trans hno
        · cases hborn.symm.trans hborn'
          exact .inl hid

end PlacingCall

namespace Harness

/-- Every placement is on file, under a key of its own. -/
structure Filed (s : Harness) (recorded : List Attempt) : Prop where
  holds : s.store.Holds recorded
  keys : (s.calls.map (·.first.call.key)).Nodup
  sentAt : ∀ c ∈ s.calls, c.first.call.sentAt ≤ s.clock
  calls : ∀ c ∈ s.calls, c.Filed recorded

variable {users : List Int} {s s' : Harness} {recorded recorded' : List Attempt}

theorem filed_start (orders : Orders) : (start orders).Filed [] where
  holds := AttemptsStore.holds_empty
  keys := by simp [start]
  sentAt := by simp [start]
  calls := by simp [start]

/-- A placement is taken on. -/
theorem Filed.take (h : s.Filed recorded) {client : Client} {call : KeyedCall}
    (hcalls : s'.calls = s.calls ++ [.fresh client call]) (hstore : s'.store = s.store)
    (hclock : s'.clock = s.clock) (hkey : ∀ c ∈ s.calls, c.first.call.key ≠ call.key)
    (hsentAt : call.sentAt = s.clock) (hpath : isOrderPlacement "POST" call.path = true) :
    s'.Filed recorded where
  holds := hstore ▸ h.holds
  keys := by
    rw [hcalls, List.map_append, List.map_singleton, ← List.concat_eq_append]
    refine List.Nodup.concat (fun hmem => ?_) h.keys
    obtain ⟨c, hc, heq⟩ := List.mem_map.mp hmem
    exact hkey c hc heq
  sentAt c hc := by
    rw [hclock]
    rcases List.mem_append.mp (hcalls ▸ hc) with hc | hc
    · exact h.sentAt c hc
    · cases List.mem_singleton.mp hc
      exact hsentAt.le
  calls c hc := by
    rcases List.mem_append.mp (hcalls ▸ hc) with hc | hc
    · exact h.calls c hc
    · cases List.mem_singleton.mp hc
      exact PlacingCall.filed_fresh hpath

/-- A call moves on, with what is recorded by then. -/
theorem Filed.setCall (h : s.Filed recorded') {j : Nat} {c c' : PlacingCall}
    (hj : s.calls[j]? = some c) (hcalls : s'.calls = s.calls.set j c') (hstore : s'.store = s.store)
    (hclock : s'.clock = s.clock) (hkey : c'.first.call.key = c.first.call.key)
    (hsentAt : c'.first.call.sentAt ≤ s.clock) (hfiled : c'.Filed recorded') :
    s'.Filed recorded' where
  holds := hstore ▸ h.holds
  keys := by
    have hsame : (s.calls.map (·.first.call.key)).set j c'.first.call.key =
        s.calls.map (·.first.call.key) := by
      apply List.ext_getElem?
      intro i
      by_cases hij : j = i
      · subst hij
        rw [hkey, List.getElem?_set_self']
        simp [hj]
      · rw [List.getElem?_set_ne hij]
    rw [hcalls, List.map_set, hsame]
    exact h.keys
  sentAt := by
    rw [hcalls, hclock]
    exact forall_mem_set h.sentAt hsentAt j
  calls := by
    rw [hcalls]
    exact forall_mem_set h.calls hfiled j

/-- One more row is recorded. -/
theorem Filed.record (h : s.Filed recorded) (ht : s.Truthful users) (attempt : Attempt) :
    Filed { s with store := s.store.record attempt }
      (recorded ++ [{ attempt with id := s.store.nextId }]) where
  holds := h.holds.record attempt
  keys := h.keys
  sentAt := h.sentAt
  calls c hc := (h.calls c hc).mono (ht.calls c hc) (f := fun row => row)
    (fun _ hrow => List.mem_append_left _ hrow) (by simp) .refl fun _ _ _ _ => rfl

/-- The row of a placement is annotated. -/
theorem Filed.annotate (h : s.Filed recorded) (ht : s.Truthful users) {c : PlacingCall}
    (hc : c ∈ s.calls) {row : Attempt} (hrow : c.first.RowIn recorded row)
    (details : Attempt → Attempt) (hlike : ∀ row, (details row).Like row)
    (horder : c.retry.isSome ∨ (∃ p, c.stage = .over (some p)) →
      ∀ row, (details row).orderId = row.orderId) :
    Filed { s with store := s.store.annotate row.id details }
      (AttemptsStore.annotated recorded row.id details) where
  holds := h.holds.annotated row.id details fun row => (hlike row).id
  keys := h.keys
  sentAt := h.sentAt
  calls d hd := by
    refine (h.calls d hd).mono (ht.calls d hd) (fun old hold => List.mem_map_of_mem hold) (by simp)
      (fun old => ?_) (fun hnames old hold hkey => ?_)
    · split
      · exact hlike old
      · exact .refl old
    · split
      · rename_i hsame
        -- the row is of this placement, since its key is
        have hrow_eq := h.holds.eq_of_id hold hrow.mem hsame.1
        have hdc : d = c := List.inj_on_of_nodup_map h.keys hd hc
          (Option.some.inj (hkey.symm.trans (hrow_eq ▸ hrow.key)))
        exact horder (hdc ▸ hnames) old
      · rfl

/-- The client takes what it is told, and a row of its own is told of the order. -/
theorem Filed.settle (h : s.Filed recorded) (ht : s.Truthful users) {j : Nat} {c : PlacingCall}
    {placed : Option PlacedResponse} (hj : s.calls[j]? = some c)
    (hstage : c.stage = .returned placed) {first : Attempt} (hfirst : c.first.RowIn recorded first)
    (expected : Expectation) : ∃ recorded', (s.settle j c first.id placed expected).Filed recorded' := by
  have hmem := List.mem_of_getElem? hj
  have hfiled := h.calls c hmem
  cases hdetails : annotateOf c expected placed with
  | none =>
    have hproxy : c.client ≠ .simulation := fun hclient => by
      simp [annotateOf, hclient] at hdetails
    refine ⟨recorded, h.setCall hj rfl ?_ rfl rfl (h.sentAt c hmem)
      (hfiled.settled hstage fun hclient => absurd hclient hproxy)⟩
    simp [Harness.settle, hdetails]
  | some details =>
    have horder : details.orderId = placed.map (·.orderId) := by
      unfold annotateOf at hdetails
      split at hdetails <;> cases hdetails <;> rfl
    have h₂ := h.annotate ht hmem hfirst details.write
      (fun _ => ⟨rfl, rfl, rfl, rfl, rfl, rfl⟩) fun hwhy row => by
        -- a placement that was sent again is told of nothing
        have hplaced : placed = none := by
          rcases hwhy with hretry | ⟨p, hover⟩
          · obtain ⟨r, hr⟩ := Option.isSome_iff_exists.mp hretry
            have hnone := (hfiled.retry r hr).2.2.2
            rwa [hstage] at hnone
          · cases hstage.symm.trans hover
        simp [Details.write, horder, hplaced]
    refine ⟨_, h₂.setCall hj rfl ?_ rfl rfl (h.sentAt c hmem)
      ((h₂.calls c hmem).settled hstage fun _ p hp => ?_)⟩
    · simp [Harness.settle, hdetails]
    · refine ⟨_, hfirst.like (List.mem_map_of_mem hfirst.mem) ?_, ?_⟩
      · split
        · exact ⟨rfl, rfl, rfl, rfl, rfl, rfl⟩
        · exact .refl _
      · split
        · exact .inl (by simp [Details.write, horder, hp])
        · rename_i hgone
          exact .inr (by rw [AttemptsStore.length_annotated]; omega)

/-- **One step keeps every placement on file.** -/
theorem Filed.step (h : s.Filed recorded) (ht : s.Truthful users) {e : HarnessEvent}
    (hstep : (harness users).step s e = some s') : ∃ recorded', s'.Filed recorded' := by
  cases took_of_step hstep with
  | ticked hclock =>
    exact ⟨recorded, h.holds, h.keys, fun c hc => (h.sentAt c hc).trans hclock, h.calls⟩
  | started | marked | firedCancel | postedCancel | shedCancel | performedCancel | folded | read
  | foreign => exact ⟨recorded, h.holds, h.keys, h.sentAt, h.calls⟩
  | placed _ hpath hkey => exact ⟨recorded, h.take rfl rfl rfl hkey rfl hpath⟩
  | fired _ _ hkey => exact ⟨recorded, h.take rfl rfl rfl hkey rfl
    (show isOrderPlacement "POST" "/orders" = true by decide)⟩
  | posted hj hstage =>
    have hmem := List.mem_of_getElem? hj
    exact ⟨recorded, h.setCall hj rfl rfl rfl rfl le_rfl
      ((h.calls _ hmem).posted (ht.calls _ hmem) hstage _)⟩
  | @committed j again row c p hj hp hstage hmay hnone =>
    have hmem := List.mem_of_getElem? hj
    refine ⟨recorded, h.setCall hj rfl rfl rfl ?_ ?_
      ((h.calls c hmem).committed hp hnone hstage hmay.1)⟩
    · cases again with
      | false =>
        cases hp
        rfl
      | true => rfl
    · cases again with
      | false =>
        cases hp
        exact h.sentAt c hmem
      | true => exact h.sentAt c hmem
  | @answered j reply delayedMs dropped retried c refused answer placed chaos hj hstage hheard =>
    have hmem := List.mem_of_getElem? hj
    obtain ⟨retry, stage, heq, hnext⟩ := recordFirst_spec ..
    rw [heq]
    exact ⟨_, (h.record ht _).setCall hj rfl rfl rfl rfl (h.sentAt c hmem)
      ((h.calls c hmem).answered (ht.calls c hmem) hstage hheard (h.sentAt c hmem) hnext)⟩
  | @retryAnswered j reply c retry lost refused answer placed hj hstage hretry hlost hheard =>
    have hmem := List.mem_of_getElem? hj
    have hfiled := h.calls c hmem
    obtain ⟨first, hfirst, -⟩ := hfiled.first (by simp [hstage]) (by simp [hstage])
    obtain rfl : lost = first.id := Option.some.inj (hlost.symm.trans hfirst.id)
    have h₂ := (h.record ht (retry.call.attempt s.clock answer 0 (some ⟨none, none, some first.id,
      none⟩))).annotate (ht.record _) hmem
      (hfirst.like (List.mem_append_left _ hfirst.mem) (.refl _))
      (fun row => { row with
        chaos := some
          { row.chaos.getD ⟨none, none, none, none⟩ with retriedBy := some s.store.nextId } })
      (fun _ => ⟨rfl, rfl, rfl, rfl, rfl, rfl⟩) (fun _ _ => rfl)
    have hnew := hfiled.rowIn_retry hretry refused s.clock answer
      (some ⟨none, none, some first.id, none⟩) s.store.nextId
    have hne : s.store.nextId ≠ first.id := (h.holds.id_lt hfirst.mem).ne'
    exact ⟨_, h₂.setCall hj rfl rfl rfl rfl (h.sentAt c hmem)
      ((h₂.calls c hmem).retryAnswered hretry hstage hheard
        (hnew.like (AttemptsStore.mem_annotated_of_ne hnew.mem hne _) (.refl _)) rfl
        (if_pos (hfiled.retry retry hretry).2.1))⟩
  | @settled j expected c placed id hj hstage hid =>
    have hmem := List.mem_of_getElem? hj
    have hfiled := h.calls c hmem
    obtain ⟨first, hfirst, -⟩ := hfiled.first (by simp [hstage]) (by simp [hstage])
    obtain rfl : id = first.id := Option.some.inj (hid.symm.trans hfirst.id)
    exact h.settle ht hj hstage hfirst expected
  | other | answeredCancel =>
    exact ⟨_, (h.record ht _).holds, h.keys, h.sentAt, (h.record ht _).calls⟩

end Harness

end Cocos.Tools
