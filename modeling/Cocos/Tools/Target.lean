import Cocos.Tools.Harness

namespace Cocos.Tools

open Cocos.Lib

/-!
# What the target stores and says

What a correct target leaves behind, at every moment of a run.

* `PlacingCall.Told`, `Harness.Truthful` — a placement is answered with the order that is stored
  under its key;
* `Harness.Stored` — that order is still in its table, as it was or cancelled by a cancel of the
  run, and no order is cancelled twice;
* `truthful_run`, `stored_run` — **both hold in every state of a run**.
-/

/-- The order a client has been told of. -/
def Stage.placed : Stage → Option PlacedResponse
  | .returned placed | .over placed => placed
  | .held | .sent | .retrying => none

/-- What is said of a stored row is all read off its columns. -/
theorem answerOf_eq_some {row : OrderRow} {placed : PlacedResponse}
    (h : answerOf row = some placed) : row.id = placed.orderId ∧ row.status = some placed.status ∧
      row.size = some placed.size ∧ row.price.map priceText = some placed.price := by
  unfold answerOf at h
  split at h
  · rename_i v hview
    obtain ⟨price, datetime, hprice, -, rfl⟩ := view_eq_ok hview
    unfold asPlacedOrder at h
    split at h
    · cases h
      exact ⟨rfl, ‹_›, ‹_›, by rw [hprice, apiString_eq]; rfl⟩
    · cases h
  · cases h

/-! ### Placements -/

namespace PlacingCall

/-- What is true of a placement while it is under way, over `users` where the run places it. -/
structure Told (users : List Int) (c : PlacingCall) : Prop where
  user : c.client = .load → c.first.call.userId ∈ users
  unsent : c.stage = .held ∨ c.stage = .sent → c.retry = none
  retry : ∀ p, c.retry = some p →
    p.call.userId = c.first.call.userId ∧ p.call.key = c.first.call.key
  stored : ∀ row, c.stored = some row →
    row.hasKey c.first.call.userId c.first.call.key = true ∧ (answerOf row).isSome
  told : ∀ placed, c.stage.placed = some placed →
    ∃ row, c.stored = some row ∧ answerOf row = some placed

variable {users : List Int} {c : PlacingCall}

theorem told_fresh {client : Client} {call : KeyedCall}
    (huser : client = .load → call.userId ∈ users) : (fresh client call).Told users where
  user := huser
  unsent _ := rfl
  retry p h := by cases h
  stored row h := by cases h
  told placed h := by cases h

/-- One order at most is stored under a key, for the first request or for the retry of it. -/
theorem stored_setRequest {again : Bool} {p : Posted} (hp : c.request again = some p)
    (hnone : c.stored = none) (row : OrderRow) :
    (c.setRequest again { p with stored := some row }).stored = some row := by
  cases again with
  | false => rfl
  | true =>
    have hfirst : c.first.stored = none := (Option.or_eq_none_iff.mp hnone).1
    simp [setRequest, stored, hfirst]

theorem stored_eq_none (h : c.stored = none) {again : Bool} {p : Posted}
    (hp : c.request again = some p) : p.stored = none := by
  obtain ⟨hfirst, hretry⟩ := Option.or_eq_none_iff.mp h
  cases again with
  | false =>
    cases hp
    exact hfirst
  | true =>
    have hr : c.retry = some p := hp
    rwa [hr] at hretry

/-- The requests of a placement, once one of them is dealt with. -/
theorem request_setRequest {again again' : Bool} {p q : Posted}
    (h : (c.setRequest again p).request again' = some q) : q = p ∨ c.request again' = some q := by
  cases again <;> cases again' <;> first | exact .inr h | exact .inl (Option.some.inj h).symm

/-- What came of the first request changes nothing that is stored. -/
theorem stored_answered {client : Client} (hnone : c.retry = none) {refused : Bool} {id : Nat}
    {status : Nat} {placed : Option PlacedResponse} {retry : Option Posted} {stage : Stage}
    {call : KeyedCall} (hnext : retry = c.retry ∧ stage = .returned placed ∨
      status = 0 ∧ stage = .retrying ∧ retry = some (.fresh call)) :
    stored ⟨client, { c.first with refused := refused, attemptId := some id }, retry, stage⟩ =
      c.stored := by
  rcases hnext with ⟨rfl, -⟩ | ⟨-, -, rfl⟩
  · rfl
  · simp [stored, hnone, Posted.fresh]

/-- A call goes out. -/
theorem Told.posted (h : c.Told users) (hstage : c.stage = .held) (now : Int) :
    Told users { c with
      first := { c.first with call := { c.first.call with sentAt := now } }
      stage := .sent } where
  user := h.user
  unsent _ := h.unsent (.inl hstage)
  retry := h.retry
  stored := h.stored
  told placed h := by cases h

/-- An order is stored for a request. -/
theorem Told.committed (h : c.Told users) {again : Bool} {p : Posted} {row : OrderRow}
    (hp : c.request again = some p) (hnone : c.stored = none)
    (hkey : row.hasKey p.call.userId p.call.key = true) (hanswer : (answerOf row).isSome) :
    (c.setRequest again { p with stored := some row }).Told users := by
  have hset := stored_setRequest hp hnone row
  have htold : ∀ placed, c.stage.placed ≠ some placed := fun placed hplaced => by
    obtain ⟨row, hrow, -⟩ := h.told placed hplaced
    rw [hnone] at hrow
    cases hrow
  cases again with
  | false =>
    cases hp
    exact ⟨h.user, h.unsent, h.retry,
      fun _ hrow => Option.some.inj (hset.symm.trans hrow) ▸ ⟨hkey, hanswer⟩,
      fun placed hplaced => absurd hplaced (htold placed)⟩
  | true =>
    obtain ⟨huser, hkeys⟩ := h.retry p hp
    refine ⟨h.user, fun hearly => ?_, fun _ hq => ?_, fun _ hrow => ?_,
      fun placed hplaced => absurd hplaced (htold placed)⟩
    · exact absurd ((h.unsent hearly).symm.trans hp) (by simp)
    · cases hq
      exact ⟨huser, hkeys⟩
    · cases hset.symm.trans hrow
      exact ⟨huser ▸ hkeys ▸ hkey, hanswer⟩

/-- The gateway has what came of the first request, and may send it again. -/
theorem Told.answered (h : c.Told users) (hstage : c.stage = .sent) {refused : Bool}
    {answer : Answer} {placed : Option PlacedResponse}
    (hheard : Heard c c.first refused answer placed) {attemptId : Nat} {retry : Option Posted}
    {stage : Stage} {now : Int}
    (hnext : retry = c.retry ∧ stage = .returned placed ∨
      answer.status = 0 ∧ stage = .retrying ∧ retry = some (.fresh
        { c.first.call with sentAt := now, retryOf := some attemptId })) :
    Told users ⟨c.client, { c.first with refused := refused, attemptId := some attemptId }, retry,
      stage⟩ := by
  have hnone := h.unsent (.inr hstage)
  rcases hnext with ⟨rfl, rfl⟩ | ⟨-, rfl, rfl⟩
  · refine ⟨h.user, fun hearly => by simp at hearly, h.retry, h.stored, fun p hp => ?_⟩
    cases hheard with
    | lost | refused => cases hp
    | @order _ row _ _ hrow => exact ⟨row, hrow, hp⟩
  · refine ⟨h.user, fun hearly => by simp at hearly, fun p hp => ?_, fun row hrow => ?_,
      fun p hp => by cases hp⟩
    · cases hp
      exact ⟨rfl, rfl⟩
    · exact h.stored row (by simpa [PlacingCall.stored, hnone, Posted.fresh] using hrow)

/-- So it has for the retry, which is not told to anyone. -/
theorem Told.retryAnswered (h : c.Told users) {retry : Posted} (hretry : c.retry = some retry)
    {refused : Bool} {attemptId : Nat} :
    Told users { c with
      retry := some { retry with refused := refused, attemptId := some attemptId }
      stage := .returned none } where
  user := h.user
  unsent hearly := by simp at hearly
  retry p hp := by
    cases hp
    exact h.retry retry hretry
  stored row hrow := h.stored row (by simpa [PlacingCall.stored, hretry] using hrow)
  told placed hplaced := by cases hplaced

/-- The client takes what it is told. -/
theorem Told.settled (h : c.Told users) {placed : Option PlacedResponse}
    (hstage : c.stage = .returned placed) : Told users { c with stage := .over placed } where
  user := h.user
  unsent hearly := by simp at hearly
  retry := h.retry
  stored := h.stored
  told p hp := h.told p (by rw [hstage]; exact hp)

end PlacingCall

namespace Harness

variable {users : List Int} {s s' : Harness}

/-- The steps a run has before it are placements of its users. -/
structure Planned (users : List Int) (run : LoadRun) : Prop where
  due : ∀ step ∈ run.due, step.order.userId ∈ users
  waves : ∀ wave ∈ run.waves, ∀ step ∈ wave, step.order.userId ∈ users

theorem Planned.next {run : LoadRun} (h : Planned users run) : Planned users run.next := by
  unfold LoadRun.next
  split
  · exact ⟨h.due, h.waves⟩
  · rename_i wave waves hwaves
    have hall := hwaves ▸ h.waves
    exact ⟨hall wave List.mem_cons_self, fun wave' hwave' =>
      hall wave' (List.mem_cons_of_mem _ hwave')⟩

/-- Every placement is told the truth, and the run goes on with its own. -/
structure Truthful (users : List Int) (s : Harness) : Prop where
  calls : ∀ c ∈ s.calls, c.Told users
  plan : ∀ run, s.run = some run → Planned users run

theorem truthful_start (users : List Int) (orders : Orders) : (start orders).Truthful users where
  calls := by simp [start]
  plan run h := by cases h

/-- What is recorded changes nothing of that. -/
theorem Truthful.record (h : s.Truthful users) (attempt : Attempt) :
    Truthful users { s with store := s.store.record attempt } := ⟨h.calls, h.plan⟩

/-- A call moves on. -/
theorem Truthful.setCall (h : s.Truthful users) {j : Nat} {c : PlacingCall}
    (hcalls : s'.calls = s.calls.set j c) (hrun : Counted s.run s'.run)
    (htold : c.Told users) : s'.Truthful users := by
  obtain ⟨f, hrun⟩ := hrun
  constructor
  · rw [hcalls]
    exact forall_mem_set h.calls htold j
  · intro run' hrun'
    obtain ⟨run, h', rfl⟩ := Option.map_eq_some_iff.mp (hrun.symm.trans hrun')
    exact ⟨(h.plan run h').due, (h.plan run h').waves⟩

/-- **One step keeps to the truth.** -/
theorem Truthful.step (h : s.Truthful users) {e : HarnessEvent}
    (hstep : (harness users).step s e = some s') : s'.Truthful users := by
  cases took_of_step hstep with
  | ticked | other | foreign | postedCancel | shedCancel | performedCancel =>
    exact ⟨h.calls, h.plan⟩
  | placed hclient =>
    refine ⟨forall_mem_concat h.calls ?_, h.plan⟩
    exact PlacingCall.told_fresh fun hload => absurd hload hclient
  | started hrun hwaves =>
    refine ⟨h.calls, fun _ hrun' => ?_⟩
    cases hrun'
    exact ⟨by simp [LoadRun.start], hwaves⟩
  | marked hrun =>
    refine ⟨h.calls, fun _ hrun' => ?_⟩
    cases hrun'
    have hplan := h.plan _ hrun
    exact Planned.next ⟨hplan.due, hplan.waves⟩
  | firedCancel hrun hdue =>
    refine ⟨h.calls, fun _ hrun' => ?_⟩
    cases hrun'
    have hplan := h.plan _ hrun
    exact ⟨fun step hstep => hplan.due step (by rw [hdue]; exact List.mem_cons_of_mem _ hstep),
      hplan.waves⟩
  | fired hrun hdue =>
    have hplan := h.plan _ hrun
    constructor
    · refine forall_mem_concat h.calls (PlacingCall.told_fresh fun _ => hplan.due _ ?_)
      rw [hdue]
      exact List.mem_cons_self
    · intro _ hrun'
      cases hrun'
      exact ⟨fun step hstep => hplan.due step (by rw [hdue]; exact List.mem_cons_of_mem _ hstep),
        hplan.waves⟩
  | posted hj hstage =>
    exact h.setCall rfl (.refl _) ((h.calls _ (List.mem_of_getElem? hj)).posted hstage _)
  | committed hj hp _ _ hnone hkey _ hanswer =>
    exact h.setCall rfl (.refl _)
      ((h.calls _ (List.mem_of_getElem? hj)).committed hp hnone hkey hanswer)
  | answered hj hstage hheard =>
    obtain ⟨retry, stage, heq, hnext⟩ := recordFirst_spec ..
    rw [heq]
    exact h.setCall rfl (.refl _)
      ((h.calls _ (List.mem_of_getElem? hj)).answered hstage hheard hnext)
  | retryAnswered hj _ hretry =>
    exact h.setCall rfl (.refl _) ((h.calls _ (List.mem_of_getElem? hj)).retryAnswered hretry)
  | settled hj hstage =>
    exact h.setCall rfl (counted_settle ..)
      ((h.calls _ (List.mem_of_getElem? hj)).settled hstage)
  | answeredCancel =>
    refine ⟨h.calls, fun _ hrun' => ?_⟩
    obtain ⟨run, hrun, rfl⟩ := Option.map_eq_some_iff.mp hrun'
    exact ⟨(h.plan run hrun).due, (h.plan run hrun).waves⟩
  | folded hrun =>
    refine ⟨h.calls, fun _ hrun' => ?_⟩
    cases hrun'
    have hplan := h.plan _ hrun
    exact Planned.next ⟨hplan.due, hplan.waves⟩
  | read hrun =>
    refine ⟨h.calls, fun _ hrun' => ?_⟩
    cases hrun'
    exact ⟨(h.plan _ hrun).due, (h.plan _ hrun).waves⟩

theorem truthful_run {orders : Orders} {es : List HarnessEvent}
    (h : (harness users).run (start orders) es = some s) : s.Truthful users :=
  (harness users).invariant_run (fun hi hstep => Truthful.step hi hstep)
    (truthful_start users orders) h

/-! ### The table -/

/-- A cancel of an order has been performed. -/
def Performed (s : Harness) (id : Int) : Prop :=
  ∃ d ∈ s.cancels, d.orderId = id ∧ d.performed = some true

/-- `row` is what `born` has become: it is as it was, or was resting and a cancel of the run took
    it. -/
def Became (s : Harness) (born row : OrderRow) : Prop :=
  row = born ∨ born.status = some OrderStatus.NEW.text ∧ row = born.cancelled ∧ s.Performed born.id

theorem Became.id_eq {born row : OrderRow} (h : s.Became born row) : row.id = born.id := by
  rcases h with rfl | ⟨-, rfl, -⟩ <;> rfl

theorem Became.mono {born row : OrderRow} (h : s.Became born row)
    (hp : ∀ id, s.Performed id → s'.Performed id) : s'.Became born row := by
  rcases h with h | ⟨hnew, hrow, hperformed⟩
  · exact .inl h
  · exact .inr ⟨hnew, hrow, hp _ hperformed⟩

/-- The target keeps what it stores: every order it stored is in its table, and a cancel it
    performed has taken its order, which no other cancel takes after that. -/
structure Stored (s : Harness) : Prop where
  ids : (s.orders.map (·.id)).Nodup
  rows : ∀ c ∈ s.calls, ∀ born, c.stored = some born → ∃ row ∈ s.orders, s.Became born row
  taken : ∀ d ∈ s.cancels, d.performed = some true →
    ∃ row ∈ s.orders, row.id = d.orderId ∧ row.status = some OrderStatus.CANCELLED.text
  once : ∀ (k k' : Nat) (d d' : CancelCall), s.cancels[k]? = some d → s.cancels[k']? = some d' →
    d.performed = some true → d'.performed = some true → d.orderId = d'.orderId → k = k'

theorem stored_start {orders : Orders} (h : (orders.map (·.id)).Nodup) : (start orders).Stored where
  ids := h
  rows := by simp [start]
  taken := by simp [start]
  once := by simp [start]

/-- Nothing is stored and no cancel is performed. -/
theorem Stored.congr (h : s.Stored) (horders : s'.orders = s.orders)
    (hcalls : ∀ c' ∈ s'.calls, ∀ born, c'.stored = some born →
      ∃ c ∈ s.calls, c.stored = some born)
    (hcancels : s'.cancels = s.cancels) : s'.Stored where
  ids := horders ▸ h.ids
  rows c' hc' born hborn := by
    obtain ⟨c, hc, hborn⟩ := hcalls c' hc' born hborn
    obtain ⟨row, hrow, hbecame⟩ := h.rows c hc born hborn
    refine ⟨row, horders ▸ hrow, hbecame.mono fun id hid => ?_⟩
    rwa [Performed, hcancels]
  taken d hd := horders ▸ h.taken d (hcancels ▸ hd)
  once := hcancels ▸ h.once

/-- A call moves on, and nothing is stored for it. -/
theorem Stored.setCall (h : s.Stored) (horders : s'.orders = s.orders)
    (hcancels : s'.cancels = s.cancels) {j : Nat} {c c' : PlacingCall}
    (hcalls : s'.calls = s.calls.set j c') (hj : s.calls[j]? = some c)
    (hstored : c'.stored = c.stored) : s'.Stored := by
  refine h.congr horders (fun d hd born hborn => ?_) hcancels
  rw [hcalls] at hd
  rcases List.mem_or_eq_of_mem_set hd with hd | rfl
  · exact ⟨d, hd, hborn⟩
  · exact ⟨c, List.mem_of_getElem? hj, hstored ▸ hborn⟩

/-- A cancel moves on, and is not performed. -/
theorem Stored.setCancel (h : s.Stored) (horders : s'.orders = s.orders)
    (hcalls : s'.calls = s.calls) {k : Nat} {d d' : CancelCall}
    (hcancels : s'.cancels = s.cancels.set k d') (hk : s.cancels[k]? = some d)
    (hid : d'.orderId = d.orderId)
    (hperformed : d'.performed = some true ↔ d.performed = some true) : s'.Stored := by
  have hmem := List.mem_of_getElem? hk
  refine ⟨horders ▸ h.ids, fun c hc born hborn => ?_, fun e he hpe => ?_,
    fun i i' e e' hi hi' hpe hpe' heq => ?_⟩
  · obtain ⟨row, hrow, hbecame⟩ := h.rows c (hcalls ▸ hc) born hborn
    refine ⟨row, horders ▸ hrow, hbecame.mono fun id hp => ?_⟩
    rw [Performed, hcancels]
    exact exists_mem_set hk hp fun ⟨h1, h2⟩ => ⟨hid.trans h1, hperformed.mpr h2⟩
  · rw [hcancels] at he
    rw [horders]
    rcases List.mem_or_eq_of_mem_set he with he | rfl
    · exact h.taken e he hpe
    · exact hid ▸ h.taken d hmem (hperformed.mp hpe)
  · rw [hcancels, getElem?_set_eq_some hk] at hi hi'
    rcases hi with ⟨rfl, rfl⟩ | ⟨-, hi⟩ <;> rcases hi' with ⟨rfl, rfl⟩ | ⟨-, hi'⟩
    · rfl
    · exact h.once _ _ d e' hk hi' (hperformed.mp hpe) hpe' (hid ▸ heq)
    · exact h.once _ _ e d hi hk hpe (hperformed.mp hpe') (hid ▸ heq)
    · exact h.once _ _ e e' hi hi' hpe hpe' heq

/-- An order is stored: for a call, or for another user. -/
theorem Stored.concat (h : s.Stored) {row : OrderRow} (horders : s'.orders = s.orders ++ [row])
    (hcancels : s'.cancels = s.cancels) (hid : row.id ∉ s.orders.map (·.id))
    (hcalls : ∀ c' ∈ s'.calls, ∀ born, c'.stored = some born →
      born = row ∨ ∃ c ∈ s.calls, c.stored = some born) : s'.Stored where
  ids := by
    rw [horders, List.map_append, List.map_singleton, ← List.concat_eq_append]
    exact List.Nodup.concat hid h.ids
  rows c' hc' born hborn := by
    rcases hcalls c' hc' born hborn with rfl | ⟨c, hc, hold⟩
    · exact ⟨born, by simp [horders], .inl rfl⟩
    · obtain ⟨row, hrow, hbecame⟩ := h.rows c hc born hold
      refine ⟨row, by simp [horders, hrow], hbecame.mono fun id hid => ?_⟩
      rwa [Performed, hcancels]
  taken d hd hp := by
    obtain ⟨row, hrow, htaken⟩ := h.taken d (hcancels ▸ hd) hp
    exact ⟨row, by simp [horders, hrow], htaken⟩
  once := hcancels ▸ h.once

/-- The target takes up a cancel: it takes the order if that rests, and nothing otherwise. -/
theorem Stored.perform (h : s.Stored) {k : Nat} {d d' : CancelCall}
    (horders : s'.orders = s.orders.map (OrderRow.afterCancel d.orderId))
    (hcalls : s'.calls = s.calls) (hcancels : s'.cancels = s.cancels.set k d')
    (hk : s.cancels[k]? = some d) (hnone : d.performed = none) (hid : d'.orderId = d.orderId)
    (hperformed : d'.performed = some (cancelOrder s.orders d.orderId CANCELLABLE).1.isSome) :
    s'.Stored := by
  have hfound : d'.performed = some true ↔ ∃ row ∈ s.orders,
      row.id = d.orderId ∧ row.status = some OrderStatus.NEW.text := by
    simp [hperformed, cancelOrder, List.find?_isSome, cancellable_iff]
  have hmono : ∀ id, s.Performed id → s'.Performed id := fun id hp => by
    rw [Performed, hcancels]
    exact exists_mem_set hk hp fun ⟨_, hold⟩ => by rw [hnone] at hold; cases hold
  -- the order a cancel has taken does not rest, so no other cancel finds it
  have hspent : ∀ e ∈ s.cancels, e.performed = some true → e.orderId = d.orderId →
      d'.performed ≠ some true := fun e he hpe heq hpd => by
    obtain ⟨row, hrow, hrid, hstatus⟩ := h.taken e he hpe
    obtain ⟨found, hmem, hfid, hnew⟩ := hfound.mp hpd
    have hsame : row = found := List.inj_on_of_nodup_map h.ids hrow hmem
      (hrid.trans (heq.trans hfid.symm))
    rw [hsame, hnew] at hstatus
    simp [OrderStatus.text] at hstatus
  refine ⟨?_, fun c hc born hborn => ?_, fun e he hpe => ?_,
    fun i i' e e' hi hi' hpe hpe' heq => ?_⟩
  · rw [horders, List.map_map]
    simpa [Function.comp_def] using h.ids
  · obtain ⟨row, hrow, hbecame⟩ := h.rows c (hcalls ▸ hc) born hborn
    refine ⟨row.afterCancel d.orderId, horders ▸ List.mem_map_of_mem hrow, ?_⟩
    rcases afterCancel_eq_or d.orderId row with hsame | ⟨hrid, hnew, hcancelled⟩
    · rw [hsame]
      exact hbecame.mono hmono
    · rcases hbecame with rfl | ⟨-, rfl, -⟩
      · refine .inr ⟨hnew, hcancelled, d', ?_, hid.trans hrid.symm,
          hfound.mpr ⟨_, hrow, hrid, hnew⟩⟩
        rw [hcancels]
        exact List.mem_set (List.getElem?_eq_some_iff.mp hk).1 d'
      · simp [OrderRow.cancelled, OrderStatus.text] at hnew
  · rw [hcancels] at he
    rw [horders]
    rcases List.mem_or_eq_of_mem_set he with he | rfl
    · obtain ⟨row, hrow, hrid, hstatus⟩ := h.taken e he hpe
      refine ⟨row.afterCancel d.orderId, List.mem_map_of_mem hrow, by simpa using hrid, ?_⟩
      rcases afterCancel_eq_or d.orderId row with hsame | ⟨-, -, hcancelled⟩
      · rw [hsame, hstatus]
      · rw [hcancelled]
        rfl
    · obtain ⟨row, hrow, hrid, hnew⟩ := hfound.mp hpe
      refine ⟨row.afterCancel d.orderId, List.mem_map_of_mem hrow, by simpa [hid] using hrid, ?_⟩
      rw [OrderRow.afterCancel, if_pos (cancellable_iff.mpr ⟨hrid, hnew⟩)]
      rfl
  · rw [hcancels, getElem?_set_eq_some hk] at hi hi'
    rcases hi with ⟨rfl, rfl⟩ | ⟨-, hi⟩ <;> rcases hi' with ⟨rfl, rfl⟩ | ⟨-, hi'⟩
    · rfl
    · exact absurd hpe (hspent e' (List.mem_of_getElem? hi') hpe' (heq.symm.trans hid))
    · exact absurd hpe' (hspent e (List.mem_of_getElem? hi) hpe (heq.trans hid))
    · exact h.once _ _ e e' hi hi' hpe hpe' heq

/-- **One step keeps what is stored.** -/
theorem Stored.step {users : List Int} (h : s.Stored) (ht : s.Truthful users) {e : HarnessEvent}
    (hstep : (harness users).step s e = some s') : s'.Stored := by
  cases took_of_step hstep with
  | ticked | other | started | marked | folded | read => exact ⟨h.ids, h.rows, h.taken, h.once⟩
  | placed | fired =>
    refine h.congr rfl (fun c hc born hborn => ?_) rfl
    rcases List.mem_append.mp hc with hc | hc
    · exact ⟨c, hc, hborn⟩
    · cases List.mem_singleton.mp hc
      cases hborn
  | firedCancel =>
    refine ⟨h.ids, fun c hc born hborn => ?_, fun d hd hp => ?_, fun i i' e e' hi hi' hp hp' => ?_⟩
    · obtain ⟨row, hrow, hbecame⟩ := h.rows c hc born hborn
      exact ⟨row, hrow, hbecame.mono fun id ⟨d, hd, hp⟩ => ⟨d, List.mem_append_left _ hd, hp⟩⟩
    · rcases List.mem_append.mp hd with hd | hd
      · exact h.taken d hd hp
      · cases List.mem_singleton.mp hd
        cases hp
    · rcases getElem?_concat_eq_some.mp hi with hi | ⟨-, rfl⟩
      · rcases getElem?_concat_eq_some.mp hi' with hi' | ⟨-, rfl⟩
        · exact h.once i i' e e' hi hi' hp hp'
        · cases hp'
      · cases hp
  | posted hj => exact h.setCall rfl rfl rfl hj rfl
  | @committed j again row c p hj hp _ _ hnone _ hid =>
    refine h.concat rfl rfl hid fun d hd born hborn => ?_
    rcases List.mem_or_eq_of_mem_set hd with hd | rfl
    · exact .inr ⟨d, hd, hborn⟩
    · exact .inl (Option.some.inj (hborn.symm.trans (PlacingCall.stored_setRequest hp hnone row)))
  | answered hj hstage =>
    obtain ⟨retry, stage, heq, hnext⟩ := recordFirst_spec ..
    rw [heq]
    exact h.setCall rfl rfl rfl hj (PlacingCall.stored_answered
      ((ht.calls _ (List.mem_of_getElem? hj)).unsent (.inr hstage)) hnext)
  | retryAnswered hj _ hretry =>
    refine h.setCall rfl rfl rfl hj ?_
    simp [PlacingCall.stored, hretry]
  | settled hj => exact h.setCall rfl rfl rfl hj rfl
  | postedCancel hk => exact h.setCancel rfl rfl rfl hk rfl .rfl
  | shedCancel hk _ hnone => exact h.setCancel rfl rfl rfl hk rfl (by simp [hnone])
  | performedCancel hk _ hnone => exact h.perform rfl rfl rfl hk hnone rfl rfl
  | answeredCancel hk => exact h.setCancel rfl rfl rfl hk rfl .rfl
  | foreign _ hid => exact h.concat rfl rfl hid fun c hc born hborn => .inr ⟨c, hc, hborn⟩

theorem stored_run {users : List Int} {orders : Orders} (hids : (orders.map (·.id)).Nodup)
    {es : List HarnessEvent} (h : (harness users).run (start orders) es = some s) : s.Stored := by
  have key : s.Truthful users ∧ s.Stored :=
    (harness users).invariant_run (I := fun s => s.Truthful users ∧ s.Stored)
      (fun hi hstep => ⟨hi.1.step hstep, hi.2.step hi.1 hstep⟩)
      ⟨truthful_start users orders, stored_start hids⟩ h
  exact key.2

end Harness

end Cocos.Tools
