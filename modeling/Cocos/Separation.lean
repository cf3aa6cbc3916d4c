import Cocos.Lib.Lists
import Cocos.Lib.Machine
import Cocos.Idempotency
import Cocos.Portfolio
import Cocos.Undated

namespace Cocos

open Cocos.Lib

/-!
# Users do not observe each other

What the service answers to a user depends on the user's own rows, and of those on everything but
the ids and the datetimes, which are generated.

* `own` — the rows of a user without what is generated; every read of the user is a read of
  them (`readCash_own`, `forUser_own`, …);
* `place_alike`, `cancel_alike` — two requests on tables that agree on it are answered alike
  and leave tables that agree on it;
* `Session`, `session` — a user's requests, one after the other, with the answers;
* `users_separate` — **two sessions of one user are answered alike**, whatever the other users
  have in the table.
-/

/-! ### The user's own rows -/

/-- The row without what is generated. -/
def OrderRow.unnamed (row : OrderRow) : OrderRow :=
  { row with id := 0, datetime := row.datetime.map fun _ => 0 }

theorem OrderRow.keeps_unnamed : OrderRow.Keeps OrderRow.unnamed := fun _ => ⟨_, _, rfl⟩

/-- The answer without what is generated. -/
def OrderView.unnamed (v : OrderView) : OrderView := { v with id := 0, datetime := 0 }

/-- The answer without what is generated. -/
def Placed.unnamed (p : Placed) : Placed := ⟨p.order.unnamed, p.replayed⟩

/-- The rows of user `u`. -/
def ownRows (orders : Orders) (u : Int) : Orders := orders.filter fun row => row.userId = some u

/-- The rows of user `u` without what is generated. -/
def own (orders : Orders) (u : Int) : Orders := (ownRows orders u).map OrderRow.unnamed

section Reads

variable (orders : Orders) (u : Int)

theorem filledRows_ownRows : filledRows (ownRows orders u) u = filledRows orders u := by
  unfold filledRows ownRows
  rw [List.filter_filter]
  refine List.filter_congr fun row _ => ?_
  simp only [OrderRow.filledFor]
  by_cases h : row.userId = some u <;> simp [h]

theorem readCash_own : readCash (own orders u) u = readCash orders u := by
  rw [own, readCash_map OrderRow.keeps_unnamed, readCash,
    availableCash_congr (filledRows_ownRows orders u), readCash]

theorem heldShares_own (i : Int) : heldShares (own orders u) u i = heldShares orders u i := by
  rw [own, heldShares_map OrderRow.keeps_unnamed, heldShares_congr (filledRows_ownRows orders u)]

theorem byIdempotencyKey_own (key : String) :
    byIdempotencyKey (own orders u) u key =
      (byIdempotencyKey orders u key).map OrderRow.unnamed := by
  rw [own, byIdempotencyKey_map OrderRow.keeps_unnamed]
  congr 1
  unfold byIdempotencyKey ownRows
  rw [List.find?_filter]
  congr 1
  funext row
  by_cases h : row.userId = some u <;> simp [OrderRow.hasKey, h]

theorem forUser_map (srv : Server) (m : Market) {f : OrderRow → OrderRow}
    (hf : OrderRow.Keeps f) : forUser srv m (orders.map f) u = forUser srv m orders u := by
  have hgroups : groups (orders.map f) u = groups orders u := by
    unfold groups
    rw [filledRows_map hf, filter_map_keeps hf _ fun _ _ _ => rfl,
      map_map_keeps hf _ fun _ _ _ => rfl]
  have havg : ∀ i, avgCost (orders.map f) u i = avgCost orders u i := by
    intro i
    have hbought : (holdingRows (orders.map f) u i).filter OrderRow.isBuy =
        ((holdingRows orders u i).filter OrderRow.isBuy).map f := by
      rw [holdingRows_map hf, filter_map_keeps hf _ fun _ _ _ => rfl]
    simp only [avgCost, hbought, map_map_keeps hf _ (g := OrderRow.amount) fun _ _ _ => rfl,
      map_map_keeps hf _ (g := OrderRow.size) fun _ _ _ => rfl]
  have hrow : holdingRow srv m (orders.map f) u = holdingRow srv m orders u := by
    funext i
    unfold holdingRow Server.avgCostOf holding
    rw [netQuantity_map hf, havg]
  have hraises : holdingRaises (orders.map f) u = holdingRaises orders u := by
    funext i
    exact holdingRaises_map hf orders u i
  unfold forUser holdings
  rw [availableCash_map hf, hgroups, hraises, hrow]

theorem forUser_own (srv : Server) (m : Market) :
    forUser srv m (own orders u) u = forUser srv m orders u := by
  rw [own, forUser_map (ownRows orders u) u srv m OrderRow.keeps_unnamed,
    forUser_congr srv m (filledRows_ownRows orders u)]

end Reads

theorem view_unnamed (row : OrderRow) : view row.unnamed = (view row).map .unnamed := by
  cases hp : row.price with
  | none => simp [view, OrderRow.unnamed, hp, Except.map]
  | some stored =>
    cases hc : centavosFromDb (Decimal.ofHundredths stored).toString with
    | error e => simp [view, OrderRow.unnamed, hp, hc, bind, Except.bind, Except.map]
    | ok price =>
      cases hd : row.datetime <;>
        simp [view, OrderRow.unnamed, OrderView.unnamed, hp, hc, hd, bind, Except.bind, pure,
          Except.pure, Except.map]

/-! ### A placement -/

/-- The order a placement comes to insert when its key is free. -/
def freshOrder (m : Market) (orders : Orders) (r : Request) : Except Thrown NewOrder := do
  if userExists m r.order.userId = false then
    throw (.notFound s!"User {r.order.userId} not found")
  let close ← tradableClose m r.order.instrumentId
  let q ← sized r.order close
  let cash ← readCash orders r.order.userId
  let held ← heldShares orders r.order.userId r.order.instrumentId
  return newOrder r q cash held

/-- What comes of it under an id that is not in the table. -/
def inserted (id : Int) (now : Timestamp) (orders : Orders) (o : NewOrder) :
    Except Thrown (Placed × Orders) :=
  if o.fits = false then .error (.database .numericFieldOverflow)
  else (view (o.row id now)).map fun order => (⟨order, false⟩, orders ++ [o.row id now])

/-- Under an id that is not in the table a placement replays its key or inserts its order. -/
theorem placeWithin_of_fresh (m : Market) (r : Request) {id : Int} (now : Timestamp)
    {orders : Orders} (hid : id ∉ orders.map (·.id)) :
    placeWithin m r id now orders =
      match byIdempotencyKey orders r.order.userId r.key with
      | some row => (view row).map fun order => (⟨order, true⟩, orders)
      | none => (freshOrder m orders r).bind (inserted id now orders) := by
  have hany : (orders.any fun row => row.id = id) = false := by simpa using hid
  unfold placeWithin freshOrder
  cases hkey : byIdempotencyKey orders r.order.userId r.key with
  | some row =>
    simp only [bind, pure, Except.pure]
    cases view row <;> rfl
  | none =>
    cases userExists m r.order.userId with
    | false => rfl
    | true =>
      cases tradableClose m r.order.instrumentId with
      | error e => rfl
      | ok close =>
        cases hq : sized r.order close with
        | error e => simp [hq, bind, Except.bind]
        | ok q =>
          cases hcash : readCash orders r.order.userId with
          | error e => simp [hq, bind, Except.bind]
          | ok cash =>
            cases hheld : heldShares orders r.order.userId r.order.instrumentId with
            | error e => simp [hq, bind, Except.bind]
            | ok held =>
              -- the id and the key are free, so only the columns can refuse the row
              have hkey' : byIdempotencyKey orders (newOrder r q cash held).userId
                  (newOrder r q cash held).idempotencyKey = none := hkey
              simp only [hq, bind, Except.bind, pure, Except.pure, insert, inserted, hany, hkey',
                Bool.true_eq_false, if_false, Bool.false_eq_true, Option.isSome_none]
              by_cases hfits : (newOrder r q cash held).fits = false
              · simp only [if_pos hfits]
              · simp only [if_neg hfits]
                cases view ((newOrder r q cash held).row id now) <;> rfl

theorem userId_freshOrder {m : Market} {orders : Orders} {r : Request} {o : NewOrder}
    (h : freshOrder m orders r = .ok o) : o.userId = r.order.userId := by
  unfold freshOrder at h
  split at h
  · cases h
  · simp only [bind, pure, Except.pure, bind_eq_ok, Except.ok.injEq] at h
    obtain ⟨_, -, _, -, _, -, _, -, rfl⟩ := h
    rfl

theorem freshOrder_congr (m : Market) {r : Request} {orders orders' : Orders}
    (h : own orders r.order.userId = own orders' r.order.userId) :
    freshOrder m orders r = freshOrder m orders' r := by
  unfold freshOrder
  rw [← readCash_own orders, ← heldShares_own orders, h, readCash_own, heldShares_own]

theorem own_concat (orders : Orders) (row : OrderRow) {u : Int} (hu : row.userId = some u) :
    own (orders ++ [row]) u = own orders u ++ [row.unnamed] := by
  simp [own, ownRows, hu]

/-- Answers alike are refused alike, or show alike orders. -/
theorem view_alike {row row' : OrderRow} (h : row.unnamed = row'.unnamed) :
    (∃ thrown, view row = .error thrown ∧ view row' = .error thrown) ∨
      ∃ order order', view row = .ok order ∧ view row' = .ok order' ∧
        order.unnamed = order'.unnamed := by
  have hview : (view row).map OrderView.unnamed = (view row').map OrderView.unnamed := by
    rw [← view_unnamed, ← view_unnamed, h]
  cases hrow : view row with
  | error thrown =>
    cases hrow' : view row' with
    | error thrown' =>
      simp only [hrow, hrow', Except.map, Except.error.injEq] at hview
      exact .inl ⟨thrown, rfl, by rw [hview]⟩
    | ok order' => simp [hrow, hrow', Except.map] at hview
  | ok order =>
    cases hrow' : view row' with
    | error thrown' => simp [hrow, hrow', Except.map] at hview
    | ok order' =>
      simp only [hrow, hrow', Except.map, Except.ok.injEq] at hview
      exact .inr ⟨order, order', rfl, rfl, hview⟩

/-- What a placement comes to, without what is generated: its answer and the own rows it leaves. -/
def outcome (u : Int) (p : Except Thrown (Placed × Orders)) : Except Thrown (Placed × Orders) :=
  p.map fun p => (p.1.unnamed, own p.2 u)

/-- Of an order that is inserted, that is the same under any id. -/
theorem outcome_inserted {orders orders' : Orders} {o : NewOrder} {id id' : Int}
    {now now' : Timestamp} (h : own orders o.userId = own orders' o.userId) :
    outcome o.userId (inserted id now orders o) =
      outcome o.userId (inserted id' now' orders' o) := by
  unfold inserted
  split
  · rfl
  · rcases view_alike (show (o.row id now).unnamed = (o.row id' now').unnamed from rfl) with
      ⟨thrown, hrow, hrow'⟩ | ⟨order, order', hrow, hrow', hsame⟩
    · rw [hrow, hrow']
      rfl
    · rw [hrow, hrow']
      simp only [outcome, Except.map, Placed.unnamed, hsame]
      rw [own_concat orders _ rfl, own_concat orders' _ rfl, h]
      rfl

/-- **A placement comes to the same on tables that agree on the user's own rows.** -/
theorem outcome_placeWithin (m : Market) (r : Request) {orders orders' : Orders} {id id' : Int}
    (now now' : Timestamp) (hid : id ∉ orders.map (·.id)) (hid' : id' ∉ orders'.map (·.id))
    (h : own orders r.order.userId = own orders' r.order.userId) :
    outcome r.order.userId (placeWithin m r id now orders) =
      outcome r.order.userId (placeWithin m r id' now' orders') := by
  have hkeys : (byIdempotencyKey orders r.order.userId r.key).map OrderRow.unnamed =
      (byIdempotencyKey orders' r.order.userId r.key).map OrderRow.unnamed := by
    rw [← byIdempotencyKey_own, h, byIdempotencyKey_own]
  rw [placeWithin_of_fresh m r now hid, placeWithin_of_fresh m r now' hid', freshOrder_congr m h]
  cases hkey : byIdempotencyKey orders r.order.userId r.key with
  | none =>
    rw [hkey, Option.map_none, eq_comm, Option.map_eq_none_iff] at hkeys
    rw [hkeys]
    cases hfresh : freshOrder m orders' r with
    | error thrown => rfl
    | ok o =>
      rw [← userId_freshOrder hfresh] at h ⊢
      exact outcome_inserted h
  | some row =>
    rw [hkey, Option.map_some, eq_comm, Option.map_eq_some_iff] at hkeys
    obtain ⟨row', hkey', hrow⟩ := hkeys
    rw [hkey']
    rcases view_alike hrow.symm with ⟨thrown, hv, hv'⟩ | ⟨order, order', hv, hv', hsame⟩
    · simp only [hv, hv', outcome, Except.map]
    · simp only [hv, hv', outcome, Except.map, Placed.unnamed, hsame, h]

/-- **Placements alike are answered alike**, and leave tables that agree. -/
theorem place_alike (m : Market) (r : Request) {orders orders' : Orders} {id id' : Int}
    (now now' : Timestamp) (hid : id ∉ orders.map (·.id)) (hid' : id' ∉ orders'.map (·.id))
    (h : own orders r.order.userId = own orders' r.order.userId) :
    (place m r id now orders).1.map Placed.unnamed =
        (place m r id' now' orders').1.map Placed.unnamed ∧
      own (place m r id now orders).2 r.order.userId =
        own (place m r id' now' orders').2 r.order.userId := by
  have houtcome := outcome_placeWithin m r now now' hid hid' h
  unfold place
  cases hp : placeWithin m r id now orders with
  | error thrown =>
    cases hp' : placeWithin m r id' now' orders' with
    | error thrown' =>
      simp only [hp, hp', outcome, Except.map, Except.error.injEq] at houtcome
      exact ⟨by rw [houtcome], h⟩
    | ok p' => simp [hp, hp', outcome, Except.map] at houtcome
  | ok p =>
    cases hp' : placeWithin m r id' now' orders' with
    | error thrown' => simp [hp, hp', outcome, Except.map] at houtcome
    | ok p' =>
      simp only [hp, hp', outcome, Except.map, Except.ok.injEq, Prod.mk.injEq] at houtcome
      exact ⟨congrArg Except.ok houtcome.1, houtcome.2⟩

/-! ### A cancel -/

/-- What a cancel leaves of a row without what is generated. -/
theorem unnamed_afterCancel (row : OrderRow) :
    (row.afterCancel row.id).unnamed = row.unnamed.afterCancel 0 := by
  have hsame : row.cancellable row.id CANCELLABLE = row.unnamed.cancellable 0 CANCELLABLE := by
    rw [Bool.eq_iff_iff, cancellable_iff, cancellable_iff]
    simp [OrderRow.unnamed]
  unfold OrderRow.afterCancel
  rw [hsame]
  split <;> rfl

/-- The cancel of a stored order changes that one row, among the user's own. -/
theorem own_cancel {orders : Orders} {u : Int} (hids : (orders.map (·.id)).Nodup) {k : Nat}
    {row : OrderRow} (hrow : (ownRows orders u)[k]? = some row) :
    own (cancel row.id orders).2 u = (own orders u).set k (row.unnamed.afterCancel 0) := by
  have hown : ownRows (orders.map (OrderRow.afterCancel row.id)) u =
      (ownRows orders u).map (OrderRow.afterCancel row.id) := by
    unfold ownRows
    rw [List.filter_map]
    refine congrArg _ (List.filter_congr fun r _ => ?_)
    obtain ⟨status, hr⟩ := exists_status_afterCancel row.id r
    simp only [Function.comp, hr]
  have hkeys : ((ownRows orders u).map (·.id)).Nodup :=
    hids.sublist (List.filter_sublist.map _)
  have hset := map_eq_set_of_key hkeys hrow (f := OrderRow.afterCancel row.id) fun b hb => by
    rw [OrderRow.afterCancel, if_neg]
    exact fun hc => hb (cancellable_iff.mp hc).1
  rw [cancel_snd, own, hown, hset, List.map_set, unnamed_afterCancel, own]

/-- What a cancel of a stored order answers. -/
theorem cancel_fst {orders : Orders} (hids : (orders.map (·.id)).Nodup) {row : OrderRow}
    (hrow : row ∈ orders) : (cancel row.id orders).1 =
      if row.status = some OrderStatus.NEW.text then view row.cancelled
      else .error (refusal row.id (some row.status)) := by
  have hfind := find?_of_key hids hrow (p := OrderRow.cancellable row.id CANCELLABLE)
    fun r hr => (cancellable_iff.mp hr).1
  unfold cancel cancelOrder
  rw [hfind]
  by_cases hnew : row.status = some OrderStatus.NEW.text
  · rw [if_pos (cancellable_iff.mpr ⟨rfl, hnew⟩), if_pos hnew]
    rfl
  · have hmiss : ¬row.cancellable row.id CANCELLABLE = true :=
      fun hc => hnew (cancellable_iff.mp hc).2
    rw [if_neg hmiss, if_neg hnew]
    rw [if_neg hmiss, List.find?_eq_none] at hfind
    -- a cancel that matches no row leaves the table to be read for the status
    have hsame : (orders.map fun r => if r.cancellable row.id CANCELLABLE then r.cancelled else r) =
        orders := by
      refine (List.map_congr_left fun r hr => ?_).trans orders.map_id
      rw [if_neg (hfind r hr)]
      rfl
    simp only [Option.map_none, hsame, statusOf, find?_key hids hrow, Option.map_some]

/-- Cancels are answered alike: with alike orders, or refused over the same status. -/
def CancelAlike (a b : Except Thrown OrderView) : Prop :=
  a.map OrderView.unnamed = b.map OrderView.unnamed ∨
    ∃ id id' status, a = .error (refusal id status) ∧ b = .error (refusal id' status)

/-- **Cancels alike are answered alike.** -/
theorem cancel_alike {orders orders' : Orders} (hids : (orders.map (·.id)).Nodup)
    (hids' : (orders'.map (·.id)).Nodup) {row row' : OrderRow} (hrow : row ∈ orders)
    (hrow' : row' ∈ orders') (h : row.unnamed = row'.unnamed) :
    CancelAlike (cancel row.id orders).1 (cancel row'.id orders').1 := by
  have hstatus : row.status = row'.status := by
    show row.unnamed.status = row'.unnamed.status
    rw [h]
  rw [cancel_fst hids hrow, cancel_fst hids' hrow', ← hstatus]
  split
  · refine .inl ?_
    have hcancelled : row.cancelled.unnamed = row'.cancelled.unnamed :=
      congrArg OrderRow.cancelled h
    rw [← view_unnamed, ← view_unnamed, hcancelled]
  · exact .inr ⟨_, _, _, rfl, rfl⟩

/-! ### Sessions -/

/-- What a user asks for: a placement, the portfolio, or the cancel of the `k`-th of the
    user's orders. -/
inductive Asked where
  | place (r : Request)
  | portfolio
  | cancel (k : Nat)

/-- What is asked for, with the id that the sequence has for an insert and the time of it. -/
structure Turn where
  asked : Asked
  id : Int
  now : Timestamp

/-- An answer to the user. -/
inductive Answer where
  | placed (answer : Except Thrown Placed)
  | portfolio (answer : Except Thrown Portfolio)
  | cancelled (answer : Except Thrown OrderView)

/-- Answers are alike if they differ in nothing but what is generated. -/
def Answer.Alike : Answer → Answer → Prop
  | .placed a, .placed b => a.map Placed.unnamed = b.map Placed.unnamed
  | .portfolio a, .portfolio b => a = b
  | .cancelled a, .cancelled b => CancelAlike a b
  | _, _ => False

/-- The table a session has got to, and all it has been answered. -/
structure Session where
  orders : Orders
  answers : List Answer

/-- A session has got nothing yet. -/
def Session.initial (table : OrdersTable) : Session := ⟨table.rows, []⟩

/-- User `u` asks and is answered.  A placement is the user's own and the sequence has an id for it
    that is not in the table; a cancel is of an order that the user has. -/
def session (srv : Server) (m : Market) (u : Int) : Machine Session Turn where
  step s turn :=
    match turn.asked with
    | .place r =>
      if r.order.userId = u ∧ turn.id ∉ s.orders.map (·.id) then
        let (answer, orders) := place m r turn.id turn.now s.orders
        some ⟨orders, s.answers ++ [.placed answer]⟩
      else none
    | .portfolio => some ⟨s.orders, s.answers ++ [.portfolio (forUser srv m s.orders u)]⟩
    | .cancel k => (ownRows s.orders u)[k]?.map fun row =>
      let (answer, orders) := cancel row.id s.orders
      ⟨orders, s.answers ++ [.cancelled answer]⟩

/-- Two sessions of user `u` that have been answered alike, on tables that agree on the user's
    own rows. -/
structure Session.Alike (u : Int) (s t : Session) : Prop where
  own : own s.orders u = own t.orders u
  answers : List.Forall₂ Answer.Alike s.answers t.answers
  ids : (s.orders.map (·.id)).Nodup
  ids' : (t.orders.map (·.id)).Nodup

theorem ids_place {m : Market} {r : Request} {id : Int} (now : Timestamp) {orders : Orders}
    (hid : id ∉ orders.map (·.id)) (h : (orders.map (·.id)).Nodup) :
    ((place m r id now orders).2.map (·.id)).Nodup := by
  rcases place_snd_cases m r id now orders with hsame | ⟨q, cash, held, -, -, hnew⟩
  · rw [hsame]
    exact h
  · rw [hnew, List.map_append, List.map_singleton, ← List.concat_eq_append, List.nodup_concat]
    exact ⟨hid, h⟩

theorem ids_cancel (id : Int) {orders : Orders} (h : (orders.map (·.id)).Nodup) :
    ((cancel id orders).2.map (·.id)).Nodup := by
  rw [cancel_snd, List.map_map]
  simpa only [Function.comp_def, afterCancel_id] using h

/-- **One more request keeps two sessions alike.** -/
theorem Session.Alike.step {srv : Server} {m : Market} {u : Int} {s t s' t' : Session}
    {turn turn' : Turn} (h : s.Alike u t) (hasked : turn.asked = turn'.asked)
    (hs : (session srv m u).step s turn = some s')
    (ht : (session srv m u).step t turn' = some t') : s'.Alike u t' := by
  simp only [session, ← hasked] at hs ht
  cases hturn : turn.asked with
  | place r =>
    rw [hturn] at hs ht
    simp only [Option.ite_none_right_eq_some, Option.some.injEq] at hs ht
    obtain ⟨⟨rfl, hid⟩, rfl⟩ := hs
    obtain ⟨⟨-, hid'⟩, rfl⟩ := ht
    obtain ⟨hanswer, hown⟩ := place_alike m r turn.now turn'.now hid hid' h.own
    exact ⟨hown, forall₂_concat h.answers hanswer, ids_place _ hid h.ids, ids_place _ hid' h.ids'⟩
  | portfolio =>
    rw [hturn] at hs ht
    simp only [Option.some.injEq] at hs ht
    subst hs ht
    have hanswer : forUser srv m s.orders u = forUser srv m t.orders u := by
      rw [← forUser_own, h.own, forUser_own]
    exact ⟨h.own, forall₂_concat h.answers hanswer, h.ids, h.ids'⟩
  | cancel k =>
    rw [hturn] at hs ht
    simp only [Option.map_eq_some_iff] at hs ht
    obtain ⟨row, hrow, rfl⟩ := hs
    obtain ⟨row', hrow', rfl⟩ := ht
    -- the `k`-th rows of the user agree
    have hsame : row.unnamed = row'.unnamed := by
      have hk := congrArg (fun rows => rows[k]?) h.own
      simpa only [Cocos.own, List.getElem?_map, hrow, hrow', Option.map_some,
        Option.some.injEq] using hk
    have hmem : row ∈ s.orders := List.mem_of_mem_filter (List.mem_of_getElem? hrow)
    have hmem' : row' ∈ t.orders := List.mem_of_mem_filter (List.mem_of_getElem? hrow')
    refine ⟨?_, forall₂_concat h.answers (cancel_alike h.ids h.ids' hmem hmem' hsame),
      ids_cancel _ h.ids, ids_cancel _ h.ids'⟩
    show Cocos.own (cancel row.id s.orders).2 u = Cocos.own (cancel row'.id t.orders).2 u
    rw [own_cancel h.ids hrow, own_cancel h.ids' hrow', h.own, hsame]

/-- **Users do not observe each other.**  On two tables that agree on the rows of user `u`, two
    sessions of `u` that ask for the same are answered alike. -/
theorem users_separate {srv : Server} {m : Market} {u : Int} {table table' : OrdersTable}
    (hown : own table.rows u = own table'.rows u) {turns turns' : List Turn}
    (hasked : turns.map Turn.asked = turns'.map Turn.asked) {s t : Session}
    (hs : (session srv m u).run (.initial table) turns = some s)
    (ht : (session srv m u).run (.initial table') turns' = some t) :
    List.Forall₂ Answer.Alike s.answers t.answers := by
  have hinitial : Session.Alike u (.initial table) (.initial table') :=
    ⟨hown, .nil, table.primaryKey, table'.primaryKey⟩
  exact ((session srv m u).related_runs Turn.asked
    (fun h hkind he hf => h.step hkind he hf) hinitial hasked hs ht).answers

/-- A table where user 2 has deposited first. -/
def twoDeposits : OrdersTable where
  rows := [{ deposit 9 with userId := some 2 }, { deposit 5 with id := 2 }]
  primaryKey := by simp [deposit]
  keyIndex u key := by
    have hnone : ∀ row ∈ [{ deposit 9 with userId := some 2 }, { deposit 5 with id := 2 }],
        ¬row.hasKey u key = true := by simp [OrderRow.hasKey, deposit]
    rw [List.filter_eq_nil_iff.mpr hnone]
    exact Nat.zero_le 1
  columns := by simp [deposit]; decide

/-- User 1 has an order rest, sends it again, looks at the portfolio and cancels it. -/
def restedAndCancelled (id : Int) : List Turn :=
  [⟨.place (limitBuy 2 "a" (Eq.refl true)), id, 7⟩,
    ⟨.place (limitBuy 2 "a" (Eq.refl true)), id + 1, 8⟩, ⟨.portfolio, 0, 9⟩, ⟨.cancel 1, 0, 10⟩]

/-- The deposit of user 2 shows in none of the answers. -/
theorem users_separate_restedAndCancelled : ∃ s t,
    (session exactServer (marketAt 100) 1).run (.initial oneDeposit) (restedAndCancelled 2) = some s ∧
      (session exactServer (marketAt 100) 1).run (.initial twoDeposits) (restedAndCancelled 3) =
        some t ∧
      s.answers.length = 4 ∧ List.Forall₂ Answer.Alike s.answers t.answers := by
  obtain ⟨s, hs, hlength⟩ := (session exactServer (marketAt 100) 1).exists_run
    (.initial oneDeposit) (restedAndCancelled 2) (P := fun s => s.answers.length = 4)
    (by decide +kernel)
  obtain ⟨t, ht, -⟩ := (session exactServer (marketAt 100) 1).exists_run
    (.initial twoDeposits) (restedAndCancelled 3) (P := fun s => s.answers.length = 4)
    (by decide +kernel)
  have hown : own oneDeposit.rows 1 = own twoDeposits.rows 1 := by decide
  have hasked : (restedAndCancelled 2).map Turn.asked = (restedAndCancelled 3).map Turn.asked := rfl
  exact ⟨s, t, hs, ht, hlength, users_separate hown hasked hs ht⟩

end Cocos
