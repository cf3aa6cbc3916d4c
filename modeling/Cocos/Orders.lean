import Cocos.PlaceOrderDto
import Cocos.Repositories

namespace Cocos

open Cocos.Lib

/-!
# The orders service

`src/orders/orders.service.ts`, one request at a time on the committed rows: what a placement
and a cancel answer, and the table they leave.

* `placeWithin` — the body of the placement's transaction.  It is in the `Except` monad, so a
  throw keeps nothing of the table: the rollback;
* `place`, `cancel` — the two requests, with the errors as the callers see them;
* `Readings` — the statements of a fresh placement all went through, and what they read;
  `placeWithin_eq_ok` lists the two ways a placement succeeds;
* `newOrder_delta` / `Readings.covered` — **a fill is a covered trade**: what the inserted row
  adds to the user's account is a trade the account covers, if it is FILLED, and nothing
  otherwise.
-/

/-! ### Views of rows -/

/-- An order as it is answered.  The columns a row is copied from may be `NULL`. -/
structure OrderView where
  id : Int
  instrumentId : Option Int
  userId : Option Int
  side : Option String
  size : Option Int
  price : String
  type : Option String
  status : Option String
  datetime : Timestamp
deriving DecidableEq, Repr

/-- An order, and whether an earlier request with the key created it. -/
structure Placed where
  order : OrderView
  replayed : Bool
deriving DecidableEq, Repr

/-- The answer for a row; rendering a `NULL` price or datetime is a `TypeError`. -/
def view (row : OrderRow) : Except Thrown OrderView :=
  match row.price with
  | none => .error .typeError
  | some stored => do
    let price ← centavosFromDb (Decimal.ofHundredths stored).toString
    match row.datetime with
    | none => .error .typeError
    | some datetime =>
      return ⟨row.id, row.instrumentId, row.userId, row.side, row.size, apiString price,
        row.type, row.status, datetime⟩

/-- An answered row had a price and a datetime, and is answered column by column. -/
theorem view_eq_ok {row : OrderRow} {v : OrderView} (h : view row = .ok v) :
    ∃ price datetime, row.price = some price ∧ row.datetime = some datetime ∧
      v = ⟨row.id, row.instrumentId, row.userId, row.side, row.size, apiString price,
        row.type, row.status, datetime⟩ := by
  unfold view at h
  cases hp : row.price with
  | none => simp [hp] at h
  | some stored =>
    cases hc : centavosFromDb (Decimal.ofHundredths stored).toString with
    | error e => simp [hp, hc, bind, Except.bind] at h
    | ok price =>
      cases hd : row.datetime with
      | none => simp [hp, hc, hd, bind, Except.bind] at h
      | some datetime =>
        simp only [hp, hc, hd, bind, Except.bind, pure, Except.pure, Except.ok.injEq] at h
        exact ⟨stored, datetime, rfl, rfl, by rw [← h, eq_of_centavosFromDb_toString hc]⟩

/-- A stored price and datetime are always answered. -/
theorem view_ok {row : OrderRow} {price : Int} {datetime : Timestamp}
    (hp : row.price = some price) (hd : row.datetime = some datetime)
    (hfits : price.natAbs < 10 ^ 23) :
    view row = .ok ⟨row.id, row.instrumentId, row.userId, row.side, row.size, apiString price,
      row.type, row.status, datetime⟩ := by
  simp [view, hp, hd, centavosFromDb_toString hfits, bind, Except.bind, pure, Except.pure]

/-! ### Placing -/

/-- An optional number of the body in centavos. -/
def centavos (value : Option Decimal) : Except Thrown (Option Int) :=
  match value with
  | none => .ok none
  | some value => (centavosFromApi value).map some

/-- The close an order on the instrument is decided at. -/
def tradableClose (m : Market) (instrumentId : Int) : Except Thrown Int :=
  match quote m instrumentId with
  | none => .error (.notFound s!"Instrument {instrumentId} not found")
  | some instrument =>
    if instrument.type = some "MONEDA" then
      .error (.badRequest s!"Instrument {instrumentId} is a currency and cannot be traded")
    else match instrument.close with
      | none => .error (.badRequest s!"Instrument {instrumentId} has no market data")
      | some close => centavosFromDb (Decimal.ofHundredths close).toString

/-- What a placement knows once it has been priced and sized. -/
structure Sized where
  close : Int
  limitPrice : Option Int
  size : Int

/-- The limit price and the size of an order, at the close of its instrument. -/
def sized (order : PlaceOrderDto) (close : Int) : Except Thrown Sized := do
  let limitPrice ← centavos order.price
  let amount ← centavos order.amount
  let size ← resolveSize ⟨order.size, amount, limitPrice.getD close⟩
  return ⟨close, limitPrice, size⟩

/-- The available cash in centavos. -/
def readCash (orders : Orders) (userId : Int) : Except Thrown Int := do
  let cash ← availableCash orders userId
  centavosFromDb cash.toString

/-- What the order is decided from. -/
def placement (order : PlaceOrderDto) (q : Sized) (cash held : Int) : Placement :=
  ⟨order.side, order.type, q.limitPrice, q.close, cash, held, q.size⟩

/-- The order that is inserted, at the status and the price it was decided with. -/
def newOrder (r : Request) (q : Sized) (cash held : Int) : NewOrder where
  instrumentId := r.order.instrumentId
  userId := r.order.userId
  side := r.order.side
  size := q.size
  price := (placement r.order q cash held).decide.price
  type := r.order.type
  status := (placement r.order q cash held).decide.status
  idempotencyKey := r.key

/-- `OrdersService.placeWithin`, after the lock: the answer and the table, or a throw.  `id` is
    what the sequence has for the insert and `now` what the clock reads there. -/
def placeWithin (m : Market) (r : Request) (id : Int) (now : Timestamp) (orders : Orders) :
    Except Thrown (Placed × Orders) :=
  match byIdempotencyKey orders r.order.userId r.key with
  | some replayed => do
    let order ← view replayed
    return (⟨order, true⟩, orders)
  | none => do
    if userExists m r.order.userId = false then
      throw (.notFound s!"User {r.order.userId} not found")
    let close ← tradableClose m r.order.instrumentId
    let q ← sized r.order close
    let cash ← readCash orders r.order.userId
    let held ← heldShares orders r.order.userId r.order.instrumentId
    let created ← insert orders (newOrder r q cash held) id now
    let order ← view created
    return (⟨order, false⟩, orders ++ [created])

/-- The errors as `place` answers them: a rule that turns the order away is a 400, a
    transaction that ran out of time a 503. -/
def caught : Thrown → Thrown
  | .orderRuleError message => .badRequest message
  | .database .P2028 =>
    .serviceUnavailable "Order placement timed out waiting its turn, please retry"
  | thrown => thrown

/-- `OrdersService.place` of a placement that is not timed out. -/
def place (m : Market) (r : Request) (id : Int) (now : Timestamp) (orders : Orders) :
    Except Thrown Placed × Orders :=
  match placeWithin m r id now orders with
  | .ok (placed, orders') => (.ok placed, orders')
  | .error thrown => (.error (caught thrown), orders)

/-! ### Cancelling -/

/-- What a cancel answers when its `UPDATE` matched no row, by the status it then reads. -/
def refusal (id : Int) : Option (Option String) → Thrown
  | none => .notFound s!"Order {id} not found"
  | some status =>
    let text := status.getD "null"
    .conflict s!"Order {id} is {text} and cannot be cancelled"

/-- `OrdersService.cancel`. -/
def cancel (id : Int) (orders : Orders) : Except Thrown OrderView × Orders :=
  match cancelOrder orders id CANCELLABLE with
  | (some cancelled, orders') => (view cancelled, orders')
  | (none, orders') => (.error (refusal id (statusOf orders' id)), orders')

/-- The table a cancel leaves, whatever it answers. -/
theorem cancel_snd (id : Int) (orders : Orders) :
    (cancel id orders).2 = orders.map (OrderRow.afterCancel id) := by
  unfold cancel
  rw [← cancelOrder_snd]
  split <;> simp_all

/-! ### The two ways a placement succeeds -/

/-- The statements of a fresh placement up to its insert went through on the table `orders`,
    and `q`, `cash` and `held` are what they came to. -/
structure Readings (m : Market) (orders : Orders) (r : Request) (q : Sized) (cash held : Int) :
    Prop where
  key : byIdempotencyKey orders r.order.userId r.key = none
  user : userExists m r.order.userId = true
  close : tradableClose m r.order.instrumentId = .ok q.close
  sized : sized r.order q.close = .ok q
  cash : readCash orders r.order.userId = .ok cash
  held : heldShares orders r.order.userId r.order.instrumentId = .ok held

/-- A sum of two steps succeeds when both do. -/
theorem bind_eq_ok {ε α β : Type} {x : Except ε α} {f : α → Except ε β} {b : β} :
    x.bind f = .ok b ↔ ∃ a, x = .ok a ∧ f a = .ok b := by
  cases x <;> simp [Except.bind]

/-- And it throws when one of them does. -/
theorem bind_eq_error {ε α β : Type} {x : Except ε α} {f : α → Except ε β} {e : ε} :
    x.bind f = .error e ↔ x = .error e ∨ ∃ a, x = .ok a ∧ f a = .error e := by
  cases x <;> simp [Except.bind]

theorem sized_close {order : PlaceOrderDto} {close : Int} {q : Sized}
    (h : sized order close = .ok q) : q.close = close := by
  simp only [sized, bind, pure, Except.pure, bind_eq_ok, Except.ok.injEq] at h
  obtain ⟨_, _, _, _, _, _, rfl⟩ := h
  rfl

/-- **The two ways a placement succeeds**: its key names a stored row, which is answered, or
    its readings go through and the row they lead to is inserted. -/
theorem placeWithin_eq_ok {m : Market} {r : Request} {id : Int} {now : Timestamp}
    {orders orders' : Orders} {placed : Placed} :
    placeWithin m r id now orders = .ok (placed, orders') ↔
      (∃ row order, byIdempotencyKey orders r.order.userId r.key = some row ∧
          view row = .ok order ∧ placed = ⟨order, true⟩ ∧ orders' = orders) ∨
        ∃ q cash held row order, Readings m orders r q cash held ∧
          insert orders (newOrder r q cash held) id now = .ok row ∧
          view row = .ok order ∧ placed = ⟨order, false⟩ ∧ orders' = orders ++ [row] := by
  unfold placeWithin
  cases hkey : byIdempotencyKey orders r.order.userId r.key with
  | some row =>
    simp only [bind, pure, Except.pure, bind_eq_ok, Except.ok.injEq, Prod.mk.injEq]
    constructor
    · rintro ⟨order, hview, rfl, rfl⟩
      exact .inl ⟨row, order, rfl, hview, rfl, rfl⟩
    · rintro (⟨_, order, hrow, hview, rfl, rfl⟩ | ⟨_, _, _, _, _, hread, -⟩)
      · cases hrow
        exact ⟨order, hview, rfl, rfl⟩
      · exact absurd (hkey.symm.trans hread.key) (by simp)
  | none =>
    cases huser : userExists m r.order.userId with
    | false =>
      simp only [if_true, bind, throw, throwThe, MonadExceptOf.throw, Except.bind,
        reduceCtorEq, false_iff, not_or]
      constructor
      · rintro ⟨_, _, hrow, -⟩
        cases hrow
      · rintro ⟨_, _, _, _, _, hread, -⟩
        exact absurd (huser.symm.trans hread.user) (by simp)
    | true =>
      simp only [Bool.true_eq_false, if_false, bind, pure, Except.pure, bind_eq_ok,
        Except.ok.injEq, Prod.mk.injEq]
      constructor
      · rintro ⟨close, hclose, q, hq, cash, hcash, held, hheld, row, hrow, order, hview,
          rfl, rfl⟩
        -- the close is kept in what was sized, so one `q` stands for both readings
        have hqc := sized_close hq
        exact .inr ⟨q, cash, held, row, order,
          ⟨hkey, huser, hqc ▸ hclose, hqc ▸ hq, hcash, hheld⟩, hrow, hview, rfl, rfl⟩
      · rintro (⟨_, _, hrow, -⟩ | ⟨q, cash, held, row, order, hread, hrow, hview, rfl, rfl⟩)
        · cases hrow
        · exact ⟨q.close, hread.close, q, hread.sized, cash, hread.cash, held, hread.held, row,
            hrow, order, hview, rfl, rfl⟩

/-- **The three answers of a placement**, with the table each leaves. -/
theorem place_cases (m : Market) (r : Request) (id : Int) (now : Timestamp) (orders : Orders) :
    (∃ thrown, place m r id now orders = (.error thrown, orders)) ∨
      (∃ row order, byIdempotencyKey orders r.order.userId r.key = some row ∧
        view row = .ok order ∧ place m r id now orders = (.ok ⟨order, true⟩, orders)) ∨
      ∃ q cash held order, Readings m orders r q cash held ∧
        insert orders (newOrder r q cash held) id now =
          .ok ((newOrder r q cash held).row id now) ∧
        view ((newOrder r q cash held).row id now) = .ok order ∧
        place m r id now orders =
          (.ok ⟨order, false⟩, orders ++ [(newOrder r q cash held).row id now]) := by
  unfold place
  cases hw : placeWithin m r id now orders with
  | error thrown => exact .inl ⟨_, rfl⟩
  | ok result =>
    obtain ⟨placed, orders'⟩ := result
    rcases placeWithin_eq_ok.mp hw with
      ⟨row, order, hkey, hview, rfl, rfl⟩ |
      ⟨q, cash, held, row, order, hread, hinsert, hview, rfl, rfl⟩
    · exact .inr (.inl ⟨row, order, hkey, hview, rfl⟩)
    · obtain ⟨-, -, -, rfl⟩ := insert_eq_ok.mp hinsert
      exact .inr (.inr ⟨q, cash, held, order, hread, hinsert, hview, rfl⟩)

/-- All a placement does to the table: nothing, or the insert its readings lead to. -/
theorem place_snd_cases (m : Market) (r : Request) (id : Int) (now : Timestamp) (orders : Orders) :
    (place m r id now orders).2 = orders ∨
      ∃ q cash held, Readings m orders r q cash held ∧
        insert orders (newOrder r q cash held) id now =
          .ok ((newOrder r q cash held).row id now) ∧
        (place m r id now orders).2 = orders ++ [(newOrder r q cash held).row id now] := by
  rcases place_cases m r id now orders with
    ⟨thrown, h⟩ | ⟨row, order, -, -, h⟩ | ⟨q, cash, held, order, hread, hinsert, -, h⟩
  · exact .inl (by rw [h])
  · exact .inl (by rw [h])
  · exact .inr ⟨q, cash, held, hread, hinsert, by rw [h]⟩

/-! ### A fill is a covered trade -/

theorem tradableClose_nonneg {m : Market} (hm : m.ClosesNonneg) {instrumentId close : Int}
    (h : tradableClose m instrumentId = .ok close) : 0 ≤ close := by
  unfold tradableClose quote at h
  cases hi : m.instruments.find? fun i => i.id = instrumentId with
  | none => simp [hi] at h
  | some instrument =>
    simp only [hi, Option.map_some] at h
    split at h
    · exact absurd h (by simp)
    · cases hc : (m.latestClose instrumentId).join with
      | none => simp [hc] at h
      | some stored =>
        simp only [hc] at h
        rw [eq_of_centavosFromDb_toString h]
        exact m.latestClose_nonneg hm (Option.join_eq_some_iff.mp hc)

theorem readCash_eq {orders : Orders} {u cash : Int} (h : readCash orders u = .ok cash) :
    cash = account orders u .cash := by
  simp only [readCash, bind, bind_eq_ok] at h
  obtain ⟨d, hd, hcash⟩ := h
  unfold availableCash at hd
  split at hd
  · exact absurd hd (by simp)
  · rw [Except.ok.injEq] at hd
    subst hd
    rw [eq_of_centavosFromDb_toString hcash, ← cashFold_eq, cashFold]

/-- A group the view drops counts as the zero it was dropped for. -/
theorem getD_holding (orders : Orders) (u i : Int) :
    (holding orders u (some i)).getD 0 = account orders u (.shares i) := by
  rw [← netShares_eq, netShares, holding]
  cases netQuantity orders u (some i) with
  | none => rfl
  | some quantity => by_cases h : quantity = 0 <;> simp [Option.filter, h]

theorem heldShares_eq {orders : Orders} {u i held : Int} (h : heldShares orders u i = .ok held) :
    held = account orders u (.shares i) := by
  unfold heldShares at h
  split at h
  · exact absurd h (by simp)
  · rw [Except.ok.injEq] at h
    rw [← h, getD_holding]

theorem sized_size_bounds {order : PlaceOrderDto} (hvalid : order.valid = true) {close : Int}
    {q : Sized} (h : sized order close = .ok q) : 1 ≤ q.size ∧ q.size ≤ MAX_INT4 := by
  simp only [sized, bind, pure, Except.pure, bind_eq_ok, Except.ok.injEq] at h
  obtain ⟨_, _, _, _, _, hsize, rfl⟩ := h
  exact resolveSize_bounds (fun _ hs => PlaceOrderDto.size_bounds hvalid hs) hsize

/-- The trade a placement is about. -/
def fillOf (r : Request) (q : Sized) (cash held : Int) : Trade :=
  (placement r.order q cash held).trade r.order.instrumentId

section NewOrder

variable (r : Request) (q : Sized) (cash held id : Int) (now : Timestamp)

/-- A new row is one of the views' rows exactly for its own user and when it is FILLED. -/
theorem newOrder_filledFor (u : Int) :
    ((newOrder r q cash held).row id now).filledFor u = true ↔
      u = r.order.userId ∧ (placement r.order q cash held).decide.status = .FILLED := by
  simp only [OrderRow.filledFor, NewOrder.row, newOrder, Option.some.injEq,
    OrderStatus.text_injective.eq_iff, decide_eq_true_eq]
  exact and_congr_left fun _ => eq_comm

/-- A new FILLED row adds its trade to the account of its user. -/
theorem newOrder_delta_of_filled
    (hfilled : (placement r.order q cash held).decide.status = .FILLED) (ρ : Resource) :
    ((newOrder r q cash held).row id now).delta r.order.userId ρ =
      -(fillOf r q cash held).draw ρ := by
  -- the terms of the views against the draw of the trade, side by side
  have hrow := (newOrder_filledFor r q cash held id now r.order.userId).mpr ⟨rfl, hfilled⟩
  cases ρ with
  | cash =>
    simp only [OrderRow.delta, hrow, if_true]
    cases hside : r.order.side <;>
      simp [OrderRow.cashTerm, OrderRow.bringsCash, OrderRow.takesCash, OrderRow.amount,
        NewOrder.row, newOrder, Side.text, fillOf, Placement.trade, placement, Trade.draw,
        Placement.decide, hside, mul_comm]
  | shares i =>
    simp only [OrderRow.delta, hrow, true_and]
    by_cases hi : i = r.order.instrumentId
    · cases hside : r.order.side <;>
        simp [OrderRow.tradeOf, OrderRow.isTrade, OrderRow.shareTerm, OrderRow.isBuy,
          NewOrder.row, newOrder, Side.text, fillOf, Placement.trade, placement, Trade.draw,
          hside, hi]
    · simp [OrderRow.tradeOf, NewOrder.row, newOrder, fillOf, Placement.trade, Trade.draw, hi,
        Ne.symm hi]

/-- **A new row is its trade.**  It changes the account of its user only, and by its trade if
    it is FILLED. -/
theorem newOrder_delta (u : Int) (ρ : Resource) :
    ((newOrder r q cash held).row id now).delta u ρ =
      if u = r.order.userId ∧ (placement r.order q cash held).decide.status = .FILLED then
        -(fillOf r q cash held).draw ρ
      else 0 := by
  split
  · rename_i h
    rw [h.1]
    exact newOrder_delta_of_filled r q cash held id now h.2 ρ
  · rename_i h
    exact OrderRow.delta_of_not_filledFor
      (by simpa using fun hf => h ((newOrder_filledFor r q cash held id now u).mp hf)) ρ

/-- The accounts after a new row: a FILLED one is a trade of its user. -/
theorem account_newOrder (orders : Orders) (u : Int) :
    account (orders ++ [(newOrder r q cash held).row id now]) u =
      if u = r.order.userId ∧ (placement r.order q cash held).decide.status = .FILLED then
        (fillOf r q cash held).fill (account orders u)
      else account orders u := by
  funext ρ
  rw [account_concat, newOrder_delta r q cash held id now u ρ]
  split
  · rw [Trade.fill_apply, Int.sub_eq_add_neg]
  · exact Int.add_zero _

/-- A fill is at the close. -/
theorem fillOf_price (hfilled : (placement r.order q cash held).decide.status = .FILLED) :
    (fillOf r q cash held).price = q.close :=
  Placement.executed_of_market ((Placement.decide_status_eq_filled _).mp hfilled).1

end NewOrder

namespace Readings

variable {m : Market} {orders : Orders} {r : Request} {q : Sized} {cash held : Int}

/-- The trade of a FILLED row is covered by the account its readings are of. -/
theorem covered (h : Readings m orders r q cash held)
    (hfilled : (placement r.order q cash held).decide.status = .FILLED) :
    (fillOf r q cash held).Covered (account orders r.order.userId) :=
  ((Placement.decide_status_eq_filled_iff (readCash_eq h.cash) (heldShares_eq h.held)).mp
    hfilled).2

theorem price_nonneg (h : Readings m orders r q cash held) (hm : m.ClosesNonneg)
    (hfilled : (placement r.order q cash held).decide.status = .FILLED) :
    0 ≤ (fillOf r q cash held).price := by
  rw [fillOf_price r q cash held hfilled]
  exact tradableClose_nonneg hm h.close

theorem size_nonneg (h : Readings m orders r q cash held) :
    0 ≤ (fillOf r q cash held).size := by
  have := (sized_size_bounds r.valid h.sized).1
  exact le_trans zero_le_one this

end Readings

/-! ### A small market -/

/-- A market of one instrument, `1`, which users 1 and 2 may trade at `close`. -/
def marketAt (close : Int) : Market where
  users := [1, 2]
  instruments := [⟨1, some "PAMP", some "Pampa Holding S.A.", some "ACCIONES"⟩]
  marketdata := [⟨some 1, some close, some 0⟩]
  primaryKey := by simp

theorem marketAt_closesNonneg {close : Int} (h : 0 ≤ close) : (marketAt close).ClosesNonneg := by
  simp [Market.ClosesNonneg, marketAt, h]

/-- A deposit of `amount` pesos by user 1. -/
def deposit (amount : Int) : OrderRow :=
  ⟨1, some 66, some 1, some amount, some 100, some "MARKET", some "CASH_IN", some "FILLED", some 0,
    none⟩

/-- User 1 buys `size` shares of instrument 1 at the market. -/
def marketBuy (size : Int) (key : String) (h : isSize size = true) : Request where
  order := ⟨1, 1, .BUY, .MARKET, none, some size, none⟩
  key := key
  valid := by simp [PlaceOrderDto.valid, PlaceOrderDto.limitPrice, PlaceOrderDto.sizeOrAmount,
    PlaceOrderDto.money, PlaceOrderDto.isId, h, maxInt4]

/-- User 1 buys `size` shares of instrument 1 at one peso or less. -/
def limitBuy (size : Int) (key : String) (h : isSize size = true) : Request where
  order := ⟨1, 1, .BUY, .LIMIT, some (.ofHundredths 100), some size, none⟩
  key := key
  valid := by
    have hprice : isMoney (.ofHundredths 100) = true := by decide
    simp [PlaceOrderDto.valid, PlaceOrderDto.limitPrice, PlaceOrderDto.sizeOrAmount,
      PlaceOrderDto.money, PlaceOrderDto.isId, h, hprice, maxInt4]

end Cocos
