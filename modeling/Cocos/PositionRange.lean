import Cocos.PortfolioLedger
import Cocos.Serial

namespace Cocos

open Cocos.Lib

/-!
# Positions and the `INT` they are cast to

The size of an order is bounded, the sum of the sizes is not: the view casts it to `INT`, and
past the range of that type every read of the position raises.

* `integerOutOfRange_of_place` — a placement is out of range where a read of the balance or of
  the position is;
* `Readable` — no position is past the range, and no read, placement or portfolio is out of range
  that was not at the start;
* `Room` — the buy that a request would fill leaves its position in the range;
* `room_of_nets`, `inRange_exec` — **one request** keeps the positions in range exactly when it
  has room;
* `positions_readable_iff` — **a sequence of requests keeps them readable exactly when every
  request in it has room**, and `positions_unreadable`, two buys that have not.
-/

/-! ### Reads that raise -/

/-- A read that raises is of a group of the view. -/
theorem mem_groups_of_raises {orders : Orders} {u : Int} {i : Option Int}
    (h : holdingRaises orders u i = true) : i ∈ groups orders u := by
  have hrows : holdingRows orders u i ≠ [] := by
    intro hempty
    simp [holdingRaises, castRaises, holding, netQuantity, hempty, Option.filter] at h
  obtain ⟨row, hrow⟩ := List.exists_mem_of_ne_nil _ hrows
  simp only [holdingRows, List.mem_filter, OrderRow.tradeOf, Bool.decide_and, Bool.decide_eq_true,
    Bool.and_eq_true, decide_eq_true_eq] at hrow
  simp only [groups, List.mem_dedup, List.mem_map, List.mem_filter]
  exact ⟨row, ⟨hrow.1, hrow.2.2⟩, hrow.2.1⟩

/-! ### Placements that raise -/

theorem view_ne_database {row : OrderRow} {e : DatabaseError} :
    view row ≠ .error (.database e) := by
  intro h
  unfold view at h
  cases hp : row.price with
  | none => simp [hp] at h
  | some price =>
    cases hc : centavosFromDb (Decimal.ofHundredths price).toString with
    | error thrown =>
      obtain ⟨message, rfl⟩ := centavosFromDb_error hc
      simp [hp, hc, bind, Except.bind] at h
    | ok _ =>
      cases hd : row.datetime <;>
        simp [hp, hc, hd, bind, Except.bind, pure, Except.pure] at h

theorem tradableClose_ne_database {m : Market} {i : Int} {e : DatabaseError} :
    tradableClose m i ≠ .error (.database e) := by
  intro h
  unfold tradableClose at h
  split at h
  · cases h
  · split at h
    · cases h
    · split at h
      · cases h
      · obtain ⟨message, hthrown⟩ := centavosFromDb_error h
        cases hthrown

theorem centavos_ne_database {value : Option Decimal} {e : DatabaseError} :
    centavos value ≠ .error (.database e) := by
  intro h
  cases value with
  | none => cases h
  | some value =>
    cases hc : centavosFromApi value with
    | error thrown =>
      obtain ⟨message, rfl⟩ := centavosFromDb_error hc
      simp [centavos, hc, Except.map] at h
    | ok _ => simp [centavos, hc, Except.map] at h

theorem resolveSize_ne_database {s : Sizing} {e : DatabaseError} :
    resolveSize s ≠ .error (.database e) := by
  intro h
  unfold resolveSize at h
  repeat' split at h
  all_goals cases h

/-- Pricing and sizing an order asks the database nothing. -/
theorem sized_ne_database {order : PlaceOrderDto} {close : Int} {e : DatabaseError} :
    sized order close ≠ .error (.database e) := by
  intro h
  simp only [sized, bind, pure, Except.pure, bind_eq_error, reduceCtorEq, and_false, exists_false,
    or_false] at h
  rcases h with hprice | ⟨_, -, hamount | ⟨_, -, hsize⟩⟩
  · exact centavos_ne_database hprice
  · exact centavos_ne_database hamount
  · exact resolveSize_ne_database hsize

theorem insert_ne_integerOutOfRange {orders : Orders} {o : NewOrder} {id : Int}
    {now : Timestamp} : insert orders o id now ≠ .error (.database .integerOutOfRange) := by
  unfold insert
  split_ifs <;> simp

/-- **Only its two folds put a placement out of range**: the balance it reads, or the position. -/
theorem integerOutOfRange_of_place {m : Market} {r : Request} {id : Int} {now : Timestamp}
    {orders : Orders} (h : (place m r id now orders).1 = .error (.database .integerOutOfRange)) :
    availableCash orders r.order.userId = .error (.database .integerOutOfRange) ∨
      heldShares orders r.order.userId r.order.instrumentId =
        .error (.database .integerOutOfRange) := by
  have hwithin : placeWithin m r id now orders = .error (.database .integerOutOfRange) := by
    unfold place at h
    split at h
    · cases h
    · rename_i thrown hthrown
      rw [hthrown]
      unfold caught at h
      split at h <;> cases h
      rfl
  unfold placeWithin at hwithin
  split at hwithin
  · simp only [bind, pure, Except.pure, bind_eq_error, reduceCtorEq, and_false, exists_false,
      or_false] at hwithin
    exact absurd hwithin view_ne_database
  · cases huser : userExists m r.order.userId with
    | false =>
      simp [huser, bind, Except.bind, throw, throwThe, MonadExceptOf.throw, Thrown.notFound]
        at hwithin
    | true =>
      simp only [huser, Bool.true_eq_false, if_false, bind, pure, Except.pure, bind_eq_error,
        reduceCtorEq, and_false, exists_false, or_false] at hwithin
      -- statement by statement, and none but the two folds raises so
      rcases hwithin with hclose | ⟨_, -, hsized | ⟨_, -, hcash | ⟨_, -, hheld | ⟨_, -,
        hinsert | ⟨_, -, hview⟩⟩⟩⟩⟩
      · exact absurd hclose tradableClose_ne_database
      · exact absurd hsized sized_ne_database
      · simp only [readCash, bind, bind_eq_error] at hcash
        rcases hcash with hcash | ⟨_, -, hread⟩
        · exact .inl hcash
        · obtain ⟨message, hthrown⟩ := centavosFromDb_error hread
          cases hthrown
      · exact .inr hheld
      · exact absurd hinsert insert_ne_integerOutOfRange
      · exact absurd hview view_ne_database

/-! ### Tables whose positions are in range -/

/-- The folds of a table, next to those of the table it came from. -/
structure InRange (start orders : Orders) : Prop where
  /-- Every net fits `INT`. -/
  nets : ∀ u i, fitsInt4 (netShares orders u i)
  /-- No group raises that did not. -/
  raises : ∀ u i, holdingRaises orders u i = true → holdingRaises start u i = true
  /-- No balance raises that did not. -/
  cash : ∀ u, (filledRows orders u).any OrderRow.cashRaises = true →
    (filledRows start u).any OrderRow.cashRaises = true

/-- What the reads of positions come to, next to those of the table it came from. -/
structure Readable (start orders : Orders) : Prop where
  /-- Every net fits `INT`, -/
  nets : ∀ u i, fitsInt4 (netShares orders u i)
  /-- so no cast raises, -/
  cast : ∀ u i, castRaises orders u (some i) = false
  /-- and no read fails that did not: the shares a placement reads, -/
  heldShares : ∀ u i thrown, heldShares orders u i = .error thrown →
    heldShares start u i = .error thrown
  /-- and the holdings of a portfolio. -/
  holdings : ∀ srv m u thrown, holdings srv m orders u = .error thrown →
    holdings srv m start u = .error thrown
  /-- A placement is out of range only where a read it makes was so at the start, -/
  placement : ∀ m r id now,
    (place m r id now orders).1 = .error (.database .integerOutOfRange) →
    availableCash start r.order.userId = .error (.database .integerOutOfRange) ∨
      Cocos.heldShares start r.order.userId r.order.instrumentId =
        .error (.database .integerOutOfRange)
  /-- and a portfolio only where it was so itself. -/
  portfolio : ∀ srv m u, forUser srv m orders u = .error (.database .integerOutOfRange) →
    forUser srv m start u = .error (.database .integerOutOfRange)

theorem InRange.availableCash_error {start orders : Orders} (h : InRange start orders) {u : Int}
    {thrown : Thrown} (hread : availableCash orders u = .error thrown) :
    availableCash start u = .error thrown := by
  unfold availableCash at hread ⊢
  split at hread
  · rename_i hraises
    rw [if_pos (h.cash u hraises)]
    exact hread
  · cases hread

theorem InRange.heldShares_error {start orders : Orders} (h : InRange start orders) {u i : Int}
    {thrown : Thrown} (hread : heldShares orders u i = .error thrown) :
    heldShares start u i = .error thrown := by
  unfold heldShares at hread ⊢
  split at hread
  · rename_i hraises
    rw [if_pos (h.raises u (some i) hraises)]
    exact hread
  · cases hread

theorem InRange.holdings_error {start orders : Orders} (h : InRange start orders) {srv : Server}
    {m : Market} {u : Int} {thrown : Thrown} (hread : holdings srv m orders u = .error thrown) :
    holdings srv m start u = .error thrown := by
  unfold holdings at hread ⊢
  split at hread
  · rename_i hraises
    obtain ⟨i, -, hi⟩ := List.any_eq_true.mp hraises
    have hstart := h.raises u i hi
    rw [if_pos (List.any_eq_true.mpr ⟨i, mem_groups_of_raises hstart, hstart⟩)]
    exact hread
  · cases hread

/-- A portfolio is out of range only where one of its two queries is. -/
theorem InRange.forUser_error {start orders : Orders} (h : InRange start orders) {srv : Server}
    {m : Market} {u : Int}
    (hread : forUser srv m orders u = .error (.database .integerOutOfRange)) :
    forUser srv m start u = .error (.database .integerOutOfRange) := by
  rcases forUser_error_cases hread with ⟨-, hthrown⟩ | ⟨huser, hcash | hholdings | hrange⟩
  · cases hthrown
  · exact forUser_of_cash_error huser (h.availableCash_error hcash)
  · exact forUser_of_holdings_error huser (h.holdings_error hholdings)
  · obtain ⟨message, hthrown⟩ := hrange
    cases hthrown

theorem InRange.readable {start orders : Orders} (h : InRange start orders) :
    Readable start orders where
  nets := h.nets
  cast u i := castRaises_of_fits (h.nets u i)
  heldShares _ _ _ := h.heldShares_error
  holdings _ _ _ _ := h.holdings_error
  placement m r id now hplace := by
    rcases integerOutOfRange_of_place hplace with hcash | hheld
    · exact .inl (h.availableCash_error hcash)
    · exact .inr (h.heldShares_error hheld)
  portfolio _ _ _ := h.forUser_error

/-! ### One request -/

/-- The request has room: if it is a MARKET BUY that goes through and that the cash covers, its
    size fits on top of the position. -/
def Room (m : Market) (orders : Orders) : Op → Prop
  | .place _ r id now => ∀ q cash held row, Readings m orders r q cash held →
      insert orders (newOrder r q cash held) id now = .ok row →
      r.order.type = .MARKET → r.order.side = .BUY → q.close * q.size ≤ cash →
      netShares orders r.order.userId r.order.instrumentId + q.size ≤ maxInt4
  | .cancel _ _ => True

/-- The net of an instrument after a new row. -/
theorem netShares_newOrder (r : Request) (q : Sized) (cash held id : Int) (now : Timestamp)
    (orders : Orders) (u i : Int) :
    netShares (orders ++ [(newOrder r q cash held).row id now]) u i =
      if u = r.order.userId ∧ (placement r.order q cash held).decide.status = .FILLED then
        netShares orders u i - (fillOf r q cash held).draw (.shares i)
      else netShares orders u i := by
  rw [netShares_eq, netShares_eq, account_newOrder]
  split <;> rfl

/-- **The nets after a request tell whether it had room.** -/
theorem room_of_nets {m : Market} {orders : Orders} {op : Op}
    (h : ∀ u i, fitsInt4 (netShares ((serial m).exec orders op).1 u i)) : Room m orders op := by
  cases op with
  | cancel c id => trivial
  | place t r id now =>
    intro q cash held row hread hinsert htype hside hcash
    obtain ⟨hfits, -, -, rfl⟩ := insert_eq_ok.mp hinsert
    have hprice : (newOrder r q cash held).price.natAbs ≤ 9999999999 := by
      simp only [NewOrder.fits, Bool.decide_and, Bool.and_eq_true, decide_eq_true_eq] at hfits
      exact hfits.2
    -- the row is answered, so the table has it
    have hview := @view_ok ((newOrder r q cash held).row id now) _ _ rfl rfl
      (show (newOrder r q cash held).price.natAbs < 10 ^ 23 by omega)
    have hexec : ((serial m).exec orders (.place t r id now)).1 =
        orders ++ [(newOrder r q cash held).row id now] := by
      have hplace := place_of_ok (placeWithin_eq_ok.mpr
        (.inr ⟨q, cash, held, _, _, hread, hinsert, hview, rfl, rfl⟩))
      simp [serial, hplace]
    have hfilled : (placement r.order q cash held).decide.status = .FILLED := by
      rw [Placement.decide_status_eq_filled]
      simp [placement, Placement.covered, Placement.executed, htype, hside, hcash]
    have hnet := (h r.order.userId r.order.instrumentId).2
    rw [hexec, netShares_newOrder, if_pos ⟨rfl, hfilled⟩] at hnet
    simp only [fillOf, Placement.trade, placement, Trade.draw, if_true, hside] at hnet
    omega

/-- A FILLED row keeps every net in range if it is a sell, or a buy with room. -/
theorem nets_newOrder {m : Market} {orders : Orders} {r : Request} {q : Sized} {cash held : Int}
    (hread : Readings m orders r q cash held) (id : Int) (now : Timestamp)
    (hnets : ∀ u i, fitsInt4 (netShares orders u i))
    (hroom : (placement r.order q cash held).decide.status = .FILLED → r.order.side = .BUY →
      netShares orders r.order.userId r.order.instrumentId + q.size ≤ maxInt4) (u i : Int) :
    fitsInt4 (netShares (orders ++ [(newOrder r q cash held).row id now]) u i) := by
  have hsize := sized_size_bounds r.valid hread.sized
  rw [netShares_newOrder]
  split
  · rename_i h
    obtain ⟨rfl, hfilled⟩ := h
    by_cases hi : i = r.order.instrumentId
    · subst hi
      have hnet := hnets r.order.userId r.order.instrumentId
      have hcovered := hread.covered hfilled
      rw [fitsInt4_iff] at hnet ⊢
      simp only [maxInt4] at hroom
      cases hside : r.order.side with
      | BUY =>
        -- a filled buy is the only row that takes a net up
        have := hroom hfilled hside
        simp only [fillOf, Placement.trade, placement, Trade.draw, if_true, hside]
        omega
      | SELL =>
        -- a covered sell leaves the position at or above zero
        simp only [Trade.Covered, fillOf, Placement.trade, placement, Trade.draw, Trade.resource,
          if_true, hside, ← netShares_eq] at hcovered ⊢
        omega
    · simpa [fillOf, Placement.trade, Trade.draw, hi] using hnets r.order.userId i
  · exact hnets u i

/-- A new row raises in no group. -/
theorem shareRaises_newOrder {m : Market} {orders : Orders} {r : Request} {q : Sized}
    {cash held : Int} (hread : Readings m orders r q cash held) (id : Int) (now : Timestamp) :
    ((newOrder r q cash held).row id now).shareRaises = false := by
  have hsize := (sized_size_bounds r.valid hread.sized).1
  simp only [OrderRow.shareRaises, NewOrder.row, newOrder, minInt4, Option.some.injEq,
    decide_eq_false_iff_not, not_and]
  omega

/-- A new row makes no group raise whose net is in range. -/
theorem raises_newOrder {m : Market} {orders : Orders} {r : Request} {q : Sized}
    {cash held : Int} (hread : Readings m orders r q cash held) (id : Int) (now : Timestamp)
    (hnets : ∀ u i, fitsInt4 (netShares (orders ++ [(newOrder r q cash held).row id now]) u i))
    {u : Int} {i : Option Int}
    (h : holdingRaises (orders ++ [(newOrder r q cash held).row id now]) u i = true) :
    holdingRaises orders u i = true := by
  have hrows : holdingRows (orders ++ [(newOrder r q cash held).row id now]) u i =
      holdingRows orders u i ++ holdingRows [(newOrder r q cash held).row id now] u i := by
    simp [holdingRows, filledRows]
  cases i with
  | none =>
    -- the row names its instrument, so it is in another group
    have hnone : holdingRows [(newOrder r q cash held).row id now] u none = [] := by
      simp [holdingRows, filledRows, OrderRow.tradeOf, NewOrder.row, newOrder]
    have hsame : holdingRows (orders ++ [(newOrder r q cash held).row id now]) u none =
        holdingRows orders u none := by
      rw [hrows, hnone, List.append_nil]
    simpa only [holdingRaises, castRaises, holding, netQuantity, hsame] using h
  | some i =>
    have hnew : (holdingRows [(newOrder r q cash held).row id now] u (some i)).any
        OrderRow.shareRaises = false := by
      rw [List.any_eq_false]
      intro row hrow
      have hmem := (List.mem_filter.mp (List.mem_filter.mp hrow).1).1
      rw [List.mem_singleton.mp hmem, shareRaises_newOrder hread]
      simp
    rw [holdingRaises, castRaises_of_fits (hnets u i), Bool.or_false, hrows, List.any_append,
      hnew, Bool.or_false] at h
    rw [holdingRaises, h, Bool.true_or]

/-- A new row makes no balance raise. -/
theorem cashRaises_newOrder {m : Market} {orders : Orders} {r : Request} {q : Sized}
    {cash held : Int} (hread : Readings m orders r q cash held) (id : Int) (now : Timestamp)
    {u : Int} (h : (filledRows (orders ++ [(newOrder r q cash held).row id now]) u).any
      OrderRow.cashRaises = true) : (filledRows orders u).any OrderRow.cashRaises = true := by
  have hsize := (sized_size_bounds r.valid hread.sized).1
  have hnew : ((newOrder r q cash held).row id now).cashRaises = false := by
    simp only [OrderRow.cashRaises, NewOrder.row, newOrder, minInt4, Option.some.injEq,
      decide_eq_false_iff_not, not_and]
    omega
  obtain ⟨row, hrow, hraises⟩ := List.any_eq_true.mp h
  obtain ⟨hrow, hfilled⟩ := List.mem_filter.mp hrow
  rcases List.mem_append.mp hrow with hold | hlast
  · exact List.any_eq_true.mpr ⟨row, List.mem_filter.mpr ⟨hold, hfilled⟩, hraises⟩
  · rw [List.mem_singleton.mp hlast, hnew] at hraises
    cases hraises

/-- **A request with room keeps the positions in range.** -/
theorem inRange_exec {m : Market} {start orders : Orders} {op : Op} (h : InRange start orders)
    (hroom : Room m orders op) : InRange start ((serial m).exec orders op).1 := by
  cases op with
  | cancel c id =>
    have hfilled : ∀ u, filledRows (cancel id orders).2 u = filledRows orders u := by
      intro u
      rw [cancel_snd]
      exact filledRows_cancel orders id u
    refine ⟨fun u i => ?_, fun u i hraises => h.raises u i ?_, fun u hraises => h.cash u ?_⟩
    · show fitsInt4 (netShares (cancel id orders).2 u i)
      rw [netShares, netQuantity_congr (hfilled u)]
      exact h.nets u i
    · rw [← holdingRaises_congr (hfilled u)]
      exact hraises
    · rw [← hfilled u]
      exact hraises
  | place t r id now =>
    show InRange start (place m r id now orders).2
    rcases place_snd_cases m r id now orders with hsame | ⟨q, cash, held, hread, hinsert, hnew⟩
    · rw [hsame]
      exact h
    · have hnets : ∀ u i,
          fitsInt4 (netShares (orders ++ [(newOrder r q cash held).row id now]) u i) := by
        refine nets_newOrder hread id now h.nets fun hfilled hside => ?_
        -- the row is filled, so the request is one that needs room
        obtain ⟨htype, hcovered⟩ := (Placement.decide_status_eq_filled _).mp hfilled
        have hcash : q.close * q.size ≤ cash := by
          simpa [placement, Placement.covered, Placement.executed, hside,
            show r.order.type = .MARKET from htype] using hcovered
        exact hroom q cash held _ hread hinsert htype hside hcash
      rw [hnew]
      exact ⟨hnets, fun u i hraises => h.raises u i (raises_newOrder hread id now hnets hraises),
        fun u hraises => h.cash u (cashRaises_newOrder hread id now hraises)⟩

/-! ### Sequences of requests -/

/-- **A sequence of requests keeps the positions readable exactly when every request in it has
    room.** -/
theorem positions_readable_iff (m : Market) {start : Orders}
    (hstart : ∀ u i, fitsInt4 (netShares start u i)) (ops : List Op) :
    (∀ pre op, pre ++ [op] <+: ops → Room m ((serial m).final start pre) op) ↔
      ∀ pre, pre <+: ops → Readable start ((serial m).final start pre) := by
  constructor
  · intro hroom pre hpre
    have hrange : InRange start ((serial m).final start pre) := by
      -- request by request: each has room on the table that those before it left
      induction pre using List.reverseRecOn with
      | nil => exact ⟨hstart, fun _ _ h => h, fun _ h => h⟩
      | append_singleton pre op ih =>
        have hprefix : pre <+: ops := (List.prefix_append pre [op]).trans hpre
        rw [AtomicObject.final_append]
        exact inRange_exec (ih hprefix) (hroom pre op hpre)
    exact hrange.readable
  · intro hreadable pre op hpre
    apply room_of_nets
    -- the nets one request later show that it had room
    have hafter := (hreadable (pre ++ [op]) hpre).nets
    rw [AtomicObject.final_append] at hafter
    exact hafter

/-- A deposit is no position. -/
theorem netShares_deposit (amount u i : Int) : netShares [deposit amount] u i = 0 := by
  rw [netShares_eq]
  simp [account, OrderRow.delta, deposit, OrderRow.tradeOf, OrderRow.isTrade, Side.text]

/-- A buy of one share has room. -/
theorem positions_readable_iff_oneShare :
    Readable [deposit 5] ((serial (marketAt 100)).final [deposit 5]
      [.place 0 (marketBuy 1 "a" (by decide)) 2 7]) := by
  have hstart : ∀ u i, fitsInt4 (netShares [deposit 5] u i) := by
    intro u i
    rw [netShares_deposit]
    decide
  refine (positions_readable_iff (marketAt 100) hstart _).mp (fun pre op hpre => ?_) _
    (List.prefix_refl _)
  obtain ⟨rfl, rfl⟩ : pre = [] ∧ op = .place 0 (marketBuy 1 "a" (by decide)) 2 7 := by
    cases pre with
    | nil => simpa using hpre
    | cons x pre => simp at hpre
  intro q cash held row hread _ _ _ _
  have hsize : q.size = 1 := by
    have hsized : Except.ok (⟨q.close, none, 1⟩ : Sized) = .ok q := hread.sized
    rw [← Except.ok.inj hsized]
  show netShares [deposit 5] 1 1 + q.size ≤ maxInt4
  rw [netShares_deposit, hsize]
  decide

/-- **Two buys that have not**: at a close of one centavo, fifty million pesos pay for two orders
    of the largest size there is, and every later read of the position raises. -/
theorem positions_unreadable :
    let start := [deposit 50000000]
    let buys := [Op.place 0 (marketBuy 2147483647 "a" (by decide)) 2 7,
      Op.place 1 (marketBuy 2147483647 "b" (by decide)) 3 8]
    let after := (serial (marketAt 1)).final start buys
    (∀ u i, fitsInt4 (netShares start u i)) ∧ netShares after 1 1 = 4294967294 ∧
      heldShares start 1 1 = .ok 0 ∧ heldShares after 1 1 = .error (.database .integerOutOfRange) ∧
      (place (marketAt 1) (marketBuy 1 "c" (by decide)) 4 9 after).1 =
        .error (.database .integerOutOfRange) ∧
      forUser exactServer (marketAt 1) after 1 = .error (.database .integerOutOfRange) := by
  refine ⟨fun u i => ?_, by decide +kernel, by decide +kernel, by decide +kernel, by decide +kernel,
    by decide +kernel⟩
  rw [netShares_deposit]
  decide

end Cocos
