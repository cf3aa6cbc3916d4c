import Mathlib.Algebra.Order.BigOperators.Group.List
import Cocos.Freshness
import Cocos.Lib.Lists
import Cocos.Portfolio

namespace Cocos

open Cocos.Lib

/-!
# A portfolio is its ledger

Two views, a query that joins and rounds them, and a sum over strings add up to one fold of the
orders table.

* `OrderRow.Complete` — the columns the views read are there, and the size is positive;
* `Portfolio.Reflects` — the positions, their values, the total and the nulls of a portfolio, as
  the ledger has them;
* `forUser_reflects` — **what `forUser` answers reflects the table it read**, and
  `forUser_error` says what else it may do;
* `Desk` — portfolios read while orders are placed and cancelled, each query a step of its own,
  and `portfolio_reflects` — **every answer reflects one committed state**.
-/

/-! ### Complete rows -/

/-- The columns the views read are there, and the size is positive. -/
structure OrderRow.Complete (row : OrderRow) : Prop where
  instrumentId : row.instrumentId.isSome
  size : ∃ size, row.size = some size ∧ 0 < size
  price : row.price.isSome

namespace OrderRow.Complete

variable {row : OrderRow}

/-- A positive size has a negation. -/
theorem size_ne_minInt4 (h : row.Complete) : row.size ≠ some minInt4 := by
  obtain ⟨size, hsize, hpos⟩ := h.size
  rw [hsize, ne_eq, Option.some.injEq]
  unfold minInt4
  omega

/-- A cancel writes no column that the views read but the status. -/
theorem afterCancel (h : row.Complete) (id : Int) : (row.afterCancel id).Complete := by
  rcases afterCancel_eq_or id row with hsame | ⟨-, -, hcancelled⟩
  · rw [hsame]
    exact h
  · rw [hcancelled]
    exact ⟨h.instrumentId, h.size, h.price⟩

end OrderRow.Complete

/-- A new order is complete. -/
theorem Readings.complete {m : Market} {orders : Orders} {r : Request} {q : Sized}
    {cash held : Int} (h : Readings m orders r q cash held) (id : Int) (now : Timestamp) :
    ((newOrder r q cash held).row id now).Complete where
  instrumentId := rfl
  size := ⟨q.size, rfl, by have := (sized_size_bounds r.valid h.sized).1; omega⟩
  price := rfl

/-- Every row stays complete. -/
theorem complete_step {m : Market} {s s' : State} {e : Event} (hinv : Inv m s)
    (h : ∀ row ∈ s.orders, row.Complete) (hstep : (service m).step s e = some s') :
    ∀ row ∈ s'.orders, row.Complete := by
  cases took_of_step hstep with
  | committed ht =>
    obtain ⟨q, cash, held, id, now, order, hread, -, rfl, -⟩ := hinv.readings ht
    exact forall_mem_concat h (hread.complete id now)
  | cancelled =>
    intro row' hrow'
    obtain ⟨row, hrow, rfl⟩ := List.mem_map.mp hrow'
    exact (h row hrow).afterCancel _
  | _ => exact h

theorem complete_run {m : Market} {orders : Orders} {sequence : Int} {es : List Event} {s : State}
    (h : ∀ row ∈ orders, row.Complete)
    (hrun : (service m).run (.initial orders sequence) es = some s) :
    ∀ row ∈ s.orders, row.Complete := by
  have key : Inv m s ∧ ∀ row ∈ s.orders, row.Complete :=
    (service m).invariant_run (I := fun s => Inv m s ∧ ∀ row ∈ s.orders, row.Complete)
      (fun h hstep => ⟨h.1.step hstep, complete_step h.1 h.2 hstep⟩)
      ⟨inv_initial m orders sequence, h⟩ hrun
  exact key.2

/-! ### A row of the query -/

/-- The instrument is one of the market, and no currency. -/
def Market.Lists (m : Market) (i : Int) : Prop :=
  ∃ instrument ∈ m.instruments, instrument.id = i ∧ instrument.type ≠ some "MONEDA"

/-- The latest close of an instrument, if it has one. -/
def Market.close? (m : Market) (i : Int) : Option Int := (m.latestClose i).join

/-- A group is in the view exactly when its net is not zero, and with that net. -/
theorem holding_eq_some {orders : Orders} {u i quantity : Int} :
    holding orders u (some i) = some quantity ↔
      quantity = netShares orders u i ∧ netShares orders u i ≠ 0 := by
  unfold holding netShares
  cases netQuantity orders u (some i) with
  | none => simp
  | some net =>
    by_cases hzero : net = 0
    · simp [Option.filter, hzero]
    · simp [Option.filter, hzero, eq_comm]

/-- A listed instrument is the one its id finds. -/
theorem Market.lists_iff {m : Market} {i : Int} :
    m.Lists i ↔ ∃ instrument, (m.instruments.find? fun row => row.id = i) = some instrument ∧
      instrument.type ≠ some "MONEDA" := by
  constructor
  · rintro ⟨instrument, hmem, rfl, htype⟩
    exact ⟨instrument, find?_key m.primaryKey hmem, htype⟩
  · rintro ⟨instrument, hfind, htype⟩
    exact ⟨instrument, List.mem_of_find?_eq_some hfind, by simpa using List.find?_some hfind, htype⟩

/-- **The row of an instrument**: where it is listed and its net is not zero, that net, its value
    at the close, and what the `CASE` leaves of the return. -/
theorem holdingRow_eq_some {srv : Server} {m : Market} {orders : Orders} {u i : Int}
    {h : Holding} (hrow : holdingRow srv m orders u i = some h) :
    m.Lists i ∧ netShares orders u i ≠ 0 ∧ h.instrumentId = i ∧
      h.quantity = netShares orders u i ∧
      h.marketValue = .ofHundredths (h.quantity * (m.close? i).getD 0) ∧
      h.avgCost.isSome = (srv.avgCostOf orders u i).isSome ∧
      h.totalReturnPct.isSome =
        (srv.totalReturn h.quantity (srv.avgCostOf orders u i) (m.close? i)).isSome := by
  unfold holdingRow at hrow
  split at hrow
  · rename_i quantity instrument hq hi
    obtain ⟨rfl, hne⟩ := holding_eq_some.mp hq
    split at hrow
    · cases hrow
    · rename_i hmoneda
      cases hrow
      refine ⟨Market.lists_iff.mpr ⟨instrument, hi, hmoneda⟩, hne, rfl, rfl, ?_, ?_, ?_⟩
      · rw [marketValue_eq]
        rfl
      · rw [Option.isSome_map]
      · rw [Option.isSome_map]
        rfl
  · cases hrow

/-- Every listed instrument of a net that is not zero has a row. -/
theorem isSome_holdingRow {srv : Server} {m : Market} {orders : Orders} {u i : Int}
    (hlists : m.Lists i) (hnet : netShares orders u i ≠ 0) :
    (holdingRow srv m orders u i).isSome := by
  obtain ⟨instrument, hi, htype⟩ := Market.lists_iff.mp hlists
  unfold holdingRow
  rw [holding_eq_some.mpr ⟨rfl, hnet⟩, hi]
  simp [htype]

/-- The return is reckoned on a position that is held, at an average cost and a close. -/
theorem Server.totalReturn_isSome (srv : Server) (quantity : Int) (avg : Option ℚ)
    (close : Option Int) :
    (srv.totalReturn quantity avg close).isSome = true ↔
      0 < quantity ∧ (∃ cost, avg = some cost ∧ 0 < cost) ∧ close.isSome = true := by
  unfold Server.totalReturn
  cases avg with
  | none => simp
  | some cost =>
    cases close with
    | none => simp
    | some close => by_cases h : 0 < quantity ∧ 0 < cost <;> simp [h]

/-- Complete rows have sizes that add up to more than nothing. -/
theorem sum_size_pos {rows : Orders} (hne : rows ≠ []) (h : ∀ row ∈ rows, row.Complete) :
    0 < (rows.map fun row => row.size.getD 0).sum := by
  apply List.sum_pos
  · intro size hsize
    obtain ⟨row, hrow, rfl⟩ := List.mem_map.mp hsize
    obtain ⟨size, hsize, hpos⟩ := (h row hrow).size
    rw [hsize]
    exact hpos
  · rwa [ne_eq, List.map_eq_nil_iff]

/-- **A position has an average cost exactly when something was bought for it.** -/
theorem avgCostOf_eq_none (srv : Server) {orders : Orders} {u i : Int}
    (hrows : ∀ row ∈ orders, row.Complete) :
    srv.avgCostOf orders u i = none ↔
      ∀ row ∈ holdingRows orders u (some i), row.isBuy = false := by
  have hmem : ∀ row ∈ (holdingRows orders u (some i)).filter OrderRow.isBuy, row.Complete := by
    intro row hrow
    simp only [holdingRows, filledRows, List.mem_filter] at hrow
    exact hrows row hrow.1.1.1
  have hnil : (holdingRows orders u (some i)).filter OrderRow.isBuy = [] ↔
      ∀ row ∈ holdingRows orders u (some i), row.isBuy = false := by simp
  rw [Server.avgCostOf, Option.map_eq_none_iff, avgCost, ← hnil]
  generalize (holdingRows orders u (some i)).filter OrderRow.isBuy = bought at hmem ⊢
  constructor
  · intro hnone
    by_contra hne
    obtain ⟨row, hrow⟩ := List.exists_mem_of_ne_nil bought hne
    obtain ⟨size, hsize, -⟩ := (hmem row hrow).size
    obtain ⟨price, hprice⟩ := Option.isSome_iff_exists.mp (hmem row hrow).price
    -- one buy makes both sums, and the second of them is positive
    have hcost := sqlSum_eq_some (List.mem_map.mpr ⟨row, hrow, rfl⟩)
      (show row.amount ≠ none by simp [OrderRow.amount, hsize, hprice])
    have htotal := sqlSum_eq_some (List.mem_map.mpr ⟨row, hrow, rfl⟩)
      (show row.size ≠ none by simp [hsize])
    have hpos := sum_size_pos hne hmem
    simp only [hcost, htotal, List.map_map] at hnone
    split at hnone
    · rename_i hzero
      exact absurd hzero hpos.ne'
    · cases hnone
  · rintro rfl
    rfl

/-! ### The answer -/

/-- **What a portfolio says of a table.** -/
structure Portfolio.Reflects (srv : Server) (m : Market) (orders : Orders) (u : Int)
    (p : Portfolio) : Prop where
  /-- The positions are the listed instruments of a net that is not zero, -/
  listed : ∀ i, i ∈ p.positions.map (·.instrumentId) ↔ m.Lists i ∧ netShares orders u i ≠ 0
  /-- each once, -/
  once : (p.positions.map (·.instrumentId)).Nodup
  /-- with the net for its quantity -/
  quantity : ∀ q ∈ p.positions, q.quantity = netShares orders u q.instrumentId
  /-- and the net at the latest close, or at nothing, for its value. -/
  marketValue : ∀ q ∈ p.positions,
    q.marketValue = apiString (q.quantity * (m.close? q.instrumentId).getD 0)
  /-- The total is the cash and the values it is answered with, -/
  total : ∃ total cash values, centavosFromDb p.totalValue = .ok total ∧
    centavosFromDb p.availableCash = .ok cash ∧
    (p.positions.mapM fun q => centavosFromDb q.marketValue) = .ok values ∧
    total = cash + values.sum
  /-- and it is the cash fold and the nets at their closes. -/
  fold : centavosFromDb p.totalValue = .ok (cashFold orders u + (p.positions.map fun q =>
    netShares orders u q.instrumentId * (m.close? q.instrumentId).getD 0).sum)
  /-- An average cost is missing exactly where nothing was bought. -/
  avgCost : ∀ q ∈ p.positions, q.avgCost = none ↔
    ∀ row ∈ holdingRows orders u (some q.instrumentId), row.isBuy = false
  /-- A return is there exactly where there is a position to have one, a cost and a close. -/
  totalReturnPct : ∀ q ∈ p.positions, q.totalReturnPct.isSome = true ↔
    0 < q.quantity ∧ (∃ cost, srv.avgCostOf orders u q.instrumentId = some cost ∧ 0 < cost) ∧
      (m.close? q.instrumentId).isSome = true

/-- Two decimals are there exactly when the number is. -/
theorem isSome_twoDecimals {value : Option Decimal} {text : Option String}
    (h : twoDecimals value = .ok text) : text.isSome = value.isSome := by
  cases value with
  | none =>
    rw [twoDecimals, Except.ok.injEq] at h
    exact h ▸ rfl
  | some value =>
    rw [twoDecimals] at h
    cases hc : centavosFromDb value.toString with
    | error thrown =>
      rw [hc] at h
      cases h
    | ok c =>
      rw [hc] at h
      cases h
      rfl

/-- **A position says of its instrument what the ledger does.** -/
theorem position_reflects {srv : Server} {m : Market} {orders : Orders} {u i : Int} {h : Holding}
    {q : Position} (hrow : holdingRow srv m orders u i = some h) (hq : position h = .ok q) :
    q.instrumentId = i ∧ q.quantity = netShares orders u i ∧
      q.marketValue = apiString (q.quantity * (m.close? i).getD 0) ∧
      q.avgCost.isSome = (srv.avgCostOf orders u i).isSome ∧
      q.totalReturnPct.isSome =
        (srv.totalReturn q.quantity (srv.avgCostOf orders u i) (m.close? i)).isSome := by
  obtain ⟨-, -, hid, hquantity, hvalue, havg, hreturn⟩ := holdingRow_eq_some hrow
  simp only [position, bind, pure, Except.pure, bind_eq_ok, Except.ok.injEq] at hq
  obtain ⟨value, hv, avg, hav, ret, hre, rfl⟩ := hq
  rw [hvalue] at hv
  refine ⟨hid, hquantity, ?_, ?_, ?_⟩
  · rw [eq_of_centavosFromDb_toString hv]
  · rw [isSome_twoDecimals hav, havg]
  · rw [isSome_twoDecimals hre, hreturn]

/-- The instruments of the query's rows are the listed ones of a net that is not zero. -/
theorem mem_holdings_iff {srv : Server} {m : Market} {orders : Orders} {u : Int}
    {rows : List Holding} (h : holdings srv m orders u = .ok rows) (i : Int) :
    i ∈ rows.map (·.instrumentId) ↔ m.Lists i ∧ netShares orders u i ≠ 0 := by
  have hperm := holdings_perm h
  constructor
  · intro hi
    obtain ⟨row, hrow, rfl⟩ := List.mem_map.mp hi
    obtain ⟨j, -, hj⟩ := List.mem_filterMap.mp (hperm.mem_iff.mp hrow)
    obtain ⟨hlists, hnet, hid, -⟩ := holdingRow_eq_some hj
    rw [hid]
    exact ⟨hlists, hnet⟩
  · rintro ⟨hlists, hnet⟩
    have hsome : (holdingRow srv m orders u i).isSome := isSome_holdingRow hlists hnet
    obtain ⟨row, hrow⟩ := Option.isSome_iff_exists.mp hsome
    -- a net that is not zero is of trades, and they are the groups
    have htraded : i ∈ traded orders u := by
      by_contra hnot
      exact hnet (netShares_eq orders u i ▸ account_of_not_traded hnot)
    have hgroup : i ∈ (groups orders u).reduceOption := List.mem_toFinset.mp htraded
    have hid := (holdingRow_eq_some hrow).2.2.1
    exact List.mem_map.mpr
      ⟨row, hperm.mem_iff.mpr (List.mem_filterMap.mpr ⟨i, hgroup, hrow⟩), hid⟩

/-- Each has one row. -/
theorem nodup_holdings {srv : Server} {m : Market} {orders : Orders} {u : Int}
    {rows : List Holding} (h : holdings srv m orders u = .ok rows) :
    (rows.map (·.instrumentId)).Nodup := by
  rw [((holdings_perm h).map _).nodup_iff, List.map_filterMap]
  refine (nodup_groups orders u).filterMap fun i j k hi hj => ?_
  obtain ⟨row, hrow, rfl⟩ := Option.map_eq_some_iff.mp (Option.mem_def.mp hi)
  obtain ⟨row', hrow', hk⟩ := Option.map_eq_some_iff.mp (Option.mem_def.mp hj)
  rw [← (holdingRow_eq_some hrow).2.2.1, ← hk, (holdingRow_eq_some hrow').2.2.1]

/-- A listed instrument counts for its close. -/
theorem Market.Lists.weight {m : Market} {i : Int} (h : m.Lists i) :
    m.weight i = (m.close? i).getD 0 := by
  obtain ⟨instrument, hfind, htype⟩ := Market.lists_iff.mp h
  unfold Market.weight
  rw [hfind]
  exact if_neg htype

/-- The position that is answered for a row of the query is of an instrument the row is of. -/
theorem position_of_holdings {srv : Server} {m : Market} {orders : Orders} {u : Int}
    {rows : List Holding} (h : holdings srv m orders u = .ok rows) {row : Holding}
    (hrow : row ∈ rows) {q : Position} (hq : position row = .ok q) :
    q.instrumentId = row.instrumentId ∧ m.Lists q.instrumentId ∧
      holdingRow srv m orders u q.instrumentId = some row := by
  obtain ⟨i, -, hi⟩ := List.mem_filterMap.mp ((holdings_perm h).mem_iff.mp hrow)
  obtain ⟨hlists, -, hid, -⟩ := holdingRow_eq_some hi
  rw [(position_reflects hi hq).1, hid]
  exact ⟨rfl, hlists, hi⟩

/-- The positions answered are worth what the rows of the query are. -/
theorem worth_positions {srv : Server} {m : Market} {orders : Orders} {u : Int}
    {rows : List Holding} (h : holdings srv m orders u = .ok rows) {positions : List Position}
    (hpositions : rows.mapM position = .ok positions) :
    positions.map (fun q => q.quantity * (m.close? q.instrumentId).getD 0) =
      rows.map (Holding.worth m) := by
  refine map_eq_map_of_forall₂ (forall₂_of_mapM_eq_ok hpositions) fun row hrow q hq => ?_
  obtain ⟨hid, hlists, hi⟩ := position_of_holdings h hrow hq
  rw [Holding.worth, ← hid, hlists.weight, (position_reflects hi hq).2.1,
    (holdingRow_eq_some hi).2.2.2.1]

/-- **What `forUser` answers reflects the table it read.** -/
theorem forUser_reflects {srv : Server} {m : Market} {orders : Orders} {u : Int} {p : Portfolio}
    (hrows : ∀ row ∈ orders, row.Complete) (h : forUser srv m orders u = .ok p) :
    p.Reflects srv m orders u := by
  obtain ⟨-, cash, rows, total, positions, hcash, hholdings, htotal, hpositions, rfl⟩ :=
    forUser_eq_ok.mp h
  have hpair := forall₂_of_mapM_eq_ok hpositions
  have hmem : ∀ q ∈ positions, ∃ row, holdingRow srv m orders u q.instrumentId = some row ∧
      position row = .ok q := by
    intro q hq
    obtain ⟨row, hrow, hposition⟩ := exists_left_of_forall₂ hpair hq
    exact ⟨row, (position_of_holdings hholdings hrow hposition).2.2, hposition⟩
  have hids : positions.map (·.instrumentId) = rows.map (·.instrumentId) :=
    map_eq_map_of_forall₂ hpair fun row hrow q hq =>
      (position_of_holdings hholdings hrow hq).1
  have hquantity : ∀ q ∈ positions, q.quantity = netShares orders u q.instrumentId := by
    intro q hq
    obtain ⟨row, hrow, hposition⟩ := hmem q hq
    exact (position_reflects hrow hposition).2.1
  have hvalue : ∀ q ∈ positions,
      q.marketValue = apiString (q.quantity * (m.close? q.instrumentId).getD 0) := by
    intro q hq
    obtain ⟨row, hrow, hposition⟩ := hmem q hq
    exact (position_reflects hrow hposition).2.2.1
  -- the `reduce` adds the market values up
  have hworth : ∀ row ∈ rows, row.marketValue = .ofHundredths (row.worth m) := by
    intro row hrow
    obtain ⟨i, -, hi⟩ := List.mem_filterMap.mp ((holdings_perm hholdings).mem_iff.mp hrow)
    exact holdingRow_marketValue hi
  have htotal' := totalValue_eq hworth htotal
  rw [← worth_positions hholdings hpositions] at htotal'
  refine ⟨fun i => ?_, ?_, hquantity, hvalue, ?_, ?_, fun q hq => ?_, fun q hq => ?_⟩
  · rw [hids]
    exact mem_holdings_iff hholdings i
  · rw [hids]
    exact nodup_holdings hholdings
  · refine ⟨total, cash, _, centavosFromDb_apiString total, centavosFromDb_apiString cash, ?_,
      htotal'⟩
    apply mapM_eq_ok_map
    intro q hq
    rw [hvalue q hq, centavosFromDb_apiString]
  · rw [centavosFromDb_apiString, htotal', readCash_eq hcash, cashFold_eq]
    have hnets : positions.map (fun q => q.quantity * (m.close? q.instrumentId).getD 0) =
        positions.map fun q =>
          netShares orders u q.instrumentId * (m.close? q.instrumentId).getD 0 :=
      List.map_congr_left fun q hq => by rw [hquantity q hq]
    rw [hnets]
  · obtain ⟨row, hrow, hposition⟩ := hmem q hq
    rw [← avgCostOf_eq_none srv hrows, ← Option.isNone_iff_eq_none, ← Option.isNone_iff_eq_none,
      ← Option.not_isSome, ← Option.not_isSome, (position_reflects hrow hposition).2.2.2.1]
  · obtain ⟨row, hrow, hposition⟩ := hmem q hq
    rw [(position_reflects hrow hposition).2.2.2.2, Server.totalReturn_isSome]

/-! ### When there is no answer -/

theorem twoDecimals_error {value : Option Decimal} {thrown : Thrown}
    (h : twoDecimals value = .error thrown) : ∃ message, thrown = .rangeError message := by
  cases value with
  | none => cases h
  | some value =>
    rw [twoDecimals] at h
    cases hc : centavosFromDb value.toString with
    | error e =>
      rw [hc] at h
      cases h
      exact centavosFromDb_error hc
    | ok c =>
      rw [hc] at h
      cases h

theorem position_error {h : Holding} {thrown : Thrown} (hq : position h = .error thrown) :
    ∃ message, thrown = .rangeError message := by
  simp only [position, bind, pure, Except.pure, bind_eq_error, reduceCtorEq, and_false,
    exists_false, or_false] at hq
  rcases hq with hv | ⟨-, -, hv | ⟨-, -, hv⟩⟩
  · exact centavosFromDb_error hv
  · exact twoDecimals_error hv
  · exact twoDecimals_error hv

theorem positions_error {rows : List Holding} {thrown : Thrown}
    (h : rows.mapM position = .error thrown) : ∃ message, thrown = .rangeError message := by
  induction rows with
  | nil => cases h
  | cons row rows ih =>
    rw [List.mapM_cons] at h
    simp only [bind, pure, Except.pure, bind_eq_error, reduceCtorEq, and_false, exists_false,
      or_false] at h
    rcases h with hrow | ⟨-, -, hrows⟩
    · exact position_error hrow
    · exact ih hrows

theorem totalValue_error {rows : List Holding} {start : Int} {thrown : Thrown}
    (h : totalValue start rows = .error thrown) : ∃ message, thrown = .rangeError message := by
  induction rows generalizing start with
  | nil => cases h
  | cons row rows ih =>
    simp only [totalValue, bind, bind_eq_error] at h
    rcases h with hvalue | ⟨value, -, hrest⟩
    · exact centavosFromDb_error hvalue
    · exact ih hrest

/-- **What `forUser` fails on**: the user is unknown, one of the two queries raises, or an amount is
    past what the service can read. -/
theorem forUser_error_cases {srv : Server} {m : Market} {orders : Orders} {u : Int}
    {thrown : Thrown} (h : forUser srv m orders u = .error thrown) :
    (userExists m u = false ∧ thrown = .notFound s!"User {u} not found") ∨
      userExists m u = true ∧ (availableCash orders u = .error thrown ∨
        holdings srv m orders u = .error thrown ∨ ∃ message, thrown = .rangeError message) := by
  unfold forUser at h
  cases huser : userExists m u with
  | false =>
    simp only [huser, if_true, bind, Except.bind, throw, throwThe, MonadExceptOf.throw,
      Except.error.injEq] at h
    exact .inl ⟨rfl, h.symm⟩
  | true =>
    refine .inr ⟨rfl, ?_⟩
    simp only [huser, Bool.true_eq_false, if_false, bind, pure, Except.pure, bind_eq_error,
      reduceCtorEq, and_false, exists_false, or_false] at h
    rcases h with hcash | ⟨_, -, hholdings | ⟨_, -, hread | ⟨_, -, htotal | ⟨_, -, hpositions⟩⟩⟩⟩
    · exact .inl hcash
    · exact .inr (.inl hholdings)
    · exact .inr (.inr (centavosFromDb_error hread))
    · exact .inr (.inr (totalValue_error htotal))
    · exact .inr (.inr (positions_error hpositions))

section Raised

variable {srv : Server} {m : Market} {orders : Orders} {u : Int} {thrown : Thrown}

theorem forUser_of_cash_error (huser : userExists m u = true)
    (hcash : availableCash orders u = .error thrown) :
    forUser srv m orders u = .error thrown := by
  simp [forUser, huser, hcash, bind, Except.bind]

/-- Both queries raise the one error there is. -/
theorem forUser_of_holdings_error (huser : userExists m u = true)
    (hholdings : holdings srv m orders u = .error thrown) :
    forUser srv m orders u = .error thrown := by
  have hthrown : thrown = .database .integerOutOfRange := by
    unfold holdings at hholdings
    split at hholdings <;> cases hholdings
    rfl
  by_cases hraises : (filledRows orders u).any OrderRow.cashRaises = true
  · rw [hthrown]
    exact forUser_of_cash_error huser (if_pos hraises)
  · simp [forUser, huser, show availableCash orders u = .ok _ from if_neg hraises, hholdings, bind,
      Except.bind]

end Raised

/-- **Where the nets fit, `forUser` fails on nothing the database does**: the user is unknown, or
    an amount is past what the service can read. -/
theorem forUser_error {srv : Server} {m : Market} {orders : Orders} {u : Int} {thrown : Thrown}
    (hrows : ∀ row ∈ orders, row.Complete) (hnets : ∀ i, fitsInt4 (netShares orders u i))
    (h : forUser srv m orders u = .error thrown) :
    (userExists m u = false ∧ thrown = .notFound s!"User {u} not found") ∨
      userExists m u = true ∧ ∃ message, thrown = .rangeError message := by
  have hmem : ∀ row ∈ filledRows orders u, row.Complete :=
    fun row hrow => hrows row (List.mem_filter.mp hrow).1
  -- no row has the size whose negation is out of range
  have hcash : ∃ d, availableCash orders u = .ok d := by
    refine ⟨_, if_neg ?_⟩
    rw [List.any_eq_true]
    rintro ⟨row, hrow, hraises⟩
    simp only [OrderRow.cashRaises, decide_eq_true_eq] at hraises
    exact (hmem row hrow).size_ne_minInt4 hraises.2
  have hholdings : ∃ rows, holdings srv m orders u = .ok rows := by
    refine ⟨_, if_neg ?_⟩
    rw [List.any_eq_true]
    rintro ⟨group, hgroup, hraises⟩
    simp only [groups, List.mem_dedup, List.mem_map, List.mem_filter] at hgroup
    obtain ⟨row, ⟨hrow, -⟩, rfl⟩ := hgroup
    obtain ⟨i, hi⟩ := Option.isSome_iff_exists.mp (hmem row hrow).instrumentId
    rw [hi, holdingRaises, castRaises_of_fits (hnets i), Bool.or_false, List.any_eq_true]
      at hraises
    obtain ⟨row', hrow', hraises⟩ := hraises
    simp only [OrderRow.shareRaises, decide_eq_true_eq] at hraises
    exact (hmem row' (List.mem_filter.mp hrow').1).size_ne_minInt4 hraises.2
  obtain ⟨d, hd⟩ := hcash
  obtain ⟨rows, hrows⟩ := hholdings
  rcases forUser_error_cases h with hunknown | ⟨huser, hcash | hholdings | hrange⟩
  · exact .inl hunknown
  · cases hd.symm.trans hcash
  · cases hrows.symm.trans hholdings
  · exact .inr ⟨huser, hrange⟩

/-! ### Portfolios read while orders are placed -/

/-- How far a request for a portfolio has got. -/
inductive InquiryPhase
  /-- The user is looked up next. -/
  | asked
  /-- The transaction begins next, and reads the cash. -/
  | known
  /-- The holdings are read next, from the snapshot the cash was read from. -/
  | counted (snapshot : Orders) (cash : Decimal)
  | answered (answer : Except Thrown Portfolio)

/-- A request for the portfolio of a user. -/
structure Inquiry where
  user : Int
  phase : InquiryPhase

/-- The service, and the requests for portfolios by number. -/
structure Desk where
  service : State
  inquiries : Nat → Option Inquiry

/-- The desk with request `k` as given. -/
def Desk.put (d : Desk) (k : Nat) (q : Inquiry) : Desk :=
  { d with inquiries := Function.update d.inquiries k (some q) }

/-- One statement of a placement or a cancel, or of a request for a portfolio. -/
inductive DeskEvent
  | order (e : Event)
  | ask (k : Nat) (u : Int)
  | userExists (k : Nat)
  | availableCash (k : Nat)
  | holdings (k : Nat)

/-- What `forUser` does with the two results of its transaction. -/
def report (cash : Decimal) (rows : List Holding) : Except Thrown Portfolio := do
  let available ← centavosFromDb cash.toString
  let total ← totalValue available rows
  let positions ← rows.mapM position
  return ⟨apiString total, apiString available, positions⟩

/-- `forUser`, statement by statement.  `RepeatableRead` has both queries of the transaction read
    what was committed when the first of them ran. -/
def Desk.step (srv : Server) (m : Market) (d : Desk) : DeskEvent → Option Desk
  | .order e => (Cocos.step m d.service e).map fun s => { d with service := s }
  | .ask k u =>
    match d.inquiries k with
    | none => some (d.put k ⟨u, .asked⟩)
    | some _ => none
  | .userExists k =>
    match d.inquiries k with
    | some ⟨u, .asked⟩ => some (d.put k ⟨u,
        if Cocos.userExists m u then .known
        else .answered (.error (.notFound s!"User {u} not found"))⟩)
    | _ => none
  | .availableCash k =>
    match d.inquiries k with
    | some ⟨u, .known⟩ => some (d.put k ⟨u,
        match Cocos.availableCash d.service.orders u with
        | .ok cash => .counted d.service.orders cash
        | .error thrown => .answered (.error thrown)⟩)
    | _ => none
  | .holdings k =>
    match d.inquiries k with
    | some ⟨u, .counted snapshot cash⟩ =>
      some (d.put k ⟨u, .answered ((Cocos.holdings srv m snapshot u).bind (report cash))⟩)
    | _ => none

/-- The machine of the desk. -/
def desk (srv : Server) (m : Market) : Machine Desk DeskEvent := ⟨Desk.step srv m⟩

/-- Nothing ordered and nothing asked. -/
def Desk.initial (orders : Orders) (sequence : Int) : Desk :=
  ⟨.initial orders sequence, fun _ => none⟩

/-- The statements of placements and cancels in a run of the desk. -/
def orderEvents (es : List DeskEvent) : List Event :=
  es.filterMap fun
    | .order e => some e
    | _ => none

/-- The table was the committed one at some moment of a run. -/
def Seen (m : Market) (s₀ : State) (es : List DeskEvent) (orders : Orders) : Prop :=
  ∃ fs gs s, orderEvents es = fs ++ gs ∧ (service m).run s₀ fs = some s ∧ s.orders = orders

theorem Seen.append {m : Market} {s₀ : State} {es : List DeskEvent} {orders : Orders}
    (h : Seen m s₀ es orders) (e : DeskEvent) : Seen m s₀ (es ++ [e]) orders := by
  obtain ⟨fs, gs, s, hes, hrun, horders⟩ := h
  refine ⟨fs, gs ++ orderEvents [e], s, ?_, hrun, horders⟩
  rw [← List.append_assoc, ← hes, orderEvents, orderEvents, orderEvents, List.filterMap_append]

/-- What a request has read is of one table that was the committed one. -/
def Inquiry.Consistent (srv : Server) (m : Market) (s₀ : State) (es : List DeskEvent)
    (q : Inquiry) : Prop :=
  match q.phase with
  | .asked => True
  | .known => userExists m q.user = true
  | .counted snapshot cash => userExists m q.user = true ∧ Seen m s₀ es snapshot ∧
      availableCash snapshot q.user = .ok cash
  | .answered answer => ∃ orders, Seen m s₀ es orders ∧ answer = forUser srv m orders q.user

theorem Inquiry.Consistent.append {srv : Server} {m : Market} {s₀ : State} {es : List DeskEvent}
    {q : Inquiry} (h : q.Consistent srv m s₀ es) (e : DeskEvent) :
    q.Consistent srv m s₀ (es ++ [e]) := by
  obtain ⟨u, phase⟩ := q
  cases phase with
  | asked => trivial
  | known => exact h
  | counted snapshot cash => exact ⟨h.1, h.2.1.append e, h.2.2⟩
  | answered answer =>
    obtain ⟨orders, hseen, hanswer⟩ := h
    exact ⟨orders, hseen.append e, hanswer⟩

/-- The parts of `forUser` put together. -/
theorem forUser_of_cash {srv : Server} {m : Market} {orders : Orders} {u : Int} {cash : Decimal}
    (huser : userExists m u = true) (hcash : availableCash orders u = .ok cash) :
    forUser srv m orders u = (holdings srv m orders u).bind (report cash) := by
  unfold forUser report
  rw [huser, hcash]
  rfl

/-- **A step of the desk** leaves every request consistent, and runs the service as it is run
    alone. -/
theorem desk_step {srv : Server} {m : Market} {s₀ : State} {es : List DeskEvent} {d d' : Desk}
    {e : DeskEvent} (hrun : (service m).run s₀ (orderEvents es) = some d.service)
    (h : ∀ k q, d.inquiries k = some q → q.Consistent srv m s₀ es)
    (hstep : (desk srv m).step d e = some d') :
    (service m).run s₀ (orderEvents (es ++ [e])) = some d'.service ∧
      ∀ k q, d'.inquiries k = some q → q.Consistent srv m s₀ (es ++ [e]) := by
  have hevents : orderEvents (es ++ [e]) = orderEvents es ++ orderEvents [e] :=
    List.filterMap_append ..
  -- the table is the committed one at this moment
  have hnow : Seen m s₀ es d.service.orders := ⟨_, [], _, by simp, hrun, rfl⟩
  have hput : ∀ {k : Nat} {q : Inquiry}, q.Consistent srv m s₀ (es ++ [e]) →
      ∀ k' q', (d.put k q).inquiries k' = some q' → q'.Consistent srv m s₀ (es ++ [e]) := by
    intro k q hq k' q' hk'
    simp only [Desk.put, Function.update_apply] at hk'
    split at hk'
    · cases hk'
      exact hq
    · exact (h k' q' hk').append e
  simp only [desk, Desk.step] at hstep
  split at hstep
  case h_1 e' =>
    obtain ⟨s, hs, rfl⟩ := Option.map_eq_some_iff.mp hstep
    refine ⟨?_, fun k q hk => (h k q hk).append _⟩
    rw [hevents]
    exact (service m).run_concat.mpr ⟨_, hrun, hs⟩
  all_goals
    refine ⟨?_, ?_⟩
    · rw [hevents]
      split at hstep <;> cases hstep
      exact (List.append_nil _).symm ▸ hrun
  · split at hstep <;> cases hstep
    exact hput trivial
  · split at hstep <;> cases hstep
    rename_i k _ u hk
    apply hput
    cases huser : userExists m u with
    | true => exact huser
    | false =>
      refine ⟨_, hnow.append _, ?_⟩
      simp [forUser, huser, bind, Except.bind, throw, throwThe, MonadExceptOf.throw]
  · split at hstep <;> cases hstep
    rename_i k _ u hk
    have huser : userExists m u = true := h k _ hk
    apply hput
    cases hcash : availableCash d.service.orders u with
    | ok cash => exact ⟨huser, hnow.append _, hcash⟩
    | error thrown =>
      refine ⟨_, hnow.append _, ?_⟩
      simp [forUser, huser, hcash, bind, Except.bind]
  · split at hstep <;> cases hstep
    rename_i k _ u snapshot cash hk
    obtain ⟨huser, hseen, hcash⟩ := h k _ hk
    exact hput ⟨snapshot, hseen.append _, (forUser_of_cash huser hcash).symm⟩

/-- **Every answer is `forUser` of one committed table.** -/
theorem desk_run {srv : Server} {m : Market} {orders : Orders} {sequence : Int}
    {es : List DeskEvent} {d : Desk}
    (hrun : (desk srv m).run (.initial orders sequence) es = some d) :
    ∀ k q, d.inquiries k = some q → q.Consistent srv m (.initial orders sequence) es := by
  have key : (service m).run (.initial orders sequence) (orderEvents es) = some d.service ∧
      ∀ k q, d.inquiries k = some q → q.Consistent srv m (.initial orders sequence) es := by
    refine (desk srv m).run_induction (P := fun es d =>
      (service m).run (.initial orders sequence) (orderEvents es) = some d.service ∧
        ∀ k q, d.inquiries k = some q → q.Consistent srv m (.initial orders sequence) es)
      ⟨rfl, fun k q hk => by cases hk⟩ (fun es d e d' _ h hstep => ?_) hrun
    exact desk_step h.1 h.2 hstep
  exact key.2

/-- **The portfolio is its ledger**, on every table of complete rows.  What `forUser` answers
    reflects the table; where the nets fit `INT` there is no answer only for an unknown user and
    for amounts the service cannot read; and of the portfolios read while any placements and
    cancels run, each is so of one committed state of that run. -/
theorem portfolio_reflects {srv : Server} {m : Market} {orders : Orders}
    (hrows : ∀ row ∈ orders, row.Complete) :
    (∀ u, (∀ p, forUser srv m orders u = .ok p → p.Reflects srv m orders u) ∧
      ((∀ i, fitsInt4 (netShares orders u i)) → ∀ thrown, forUser srv m orders u = .error thrown →
        (userExists m u = false ∧ thrown = .notFound s!"User {u} not found") ∨
          userExists m u = true ∧ ∃ message, thrown = .rangeError message)) ∧
      ∀ sequence es d, (desk srv m).run (.initial orders sequence) es = some d →
        ∀ k u answer, d.inquiries k = some ⟨u, .answered answer⟩ →
          ∃ fs gs s, orderEvents es = fs ++ gs ∧
            (service m).run (.initial orders sequence) fs = some s ∧
            answer = forUser srv m s.orders u ∧
            ∀ p, answer = .ok p → p.Reflects srv m s.orders u := by
  refine ⟨fun u => ⟨fun p hp => forUser_reflects hrows hp, fun hnets thrown h =>
    forUser_error hrows hnets h⟩, fun sequence es d hrun k u answer hk => ?_⟩
  obtain ⟨_, ⟨fs, gs, s, hes, hfs, rfl⟩, hanswer⟩ := desk_run hrun k _ hk
  refine ⟨fs, gs, s, hes, hfs, hanswer, fun p hp => ?_⟩
  exact forUser_reflects (complete_run hrows hfs) (hanswer.symm.trans hp)

/-- A buy of three shares commits between the two queries of a portfolio. -/
def askedDuringBuy : List DeskEvent :=
  [.ask 0 1, .userExists 0, .availableCash 0, .order (.begin 0 (marketBuy 3 "a" (Eq.refl true))),
    .order (.lockPlacements 0), .order (.read 0), .order (.read 0), .order (.read 0),
    .order (.read 0), .order (.read 0), .order (.insert 0 7), .order (.commit 0), .holdings 0]

/-- Two shares that were bought before. -/
def twoShares : OrderRow :=
  ⟨2, some 1, some 1, some 2, some 100, some "MARKET", some "BUY", some "FILLED", some 1, none⟩

/-- The portfolio is of the moment before the buy: the three pesos are there, and two shares. -/
theorem portfolio_reflects_duringBuy : ∃ d answer s p,
    (desk exactServer (marketAt 100)).run (.initial [deposit 5, twoShares] 2) askedDuringBuy =
        some d ∧
      d.inquiries 0 = some ⟨1, .answered answer⟩ ∧ answer = .ok p ∧
      p = ⟨"5.00", "3.00",
        [⟨1, some "PAMP", some "Pampa Holding S.A.", 2, "2.00", some "1.00", some "0.00"⟩]⟩ ∧
      p.Reflects exactServer (marketAt 100) (State.orders s) 1 := by
  have hcomplete : ∀ row ∈ [deposit 5, twoShares], row.Complete :=
    List.forall_mem_cons.mpr ⟨⟨rfl, ⟨5, rfl, by decide⟩, rfl⟩,
      List.forall_mem_singleton.mpr ⟨rfl, ⟨2, rfl, by decide⟩, rfl⟩⟩
  have hreads := (@portfolio_reflects exactServer (marketAt 100) _ hcomplete).2 2 askedDuringBuy _
    rfl 0 1 _ rfl
  obtain ⟨fs, gs, s, -, -, -, hreflects⟩ := hreads
  have hanswer : (holdings exactServer (marketAt 100) [deposit 5, twoShares] 1).bind
      (report (.ofHundredths 300)) = .ok ⟨"5.00", "3.00",
        [⟨1, some "PAMP", some "Pampa Holding S.A.", 2, "2.00", some "1.00", some "0.00"⟩]⟩ := by
    decide +kernel
  exact ⟨_, _, s, _, rfl, rfl, hanswer, rfl, hreflects _ hanswer⟩

end Cocos
