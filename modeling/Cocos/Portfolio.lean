import Mathlib.Data.List.Sort
import Mathlib.Algebra.BigOperators.Group.List.Basic
import Cocos.Orders

namespace Cocos

open Cocos.Lib

/-!
# The portfolio

`src/portfolio/portfolio.service.ts` and the `holdings` query of its repository.

* `Server` — the two things the database does in its own way: it rounds a quotient of
  `NUMERIC`s at a scale it chooses, and it orders text by a collation;
* `holdings`, `forUser` — the query and the service;
* `forUser_congr` — a portfolio is read off the FILLED rows of its user;
* `forUser_totalValue` — **the total is the worth of the account** the rows add up to, at the
  latest closes;
* `place_conserves_value` — **placing an order conserves it**, and leaves everyone else's
  portfolio as it was.
-/

/-- Division of `NUMERIC`s, and the collation of text. -/
structure Server where
  divide : ℚ → ℚ → ℚ
  collate : String → String → Bool

/-! ### The query -/

/-- A row of the `holdings` query. -/
structure Holding where
  instrumentId : Int
  ticker : Option String
  name : Option String
  quantity : Int
  marketValue : Decimal
  avgCost : Option Decimal
  totalReturnPct : Option Decimal

/-- `ORDER BY i.ticker`, which puts `NULL` last. -/
def Server.tickerLe (srv : Server) (a b : Holding) : Bool :=
  match a.ticker, b.ticker with
  | some x, some y => srv.collate x y
  | none, some _ => false
  | _, none => true

/-- The average cost in pesos, as the view divides it. -/
def Server.avgCostOf (srv : Server) (orders : Orders) (u i : Int) : Option ℚ :=
  (avgCost orders u (some i)).map fun c => srv.divide ((c.1 : ℚ) / 100) c.2

/-- `ROUND(quantity * COALESCE(close, 0), 2)`, in centavos. -/
def marketValue (quantity : Int) (close : Option Int) : Int :=
  sqlRound ((quantity : ℚ) * ((close.getD 0 : Int) : ℚ))

/-- The `CASE` of `totalReturnPct`: the return on the average cost, in hundredths of a percent,
    where there is a position to have one and a close to reckon it at. -/
def Server.totalReturn (srv : Server) (quantity : Int) (avg : Option ℚ) (close : Option Int) :
    Option Int :=
  match avg, close with
  | some avg, some close =>
    if 0 < quantity ∧ 0 < avg then
      some (sqlRound (100 * (srv.divide ((close : ℚ) / 100 - avg) avg * 100)))
    else none
  | _, _ => none

/-- The row of instrument `i`: the join with `instruments`, less the currencies. -/
def holdingRow (srv : Server) (m : Market) (orders : Orders) (u i : Int) : Option Holding :=
  match holding orders u (some i), m.instruments.find? fun row => row.id = i with
  | some quantity, some instrument =>
    if instrument.type = some "MONEDA" then none
    else
      let close := (m.latestClose i).join
      let avg := srv.avgCostOf orders u i
      some {
        instrumentId := i
        ticker := instrument.ticker
        name := instrument.name
        quantity := quantity
        marketValue := .ofHundredths (marketValue quantity close)
        avgCost := avg.map fun avg => .ofHundredths (sqlRound (100 * avg))
        totalReturnPct := (srv.totalReturn quantity avg close).map .ofHundredths }
  | _, _ => none

/-- The groups of user `u` in the view: the instruments its FILLED trades name. -/
def groups (orders : Orders) (u : Int) : List (Option Int) :=
  (((filledRows orders u).filter OrderRow.isTrade).map (·.instrumentId)).dedup

/-- `PortfolioRepository.holdings`. -/
def holdings (srv : Server) (m : Market) (orders : Orders) (u : Int) :
    Except Thrown (List Holding) :=
  if (groups orders u).any (holdingRaises orders u) then .error (.database .integerOutOfRange)
  else .ok (((groups orders u).reduceOption.filterMap (holdingRow srv m orders u)).insertionSort
    fun a b => srv.tickerLe a b = true)

/-! ### The service -/

/-- A position as it is answered. -/
structure Position where
  instrumentId : Int
  ticker : Option String
  name : Option String
  quantity : Int
  marketValue : String
  avgCost : Option String
  totalReturnPct : Option String
deriving DecidableEq, Repr

/-- A portfolio as it is answered. -/
structure Portfolio where
  totalValue : String
  availableCash : String
  positions : List Position
deriving DecidableEq, Repr

/-- A number of the database with two decimals, `NULL` as it is. -/
def twoDecimals : Option Decimal → Except Thrown (Option String)
  | none => .ok none
  | some value => (centavosFromDb value.toString).map fun c => some (apiString c)

/-- The position of a holding. -/
def position (h : Holding) : Except Thrown Position := do
  let marketValue ← centavosFromDb h.marketValue.toString
  let avgCost ← twoDecimals h.avgCost
  let totalReturnPct ← twoDecimals h.totalReturnPct
  return ⟨h.instrumentId, h.ticker, h.name, h.quantity, apiString marketValue, avgCost,
    totalReturnPct⟩

/-- The `reduce` over the holdings, from the available cash. -/
def totalValue : Int → List Holding → Except Thrown Int
  | total, [] => .ok total
  | total, h :: hs => do
    let value ← centavosFromDb h.marketValue.toString
    totalValue (total + value) hs

/-- `PortfolioService.forUser`: both queries read one snapshot, `orders`. -/
def forUser (srv : Server) (m : Market) (orders : Orders) (u : Int) : Except Thrown Portfolio := do
  if userExists m u = false then
    throw (.notFound s!"User {u} not found")
  let cash ← availableCash orders u
  let rows ← holdings srv m orders u
  let available ← centavosFromDb cash.toString
  let total ← totalValue available rows
  let positions ← rows.mapM position
  return ⟨apiString total, apiString available, positions⟩

/-! ### What a portfolio depends on -/

/-- **A portfolio is read off the FILLED rows of its user.** -/
theorem forUser_congr (srv : Server) (m : Market) {orders orders' : Orders} {u : Int}
    (h : filledRows orders u = filledRows orders' u) :
    forUser srv m orders u = forUser srv m orders' u := by
  have hgroups : groups orders u = groups orders' u := by
    unfold groups
    rw [h]
  have hrow : ∀ i, holdingRow srv m orders u i = holdingRow srv m orders' u i := by
    intro i
    unfold holdingRow Server.avgCostOf holding
    rw [netQuantity_congr h, avgCost_congr h]
  have hraises : holdingRaises orders u = holdingRaises orders' u := by
    funext i
    exact holdingRaises_congr h i
  have hholdings : holdings srv m orders u = holdings srv m orders' u := by
    unfold holdings
    rw [hgroups, hraises, show holdingRow srv m orders u = holdingRow srv m orders' u from
      funext hrow]
  unfold forUser
  rw [availableCash_congr h, hholdings]

/-! ### What a portfolio is worth -/

/-- What a share of instrument `i` counts for in a total: its latest close, unless it has none,
    is a currency or is no instrument at all. -/
def Market.weight (m : Market) (i : Int) : Int :=
  match m.instruments.find? fun row => row.id = i with
  | some instrument =>
    if instrument.type = some "MONEDA" then 0 else (m.latestClose i).join.getD 0
  | none => 0

/-- What a holding counts for. -/
def Holding.worth (m : Market) (h : Holding) : Int := h.quantity * m.weight h.instrumentId

/-- A whole number of shares at a close in centavos needs no rounding. -/
theorem marketValue_eq (quantity : Int) (close : Option Int) :
    marketValue quantity close = quantity * close.getD 0 := by
  have hcast :
      (quantity : ℚ) * ((close.getD 0 : Int) : ℚ) = ((quantity * close.getD 0 : Int) : ℚ) := by
    push_cast
    rfl
  unfold marketValue
  rw [hcast, sqlRound_intCast]

/-- The market value of a row of the query is what it counts for. -/
theorem holdingRow_marketValue {srv : Server} {m : Market} {orders : Orders} {u i : Int}
    {h : Holding} (hrow : holdingRow srv m orders u i = some h) :
    h.marketValue = .ofHundredths (h.worth m) := by
  unfold holdingRow at hrow
  split at hrow
  · rename_i quantity instrument hq hi
    split at hrow
    · cases hrow
    · rename_i hmoneda
      cases hrow
      simp [Holding.worth, Market.weight, hi, hmoneda, marketValue_eq]
  · cases hrow

/-- A group counts for its net shares at the weight of its instrument, whether or not the query
    has a row for it. -/
theorem worth_holdingRow (srv : Server) (m : Market) (orders : Orders) (u i : Int) :
    ((holdingRow srv m orders u i).map (Holding.worth m)).getD 0 =
      account orders u (.shares i) * m.weight i := by
  have hnet := getD_holding orders u i
  unfold holdingRow
  cases hq : holding orders u (some i) with
  | none =>
    -- the net is zero, or there is none
    rw [hq, Option.getD_none] at hnet
    rw [← hnet, Int.zero_mul]
    rfl
  | some quantity =>
    rw [hq, Option.getD_some] at hnet
    cases hi : m.instruments.find? fun row => row.id = i with
    | none => simp [Market.weight, hi]
    | some instrument =>
      by_cases hmoneda : instrument.type = some "MONEDA"
      · simp [Market.weight, hi, hmoneda]
      · simp [hmoneda, Holding.worth, hnet]

/-- The `reduce` adds up what the holdings count for, if each can be read. -/
theorem totalValue_eq {m : Market} {rows : List Holding}
    (hrows : ∀ h ∈ rows, h.marketValue = .ofHundredths (h.worth m)) {start total : Int}
    (h : totalValue start rows = .ok total) :
    total = start + (rows.map (Holding.worth m)).sum := by
  induction rows generalizing start with
  | nil =>
    rw [totalValue, Except.ok.injEq] at h
    rw [← h]
    simp
  | cons row rows ih =>
    simp only [totalValue, bind, bind_eq_ok] at h
    obtain ⟨value, hvalue, hrest⟩ := h
    rw [hrows row List.mem_cons_self] at hvalue
    have hworth : value = row.worth m := eq_of_centavosFromDb_toString hvalue
    have htail := ih (fun r hr => hrows r (List.mem_cons_of_mem _ hr)) hrest
    rw [htail, hworth, List.map_cons, List.sum_cons]
    omega

/-- The rows of the query add up to the net shares of the groups at their weights. -/
theorem sum_worth_filterMap (srv : Server) (m : Market) (orders : Orders) (u : Int)
    (is : List Int) :
    (((is.filterMap (holdingRow srv m orders u)).map (Holding.worth m)).sum) =
      (is.map fun i => account orders u (.shares i) * m.weight i).sum := by
  induction is with
  | nil => rfl
  | cons i is ih =>
    have hi := worth_holdingRow srv m orders u i
    rw [List.map_cons, List.sum_cons, ← ih, ← hi]
    cases h : holdingRow srv m orders u i with
    | none => rw [List.filterMap_cons_none h]; simp
    | some row => rw [List.filterMap_cons_some h]; simp

/-- What `forUser` answers, in its parts. -/
theorem forUser_eq_ok {srv : Server} {m : Market} {orders : Orders} {u : Int} {p : Portfolio} :
    forUser srv m orders u = .ok p ↔ userExists m u = true ∧ ∃ cash rows total positions,
      readCash orders u = .ok cash ∧ holdings srv m orders u = .ok rows ∧
        totalValue cash rows = .ok total ∧ rows.mapM position = .ok positions ∧
        p = ⟨apiString total, apiString cash, positions⟩ := by
  unfold forUser
  cases huser : userExists m u with
  | false => simp [bind, Except.bind, throw, throwThe, MonadExceptOf.throw]
  | true =>
    simp only [Bool.true_eq_false, if_false, bind, pure, Except.pure, bind_eq_ok,
      Except.ok.injEq, readCash, true_and]
    constructor
    · rintro ⟨d, hd, rows, hrows, cash, hcash, total, htotal, positions, hpositions, rfl⟩
      exact ⟨cash, rows, total, positions, ⟨d, hd, hcash⟩, hrows, htotal, hpositions, rfl⟩
    · rintro ⟨cash, rows, total, positions, ⟨d, hd, hcash⟩, hrows, htotal, hpositions, rfl⟩
      exact ⟨d, hd, rows, hrows, cash, hcash, total, htotal, positions, hpositions, rfl⟩

/-- The rows of the query, in some order. -/
theorem holdings_perm {srv : Server} {m : Market} {orders : Orders} {u : Int}
    {rows : List Holding} (h : holdings srv m orders u = .ok rows) :
    rows.Perm ((groups orders u).reduceOption.filterMap (holdingRow srv m orders u)) := by
  unfold holdings at h
  split at h
  · cases h
  · rw [Except.ok.injEq] at h
    rw [← h]
    exact List.perm_insertionSort _ _

/-- `GROUP BY` has each instrument once. -/
theorem nodup_groups (orders : Orders) (u : Int) : (groups orders u).reduceOption.Nodup := by
  apply (List.nodup_dedup _).filterMap
  rintro a b c hc hc'
  exact (Option.mem_def.mp hc).trans (Option.mem_def.mp hc').symm

/-- The instruments that the FILLED trades of user `u` name. -/
def traded (orders : Orders) (u : Int) : Finset Int := (groups orders u).reduceOption.toFinset

theorem mem_traded {orders : Orders} {u i : Int} : i ∈ traded orders u ↔
    ∃ row ∈ filledRows orders u, row.isTrade = true ∧ row.instrumentId = some i := by
  simp only [traded, groups, List.mem_toFinset, List.reduceOption_mem_iff, List.mem_dedup,
    List.mem_map, List.mem_filter, and_assoc]

/-- Of an instrument no FILLED trade names, nothing is held. -/
theorem account_of_not_traded {orders : Orders} {u i : Int} (h : i ∉ traded orders u) :
    account orders u (.shares i) = 0 := by
  have hempty : holdingRows orders u (some i) = [] := by
    unfold holdingRows
    rw [List.filter_eq_nil_iff]
    intro row hrow htrade
    simp only [OrderRow.tradeOf, Bool.decide_and, Bool.decide_eq_true, Bool.and_eq_true,
      decide_eq_true_eq] at htrade
    -- the row would put its instrument among the traded
    exact h (mem_traded.mpr ⟨row, hrow, htrade.2, htrade.1⟩)
  rw [← netShares_eq, netShares, netQuantity, hempty]
  rfl

/-- **The total of a portfolio is the worth of the account** the rows add up to, reckoned over
    any instruments that include the ones traded. -/
theorem forUser_totalValue {srv : Server} {m : Market} {orders : Orders} {u : Int} {p : Portfolio}
    (h : forUser srv m orders u = .ok p) {S : Finset Int} (hS : traded orders u ⊆ S) :
    p.totalValue = apiString ((account orders u).value m.weight S) := by
  obtain ⟨-, cash, rows, total, positions, hcash, hrows, htotal, -, rfl⟩ := forUser_eq_ok.mp h
  -- `ORDER BY` only rearranges the rows, and a sum does not see it
  have hperm := holdings_perm hrows
  have hmarket : ∀ h ∈ rows, h.marketValue = .ofHundredths (h.worth m) := by
    intro h hh
    obtain ⟨i, -, hi⟩ := List.mem_filterMap.mp (hperm.mem_iff.mp hh)
    exact holdingRow_marketValue hi
  have hsum : (rows.map (Holding.worth m)).sum =
      ∑ i ∈ traded orders u, account orders u (.shares i) * m.weight i := by
    rw [(hperm.map _).sum_eq, sum_worth_filterMap, traded,
      List.sum_toFinset _ (nodup_groups orders u)]
  rw [totalValue_eq hmarket htotal, readCash_eq hcash, hsum]
  exact congrArg apiString
    (Account.value_subset hS fun i _ hi => account_of_not_traded hi)

/-! ### Placing an order -/

/-- A traded instrument counts for the close it is traded at. -/
theorem weight_of_tradableClose {m : Market} {i close : Int}
    (h : tradableClose m i = .ok close) : m.weight i = close := by
  unfold tradableClose quote at h
  unfold Market.weight
  cases hi : m.instruments.find? fun row => row.id = i with
  | none => simp [hi] at h
  | some instrument =>
    simp only [hi, Option.map_some] at h ⊢
    split at h
    · cases h
    · rename_i hmoneda
      rw [if_neg hmoneda]
      cases hc : (m.latestClose i).join with
      | none => simp [hc] at h
      | some stored =>
        simp only [hc] at h
        exact (eq_of_centavosFromDb_toString h).symm

/-- A placement changes what its user's account is worth by nothing. -/
theorem value_place (m : Market) (r : Request) (id : Int) (now : Timestamp) (orders : Orders)
    {S : Finset Int} (hS : r.order.instrumentId ∈ S) :
    (account (place m r id now orders).2 r.order.userId).value m.weight S =
      (account orders r.order.userId).value m.weight S := by
  rcases place_snd_cases m r id now orders with hsame | ⟨q, cash, held, hread, -, hnew⟩
  · rw [hsame]
  · rw [hnew, account_newOrder]
    split
    · rename_i hfilled
      -- the fill is at the close that the portfolio reckons with
      have hprice : m.weight r.order.instrumentId = (fillOf r q cash held).price := by
        rw [weight_of_tradableClose hread.close, fillOf_price r q cash held hfilled.2]
      exact Trade.value_fill _ hS hprice
    · rfl

/-- A placement leaves the FILLED rows of everybody else as they were. -/
theorem filledRows_place (m : Market) (r : Request) (id : Int) (now : Timestamp)
    (orders : Orders) {u : Int} (hu : u ≠ r.order.userId) :
    filledRows (place m r id now orders).2 u = filledRows orders u := by
  rcases place_snd_cases m r id now orders with hsame | ⟨q, cash, held, -, -, hnew⟩
  · rw [hsame]
  · rw [hnew]
    apply filledRows_concat
    rw [Bool.eq_false_iff]
    intro hrow
    exact hu ((newOrder_filledFor r q cash held id now u).mp hrow).1

/-- **Placing an order conserves portfolio value.**  Whatever comes of the request, the total of
    its user is the same after it, and every other portfolio is the same throughout. -/
theorem place_conserves_value (srv : Server) (m : Market) (r : Request) (id : Int)
    (now : Timestamp) (orders : Orders) :
    (∀ p p', forUser srv m orders r.order.userId = .ok p →
        forUser srv m (place m r id now orders).2 r.order.userId = .ok p' →
        p'.totalValue = p.totalValue) ∧
      ∀ u, u ≠ r.order.userId →
        forUser srv m (place m r id now orders).2 u = forUser srv m orders u := by
  constructor
  · intro p p' hp hp'
    -- reckon both totals over the instruments traded before, after and now
    let S := traded orders r.order.userId ∪
      traded (place m r id now orders).2 r.order.userId ∪ {r.order.instrumentId}
    have hbefore := forUser_totalValue hp (S := S) (by intro i hi; simp [S, hi])
    have hafter := forUser_totalValue hp' (S := S) (by intro i hi; simp [S, hi])
    rw [hbefore, hafter, value_place m r id now orders (by simp [S])]
  · intro u hu
    exact forUser_congr srv m (filledRows_place m r id now orders hu)

/-- A server that divides exactly and orders text by its code points. -/
def exactServer : Server := ⟨fun a b => a / b, fun a b => a ≤ b⟩

/-- A buy of three shares at one peso leaves a portfolio of five pesos at five pesos. -/
theorem place_conserves_value_marketBuy :
    let buy := marketBuy 3 "a" (by decide)
    let p : Portfolio := ⟨"5.00", "5.00", []⟩
    let p' : Portfolio := ⟨"5.00", "2.00",
      [⟨1, some "PAMP", some "Pampa Holding S.A.", 3, "3.00", some "1.00", some "0.00"⟩]⟩
    forUser exactServer (marketAt 100) [deposit 5] 1 = .ok p ∧
      forUser exactServer (marketAt 100) (place (marketAt 100) buy 2 7 [deposit 5]).2 1 = .ok p' ∧
      p'.totalValue = p.totalValue := by
  have hconserved := (place_conserves_value exactServer (marketAt 100)
    (marketBuy 3 "a" (by decide)) 2 7 [deposit 5]).1
  have hbefore : forUser exactServer (marketAt 100) [deposit 5] 1 = .ok ⟨"5.00", "5.00", []⟩ := by
    decide +kernel
  have hafter : forUser exactServer (marketAt 100)
      (place (marketAt 100) (marketBuy 3 "a" (by decide)) 2 7 [deposit 5]).2 1 =
      .ok ⟨"5.00", "2.00",
        [⟨1, some "PAMP", some "Pampa Holding S.A.", 3, "3.00", some "1.00", some "0.00"⟩]⟩ := by
    decide +kernel
  exact ⟨hbefore, hafter, hconserved _ _ hbefore hafter⟩

end Cocos
