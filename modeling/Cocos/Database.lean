import Cocos.Account

namespace Cocos

open Cocos.Lib

/-!
# The database

The tables and views of `db/init.sql`.  Every column but the keys may be `NULL`, and text
columns hold any text, so a row says nothing about itself that the schema does not.

* `OrderRow`, `OrdersTable`, `Market` — the orders table, which the service writes, with and
  without its constraints, and the three tables it only reads;
* `cashBalances`, `holding`, `avgCost`, `latestClose` — the columns of the three views.  The
  conditions on `userid` and `instrumentid` that every query puts on them are on grouping
  columns, so only the rows of the group asked for are evaluated;
* `account` — the account the FILLED rows of a user add up to.  `cashFold_eq` and
  `netShares_eq` say that the views read off it, `OrderRow.delta` what one row adds.

An instant is kept as a number (`Timestamp`); rendering it as text is the inverse of reading
it back, and nothing depends on how it is spelled.
-/

/-- A point in time. -/
abbrev Timestamp := Int

/-! ### Tables -/

/-- A row of `orders`.  `price` is in centavos, the unit of `NUMERIC(10, 2)`. -/
structure OrderRow where
  id : Int
  instrumentId : Option Int
  userId : Option Int
  size : Option Int
  price : Option Int
  type : Option String
  side : Option String
  status : Option String
  datetime : Option Timestamp
  idempotencyKey : Option String
deriving DecidableEq, Repr

/-- The rows of the orders table. -/
abbrev Orders := List OrderRow

namespace OrderRow

/-- The row is user `u`'s order under the key. -/
def hasKey (u : Int) (key : String) (row : OrderRow) : Bool :=
  row.userId = some u ∧ row.idempotencyKey = some key

/-- The size is an `INT` and the price a `NUMERIC(10, 2)`. -/
def fits (row : OrderRow) : Bool :=
  row.size.all (fun size => fitsInt4 size) && row.price.all fun price => price.natAbs ≤ 9999999999

end OrderRow

/-- An orders table that its constraints let be: the primary key, the unique index on
    `(userId, idempotencyKey)` and the types of the number columns. -/
structure OrdersTable where
  rows : Orders
  primaryKey : (rows.map (·.id)).Nodup
  keyIndex : ∀ u key, (rows.filter (OrderRow.hasKey u key)).length ≤ 1
  columns : ∀ row ∈ rows, row.fits = true

/-- A row of `instruments`. -/
structure Instrument where
  id : Int
  ticker : Option String
  name : Option String
  type : Option String
deriving DecidableEq, Repr

/-- The columns of `marketdata` that are read. -/
structure MarketData where
  instrumentId : Option Int
  close : Option Int
  date : Option Int
deriving DecidableEq, Repr

/-- The tables no request writes: the ids of `users`, `instruments` and `marketdata`. -/
structure Market where
  users : List Int
  instruments : List Instrument
  marketdata : List MarketData
  primaryKey : (instruments.map (·.id)).Nodup

/-- No stored close is negative. -/
def Market.ClosesNonneg (m : Market) : Prop :=
  ∀ row ∈ m.marketdata, ∀ close, row.close = some close → 0 ≤ close

/-! ### `cash_balances` -/

namespace OrderRow

/-- The row is a FILLED one of user `u`: `WHERE userid = u AND status = 'FILLED'`. -/
def filledFor (u : Int) (row : OrderRow) : Bool :=
  row.userId = some u ∧ row.status = some OrderStatus.FILLED.text

/-- `size * price`. -/
def amount (row : OrderRow) : Option Int :=
  match row.size, row.price with
  | some size, some price => some (size * price)
  | _, _ => none

/-- The sides that take cash. -/
def takesCash (row : OrderRow) : Bool := row.side = some "CASH_OUT" ∨ row.side = some "BUY"

/-- The sides that bring cash. -/
def bringsCash (row : OrderRow) : Bool := row.side = some "CASH_IN" ∨ row.side = some "SELL"

/-- The term of a row in the cash fold, a `CASE` without an `ELSE`. -/
def cashTerm (row : OrderRow) : Option Int :=
  if row.bringsCash then row.amount
  else if row.takesCash then row.amount.map fun amount => -amount
  else none

/-- Evaluating `-size` raises on the one size whose negation is no `INT`. -/
def cashRaises (row : OrderRow) : Bool := row.takesCash ∧ row.size = some minInt4

end OrderRow

/-- The rows the views fold for user `u`. -/
def filledRows (orders : Orders) (u : Int) : Orders := orders.filter (OrderRow.filledFor u)

/-- The `cash` of user `u` in the view; `none` also where the user has no row there. -/
def cashBalances (orders : Orders) (u : Int) : Option Int :=
  sqlSum ((filledRows orders u).map OrderRow.cashTerm)

/-- The cash of user `u`, a missing or `NULL` fold read as zero. -/
def cashFold (orders : Orders) (u : Int) : Int := (cashBalances orders u).getD 0

/-! ### `holdings` -/

namespace OrderRow

/-- `side = 'BUY'`. -/
def isBuy (row : OrderRow) : Bool := row.side = some Side.BUY.text

/-- `side IN ('BUY', 'SELL')`. -/
def isTrade (row : OrderRow) : Bool := row.side = some Side.BUY.text ∨ row.side = some Side.SELL.text

/-- The term of a row in the share fold: `CASE WHEN side = 'BUY' THEN size ELSE -size END`. -/
def shareTerm (row : OrderRow) : Option Int :=
  if row.isBuy then row.size else row.size.map fun size => -size

/-- Evaluating `-size` raises on the one size whose negation is no `INT`. -/
def shareRaises (row : OrderRow) : Bool := ¬row.isBuy ∧ row.size = some minInt4

/-- The row is in the group of instrument `i`, which is `NULL` for rows that name none. -/
def tradeOf (i : Option Int) (row : OrderRow) : Bool := row.instrumentId = i ∧ row.isTrade

end OrderRow

/-- The rows of the group `(u, i)`. -/
def holdingRows (orders : Orders) (u : Int) (i : Option Int) : Orders :=
  (filledRows orders u).filter (OrderRow.tradeOf i)

/-- The sum the group is kept by: `HAVING SUM(…) <> 0`. -/
def netQuantity (orders : Orders) (u : Int) (i : Option Int) : Option Int :=
  sqlSum ((holdingRows orders u i).map OrderRow.shareTerm)

/-- The net shares of user `u` in instrument `i`. -/
def netShares (orders : Orders) (u i : Int) : Int := (netQuantity orders u (some i)).getD 0

/-- The `quantity` of the group in the view, `none` where `HAVING` drops it. -/
def holding (orders : Orders) (u : Int) (i : Option Int) : Option Int :=
  (netQuantity orders u i).filter fun quantity => quantity ≠ 0

/-- The cast of the net to `INT` raises. -/
def castRaises (orders : Orders) (u : Int) (i : Option Int) : Bool :=
  (holding orders u i).any fun quantity => ¬fitsInt4 quantity

/-- Reading the group raises: a negation in one of its rows, or the cast of its net. -/
def holdingRaises (orders : Orders) (u : Int) (i : Option Int) : Bool :=
  (holdingRows orders u i).any OrderRow.shareRaises || castRaises orders u i

/-- The numerator and the denominator of `avg_cost`, `NULL` where there is nothing to divide
    or nothing to divide by. -/
def avgCost (orders : Orders) (u : Int) (i : Option Int) : Option (Int × Int) :=
  let bought := (holdingRows orders u i).filter OrderRow.isBuy
  match sqlSum (bought.map OrderRow.amount), sqlSum (bought.map (·.size)) with
  | some cost, some size => if size = 0 then none else some (cost, size)
  | _, _ => none

/-! ### `latest_closes` -/

/-- `a` comes before `b` under `date DESC NULLS LAST`. -/
def MarketData.later (a b : MarketData) : Bool :=
  match a.date, b.date with
  | some x, some y => y < x
  | some _, none => true
  | none, _ => false

/-- The first row under `date DESC NULLS LAST`; of several with one date, the first stored. -/
def latest (rows : List MarketData) : Option MarketData :=
  rows.foldl (fun best row =>
    match best with
    | none => some row
    | some b => if row.later b then some row else some b) none

/-- The close of instrument `i` in the view; `none` where there is no row for it. -/
def Market.latestClose (m : Market) (i : Int) : Option (Option Int) :=
  (latest (m.marketdata.filter fun row => row.instrumentId = some i)).map (·.close)

theorem latest_mem {rows : List MarketData} {row : MarketData} (h : latest rows = some row) :
    row ∈ rows := by
  have key : ∀ (rows : List MarketData) (best : Option MarketData),
      rows.foldl (fun best row =>
        match best with
        | none => some row
        | some b => if row.later b then some row else some b) best = some row →
      best = some row ∨ row ∈ rows := by
    intro rows
    induction rows with
    | nil => exact fun _ h => .inl h
    | cons r rows ih =>
      intro best h
      rcases ih _ h with hbest | hmem
      · cases best with
        | none =>
          simp only [Option.some.injEq] at hbest
          exact .inr (hbest ▸ List.mem_cons_self)
        | some b =>
          simp only at hbest
          split at hbest
          · exact .inr (Option.some.inj hbest ▸ List.mem_cons_self)
          · exact .inl hbest
      · exact .inr (List.mem_cons_of_mem _ hmem)
  exact (key rows none h).resolve_left (by simp)

/-- A latest close is a stored one. -/
theorem Market.latestClose_nonneg {m : Market} (h : m.ClosesNonneg) {i close : Int}
    (hclose : m.latestClose i = some (some close)) : 0 ≤ close := by
  obtain ⟨row, hrow, hc⟩ := Option.map_eq_some_iff.mp hclose
  exact h row (List.mem_filter.mp (latest_mem hrow)).1 close hc

/-! ### The account behind the views -/

/-- What one row adds to a resource of user `u`. -/
def OrderRow.delta (u : Int) (row : OrderRow) : Resource → Int
  | .cash => if row.filledFor u then row.cashTerm.getD 0 else 0
  | .shares i => if row.filledFor u ∧ row.tradeOf (some i) then row.shareTerm.getD 0 else 0

/-- The account the rows of user `u` add up to. -/
def account (orders : Orders) (u : Int) : Account := fun ρ =>
  (orders.map fun row => row.delta u ρ).sum

theorem cashFold_eq (orders : Orders) (u : Int) : cashFold orders u = account orders u .cash := by
  simp only [cashFold, cashBalances, getD_sqlSum, List.map_map, filledRows, sum_filter, account]
  rfl

theorem netShares_eq (orders : Orders) (u i : Int) :
    netShares orders u i = account orders u (.shares i) := by
  simp only [netShares, netQuantity, getD_sqlSum, List.map_map, holdingRows, filledRows,
    List.filter_filter, sum_filter, account]
  refine congrArg List.sum (List.map_congr_left fun row _ => ?_)
  simp [OrderRow.delta, and_comm]

/-- A net in the range of `INT` is cast to it. -/
theorem castRaises_of_fits {orders : Orders} {u i : Int} (h : fitsInt4 (netShares orders u i)) :
    castRaises orders u (some i) = false := by
  unfold castRaises holding
  cases hq : netQuantity orders u (some i) with
  | none => rfl
  | some quantity =>
    have hnet : netShares orders u i = quantity := by rw [netShares, hq]; rfl
    rw [hnet] at h
    by_cases hzero : quantity = 0
    · simp [Option.filter, hzero]
    · simp [Option.filter, hzero, h]

theorem account_concat (orders : Orders) (row : OrderRow) (u : Int) (ρ : Resource) :
    account (orders ++ [row]) u ρ = account orders u ρ + row.delta u ρ := by
  simp [account]

/-- A row that is not a FILLED one of `u` adds nothing. -/
theorem OrderRow.delta_of_not_filledFor {u : Int} {row : OrderRow}
    (h : row.filledFor u = false) (ρ : Resource) : row.delta u ρ = 0 := by
  cases ρ <;> simp [delta, h]

/-! ### What the reads of a user depend on -/

/-- Everything the views say of a user they say from its FILLED rows. -/
theorem holdingRows_congr {orders orders' : Orders} {u : Int}
    (h : filledRows orders u = filledRows orders' u) (i : Option Int) :
    holdingRows orders u i = holdingRows orders' u i := by
  unfold holdingRows
  rw [h]

theorem cashBalances_congr {orders orders' : Orders} {u : Int}
    (h : filledRows orders u = filledRows orders' u) :
    cashBalances orders u = cashBalances orders' u := by
  unfold cashBalances
  rw [h]

theorem netQuantity_congr {orders orders' : Orders} {u : Int}
    (h : filledRows orders u = filledRows orders' u) (i : Option Int) :
    netQuantity orders u i = netQuantity orders' u i := by
  unfold netQuantity
  rw [holdingRows_congr h]

theorem holdingRaises_congr {orders orders' : Orders} {u : Int}
    (h : filledRows orders u = filledRows orders' u) (i : Option Int) :
    holdingRaises orders u i = holdingRaises orders' u i := by
  unfold holdingRaises castRaises holding
  rw [holdingRows_congr h, netQuantity_congr h]

theorem avgCost_congr {orders orders' : Orders} {u : Int}
    (h : filledRows orders u = filledRows orders' u) (i : Option Int) :
    avgCost orders u i = avgCost orders' u i := by
  unfold avgCost
  rw [holdingRows_congr h]

theorem account_eq_of_filledRows {orders orders' : Orders} {u : Int}
    (h : filledRows orders u = filledRows orders' u) : account orders u = account orders' u := by
  funext ρ
  cases ρ with
  | cash =>
    rw [← cashFold_eq, ← cashFold_eq, cashFold, cashFold, cashBalances_congr h]
  | shares i =>
    rw [← netShares_eq, ← netShares_eq, netShares, netShares, netQuantity_congr h]

/-- A row appended for somebody else, or one that is not FILLED, is not among them. -/
theorem filledRows_concat {orders : Orders} {row : OrderRow} {u : Int}
    (h : row.filledFor u = false) : filledRows (orders ++ [row]) u = filledRows orders u := by
  simp [filledRows, h]

end Cocos
