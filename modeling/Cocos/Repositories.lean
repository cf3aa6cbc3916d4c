import Cocos.Database

namespace Cocos

open Cocos.Lib

/-!
# The statements

One definition for each statement of `orders.repository.ts` and `portfolio.repository.ts`
that a placement or a cancel runs, on the rows committed when it starts.

* reads: `byIdempotencyKey`, `userExists`, `quote`, `availableCash`, `heldShares`,
  `statusOf`;
* writes: `insert`, which the table's constraints may refuse, and `cancel`, the conditional
  `UPDATE`;
* `afterCancel_eq_or` says all that an `UPDATE` can do to a row; the folds of every user are
  left as they were (`filledRows_cancel`).

`pg_advisory_xact_lock` is not a statement on tables: it is a step of the machine that runs
the placements.
-/

/-! ### Reads -/

/-- `OrdersRepository.byIdempotencyKey`. -/
def byIdempotencyKey (orders : Orders) (userId : Int) (key : String) : Option OrderRow :=
  orders.find? (OrderRow.hasKey userId key)

/-- `PortfolioRepository.userExists`. -/
def userExists (m : Market) (userId : Int) : Bool := userId ∈ m.users

/-- What a placement is told of its instrument. -/
structure Quote where
  type : Option String
  close : Option Int

/-- `OrdersRepository.quote`: the instrument, and its latest close if there is one. -/
def quote (m : Market) (instrumentId : Int) : Option Quote :=
  (m.instruments.find? fun i => i.id = instrumentId).map fun i =>
    ⟨i.type, (m.latestClose instrumentId).join⟩

/-- `PortfolioRepository.availableCash`: a missing or `NULL` fold is zero. -/
def availableCash (orders : Orders) (userId : Int) : Except Thrown Decimal :=
  if (filledRows orders userId).any OrderRow.cashRaises then .error (.database .integerOutOfRange)
  else .ok (.ofHundredths ((cashBalances orders userId).getD 0))

/-- `PortfolioRepository.heldShares`: a group the view has no row for is zero. -/
def heldShares (orders : Orders) (userId instrumentId : Int) : Except Thrown Int :=
  if holdingRaises orders userId (some instrumentId) then
    .error (.database .integerOutOfRange)
  else .ok ((holding orders userId (some instrumentId)).getD 0)

/-- `OrdersRepository.statusOf`. -/
def statusOf (orders : Orders) (id : Int) : Option (Option String) :=
  (orders.find? fun row => row.id = id).map (·.status)

/-! ### `INSERT` -/

/-- What a placement inserts. -/
structure NewOrder where
  instrumentId : Int
  userId : Int
  side : Side
  size : Int
  price : Int
  type : OrderType
  status : OrderStatus
  idempotencyKey : String

/-- The row an insert stores under the id it drew. -/
def NewOrder.row (o : NewOrder) (id : Int) (now : Timestamp) : OrderRow where
  id := id
  instrumentId := some o.instrumentId
  userId := some o.userId
  size := some o.size
  price := some o.price
  type := some o.type.text
  side := some o.side.text
  status := some o.status.text
  datetime := some now
  idempotencyKey := some o.idempotencyKey

/-- The size fits `INT` and the price `NUMERIC(10, 2)`. -/
def NewOrder.fits (o : NewOrder) : Bool := fitsInt4 o.size ∧ o.price.natAbs ≤ 9999999999

/-- `OrdersRepository.insert`, under an id the sequence drew: the columns' types, the primary
    key and the index on `(userId, idempotencyKey)` may each refuse it.  The foreign keys
    cannot: the user and the instrument were read before, and neither table changes. -/
def insert (orders : Orders) (o : NewOrder) (id : Int) (now : Timestamp) :
    Except Thrown OrderRow :=
  if o.fits = false then .error (.database .numericFieldOverflow)
  else if orders.any fun row => row.id = id then
    .error (.database (.uniqueViolation "orders_pkey"))
  else if (byIdempotencyKey orders o.userId o.idempotencyKey).isSome then
    .error (.database (.uniqueViolation "orders_userid_idempotencykey_key"))
  else .ok (o.row id now)

/-- A row that was inserted is the one that was asked for, and broke no constraint. -/
theorem insert_eq_ok {orders : Orders} {o : NewOrder} {id : Int} {now : Timestamp}
    {row : OrderRow} :
    insert orders o id now = .ok row ↔
      o.fits = true ∧ id ∉ orders.map (·.id) ∧
        byIdempotencyKey orders o.userId o.idempotencyKey = none ∧ row = o.row id now := by
  have hany : (orders.any fun row => row.id = id) = true ↔ id ∈ orders.map (·.id) := by simp
  unfold insert
  by_cases hfits : o.fits = false
  · simp [hfits]
  · rw [if_neg hfits]
    have hfits' : o.fits = true := by simpa using hfits
    by_cases hid : id ∈ orders.map (·.id)
    · rw [if_pos (hany.mpr hid)]
      simp [hid]
    · rw [if_neg fun h => hid (hany.mp h)]
      by_cases hkey : byIdempotencyKey orders o.userId o.idempotencyKey = none
      · rw [hkey, if_neg (by simp), Except.ok.injEq]
        exact ⟨fun h => ⟨hfits', hid, rfl, h.symm⟩, fun h => h.2.2.2.symm⟩
      · rw [if_pos (Option.isSome_iff_ne_none.mpr hkey)]
        simp [hkey]

/-! ### `UPDATE` -/

/-- The row is the one with this id and in one of these statuses: the `WHERE` of a cancel. -/
def OrderRow.cancellable (id : Int) (statuses : List OrderStatus) (row : OrderRow) : Bool :=
  row.id = id ∧ ∃ status ∈ statuses, row.status = some status.text

/-- `SET status = 'CANCELLED'`. -/
def OrderRow.cancelled (row : OrderRow) : OrderRow :=
  { row with status := some OrderStatus.CANCELLED.text }

/-- `OrdersRepository.cancel`: the row returned, if one matched, and the table after. -/
def cancelOrder (orders : Orders) (id : Int) (statuses : List OrderStatus) :
    Option OrderRow × Orders :=
  ((orders.find? (OrderRow.cancellable id statuses)).map OrderRow.cancelled,
    orders.map fun row => if row.cancellable id statuses then row.cancelled else row)

/-- The row as a cancel of `id` leaves it. -/
def OrderRow.afterCancel (id : Int) (row : OrderRow) : OrderRow :=
  if row.cancellable id CANCELLABLE then row.cancelled else row

theorem cancelOrder_snd (orders : Orders) (id : Int) :
    (cancelOrder orders id CANCELLABLE).2 = orders.map (OrderRow.afterCancel id) := rfl

theorem cancellable_iff {id : Int} {row : OrderRow} :
    row.cancellable id CANCELLABLE = true ↔
      row.id = id ∧ row.status = some OrderStatus.NEW.text := by
  simp [OrderRow.cancellable, CANCELLABLE_eq]

/-- All a cancel does to a row: nothing, or the one transition there is. -/
theorem afterCancel_eq_or (id : Int) (row : OrderRow) :
    row.afterCancel id = row ∨
      (row.id = id ∧ row.status = some OrderStatus.NEW.text ∧
        row.afterCancel id = row.cancelled) := by
  unfold OrderRow.afterCancel
  split
  · rename_i h
    exact .inr ⟨(cancellable_iff.mp h).1, (cancellable_iff.mp h).2, rfl⟩
  · exact .inl rfl

section AfterCancel

variable (id : Int) (row : OrderRow)

/-- A cancel changes the status of a row and nothing else. -/
theorem exists_status_afterCancel :
    ∃ status, row.afterCancel id = { row with status := status } := by
  unfold OrderRow.afterCancel
  split
  · exact ⟨_, rfl⟩
  · exact ⟨row.status, rfl⟩

@[simp] theorem afterCancel_id : (row.afterCancel id).id = row.id := by
  unfold OrderRow.afterCancel
  split <;> rfl

@[simp] theorem hasKey_afterCancel (u : Int) (key : String) :
    (row.afterCancel id).hasKey u key = row.hasKey u key := by
  unfold OrderRow.afterCancel
  split <;> rfl

/-- No cancel touches a FILLED row, or makes one. -/
theorem filledFor_afterCancel (u : Int) :
    (row.afterCancel id).filledFor u = row.filledFor u ∧
      (row.filledFor u = true → row.afterCancel id = row) := by
  rcases afterCancel_eq_or id row with h | ⟨-, hnew, h⟩
  · exact ⟨by rw [h], fun _ => h⟩
  · constructor
    · rw [h]
      simp [OrderRow.filledFor, OrderRow.cancelled, hnew, OrderStatus.text]
    · intro hfilled
      simp [OrderRow.filledFor, hnew, OrderStatus.text] at hfilled

end AfterCancel

/-- **No cancel moves money.**  The rows the views fold are the same after it. -/
theorem filledRows_cancel (orders : Orders) (id u : Int) :
    filledRows (orders.map (OrderRow.afterCancel id)) u = filledRows orders u := by
  unfold filledRows
  induction orders with
  | nil => rfl
  | cons row orders ih =>
    obtain ⟨hsame, hkeep⟩ := filledFor_afterCancel id row u
    cases h : row.filledFor u with
    | true => simp [h, hkeep h, ih]
    | false => simp [hsame, h, ih]

/-- A cancel neither frees a key nor spends one. -/
theorem byIdempotencyKey_cancel (orders : Orders) (id u : Int) (key : String) :
    byIdempotencyKey (orders.map (OrderRow.afterCancel id)) u key =
      (byIdempotencyKey orders u key).map (OrderRow.afterCancel id) := by
  have hkeys : OrderRow.hasKey u key ∘ OrderRow.afterCancel id = OrderRow.hasKey u key :=
    funext fun row => hasKey_afterCancel id row u key
  rw [byIdempotencyKey, List.find?_map, hkeys, byIdempotencyKey]

/-! ### The reads a user's FILLED rows determine -/

theorem availableCash_congr {orders orders' : Orders} {u : Int}
    (h : filledRows orders u = filledRows orders' u) :
    availableCash orders u = availableCash orders' u := by
  unfold availableCash
  rw [h, cashBalances_congr h]

theorem heldShares_congr {orders orders' : Orders} {u : Int}
    (h : filledRows orders u = filledRows orders' u) (i : Int) :
    heldShares orders u i = heldShares orders' u i := by
  unfold heldShares holding
  rw [holdingRaises_congr h, netQuantity_congr h]

/-! ### Lookups by key -/

theorem byIdempotencyKey_eq_none {orders : Orders} {u : Int} {key : String} :
    byIdempotencyKey orders u key = none ↔ ∀ row ∈ orders, row.hasKey u key = false := by
  simp [byIdempotencyKey]

/-- A lookup finds a row of the table that has the key. -/
theorem byIdempotencyKey_eq_some {orders : Orders} {u : Int} {key : String} {row : OrderRow}
    (h : byIdempotencyKey orders u key = some row) : row ∈ orders ∧ row.hasKey u key = true :=
  ⟨List.mem_of_find?_eq_some h, List.find?_some h⟩

/-- A row of another user, or under another key, is not found by a lookup. -/
theorem byIdempotencyKey_concat_eq_none {orders : Orders} {row : OrderRow} {u : Int}
    {key : String} (h : byIdempotencyKey orders u key = none) (hrow : row.hasKey u key = false) :
    byIdempotencyKey (orders ++ [row]) u key = none := by
  simpa [byIdempotencyKey, List.find?_append, hrow] using h

end Cocos
