import Cocos.Orders

namespace Cocos

open Cocos.Lib

/-!
# Nothing depends on the clock

The `datetime` of a row is stored and shown, and no decision reads it: a placement on tables
that differ only in their datetimes, at clocks that differ, comes out the same but for the
datetimes.

* `OrderRow.Keeps` — a change to rows that touches their ids and datetimes only; the reads
  that a placement decides by (`readCash_map`, `heldShares_map`, …) come out the same after it;
* `OrderRow.undated`, `OrderView.undated` — a row and an answer with the datetime set to zero;
* `view_undated`, `insert_undated`, … — statement by statement;
* `place_undated`, `cancel_undated` — **the requests commute with it**.
-/

/-! ### Reads -/

/-- Nothing is changed but ids and datetimes. -/
def OrderRow.Keeps (f : OrderRow → OrderRow) : Prop :=
  ∀ row, ∃ id datetime, f row = { row with id := id, datetime := datetime }

section Reads

variable {f : OrderRow → OrderRow} (hf : OrderRow.Keeps f) (orders : Orders) (u : Int)
include hf

/-- Columns that are neither are the same. -/
theorem OrderRow.Keeps.congr {α : Type} {g : OrderRow → α}
    (hg : ∀ row id datetime, g { row with id := id, datetime := datetime } = g row)
    (row : OrderRow) : g (f row) = g row := by
  obtain ⟨id, datetime, hrow⟩ := hf row
  rw [hrow, hg]

/-- A test of such columns picks the same rows, -/
theorem filter_map_keeps {p : OrderRow → Bool}
    (hp : ∀ row id datetime, p { row with id := id, datetime := datetime } = p row) :
    (orders.map f).filter p = (orders.filter p).map f := by
  rw [List.filter_map]
  exact congrArg _ (List.filter_congr fun row _ => hf.congr hp row)

/-- and what is read of them is the same. -/
theorem map_map_keeps {α : Type} {g : OrderRow → α}
    (hg : ∀ row id datetime, g { row with id := id, datetime := datetime } = g row) :
    (orders.map f).map g = orders.map g := by
  rw [List.map_map]
  exact List.map_congr_left fun row _ => hf.congr hg row

theorem any_map_keeps {p : OrderRow → Bool}
    (hp : ∀ row id datetime, p { row with id := id, datetime := datetime } = p row) :
    (orders.map f).any p = orders.any p := by
  rw [List.any_map]
  exact congrArg orders.any (funext fun row => hf.congr hp row)

theorem filledRows_map : filledRows (orders.map f) u = (filledRows orders u).map f :=
  filter_map_keeps hf orders fun _ _ _ => rfl

theorem holdingRows_map (i : Option Int) :
    holdingRows (orders.map f) u i = (holdingRows orders u i).map f := by
  unfold holdingRows
  rw [filledRows_map hf]
  exact filter_map_keeps hf _ fun _ _ _ => rfl

theorem cashBalances_map : cashBalances (orders.map f) u = cashBalances orders u := by
  unfold cashBalances
  rw [filledRows_map hf, map_map_keeps hf _ fun _ _ _ => rfl]

theorem netQuantity_map (i : Option Int) :
    netQuantity (orders.map f) u i = netQuantity orders u i := by
  unfold netQuantity
  rw [holdingRows_map hf, map_map_keeps hf _ fun _ _ _ => rfl]

theorem holdingRaises_map (i : Option Int) :
    holdingRaises (orders.map f) u i = holdingRaises orders u i := by
  unfold holdingRaises castRaises holding
  rw [holdingRows_map hf, any_map_keeps hf _ fun _ _ _ => rfl, netQuantity_map hf]

theorem availableCash_map : availableCash (orders.map f) u = availableCash orders u := by
  unfold availableCash
  rw [filledRows_map hf, any_map_keeps hf _ fun _ _ _ => rfl, cashBalances_map hf]

theorem readCash_map : readCash (orders.map f) u = readCash orders u := by
  unfold readCash
  rw [availableCash_map hf]

theorem heldShares_map (i : Int) : heldShares (orders.map f) u i = heldShares orders u i := by
  unfold heldShares holding
  rw [holdingRaises_map hf, netQuantity_map hf]

theorem byIdempotencyKey_map (key : String) :
    byIdempotencyKey (orders.map f) u key = (byIdempotencyKey orders u key).map f := by
  have hkeys : OrderRow.hasKey u key ∘ f = OrderRow.hasKey u key :=
    funext fun row => hf.congr (fun _ _ _ => rfl) row
  unfold byIdempotencyKey
  rw [List.find?_map, hkeys]

end Reads

/-! ### The datetimes -/

/-- The row with its datetime, if it has one, set to zero. -/
def OrderRow.undated (row : OrderRow) : OrderRow :=
  { row with datetime := row.datetime.map fun _ => 0 }

theorem OrderRow.keeps_undated : OrderRow.Keeps OrderRow.undated := fun _ => ⟨_, _, rfl⟩

/-- The rows with their datetimes set to zero. -/
def undated (orders : Orders) : Orders := orders.map OrderRow.undated

/-- The answer with its datetime set to zero. -/
def OrderView.undated (v : OrderView) : OrderView := { v with datetime := 0 }

/-- The answer with its datetime set to zero. -/
def Placed.undated (p : Placed) : Placed := ⟨p.order.undated, p.replayed⟩

theorem view_undated (row : OrderRow) : view row.undated = (view row).map .undated := by
  cases hp : row.price with
  | none => simp [view, OrderRow.undated, hp, Except.map]
  | some stored =>
    cases hc : centavosFromDb (Decimal.ofHundredths stored).toString with
    | error e => simp [view, OrderRow.undated, hp, hc, bind, Except.bind, Except.map]
    | ok price =>
      cases hd : row.datetime <;>
        simp [view, OrderRow.undated, OrderView.undated, hp, hc, hd, bind, Except.bind, pure,
          Except.pure, Except.map]

theorem insert_undated (orders : Orders) (o : NewOrder) (id : Int) (now : Timestamp) :
    insert (undated orders) o id 0 = (insert orders o id now).map OrderRow.undated := by
  have hid : ((undated orders).any fun row => row.id = id) =
      orders.any fun row => row.id = id := by
    rw [undated, List.any_map]
    rfl
  unfold insert
  rw [hid, undated, byIdempotencyKey_map OrderRow.keeps_undated, Option.isSome_map]
  split
  · rfl
  · split
    · rfl
    · split <;> rfl

theorem placeWithin_undated (m : Market) (r : Request) (id : Int) (now : Timestamp)
    (orders : Orders) :
    placeWithin m r id 0 (undated orders) =
      (placeWithin m r id now orders).map fun p => (p.1.undated, undated p.2) := by
  unfold placeWithin
  rw [show byIdempotencyKey (undated orders) r.order.userId r.key = _ from
      byIdempotencyKey_map OrderRow.keeps_undated _ _ _,
    show readCash (undated orders) r.order.userId = _ from
      readCash_map OrderRow.keeps_undated _ _,
    show heldShares (undated orders) r.order.userId r.order.instrumentId = _ from
      heldShares_map OrderRow.keeps_undated _ _ _]
  cases byIdempotencyKey orders r.order.userId r.key with
  | some row =>
    rw [Option.map_some]
    simp only [view_undated]
    cases view row <;> rfl
  | none =>
    rw [Option.map_none]
    cases userExists m r.order.userId with
    | false => rfl
    | true =>
      cases tradableClose m r.order.instrumentId with
      | error e => rfl
      | ok close =>
        cases hq : sized r.order close with
        | error e => simp [hq, bind, Except.bind, Except.map]
        | ok q =>
          cases hcash : readCash orders r.order.userId with
          | error e => simp [hq, bind, Except.bind, Except.map]
          | ok cash =>
            cases hheld : heldShares orders r.order.userId r.order.instrumentId with
            | error e => simp [hq, bind, Except.bind, Except.map]
            | ok held =>
              simp only [hq, bind, Except.bind, insert_undated orders _ id now]
              cases insert orders (newOrder r q cash held) id now with
              | error e => rfl
              | ok row =>
                simp only [Except.map, view_undated]
                cases view row with
                | error e => rfl
                | ok order => simp [undated, Placed.undated, pure, Except.pure]

/-- **A placement commutes with it**, at any clock. -/
theorem place_undated (m : Market) (r : Request) (id : Int) (now : Timestamp) (orders : Orders) :
    place m r id 0 (undated orders) =
      ((place m r id now orders).1.map .undated, undated (place m r id now orders).2) := by
  unfold place
  rw [placeWithin_undated m r id now orders]
  cases placeWithin m r id now orders <;> rfl

/-- **So does a cancel.** -/
theorem cancel_undated (id : Int) (orders : Orders) :
    (cancel id (undated orders)).2 = undated (cancel id orders).2 := by
  rw [cancel_snd, cancel_snd, undated, undated, List.map_map, List.map_map]
  refine List.map_congr_left fun row _ => ?_
  show OrderRow.afterCancel id row.undated = (row.afterCancel id).undated
  unfold OrderRow.afterCancel
  rw [apply_ite OrderRow.undated]
  rfl

end Cocos
