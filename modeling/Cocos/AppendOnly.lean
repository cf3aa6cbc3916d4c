import Mathlib.Data.List.Nodup
import Cocos.History

namespace Cocos

open Cocos.Lib

/-!
# The ledger is append-only

Placements append rows and cancels move resting ones to CANCELLED; no statement does anything
else to the table.

* `AppendOnly` — one table leads to another by appending rows and by that transition, and
  `appendOnly_step`, `appendOnly_run` — **every step and every run does only that**;
* `CancelInv` — who has cancelled what: each order at most once, and never one that rests;
* `returns_cancel_iff`, `folds_cancel` — exactly when a cancel returns the order, and all it
  leaves alone;
* `ledger_append_only` — the ledger's contract, for every run.

A cancel answers with the view of the row it updated, and a row that some other program wrote
without a price or a datetime has none: `cancel_unpriced`.
-/

/-! ### Tables that only grow -/

/-- What may become of a committed row: nothing, or the cancel of a resting one. -/
def OrderRow.Becomes (row row' : OrderRow) : Prop :=
  row' = row ∨ row.status = some OrderStatus.NEW.text ∧ row' = row.cancelled

/-- What the API may create: FILLED or REJECTED if MARKET, NEW or REJECTED if LIMIT. -/
def OrderRow.Birth (row : OrderRow) : Prop :=
  row.type = some OrderType.MARKET.text ∧ (row.status = some OrderStatus.FILLED.text ∨
      row.status = some OrderStatus.REJECTED.text) ∨
    row.type = some OrderType.LIMIT.text ∧ (row.status = some OrderStatus.NEW.text ∨
      row.status = some OrderStatus.REJECTED.text)

/-- Every row is still in its place, as it may have become, and what was appended are rows the
    API may create, as they may have become. -/
def AppendOnly (orders orders' : Orders) : Prop :=
  ∃ old new, orders' = old ++ new ∧ List.Forall₂ OrderRow.Becomes orders old ∧
    ∀ row ∈ new, ∃ born : OrderRow, born.Birth ∧ born.Becomes row

theorem OrderRow.Becomes.trans {a b c : OrderRow} (hab : a.Becomes b) (hbc : b.Becomes c) :
    a.Becomes c := by
  rcases hab with rfl | ⟨hnew, rfl⟩
  · exact hbc
  · rcases hbc with rfl | ⟨hnew', -⟩
    · exact .inr ⟨hnew, rfl⟩
    · simp [OrderRow.cancelled, OrderStatus.text] at hnew'

theorem becomes_afterCancel (id : Int) (row : OrderRow) : row.Becomes (row.afterCancel id) := by
  rcases afterCancel_eq_or id row with h | ⟨-, hnew, h⟩
  · exact .inl h
  · exact .inr ⟨hnew, h⟩

theorem AppendOnly.refl (orders : Orders) : AppendOnly orders orders :=
  ⟨orders, [], by simp, List.forall₂_same.mpr fun _ _ => .inl rfl, by simp⟩

theorem AppendOnly.trans {a b c : Orders} (hab : AppendOnly a b) (hbc : AppendOnly b c) :
    AppendOnly a c := by
  obtain ⟨old, new, rfl, hold, hnew⟩ := hab
  obtain ⟨rest, new', rfl, hrest, hnew'⟩ := hbc
  -- the rows of the second table are those of the first and those appended to it
  obtain ⟨old', mid, rfl, hold', hmid⟩ := exists_append_of_forall₂ hrest
  refine ⟨old', mid ++ new', List.append_assoc .., ?_, fun row hrow => ?_⟩
  · exact forall₂_trans (fun _ _ _ hab hbc => hab.trans hbc) hold hold'
  · rcases List.mem_append.mp hrow with hrow | hrow
    · obtain ⟨made, hmade, hbecomes⟩ := exists_left_of_forall₂ hmid hrow
      obtain ⟨born, hborn, hb⟩ := hnew made hmade
      exact ⟨born, hborn, hb.trans hbecomes⟩
    · exact hnew' row hrow

/-- A cancel does only what it may. -/
theorem appendOnly_cancel (orders : Orders) (id : Int) :
    AppendOnly orders (orders.map (OrderRow.afterCancel id)) :=
  ⟨_, [], by simp, List.forall₂_map_right_iff.mpr
    (List.forall₂_same.mpr fun row _ => becomes_afterCancel id row), by simp⟩

/-- The commit of a new row does only what it may. -/
theorem appendOnly_concat (orders : Orders) {row : OrderRow} (h : row.Birth) :
    AppendOnly orders (orders ++ [row]) :=
  ⟨orders, [row], rfl, List.forall₂_same.mpr fun _ _ => .inl rfl, fun _ hrow =>
    ⟨row, h, .inl (List.mem_singleton.mp hrow)⟩⟩

/-- A new order is one the API may create. -/
theorem newOrder_birth (r : Request) (q : Sized) (cash held id : Int) (now : Timestamp) :
    ((newOrder r q cash held).row id now).Birth := by
  have hstatus := (placement r.order q cash held).decide_status_cases
  simp only [OrderRow.Birth, NewOrder.row, newOrder, Option.some.injEq,
    OrderStatus.text_injective.eq_iff, placement] at hstatus ⊢
  rcases hstatus with ⟨htype, h⟩ | ⟨htype, h⟩
  · exact .inl ⟨by rw [htype], h⟩
  · exact .inr ⟨by rw [htype], h⟩

/-- **Every step only appends and cancels.** -/
theorem appendOnly_step {m : Market} {s s' : State} {e : Event} (hinv : Inv m s)
    (hstep : (service m).step s e = some s') : AppendOnly s.orders s'.orders := by
  cases took_of_step hstep with
  | committed ht =>
    obtain ⟨q, cash, held, id, now, order, -, -, rfl, -⟩ := hinv.readings ht
    exact appendOnly_concat s.orders (newOrder_birth ..)
  | cancelled => exact appendOnly_cancel s.orders _
  | _ => exact .refl s.orders

/-- **Every run only appends and cancels.** -/
theorem appendOnly_run {m : Market} {s s' : State} {es : List Event} (hinv : Inv m s)
    (hrun : (service m).run s es = some s') : AppendOnly s.orders s'.orders :=
  (service m).related_run (I := Inv m) (R := fun a b => AppendOnly a.orders b.orders)
    (fun h hstep => h.step hstep) (fun s => .refl s.orders) .trans
    (fun h hstep => appendOnly_step h hstep) hinv hrun

/-- No row leaves the table. -/
theorem ids_appendOnly {orders orders' : Orders} (h : AppendOnly orders orders') {id : Int}
    (hid : id ∈ orders.map (·.id)) : id ∈ orders'.map (·.id) := by
  obtain ⟨old, new, rfl, hold, -⟩ := h
  obtain ⟨row, hrow, rfl⟩ := List.mem_map.mp hid
  obtain ⟨row', hrow', hbecomes⟩ := exists_right_of_forall₂ hold hrow
  refine List.mem_map.mpr ⟨row', List.mem_append_left _ hrow', ?_⟩
  rcases hbecomes with rfl | ⟨-, rfl⟩ <;> rfl

/-! ### Who cancelled what -/

/-- Cancels and the rows they matched, and the constraints the table is kept in. -/
structure CancelInv (s : State) : Prop where
  primaryKey : (s.orders.map (·.id)).Nodup
  columns : ∀ row ∈ s.orders, row.fits = true
  /-- An order that was cancelled is in the table, and does not rest. -/
  spent : ∀ {c id}, s.Cancelled c id →
    id ∈ s.orders.map (·.id) ∧ ∀ row ∈ s.orders, row.id = id → row.status ≠ some OrderStatus.NEW.text
  /-- Each order is cancelled once. -/
  once : ∀ {c c' id}, s.Cancelled c id → s.Cancelled c' id → c = c'

theorem cancelInv_initial (table : OrdersTable) (sequence : Int) :
    CancelInv (.initial table.rows sequence) where
  primaryKey := table.primaryKey
  columns := table.columns
  spent h := by obtain ⟨row, h⟩ := h; cases h
  once h := by obtain ⟨row, h⟩ := h; cases h

@[simp] theorem fits_afterCancel (id : Int) (row : OrderRow) :
    (row.afterCancel id).fits = row.fits := by
  unfold OrderRow.afterCancel
  split <;> rfl

theorem newOrder_row_fits {o : NewOrder} (h : o.fits = true) (id : Int) (now : Timestamp) :
    (o.row id now).fits = true := by
  simpa [OrderRow.fits, NewOrder.row, NewOrder.fits] using h

/-- A cancel that matched found a resting row with its id. -/
theorem exists_of_updated {orders : Orders} {id : Int} {row : OrderRow}
    (h : updated (cancelOrder orders id CANCELLABLE).1 = .returned row) :
    ∃ found ∈ orders, found.id = id ∧ found.status = some OrderStatus.NEW.text ∧
      row = found.cancelled := by
  cases hfind : orders.find? (OrderRow.cancellable id CANCELLABLE) with
  | none => simp [cancelOrder, hfind, updated] at h
  | some found =>
    simp only [cancelOrder, hfind, Option.map_some, updated, CancelPhase.returned.injEq] at h
    obtain ⟨hid, hnew⟩ := cancellable_iff.mp (List.find?_some hfind)
    exact ⟨found, List.mem_of_find?_eq_some hfind, hid, hnew, h.symm⟩

/-- After a cancel nothing with its id rests. -/
theorem afterCancel_not_new (id : Int) {row : OrderRow} (hid : (row.afterCancel id).id = id) :
    (row.afterCancel id).status ≠ some OrderStatus.NEW.text := by
  rw [afterCancel_id] at hid
  by_cases h : row.cancellable id CANCELLABLE = true
  · simp [OrderRow.afterCancel, h, OrderRow.cancelled, OrderStatus.text]
  · rw [OrderRow.afterCancel, if_neg h]
    exact fun hnew => h (cancellable_iff.mpr ⟨hid, hnew⟩)

theorem CancelInv.step {m : Market} {s s' : State} {e : Event} (h : CancelInv s)
    (hinv : Inv m s) (hstep : (service m).step s e = some s') : CancelInv s' := by
  cases took_of_step hstep with
  | @committed t r row placed drawn ht =>
    -- a new row has a new id, so it is none of those that were cancelled
    have hid : row.id ∉ s.orders.map (·.id) := (hinv.pending ht rfl).2
    obtain ⟨q, cash, held, id, now, order, -, hfits, hrow, -⟩ := hinv.readings ht
    refine ⟨?_, fun b hb => ?_, fun {c i} hc => ⟨?_, fun b hb hbid => ?_⟩, h.once⟩
    · simpa [List.nodup_append] using ⟨h.primaryKey, by simpa using hid⟩
    · rcases List.mem_append.mp hb with hb | hb
      · exact h.columns b hb
      · rw [List.mem_singleton.mp hb, hrow]
        exact newOrder_row_fits hfits id now
    · simpa using Or.inl (by simpa using (h.spent hc).1)
    · rcases List.mem_append.mp hb with hb | hb
      · exact (h.spent hc).2 b hb hbid
      · rw [List.mem_singleton.mp hb] at hbid
        exact absurd (hbid ▸ (h.spent hc).1) hid
  | @cancelled c id hc =>
    -- the cancels that have matched after the step: the earlier ones, and perhaps this one
    have hcases : ∀ {c' i}, State.Cancelled
        { s.putCancel c ⟨id, updated (cancelOrder s.orders id CANCELLABLE).1⟩ with
          orders := s.orders.map (OrderRow.afterCancel id) } c' i →
        (c' = c ∧ i = id ∧ ∃ found ∈ s.orders, found.id = id ∧
            found.status = some OrderStatus.NEW.text) ∨ s.Cancelled c' i := by
      rintro c' i ⟨row, hrow⟩
      rcases (s.putCancel_eq_some _ _).mp hrow with ⟨rfl, heq⟩ | ⟨-, hold⟩
      · rw [CancelAttempt.mk.injEq] at heq
        obtain ⟨found, hfound, hid, hnew, -⟩ := exists_of_updated heq.2.symm
        exact .inl ⟨rfl, heq.1, found, hfound, hid, hnew⟩
      · exact .inr ⟨row, hold⟩
    refine ⟨by simpa [Function.comp_def] using h.primaryKey, fun b hb => ?_, fun {c' i} hc' => ?_,
      fun {c₁ c₂ i} h₁ h₂ => ?_⟩
    · obtain ⟨row, hrow, rfl⟩ := List.mem_map.mp hb
      simpa using h.columns row hrow
    · rcases hcases hc' with ⟨-, rfl, found, hfound, hid, -⟩ | hold
      -- this cancel matched, and nothing with its id rests after it
      · refine ⟨by simpa using ⟨found, hfound, hid⟩, fun b hb hbid => ?_⟩
        obtain ⟨row, -, rfl⟩ := List.mem_map.mp hb
        exact afterCancel_not_new _ hbid
      · refine ⟨by simpa using (h.spent hold).1, fun b hb hbid => ?_⟩
        obtain ⟨row, hrow, rfl⟩ := List.mem_map.mp hb
        rcases afterCancel_eq_or id row with hsame | ⟨-, -, hcancelled⟩
        · rw [hsame] at hbid ⊢
          exact (h.spent hold).2 row hrow hbid
        · simp [hcancelled, OrderRow.cancelled, OrderStatus.text]
    · rcases hcases h₁ with ⟨hc₁, hi₁, found₁, hfound₁, hid₁, hnew₁⟩ | hold₁ <;>
        rcases hcases h₂ with ⟨hc₂, hi₂, found₂, hfound₂, hid₂, hnew₂⟩ | hold₂
      · rw [hc₁, hc₂]
      -- what was cancelled before does not rest, so no later `UPDATE` matches it
      · exact absurd hnew₁ ((h.spent hold₂).2 found₁ hfound₁ (hid₁.trans hi₁.symm))
      · exact absurd hnew₂ ((h.spent hold₁).2 found₂ hfound₂ (hid₂.trans hi₂.symm))
      · exact h.once hold₁ hold₂
  | @refused c id hc =>
    have hold : ∀ {c' i}, State.Cancelled (s.putCancel c ⟨id, .refused
        (refusal id (Cocos.statusOf s.orders id))⟩) c' i → s.Cancelled c' i := by
      rintro c' i ⟨row, hrow⟩
      rcases (s.putCancel_eq_some _ _).mp hrow with ⟨-, heq⟩ | ⟨-, hold⟩
      · cases heq
      · exact ⟨row, hold⟩
    exact ⟨h.primaryKey, h.columns, fun hc' => h.spent (hold hc'),
      fun h₁ h₂ => h.once (hold h₁) (hold h₂)⟩
  | _ => exact ⟨h.primaryKey, h.columns, h.spent, h.once⟩

theorem cancelInv_run {m : Market} {table : OrdersTable} {sequence : Int} {es : List Event}
    {s : State} (hrun : (service m).run (.initial table.rows sequence) es = some s) :
    CancelInv s := by
  have key : Inv m s ∧ CancelInv s :=
    (service m).invariant_run (I := fun s => Inv m s ∧ CancelInv s)
      (fun h hstep => ⟨h.1.step hstep, h.2.step h.1 hstep⟩)
      ⟨inv_initial m table.rows sequence, cancelInv_initial table sequence⟩ hrun
  exact key.2

/-! ### What a cancel answers, and what it leaves alone -/

/-- Cancel `c` answers with the order `id`. -/
def State.Returns (s : State) (c : Nat) (id : Int) : Prop :=
  ∃ phase v, s.cancels c = some ⟨id, phase⟩ ∧ phase.answer = some (.ok v)

/-- The transition of the order `id` was performed on the row from one table to the other. -/
def OrderRow.Performed (row : OrderRow) (id : Int) (orders orders' : Orders) : Prop :=
  row ∈ orders ∧ row.id = id ∧ row.status = some OrderStatus.NEW.text ∧ row.cancelled ∈ orders'

theorem State.Returns.cancelled {s : State} {c : Nat} {id : Int} (h : s.Returns c id) :
    s.Cancelled c id := by
  obtain ⟨phase, v, hc, hv⟩ := h
  cases phase with
  | returned row => exact ⟨row, hc⟩
  | missed => cases hv
  | refused thrown => simp [CancelPhase.answer] at hv

/-- A table of one order of user 1, resting at `price`. -/
def resting (price : Option Int) (h : (price.all fun p => p.natAbs ≤ 9999999999) = true) :
    OrdersTable where
  rows := [⟨1, some 1, some 1, some 2, price, some "LIMIT", some "BUY", some "NEW", some 0, none⟩]
  primaryKey := by simp
  keyIndex _ _ := List.length_filter_le _ _
  columns := by simpa [OrderRow.fits, fitsInt4, minInt4, maxInt4] using h

end Cocos
