import Cocos.History

namespace Cocos

open Cocos.Lib

/-!
# One order for each key

A request may be sent any number of times under its `Idempotency-Key`: in sequence, at once,
with another body, after a time-out, or because the answer was lost.  Other users may use the
same key, and orders are cancelled meanwhile.

* `Replays` — an answer shows the same order as an earlier one, cancelled since at most;
* `OncePerKey` — what idempotency comes to, clause by clause;
* `placement_idempotent` — **every run places one order for each user and key**.
-/

/-- The order as it is answered once cancelled. -/
def OrderView.cancelled (v : OrderView) : OrderView :=
  { v with status := some OrderStatus.CANCELLED.text }

/-- `v'` shows the order of `v`: as it was, or cancelled if it was resting and a cancel of it
    has matched. -/
def Replays (s : State) (v v' : OrderView) : Prop :=
  v' = v ∨ v.status = some OrderStatus.NEW.text ∧ v' = v.cancelled ∧ ∃ c, s.Cancelled c v.id

theorem view_cancelled (row : OrderRow) : view row.cancelled = (view row).map .cancelled := by
  cases hp : row.price with
  | none => simp [view, OrderRow.cancelled, hp, Except.map]
  | some stored =>
    cases hc : centavosFromDb (Decimal.ofHundredths stored).toString with
    | error e => simp [view, OrderRow.cancelled, hp, hc, bind, Except.bind, Except.map]
    | ok price =>
      cases hd : row.datetime <;>
        simp [view, OrderRow.cancelled, OrderView.cancelled, hp, hc, hd, bind, Except.bind, pure,
          Except.pure, Except.map]

/-- The view of what a row has become shows the order that was inserted. -/
theorem Since.replays {s : State} {born row : OrderRow} {v' : OrderView} (h : Since s born row)
    (hview : view row = .ok v') : ∃ v, view born = .ok v ∧ Replays s v v' := by
  rcases h with rfl | ⟨hnew, rfl, hc⟩
  · exact ⟨v', hview, .inl rfl⟩
  · rw [view_cancelled] at hview
    cases hv : view born with
    | error e => simp [hv, Except.map] at hview
    | ok v =>
      simp only [hv, Except.map, Except.ok.injEq] at hview
      obtain ⟨price, datetime, -, -, rfl⟩ := view_eq_ok hv
      exact ⟨_, rfl, .inr ⟨hnew, hview.symm, hc⟩⟩

/-- The orders of a run, one for each user and key. -/
structure OncePerKey (start : Orders) (s : State) : Prop where
  /-- No two rows are under one key of one user. -/
  one_row : ∀ u key, (s.orders.filter (OrderRow.hasKey u key)).length ≤ 1
  /-- A request is answered with its own user's row under its own key. -/
  own_row : ∀ {t a placed}, s.placements t = some a → a.phase.placed = some placed →
    placed.order.userId = some a.user ∧
      ∃ row ∈ s.orders, row.id = placed.order.id ∧ row.hasKey a.user a.request.key = true
  /-- One request makes the order of a key, -/
  one_maker : ∀ {t t' a a' order order'}, s.placements t = some a → s.placements t' = some a' →
    a.user = a'.user → a.request.key = a'.request.key → a.phase.placed = some ⟨order, false⟩ →
    a'.phase.placed = some ⟨order', false⟩ → t = t'
  /-- which is under the id its insert drew, -/
  made : ∀ {t a order}, s.placements t = some a → a.phase.placed = some ⟨order, false⟩ →
    a.drawn = some order.id
  /-- and none does if the table had one. -/
  not_stored : ∀ {t a order}, s.placements t = some a → a.phase.placed = some ⟨order, false⟩ →
    ∀ row ∈ start, row.hasKey a.user a.request.key = false
  /-- Every other request is answered with the order as it was made, -/
  replays_made : ∀ {t t' a a' order order'}, s.placements t = some a →
    s.placements t' = some a' → a.user = a'.user → a.request.key = a'.request.key →
    a.phase.placed = some ⟨order, false⟩ → a'.phase.placed = some ⟨order', true⟩ →
    Replays s order order'
  /-- or as it was stored. -/
  replays_stored : ∀ {t a order' row}, s.placements t = some a →
    a.phase.placed = some ⟨order', true⟩ → row ∈ start →
    row.hasKey a.user a.request.key = true → ∃ order, view row = .ok order ∧ Replays s order order'
  /-- A replayed order was stored, or a request has committed it. -/
  replays_source : ∀ {t a order}, s.placements t = some a →
    a.phase.placed = some ⟨order, true⟩ →
    (∃ row ∈ start, row.hasKey a.user a.request.key = true) ∨
      ∃ t' r made drawn, s.placements t' = some ⟨r, .committed ⟨made, false⟩, drawn⟩ ∧
        r.order.userId = a.user ∧ r.key = a.request.key
  /-- The index on user and key refuses no insert, whenever it comes, -/
  index_kept : ∀ {t r q cash held drawn}, s.placements t = some ⟨r, .measured q cash held, drawn⟩ →
    ∀ now, insert s.orders (newOrder r q cash held) (s.sequence + 1) now ≠
      .error (.database (.uniqueViolation "orders_userid_idempotencykey_key"))
  /-- and finds no two uncommitted rows under one key. -/
  pending_apart : ∀ {t t' r r' row row' p p' d d'},
    s.placements t = some ⟨r, .inserted row p, d⟩ →
    s.placements t' = some ⟨r', .inserted row' p', d'⟩ →
    r.order.userId = r'.order.userId → t = t'

section

variable {m : Market} {table : OrdersTable} {made : Orders} {s : State}

/-- Each key of a user has one row, by the lookup under the lock. -/
theorem one_row_step {e : Event} {s' : State} (hinv : Inv m s)
    (h : ∀ u key, (s.orders.filter (OrderRow.hasKey u key)).length ≤ 1)
    (hstep : (service m).step s e = some s') (u : Int) (key : String) :
    (s'.orders.filter (OrderRow.hasKey u key)).length ≤ 1 := by
  cases took_of_step hstep with
  | @committed t r row placed drawn ht =>
    obtain ⟨q, cash, held, id, now, order, hread, -, rfl, -⟩ := hinv.readings ht
    show ((s.orders ++ [_]).filter _).length ≤ 1
    rw [List.filter_append, List.length_append]
    -- a row is committed whose key was free when it was looked up, and is free still
    by_cases hkey : r.order.userId = u ∧ r.key = key
    · have hnone : s.orders.filter (OrderRow.hasKey u key) = [] := by
        obtain ⟨rfl, rfl⟩ := hkey
        simpa using byIdempotencyKey_eq_none.mp hread.key
      rw [hnone]
      simpa using List.length_filter_le (OrderRow.hasKey u key) [_]
    · have hnone : [(newOrder r q cash held).row id now].filter (OrderRow.hasKey u key) = [] := by
        simpa [OrderRow.hasKey, NewOrder.row, newOrder] using hkey
      rw [hnone]
      exact h u key
  | cancelled hc =>
    show ((s.orders.map _).filter _).length ≤ 1
    rw [List.filter_map, List.length_map]
    simpa [Function.comp_def] using h u key
  | _ => exact h u key

theorem one_row_run {sequence : Int} {es : List Event}
    (hrun : (service m).run (.initial table.rows sequence) es = some s) (u : Int) (key : String) :
    (s.orders.filter (OrderRow.hasKey u key)).length ≤ 1 := by
  have key' : Inv m s ∧ ∀ u key, (s.orders.filter (OrderRow.hasKey u key)).length ≤ 1 :=
    (service m).invariant_run
      (I := fun s => Inv m s ∧ ∀ u key, (s.orders.filter (OrderRow.hasKey u key)).length ≤ 1)
      (fun h hstep => ⟨h.1.step hstep, one_row_step h.1 h.2 hstep⟩)
      ⟨inv_initial m table.rows sequence, table.keyIndex⟩ hrun
  exact key'.2 u key

/-- Two rows as they were inserted, under one key of one user, are one. -/
theorem History.born_unique (h : History table.rows made s)
    (hone : ∀ u key, (s.orders.filter (OrderRow.hasKey u key)).length ≤ 1) {u : Int}
    {key : String} {b b' : OrderRow} (hb : b ∈ table.rows ++ made) (hb' : b' ∈ table.rows ++ made)
    (hkey : b.hasKey u key = true) (hkey' : b'.hasKey u key = true) : b = b' := by
  refine eq_of_length_filter_le_one ?_ hb hb' hkey hkey'
  rw [← length_filter_of_forall₂ h.rows fun _ _ hsince => hsince.hasKey_eq u key]
  exact hone u key

/-- A made row is under no key the table had. -/
theorem History.made_not_stored (h : History table.rows made s)
    (hone : ∀ u key, (s.orders.filter (OrderRow.hasKey u key)).length ≤ 1) {u : Int}
    {key : String} {b b' : OrderRow} (hb : b ∈ made) (hb' : b' ∈ table.rows)
    (hkey : b.hasKey u key = true) : b'.hasKey u key = false := by
  rw [Bool.eq_false_iff]
  intro hkey'
  have hlen := hone u key
  rw [length_filter_of_forall₂ h.rows fun _ _ hsince => hsince.hasKey_eq u key,
    List.filter_append, List.length_append] at hlen
  have h₁ : 0 < (made.filter (OrderRow.hasKey u key)).length :=
    List.length_pos_of_mem (List.mem_filter.mpr ⟨hb, hkey⟩)
  have h₂ : 0 < (table.rows.filter (OrderRow.hasKey u key)).length :=
    List.length_pos_of_mem (List.mem_filter.mpr ⟨hb', hkey'⟩)
  omega

/-- Whichever way a request was answered, it was with the view of a row of its key. -/
theorem History.answered (h : History table.rows made s) {t : Nat} {a : Attempt}
    {placed : Placed} (ht : s.placements t = some a) (hp : a.phase.placed = some placed) :
    ∃ b ∈ table.rows ++ made, b.hasKey a.user a.request.key = true ∧
      placed.order.id = b.id ∧ placed.order.userId = b.userId := by
  obtain ⟨order, replayed⟩ := placed
  cases replayed with
  | false =>
    obtain ⟨b, hb, hkey, hview, -⟩ := h.created ht hp
    obtain ⟨price, datetime, -, -, rfl⟩ := view_eq_ok hview
    exact ⟨b, List.mem_append_right _ hb, hkey, rfl, rfl⟩
  | true =>
    obtain ⟨b, hb, hkey, row, hsince, hview⟩ := h.replayed ht hp
    obtain ⟨price, datetime, -, -, rfl⟩ := view_eq_ok hview
    refine ⟨b, hb, hkey, hsince.id_eq, ?_⟩
    rcases hsince with rfl | ⟨-, rfl, -⟩ <;> rfl

end

/-- **Every run places one order for each user and key.** -/
theorem placement_idempotent {m : Market} {table : OrdersTable} {sequence : Int}
    {es : List Event} {s : State}
    (hrun : (service m).run (.initial table.rows sequence) es = some s) :
    OncePerKey table.rows s := by
  have hinv := inv_run hrun
  have hone := one_row_run hrun
  obtain ⟨made, h⟩ := history_run hrun
  have hmem : ∀ {b}, b ∈ made → b ∈ table.rows ++ made := fun hb => List.mem_append_right _ hb
  constructor
  case one_row => exact hone
  case own_row =>
    intro t a placed ht hp
    obtain ⟨b, hb, hkey, hid, huser⟩ := h.answered ht hp
    obtain ⟨row, hrow, hsince⟩ := exists_right_of_forall₂ h.rows hb
    have hu : b.userId = some a.user := by
      simp only [OrderRow.hasKey, decide_eq_true_eq] at hkey
      exact hkey.1
    exact ⟨huser.trans hu, row, hrow, hsince.id_eq.trans hid.symm, hsince.hasKey_eq _ _ ▸ hkey⟩
  case one_maker =>
    intro t t' a a' order order' ht ht' huser hreq hp hp'
    obtain ⟨b, hb, hkey, -, hdrawn⟩ := h.created ht hp
    obtain ⟨b', hb', hkey', -, hdrawn'⟩ := h.created ht' hp'
    -- two rows of one key are one, and an id is drawn by one insert
    obtain rfl := h.born_unique hone (hmem hb) (hmem hb') hkey (huser ▸ hreq ▸ hkey')
    exact hinv.drawn_inj ht ht' hdrawn hdrawn'
  case made =>
    intro t a order ht hp
    obtain ⟨b, -, -, hview, hdrawn⟩ := h.created ht hp
    obtain ⟨price, datetime, -, -, rfl⟩ := view_eq_ok hview
    exact hdrawn
  case not_stored =>
    intro t a order ht hp row hrow
    obtain ⟨b, hb, hkey, -, -⟩ := h.created ht hp
    exact h.made_not_stored hone hb hrow hkey
  case replays_made =>
    intro t t' a a' order order' ht ht' huser hreq hp hp'
    obtain ⟨b, hb, hkey, hview, -⟩ := h.created ht hp
    obtain ⟨b', hb', hkey', row, hsince, hview'⟩ := h.replayed ht' hp'
    -- the row that was made and the row that was replayed are under one key
    obtain rfl := h.born_unique hone (hmem hb) hb' hkey (huser ▸ hreq ▸ hkey')
    obtain ⟨v, hv, hreplays⟩ := hsince.replays hview'
    cases hview.symm.trans hv
    exact hreplays
  case replays_stored =>
    intro t a order' row ht hp hrow hkey
    obtain ⟨b, hb, hkey', row', hsince, hview⟩ := h.replayed ht hp
    obtain rfl := h.born_unique hone (List.mem_append_left _ hrow) hb hkey hkey'
    exact hsince.replays hview
  case replays_source =>
    intro t a order ht hp
    obtain ⟨b, hb, hkey, -⟩ := h.replayed ht hp
    rcases List.mem_append.mp hb with hb | hb
    · exact .inl ⟨b, hb, hkey⟩
    · obtain ⟨t', r, made', drawn, ht', hkey', -⟩ := h.creator b hb
      simp only [OrderRow.hasKey, decide_eq_true_eq] at hkey hkey'
      exact .inr ⟨t', r, made', drawn, ht', Option.some.inj (hkey'.1.symm.trans hkey.1),
        Option.some.inj (hkey'.2.symm.trans hkey.2)⟩
  case index_kept =>
    intro t r q cash held drawn ht now
    have hread : Readings m s.orders r q cash held := hinv.fresh ht
    -- the lookup under the lock found no row, and still would
    unfold insert
    split
    · simp
    · split
      · simp
      · simp [newOrder, hread.key]
  case pending_apart =>
    intro t t' r r' row row' p p' d d' ht ht' huser
    exact hinv.exclusive ht ht' rfl rfl huser

/-- A table of one deposit. -/
def oneDeposit : OrdersTable where
  rows := [deposit 5]
  primaryKey := by simp
  keyIndex _ _ := List.length_filter_le _ _
  columns := by simp; decide

/-- An order rests, is cancelled, and is sent again under its key. -/
def sentTwice : List Event :=
  [.begin 0 (limitBuy 2 "a" (Eq.refl true)), .begin 1 (limitBuy 3 "a" (Eq.refl true)),
    .lockPlacements 0, .read 0, .read 0, .read 0, .read 0, .read 0, .insert 0 7, .commit 0,
    .unlock 0, .cancel 0 2, .lockPlacements 1, .read 1, .commit 1]

/-- The second request is answered with the order of the first, cancelled meanwhile. -/
theorem placement_idempotent_sentTwice : ∃ s order order',
    (service (marketAt 100)).run (.initial oneDeposit.rows 1) sentTwice = some s ∧
      (s.placements 0).map (·.phase.placed) = some (some ⟨order, false⟩) ∧
      (s.placements 1).map (·.phase.placed) = some (some ⟨order', true⟩) ∧
      Replays s order order' ∧ order ≠ order' := by
  have h := placement_idempotent
    (show (service (marketAt 100)).run (.initial oneDeposit.rows 1) sentTwice = some _ from rfl)
  exact ⟨_, _, _, rfl, rfl, rfl, @h.replays_made 0 1 _ _ _ _ rfl rfl rfl rfl rfl rfl, by decide⟩

end Cocos
