import Cocos.AppendOnly
import Cocos.Idempotency
import Cocos.Tools.Invariants
import Cocos.Tools.LostOrders

namespace Cocos.Tools

open Cocos.Lib

/-!
# The verdicts on the API's own orders

Sixteen seconds after a placement that was never answered the back-office asks the database for the
order of its key.  Here the database is the API's: any placements and cancels, of any clients,
statement by statement.

* `keyedOrders`, `matchByKey_keyedOrders` — what the database answers with;
* `reconciledFindings_of_length` — of one order at most there is one finding;
* `Names` — an order is the one of its key, for everyone and from then on;
* `verdict_true` — **there is one verdict on a lost placement: it is critical exactly if no order was
  made under the key, and otherwise names the order that everyone is answered with.**
-/

/-! ### What the database answers with -/

/-- The columns that are selected: a status that is not there shows as `null`, and nothing compares
    the time. -/
def dbOrder (row : OrderRow) : DbOrder := ⟨row.id, nullable row.status, row.datetime.getD 0⟩

/-- The orders that are under a key. -/
def keyedOrders (orders : Orders) : List KeyedOrder :=
  orders.filterMap fun row =>
    match row.userId, row.idempotencyKey with
    | some userId, some key => some ⟨userId, key, dbOrder row⟩
    | _, _ => none

/-- **The order of a key is found by the columns of its row.** -/
theorem matchByKey_keyedOrders (orders : Orders) (u : Int) (key : String) :
    matchByKey (keyedOrders orders) u key =
      ((orders.filter (OrderRow.hasKey u key)).map dbOrder).insertionSort fun a b => a.id ≤ b.id := by
  have hrows : ((keyedOrders orders).filter fun o => o.userId = u ∧ o.key = key).map (·.order) =
      (orders.filter (OrderRow.hasKey u key)).map dbOrder := by
    induction orders with
    | nil => rfl
    | cons row orders ih =>
      rw [keyedOrders] at ih ⊢
      rw [List.filterMap_cons, List.filter_cons]
      cases huser : row.userId with
      | none => simpa [OrderRow.hasKey, huser] using ih
      | some v =>
        cases hkey : row.idempotencyKey with
        | none => simpa [OrderRow.hasKey, huser, hkey] using ih
        | some k =>
          by_cases h : v = u ∧ k = key
          · simpa [OrderRow.hasKey, huser, hkey, h] using ih
          · simpa [OrderRow.hasKey, huser, hkey, h] using ih
  rw [matchByKey, hrows]

/-- Of one order at most there is one finding. -/
theorem reconciledFindings_of_length {found : List MatchedOrder} (h : found.length ≤ 1)
    (attempt : Attempt) : reconciledFindings attempt found = [lostOrder attempt found] := by
  have hsingle : duplicateExecution attempt found = none := by
    unfold duplicateExecution
    split
    · exact if_pos (Nat.lt_succ_of_le h)
    · rfl
  simp [reconciledFindings, RECONCILED_DETECTORS, hsingle]

/-! ### The order of a key -/

/-- The order is under the key and everyone who is answered under the key is told of it. -/
structure Names (s : State) (u : Int) (key : String) (id : Int) : Prop where
  stored : ∃ row ∈ s.orders, row.id = id ∧ row.hasKey u key = true
  found : (matchByKey (keyedOrders s.orders) u key).map (·.id) = [id]
  told : ∀ t a placed, s.placements t = some a → a.user = u → a.request.key = key →
    a.phase.placed = some placed → placed.order.id = id

section Verdict

variable {m : Market} {table : OrdersTable} {sequence : Int} {es : List Event} {s : State} {u : Int}
  {key : String}

/-- The order of a key is one. -/
theorem names_of_mem (hrun : (service m).run (.initial table.rows sequence) es = some s)
    {row : OrderRow} (hrow : row ∈ s.orders) (hkey : row.hasKey u key = true) :
    Names s u key row.id where
  stored := ⟨row, hrow, rfl, hkey⟩
  found := by
    have hmem : row ∈ s.orders.filter (OrderRow.hasKey u key) := List.mem_filter.mpr ⟨hrow, hkey⟩
    obtain ⟨only, honly⟩ := List.length_eq_one_iff.mp
      (Nat.le_antisymm (one_row_run hrun u key) (List.length_pos_of_mem hmem))
    rw [honly, List.mem_singleton] at hmem
    rw [matchByKey_keyedOrders, honly, hmem]
    rfl
  told t a placed ht huser hreq hplaced := by
    obtain ⟨made, h⟩ := history_run hrun
    obtain ⟨born, hborn, hbornKey, hid, -⟩ := h.answered ht hplaced
    obtain ⟨row', hrow', hsince⟩ := exists_right_of_forall₂ h.rows hborn
    have hsame : row' = row := eq_of_length_filter_le_one (one_row_run hrun u key) hrow' hrow
      (by rw [hsince.hasKey_eq, ← huser, ← hreq, hbornKey]) hkey
    rw [hid, ← hsince.id_eq, hsame]

/-- And it goes on to be. -/
theorem Names.mono (hrun : (service m).run (.initial table.rows sequence) es = some s) {id : Int}
    (h : Names s u key id) {fs : List Event} {s' : State} (hrest : (service m).run s fs = some s') :
    Names s' u key id := by
  obtain ⟨row, hrow, rfl, hkey⟩ := h.stored
  obtain ⟨old, new, horders, hold, -⟩ := appendOnly_run (inv_run hrun) hrest
  obtain ⟨row', hrow', hbecomes⟩ := exists_right_of_forall₂ hold hrow
  have hmem : row' ∈ s'.orders := horders ▸ List.mem_append_left _ hrow'
  have hsame : row'.id = row.id ∧ row'.hasKey u key = row.hasKey u key := by
    rcases hbecomes with rfl | ⟨-, rfl⟩ <;> exact ⟨rfl, rfl⟩
  exact hsame.1 ▸ names_of_mem ((service m).run_trans hrun hrest) hmem (hsame.2.trans hkey)

/-- **No order is stored under a key exactly if none was made under it**: none was there, and no
    request has committed one. -/
theorem none_stored_iff (hrun : (service m).run (.initial table.rows sequence) es = some s) :
    (∀ row ∈ s.orders, row.hasKey u key = false) ↔
      (∀ row ∈ table.rows, row.hasKey u key = false) ∧
        ∀ t r order drawn, s.placements t = some ⟨r, .committed ⟨order, false⟩, drawn⟩ →
          ¬(r.order.userId = u ∧ r.key = key) := by
  obtain ⟨made, h⟩ := history_run hrun
  constructor
  · intro hnone
    have hborn : ∀ born ∈ table.rows ++ made, born.hasKey u key = false := fun born hborn => by
      obtain ⟨row, hrow, hsince⟩ := exists_right_of_forall₂ h.rows hborn
      rw [← hsince.hasKey_eq]
      exact hnone row hrow
    refine ⟨fun row hrow => hborn row (List.mem_append_left _ hrow), ?_⟩
    rintro t r order drawn ht ⟨rfl, rfl⟩
    obtain ⟨born, hmade, hkey, -⟩ := h.created ht rfl
    exact Bool.false_ne_true ((hborn born (List.mem_append_right _ hmade)).symm.trans hkey)
  · rintro ⟨hstart, hmakers⟩ row hrow
    obtain ⟨born, hborn, hsince⟩ := exists_left_of_forall₂ h.rows hrow
    rw [hsince.hasKey_eq]
    rcases List.mem_append.mp hborn with hborn | hborn
    · exact hstart born hborn
    · obtain ⟨t, r, order, drawn, ht, hkey, -⟩ := h.creator born hborn
      refine Bool.eq_false_iff.mpr fun hkey' => hmakers t r order drawn ht ?_
      simp only [OrderRow.hasKey, decide_eq_true_eq] at hkey hkey'
      exact ⟨Option.some.inj (hkey.1.symm.trans hkey'.1),
        Option.some.inj (hkey.2.symm.trans hkey'.2)⟩

/-- **The verdict on a lost placement.** -/
theorem verdict_true (hrun : (service m).run (.initial table.rows sequence) es = some s)
    (b : Backoffice) (attempt : Attempt) (lost : LostPlacement) (acknowledged : List Int) :
    ∃ verdict, (b.reconcileOne attempt
        (matchByKey (keyedOrders s.orders) lost.userId lost.idempotencyKey)
        acknowledged).anomalies = b.anomalies ++ [(attempt.id, verdict)] ∧
      verdict.rule = "lost_order" ∧
      (verdict.severity = .critical ↔
        (∀ row ∈ table.rows, row.hasKey lost.userId lost.idempotencyKey = false) ∧
          ∀ t r order drawn, s.placements t = some ⟨r, .committed ⟨order, false⟩, drawn⟩ →
            ¬(r.order.userId = lost.userId ∧ r.key = lost.idempotencyKey)) ∧
      (verdict.severity ≠ .critical → ∃ matched, verdict = lostOrder attempt [matched] ∧
        ∀ fs s', (service m).run s fs = some s' →
          Names s' lost.userId lost.idempotencyKey matched.order.id) := by
  have hlen : (matchByKey (keyedOrders s.orders) lost.userId lost.idempotencyKey).length ≤ 1 := by
    rw [matchByKey_keyedOrders, List.length_insertionSort, List.length_map]
    exact one_row_run hrun _ _
  generalize hfound : matchByKey (keyedOrders s.orders) lost.userId lost.idempotencyKey = found
  rw [hfound] at hlen
  let said := found.map fun row => MatchedOrder.mk row (row.id ∈ acknowledged)
  have hsaid : said.length ≤ 1 := (List.length_map _).trans_le hlen
  refine ⟨lostOrder attempt said, ?_, rfl, ?_, fun hwarning => ?_⟩
  · show b.anomalies ++ (reconciledFindings attempt said).map _ = _
    rw [reconciledFindings_of_length hsaid]
    rfl
  · rw [lostOrder_critical_iff, List.map_eq_nil_iff, ← none_stored_iff hrun, ← hfound,
      matchByKey_keyedOrders, ← List.length_eq_zero_iff, List.length_insertionSort,
      List.length_map, List.length_eq_zero_iff, List.filter_eq_nil_iff]
    simp
  -- what is found is one order, which is under the key
  · obtain ⟨order, rfl⟩ : ∃ order, found = [order] := by
      refine List.length_eq_one_iff.mp (Nat.le_antisymm hlen (List.length_pos_iff.mpr ?_))
      rintro rfl
      exact hwarning (lostOrder_critical_iff.mpr rfl)
    have hmem : order ∈ matchByKey (keyedOrders s.orders) lost.userId lost.idempotencyKey := by
      rw [hfound]
      exact List.mem_singleton_self _
    rw [matchByKey_keyedOrders, List.mem_insertionSort] at hmem
    obtain ⟨row, hrow, rfl⟩ := List.mem_map.mp hmem
    obtain ⟨hrow, hkey⟩ := List.mem_filter.mp hrow
    exact ⟨_, rfl, fun fs s' hrest => (names_of_mem hrun hrow hkey).mono hrun hrest⟩

end Verdict

/-- A placement of user 1 that was never answered. -/
def unansweredRow : Attempt where
  id := 1
  sentAt := 0
  method := "POST"
  path := "/orders"
  latencyMs := 10000
  status := 0
  ok := false
  sent := some ⟨1, 1, "BUY", 2, "LIMIT"⟩
  body := none
  expected := some .UNKNOWN
  actual := none
  orderId := none
  idempotencyKey := some "a"
  chaos := none

/-- The order of the key is named before it is cancelled and sent again. -/
theorem verdict_true_sentTwice : ∃ s verdict matched,
    (service (marketAt 100)).run (.initial oneDeposit.rows 1) (sentTwice.take 10) = some s ∧
      (Backoffice.initial.reconcileOne unansweredRow (matchByKey (keyedOrders s.orders) 1 "a")
        []).anomalies = [(1, verdict)] ∧
      verdict = lostOrder unansweredRow [matched] ∧
      ∀ s', (service (marketAt 100)).run s (sentTwice.drop 10) = some s' →
        Names s' 1 "a" matched.order.id := by
  obtain ⟨s, hrun, r, order, drawn, ht, huser, hkey⟩ : ∃ s,
      (service (marketAt 100)).run (.initial oneDeposit.rows 1) (sentTwice.take 10) = some s ∧
        ∃ r order drawn, s.placements 0 = some ⟨r, .committed ⟨order, false⟩, drawn⟩ ∧
          r.order.userId = 1 ∧ r.key = "a" := ⟨_, rfl, _, _, _, rfl, rfl, rfl⟩
  obtain ⟨verdict, hverdict, -, hcritical, hnamed⟩ :=
    verdict_true hrun .initial unansweredRow ⟨1, "a"⟩ []
  obtain ⟨matched, hmatched, hnames⟩ :=
    hnamed fun hc => (hcritical.mp hc).2 0 r order drawn ht ⟨huser, hkey⟩
  exact ⟨s, verdict, matched, hrun, hverdict, hmatched, hnames _⟩

end Cocos.Tools
