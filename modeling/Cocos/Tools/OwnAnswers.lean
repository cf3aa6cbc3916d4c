import Cocos.Tools.Answers
import Cocos.Tools.LoadChecks
import Cocos.Tools.OwnLedger

namespace Cocos.Tools

open Cocos.Lib

/-!
# The evidence of the API's own runs

A load run checks what it was answered, what it read of the balances and the rows of its users
against one another.  Here all of it comes of a run of the API itself: any placements and cancels,
of any clients, statement by statement.

* `Taken`, `taken_run` — an order that a cancel took reads CANCELLED from then on;
* `Evidence` — what a check brings, if it reads the balances and the rows in one state and was told
  nothing but what the API answered;
* `responses_agree_iff` — **an answer is at odds with its row exactly where a cancel took the order
  of it and was not heard of**;
* `unmatched_le` — no more rows are unaccounted for than placements;
* `own_run_passes_iff` — **all five checks pass on the API's own runs, but for such a cancel**.
-/

/-! ### Orders that were cancelled -/

/-- Every order that a cancel took reads CANCELLED. -/
def Taken (s : State) : Prop :=
  ∀ c id, s.Cancelled c id →
    ∃ row ∈ s.orders, row.id = id ∧ row.status = some OrderStatus.CANCELLED.text

section Taken

variable {m : Market} {s s' : State} {e : Cocos.Event}

/-- A cancel that has matched did so before, or matches now. -/
theorem cancelled_step (hstep : (service m).step s e = some s') {c : Nat} {id : Int}
    (h : s'.Cancelled c id) :
    s.Cancelled c id ∨ ∃ row ∈ s'.orders, row.id = id ∧
      row.status = some OrderStatus.CANCELLED.text := by
  obtain ⟨row, hrow⟩ := h
  cases Cocos.took_of_step hstep with
  | @cancelled c' id' hc =>
    rcases (s.putCancel_eq_some _ _).mp hrow with ⟨rfl, heq⟩ | ⟨-, hold⟩
    · rw [CancelAttempt.mk.injEq] at heq
      obtain ⟨rfl, hupdated⟩ := heq
      obtain ⟨found, hfound, hid, hnew, -⟩ := exists_of_updated hupdated.symm
      refine .inr ⟨_, List.mem_map_of_mem hfound, ?_, ?_⟩
      · rw [afterCancel_id, hid]
      · rw [OrderRow.afterCancel, if_pos (cancellable_iff.mpr ⟨hid, hnew⟩)]
        rfl
    · exact .inl ⟨row, hold⟩
  | @refused c' id' hc =>
    rcases (s.putCancel_eq_some _ _).mp hrow with ⟨-, heq⟩ | ⟨-, hold⟩
    · cases heq
    · exact .inl ⟨row, hold⟩
  | _ => exact .inl ⟨row, hrow⟩

/-- A row that reads CANCELLED does not change. -/
theorem mem_of_appendOnly {orders orders' : Orders} (h : AppendOnly orders orders')
    {row : OrderRow} (hrow : row ∈ orders) (hstatus : row.status = some OrderStatus.CANCELLED.text) :
    row ∈ orders' := by
  obtain ⟨old, new, rfl, hold, -⟩ := h
  obtain ⟨row', hrow', hbecomes⟩ := exists_right_of_forall₂ hold hrow
  rcases hbecomes with rfl | ⟨hnew, -⟩
  · exact List.mem_append_left _ hrow'
  · exact absurd (hstatus.symm.trans hnew) (by decide)

theorem taken_run {start : Orders} {sequence : Int} {es : List Cocos.Event}
    (hrun : (service m).run (.initial start sequence) es = some s) : Taken s := by
  have key : Cocos.Inv m s ∧ Taken s :=
    (service m).invariant_run (I := fun s => Cocos.Inv m s ∧ Taken s)
      (fun h hstep => ⟨h.1.step hstep, fun c id hc => by
        rcases cancelled_step hstep hc with hold | hnow
        · obtain ⟨row, hrow, hid, hstatus⟩ := h.2 c id hold
          exact ⟨row, mem_of_appendOnly (appendOnly_step h.1 hstep) hrow hstatus, hid, hstatus⟩
        · exact hnow⟩)
      ⟨Cocos.inv_initial m start sequence, fun c id ⟨row, hc⟩ => by cases hc⟩ hrun
  exact key.2

end Taken

/-! ### What a check brings -/

/-- What a check brings of the state `s` and of the state `mark` the high-water mark was read in:
    the balances, the rows and the answers are the API's, and every order of the users that was
    placed was answered with, but for those of the placements `lost`. -/
structure Evidence (mark s : State) (users : List Int) (lost : List Nat) (evidence : RunEvidence) :
    Prop where
  rows : evidence.rows = ledger s.orders users
  mark : evidence.highWaterMark = highWaterMark mark.orders
  cash : ∀ u api, evidence.apiCash.get? u = some (.cash api) →
    ∃ cash, readCash s.orders u = .ok cash ∧ api = apiString cash
  shadow : ∀ u shadow, evidence.shadowCash.get? u = some shadow →
    shadow = apiString (cashFold s.orders u)
  placements : ∀ p ∈ evidence.placements, ∃ t a placed, s.placements t = some a ∧
    a.user ∈ users ∧ a.phase.placed = some placed ∧ asPlacedOrder placed.order = some p
  cancelled : ∀ id ∈ evidence.cancelled, (∃ c, s.Returns c id) ∧
    ∃ row ∈ s.orders, row.id = id ∧ ∃ u ∈ users, row.userId = some u
  answered : ∀ t r order drawn, s.placements t = some ⟨r, .committed ⟨order, false⟩, drawn⟩ →
    r.order.userId ∈ users → order.id ∈ evidence.acknowledged ∨ t ∈ lost
  unanswered : lost.length ≤ evidence.unanswered

section Checks

variable {m : Market} {table : OrdersTable} {sequence : Int} {users : List Int}
  {es : List Cocos.Event} {s : State}

/-! ### Balances -/

/-- The rows of a user that are folded, and what they come to. -/
theorem entry_of_byUser (hfunded : Funded table.rows users)
    (hrun : (service m).run (.initial table.rows sequence) es = some s) {u : Option Int}
    {rows : List LedgerRow} (h : (u, rows) ∈ (byUser (ledger s.orders users)).entries) :
    ∃ v, u = some v ∧ cashTotal rows = some (cashFold s.orders v) := by
  obtain ⟨rfl, hne⟩ := mem_byUser.mp h
  obtain ⟨row, hrow⟩ := List.exists_mem_of_ne_nil _ hne
  obtain ⟨hin, huser⟩ := List.mem_filter.mp hrow
  obtain ⟨row', -, rfl, v, hv, huser'⟩ := userId_of_mem_ledger hin
  obtain rfl : u = some v := (of_decide_eq_true huser).symm.trans huser'
  exact ⟨v, rfl, cashTotal_owned hv fun row hrow huser =>
    isSome_of_run hfunded hrun hv hrow huser⟩

/-- **Conservation is not found fault with**: what the API answers with is the fold. -/
theorem conservation_passes (hfunded : Funded table.rows users)
    (hrun : (service m).run (.initial table.rows sequence) es = some s)
    {apiCash : JsMap Int CashReading} {shadowCash : JsMap Int String}
    (hcash : ∀ u api, apiCash.get? u = some (.cash api) →
      ∃ cash, readCash s.orders u = .ok cash ∧ api = apiString cash)
    (hshadow : ∀ u shadow, shadowCash.get? u = some shadow →
      shadow = apiString (cashFold s.orders u)) :
    ∃ result, conservation (ledger s.orders users) apiCash shadowCash = some result ∧
      result.pass = true := by
  have hentry := fun u rows => @entry_of_byUser m table sequence users es s hfunded hrun u rows
  have houtcomes : conserved (ledger s.orders users) apiCash shadowCash =
      some ((byUser (ledger s.orders users)).entries.map fun entry =>
        conserve apiCash shadowCash entry.1 (moneyOf ((cashTotal entry.2).getD 0))) := by
    apply mapM_eq_some_map
    rintro ⟨u, rows⟩ hmem
    obtain ⟨v, -, htotal⟩ := hentry u rows hmem
    show (cashTotal rows).map _ = some (conserve _ _ u (moneyOf ((cashTotal rows).getD 0)))
    rw [htotal]
    rfl
  refine ⟨_, by rw [conservation, houtcomes]; rfl, verdictOf_pass_iff.mpr ?_⟩
  rw [List.forall_mem_map, List.forall_mem_map]
  rintro ⟨u, rows⟩ hmem
  obtain ⟨v, rfl, htotal⟩ := hentry u rows hmem
  show (conserve apiCash shadowCash (some v) (moneyOf ((cashTotal rows).getD 0))).line.breach? = none
  rw [htotal, Option.getD_some, moneyOf_eq, conserve, Option.bind_some]
  cases hread : apiCash.get? v with
  | none => rfl
  | some reading =>
    cases reading with
    | unavailable reason => rfl
    | cash api =>
      obtain ⟨cash, hcash, rfl⟩ := hcash v api hread
      rw [readCash_eq hcash, ← cashFold_eq, Option.getD_some]
      show (if _ then _ else _ : Conserved).line.breach? = none
      rw [if_neg (not_not.mpr rfl), Option.bind_some]
      cases hsaid : shadowCash.get? v with
      | none => rfl
      | some shadow =>
        rw [hshadow v shadow hsaid]
        show (if _ then _ else _ : Conserved).line.breach? = none
        rw [if_neg (not_not.mpr rfl)]
        rfl

/-! ### Answers -/

/-- An answer is that of a row as it was stored, or as it has become; and so is what is read. -/
theorem exists_born (hrun : (service m).run (.initial table.rows sequence) es = some s) {t : Nat}
    {a : Cocos.Attempt} {placed : Placed} {p : PlacedResponse} (ht : s.placements t = some a)
    (hplaced : a.phase.placed = some placed) (hp : asPlacedOrder placed.order = some p) :
    ∃ born said row, row ∈ s.orders ∧ Since s born said ∧ Since s born row ∧
      answerOf said = some p ∧ row.userId = some a.user := by
  obtain ⟨made, h⟩ := history_run hrun
  have hanswer : ∀ {said}, view said = .ok placed.order → answerOf said = some p := fun hview => by
    rw [answerOf, hview]
    exact hp
  have hborn : ∃ born ∈ table.rows ++ made, born.hasKey a.user a.request.key = true ∧
      ∃ said, Since s born said ∧ view said = .ok placed.order := by
    obtain ⟨order, replayed⟩ := placed
    cases replayed with
    | false =>
      obtain ⟨born, hmem, hkey, hview, -⟩ := h.created ht hplaced
      exact ⟨born, List.mem_append_right _ hmem, hkey, born, .inl rfl, hview⟩
    | true => exact h.replayed ht hplaced
  obtain ⟨born, hmem, hkey, said, hsaid, hview⟩ := hborn
  obtain ⟨row, hrow, hsince⟩ := exists_right_of_forall₂ h.rows hmem
  refine ⟨born, said, row, hrow, hsaid, hsince, hanswer hview, ?_⟩
  rw [← hsince.hasKey_eq, OrderRow.hasKey, decide_eq_true_eq] at hkey
  exact hkey.1

/-- A row agrees with what was said of it unless it was cancelled since. -/
theorem agrees_iff (hcancel : CancelInv s) {born said row : OrderRow} {p : PlacedResponse}
    {cancelled : List Int} (hrow : row ∈ s.orders) (hsaid : Since s born said)
    (hsince : Since s born row) (hanswer : answerOf said = some p) :
    agrees cancelled (ledgerRow row) p = true ↔
      (p.status = OrderStatus.NEW.text → (∃ c, s.Cancelled c p.orderId) →
        p.orderId ∈ cancelled) := by
  obtain ⟨hid, hstatus, -⟩ := answerOf_eq_some hanswer
  have hids : row.id = p.orderId := by rw [hsince.id_eq, ← hsaid.id_eq, hid]
  -- no row that rests has been cancelled
  have hspent : (∃ c, s.Cancelled c p.orderId) → row.status ≠ some OrderStatus.NEW.text :=
    fun ⟨c, hc⟩ => (hcancel.spent hc).2 row hrow hids
  rcases hsince with rfl | ⟨hnew, rfl, c, hc⟩
  · have hsame : row.status = some p.status := by
      rcases hsaid with rfl | ⟨hnew, -, c, hc⟩
      · exact hstatus
      · exact absurd hnew (hspent ⟨c, hids ▸ hc⟩)
    refine iff_of_true ?_ fun hnew hc => absurd (hnew ▸ hsame) (hspent hc)
    simp [agrees, ledgerRow, hsame]
  · have hread : (ledgerRow born.cancelled).status = some "CANCELLED" := rfl
    have hcancelled : ∃ c, s.Cancelled c p.orderId := ⟨c, by rw [← hids]; exact hc⟩
    have hlid : (ledgerRow born.cancelled).id = p.orderId := hids
    rcases hsaid with rfl | ⟨-, rfl, -⟩
    · have hp : p.status = "NEW" := Option.some.inj (hstatus.symm.trans hnew)
      simp [agrees, hread, hp, hlid, OrderStatus.text, hcancelled]
    · have hp : p.status = "CANCELLED" := Option.some.inj (hstatus.symm.trans rfl)
      simp [agrees, hread, hp, OrderStatus.text]

/-- **An answer is at odds with its row exactly where a cancel took the order it was about** and
    was not heard of. -/
theorem responses_agree_iff (hrun : (service m).run (.initial table.rows sequence) es = some s)
    {placements : List PlacedResponse} {cancelled : List Int}
    (hplacements : ∀ p ∈ placements, ∃ t a placed, s.placements t = some a ∧
      a.user ∈ users ∧ a.phase.placed = some placed ∧ asPlacedOrder placed.order = some p) :
    responseBreaches placements (ledger s.orders users) cancelled = [] ↔
      ∀ p ∈ placements, p.status = OrderStatus.NEW.text → (∃ c, s.Cancelled c p.orderId) →
        p.orderId ∈ cancelled := by
  have hcancel := cancelInv_run hrun
  rw [responseBreaches, List.filterMap_eq_nil_iff]
  refine forall₂_congr fun p hp => ?_
  obtain ⟨t, a, placed, ht, hu, hplaced, hp⟩ := hplacements p hp
  obtain ⟨born, said, row, hrow, hsaid, hsince, hanswer, huser⟩ := exists_born hrun ht hplaced hp
  obtain ⟨hid, -, hsize, hprice⟩ := answerOf_eq_some hanswer
  have hsame : row.id = said.id ∧ row.size = said.size ∧ row.price = said.price := by
    rcases hsaid with rfl | ⟨-, rfl, -⟩ <;> rcases hsince with rfl | ⟨-, rfl, -⟩ <;>
      exact ⟨rfl, rfl, rfl⟩
  rw [responseBreach_eq_none_iff hcancel.primaryKey hrow huser hu (hsame.1.trans hid)
    (hsame.2.1.trans hsize) (by rw [hsame.2.2, hprice])]
  exact agrees_iff hcancel hrow hsaid hsince hanswer

/-! ### Rows -/

/-- **No more rows are unaccounted for than placements**: a row past the mark was made by one of its
    own, which was answered with it. -/
theorem unmatched_le (hrun : (service m).run (.initial table.rows sequence) es = some s)
    {mark : Int} (hmark : ∀ row ∈ table.rows, row.id ≤ mark) {acknowledged : List Int}
    {lost : List Nat} (hanswered : ∀ t r order drawn,
      s.placements t = some ⟨r, .committed ⟨order, false⟩, drawn⟩ → r.order.userId ∈ users →
        order.id ∈ acknowledged ∨ t ∈ lost) :
    (unmatched (ledger s.orders users) mark acknowledged).length ≤ lost.length := by
  obtain ⟨made, h⟩ := history_run hrun
  have hsorted := pairwise_ledger (cancelInv_run hrun).primaryKey users
  have hnodup : (ledger s.orders users).Nodup := hsorted.imp fun hlt heq => by
    rw [heq] at hlt
    exact lt_irrefl _ hlt
  have hids : ((ledger s.orders users).map (·.id)).Nodup :=
    List.pairwise_map.mpr (hsorted.imp fun h => h.ne)
  have hmem : ∀ row ∈ unmatched (ledger s.orders users) mark acknowledged,
      row ∈ ledger s.orders users := fun row hrow =>
    List.mem_of_mem_filter (List.mem_of_mem_filter hrow)
  refine length_le_of_related (R := fun (row : LedgerRow) (t : Nat) => ∃ r order drawn,
    s.placements t = some ⟨r, .committed ⟨order, false⟩, drawn⟩ ∧ order.id = row.id)
    ((hnodup.filter _).filter _) (fun row hrow => ?_) fun row hrow row' hrow' t hmade hmade' => ?_
  · obtain ⟨hcreated, hunnamed⟩ := List.mem_filter.mp hrow
    obtain ⟨hledger, hpast⟩ := List.mem_filter.mp hcreated
    obtain ⟨row', hrow', rfl, u, hu, huser⟩ := userId_of_mem_ledger hledger
    obtain ⟨born, hborn, hsince⟩ := exists_left_of_forall₂ h.rows hrow'
    have hpast : mark < born.id := hsince.id_eq ▸ of_decide_eq_true hpast
    rcases List.mem_append.mp hborn with hborn | hborn
    · exact absurd (hmark born hborn) (Int.not_le.mpr hpast)
    · obtain ⟨t, r, order, drawn, ht, hkey, hview⟩ := h.creator born hborn
      obtain ⟨price, datetime, -, -, rfl⟩ := view_eq_ok hview
      have hid : born.id = (ledgerRow row').id := hsince.id_eq.symm
      rw [← hsince.hasKey_eq, OrderRow.hasKey, decide_eq_true_eq, huser] at hkey
      rcases hanswered t r _ drawn ht (Option.some.inj hkey.1 ▸ hu) with hnamed | hlost
      · rw [decide_eq_true_eq, ← hid] at hunnamed
        exact absurd hnamed hunnamed
      · exact ⟨t, hlost, r, _, drawn, ht, hid⟩
  · obtain ⟨r, order, drawn, ht, hid⟩ := hmade
    obtain ⟨r', order', drawn', ht', hid'⟩ := hmade'
    cases ht.symm.trans ht'
    exact List.inj_on_of_nodup_map hids (hmem row hrow) (hmem row' hrow') (hid.symm.trans hid')

/-! ### Cancels -/

/-- **What was cancelled reads so.** -/
theorem cancelSafety_passes (hfunded : Funded table.rows users)
    (hrun : (service m).run (.initial table.rows sequence) es = some s) {cancelled : List Int}
    (hcancelled : ∀ id ∈ cancelled, (∃ c, s.Returns c id) ∧
      ∃ row ∈ s.orders, row.id = id ∧ ∃ u ∈ users, row.userId = some u) :
    ∃ result, cancelSafety (ledger s.orders users) cancelled = some result ∧
      result.pass = true := by
  have hkey := (cancelInv_run hrun).primaryKey
  have hkeys : ((ledger s.orders users).map (·.id)).Nodup :=
    List.pairwise_map.mpr ((pairwise_ledger hkey users).imp fun h => h.ne)
  have hmem : ∀ {row : OrderRow} {u}, row ∈ s.orders → u ∈ users → row.userId = some u →
      ledgerRow row ∈ ledger s.orders users := fun hrow hu huser =>
    (ledger_perm s.orders users).mem_iff.mpr
      (List.mem_map_of_mem (List.mem_filter.mpr ⟨hrow, by simp [huser, hu]⟩))
  have htotal : cashTotal (ledger s.orders users) = some _ :=
    cashTotal_map (d := fun row => (cashDelta (ledgerRow row)).getD 0) fun row hrow => by
      obtain ⟨hrow, huser⟩ := List.mem_filter.mp (List.mem_mergeSort.mp hrow)
      obtain ⟨u, hu, hasked⟩ := (Option.any_eq_true _ _).mp huser
      obtain ⟨delta, hdelta⟩ := Option.isSome_iff_exists.mp
        (isSome_of_run hfunded hrun (of_decide_eq_true hasked) hrow hu)
      rw [hdelta, Option.getD_some]
  refine ⟨_, by rw [cancelSafety_eq, htotal]; rfl, verdict_pass_iff.mpr ?_⟩
  rw [List.filterMap_eq_nil_iff]
  intro id hid
  obtain ⟨⟨c, hc⟩, row, hrow, hrowId, u, hu, huser⟩ := hcancelled id hid
  -- the row that was taken is the one of the order
  obtain ⟨taken, htaken, htakenId, hstatus⟩ := taken_run hrun c id hc.cancelled
  obtain rfl : taken = row :=
    List.inj_on_of_nodup_map hkey htaken hrow (htakenId.trans hrowId.symm)
  have hheld : (JsMap.ofEntries ((ledger s.orders users).map fun row => (row.id, row))).get? id =
      some (ledgerRow taken) :=
    (JsMap.get?_ofEntries_key hkeys).mpr ⟨hmem hrow hu huser, hrowId⟩
  rw [cancelBreach, hheld]
  exact if_neg (not_not.mpr hstatus)

/-! ### The verdict -/

/-- **All five checks pass on the API's own runs**, from every table in which no fold of a user's
    cash goes below zero by id: the mark is read anywhere in a run, and the balances and the rows
    together anywhere after it.  The one exception is an answer about an order that rested, which a
    cancel took that the run has not heard of. -/
theorem own_run_passes_iff (hm : m.ClosesNonneg) (hids : ∀ row ∈ table.rows, row.id ≤ sequence)
    (hfunded : Funded table.rows users) {fs : List Cocos.Event} {mark : State}
    (hmark : (service m).run (.initial table.rows sequence) es = some mark)
    (hrows : (service m).run mark fs = some s) {lost : List Nat} {evidence : RunEvidence}
    (h : Evidence mark s users lost evidence) :
    ∃ results, checkInvariants evidence = some results ∧ results.map (·.name) = INVARIANTS ∧
      (∀ result ∈ results, result.name ≠ "response_db_agreement" → result.pass = true) ∧
      ((∀ result ∈ results, result.pass = true) ↔
        ∀ p ∈ evidence.placements, p.status = OrderStatus.NEW.text →
          (∃ c, s.Cancelled c p.orderId) → p.orderId ∈ evidence.cancelled) := by
  have hrun := (service m).run_trans hmark hrows
  -- the mark is past every row of the start, which are all still there
  have hpast : ∀ row ∈ table.rows, row.id ≤ highWaterMark mark.orders := fun row hrow => by
    have hstill : row.id ∈ mark.orders.map (·.id) :=
      ids_appendOnly (appendOnly_run (Cocos.inv_initial m _ _) hmark) (List.mem_map_of_mem hrow)
    obtain ⟨row', hrow', hid⟩ := List.mem_map.mp hstill
    exact hid ▸ le_highWaterMark hrow'
  obtain ⟨conserved, hconserved, hconservedPass⟩ :=
    conservation_passes hfunded hrun h.cash h.shadow
  obtain ⟨overdraft, hoverdraft, hoverdraftPass⟩ := noOverdraft_passes hm hids hfunded hrun
  have hoversell : (noOversell (ledger s.orders users) (highWaterMark mark.orders)).pass = true :=
    noOversell_passes hm hids hpast hrun
  obtain ⟨cancels, hcancels, hcancelsPass⟩ := cancelSafety_passes hfunded hrun h.cancelled
  have hagree : responseBreaches evidence.placements (ledger s.orders users) evidence.cancelled = [] ↔
      _ := responses_agree_iff hrun h.placements
  have hphantom : phantomBreach (unmatched (ledger s.orders users) (highWaterMark mark.orders)
      evidence.acknowledged) evidence.unanswered = none :=
    if_neg (Nat.not_lt.mpr ((unmatched_le hrun hpast h.answered).trans h.unanswered))
  have hcheck : checkInvariants evidence = some [conserved, overdraft,
      noOversell (ledger s.orders users) (highWaterMark mark.orders),
      responseDbAgreement evidence.placements (ledger s.orders users)
        (highWaterMark mark.orders) evidence.acknowledged evidence.unanswered evidence.cancelled,
      cancels] := by
    rw [checkInvariants, h.rows, h.mark, hconserved, hoverdraft, hcancels]
    rfl
  refine ⟨_, hcheck, names_checkInvariants hcheck, ?_, ?_⟩
  · have hname : (responseDbAgreement evidence.placements (ledger s.orders users)
        (highWaterMark mark.orders) evidence.acknowledged evidence.unanswered
        evidence.cancelled).name = "response_db_agreement" := name_verdict ..
    simp [hconservedPass, hoverdraftPass, hoversell, hcancelsPass, hname]
  · simp [hconservedPass, hoverdraftPass, hoversell, hcancelsPass, responseDbAgreement_pass_iff,
      hagree, hphantom]

end Checks

/-- What a run brings of an order that it placed twice under one key and cancelled between. -/
def heardOf (s : State) : RunEvidence where
  rows := ledger s.orders [1]
  highWaterMark := 1
  apiCash := .ofEntries [(1, .cash "5.00")]
  shadowCash := .ofEntries [(1, "5.00")]
  placements := [⟨2, "NEW", 2, "1.00"⟩, ⟨2, "CANCELLED", 2, "1.00"⟩]
  acknowledged := [2]
  unanswered := 0
  cancelled := [2]

/-- The state those requests lead to. -/
def afterTwice : State :=
  ((service (marketAt 100)).run (.initial oneDeposit.rows 1) sentTwice).getD (.initial [] 0)

theorem run_sentTwice :
    (service (marketAt 100)).run (.initial oneDeposit.rows 1) sentTwice = some afterTwice := rfl

theorem evidence_heardOf : Evidence (.initial oneDeposit.rows 1) afterTwice [1] []
    (heardOf afterTwice) where
  rows := rfl
  mark := rfl
  cash u api h := by
    have hget : (heardOf afterTwice).apiCash.get? u = if u = 1 then some (.cash "5.00") else none :=
      JsMap.get?_set ..
    rw [hget] at h
    split at h <;> cases h
    rename_i hu
    subst hu
    exact ⟨500, by decide +kernel, by decide +kernel⟩
  shadow u shadow h := by
    have hget : (heardOf afterTwice).shadowCash.get? u = if u = 1 then some "5.00" else none :=
      JsMap.get?_set ..
    rw [hget] at h
    split at h <;> cases h
    rename_i hu
    subst hu
    decide +kernel
  placements := by
    rw [heardOf, List.forall_mem_cons, List.forall_mem_singleton]
    exact ⟨⟨0, _, _, rfl, by decide, rfl, by decide +kernel⟩,
      1, _, _, rfl, by decide, rfl, by decide +kernel⟩
  cancelled := by
    rw [heardOf, List.forall_mem_singleton]
    exact ⟨⟨0, _, _, rfl, rfl⟩, _, List.mem_cons_of_mem _ List.mem_cons_self, rfl, 1, by decide, rfl⟩
  answered t r order drawn h hu := by
    match t with
    | 0 =>
      cases h
      exact .inl (by decide +kernel)
    | 1 => cases h
    | t + 2 => cases h
  unanswered := le_rfl

theorem own_run_passes_iff_sentTwice :
    ∃ results, checkInvariants (heardOf afterTwice) = some results ∧
        ∀ result ∈ results, result.pass = true := by
  obtain ⟨results, hresults, -, -, hiff⟩ := @own_run_passes_iff (marketAt 100) oneDeposit 1 [1] []
    afterTwice (marketAt_closesNonneg (by decide)) (by decide) funded_oneDeposit sentTwice
    (.initial oneDeposit.rows 1) rfl run_sentTwice [] (heardOf afterTwice) evidence_heardOf
  exact ⟨results, hresults, hiff.mpr (by simp [heardOf])⟩

end Cocos.Tools
