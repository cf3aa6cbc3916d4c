import Cocos.Lib.Machine
import Cocos.Tools.Invariants

namespace Cocos.Tools

open Cocos.Lib

/-!
# A balance that stood still

A load run ends in three reads: the balances of its users, the rows, and the balances again.
Only a balance that is the same on both sides of the rows is held against their fold.  The other
clients of those users do not wait for that.

* `stillCash` — which balances are held against the fold;
* `Checking` — the ledger the other clients write to, and what has been read of it so far;
* `fills` — the cash that the orders committed in some part of a run brought a user;
* `conservation_iff` — **a correct target is found fault with exactly where the orders between
  the first balance and the rows moved cash, and those between the two balances moved none.**
-/

/-! ### The reads of a check -/

/-- What is made of one user's two balances. -/
def stillReading (before after : Option String) : CashReading :=
  match before, after with
  | some before, some after =>
    if before ≠ after then .unavailable s!"it read {before} before the rows and {after} after them"
    else .cash before
  | _, _ => .unavailable "the API balance could not be read"

def stillCash (users : List Int) (first second : JsMap Int String) : JsMap Int CashReading :=
  .ofEntries (users.map fun u => (u, stillReading (first.get? u) (second.get? u)))

theorem stillReading_eq_cash {before after : Option String} {cash : String} :
    stillReading before after = .cash cash ↔ before = some cash ∧ after = some cash := by
  unfold stillReading
  split
  · rename_i b a
    split
    · rename_i hne
      refine iff_of_false (by simp) ?_
      rintro ⟨hb, ha⟩
      exact hne ((Option.some.inj hb).trans (Option.some.inj ha).symm)
    · rename_i heq
      rw [not_not] at heq
      subst heq
      simp
  · rename_i hnone
    refine iff_of_false (by simp) ?_
    rintro ⟨rfl, rfl⟩
    exact hnone cash cash rfl rfl

/-- The balances of the users in turn, where they were answered with. -/
def cashMap (readings : List (Int × Option String)) : JsMap Int String :=
  .ofEntries (readings.filterMap fun reading => reading.2.map fun cash => (reading.1, cash))

theorem get?_cashMap {readings : List (Int × Option String)} (h : (readings.map Prod.fst).Nodup)
    {u : Int} {cash : String} :
    (cashMap readings).get? u = some cash ↔ (u, some cash) ∈ readings := by
  rw [cashMap, JsMap.get?_ofEntries_filterMap h]
  constructor
  · rintro ⟨⟨v, c⟩, hmem, rfl, hc⟩
    exact (show c = some cash from hc) ▸ hmem
  · exact fun hmem => ⟨_, hmem, rfl, rfl⟩

/-- A balance is held against the fold where it was read twice, and is the same. -/
theorem get?_stillCash {users : List Int} {first second : List (Int × Option String)}
    (hfirst : (first.map Prod.fst).Nodup) (hsecond : (second.map Prod.fst).Nodup) {u : Int}
    (hu : u ∈ users) {cash : String} :
    (stillCash users (cashMap first) (cashMap second)).get? u = some (.cash cash) ↔
      (u, some cash) ∈ first ∧ (u, some cash) ∈ second := by
  rw [stillCash, JsMap.get?_ofEntries_map, if_pos hu, Option.some.injEq, stillReading_eq_cash,
    get?_cashMap hfirst, get?_cashMap hsecond]

/-- The ledger, and what a check has read so far: the balances of the users in turn, the rows,
    and the balances again. -/
structure Checking where
  orders : Orders
  first : List (Int × Option String)
  rows : Option (List LedgerRow)
  second : List (Int × Option String)

/-- Another client's order is committed or cancelled, or the check reads on; a balance may fail
    to be answered. -/
inductive CheckEvent
  | commit (row : OrderRow)
  | cancel (id : Int)
  | first (u : Int) (answered : Bool)
  | ledger
  | second (u : Int) (answered : Bool)

namespace Checking

/-- A check that has read nothing. -/
def start (orders : Orders) : Checking := ⟨orders, [], none, []⟩

/-- The balance the target answers with: the fold of the FILLED rows it has. -/
def answer (s : Checking) (u : Int) (answered : Bool) : Option String :=
  if answered then some (apiString (cashFold s.orders u)) else none

/-- One step; the users are asked about in turn. -/
def step (users : List Int) (s : Checking) : CheckEvent → Option Checking
  | .commit row =>
    if row.size.isSome ∧ row.price.isSome then some { s with orders := s.orders ++ [row] } else none
  | .cancel id => some { s with orders := (cancelOrder s.orders id CANCELLABLE).2 }
  | .first u answered =>
    if s.rows = none ∧ users[s.first.length]? = some u then
      some { s with first := s.first ++ [(u, s.answer u answered)] }
    else none
  | .ledger =>
    if s.rows = none ∧ s.first.length = users.length then
      some { s with rows := some (ledger s.orders users) }
    else none
  | .second u answered =>
    if s.rows.isSome ∧ users[s.second.length]? = some u then
      some { s with second := s.second ++ [(u, s.answer u answered)] }
    else none

end Checking

/-- The machine of a check. -/
def checking (users : List Int) : Machine Checking CheckEvent := ⟨Checking.step users⟩

/-- The cash an event brings a user. -/
def CheckEvent.fill (u : Int) : CheckEvent → Int
  | .commit row => row.delta u .cash
  | _ => 0

/-- The cash that the orders committed in a part of a run brought a user. -/
def fills (u : Int) (es : List CheckEvent) : Int := (es.map (CheckEvent.fill u)).sum

@[simp] theorem fills_nil (u : Int) : fills u [] = 0 := rfl

@[simp] theorem fills_cons (u : Int) (e : CheckEvent) (es : List CheckEvent) :
    fills u (e :: es) = e.fill u + fills u es := rfl

@[simp] theorem fills_append (u : Int) (es fs : List CheckEvent) :
    fills u (es ++ fs) = fills u es + fills u fs := by
  simp [fills]

namespace Checking

variable {users : List Int} {s s' : Checking} {es : List CheckEvent} {e : CheckEvent}

/-- All a step can do. -/
inductive Took (users : List Int) (s : Checking) : CheckEvent → Checking → Prop
  | committed {row} (hcomplete : row.size.isSome ∧ row.price.isSome) :
      Took users s (.commit row) { s with orders := s.orders ++ [row] }
  | cancelled {id} :
      Took users s (.cancel id) { s with orders := s.orders.map (OrderRow.afterCancel id) }
  | first {u answered} (hnone : s.rows = none) (hu : users[s.first.length]? = some u) :
      Took users s (.first u answered) { s with first := s.first ++ [(u, s.answer u answered)] }
  | ledger (hnone : s.rows = none) (hall : s.first.length = users.length) :
      Took users s .ledger { s with rows := some (ledger s.orders users) }
  | second {u answered} (hsome : s.rows.isSome) (hu : users[s.second.length]? = some u) :
      Took users s (.second u answered) { s with second := s.second ++ [(u, s.answer u answered)] }

/-- **All a step can do.** -/
theorem took_of_step (h : (checking users).step s e = some s') : Took users s e s' := by
  cases e with
  | commit row =>
    simp only [checking, Checking.step] at h
    split at h <;> cases h
    exact .committed ‹_›
  | cancel id =>
    cases h
    rw [cancelOrder_snd]
    exact .cancelled
  | first u answered =>
    simp only [checking, Checking.step] at h
    split at h <;> cases h
    rename_i hcond
    exact .first hcond.1 hcond.2
  | ledger =>
    simp only [checking, Checking.step] at h
    split at h <;> cases h
    rename_i hcond
    exact .ledger hcond.1 hcond.2
  | second u answered =>
    simp only [checking, Checking.step] at h
    split at h <;> cases h
    rename_i hcond
    exact .second hcond.1 hcond.2

/-- **A step moves a user's fold by what it brings.** -/
theorem cashFold_step (hstep : (checking users).step s e = some s') (u : Int) :
    cashFold s'.orders u = cashFold s.orders u + e.fill u := by
  cases took_of_step hstep with
  | committed =>
    rw [cashFold_eq, cashFold_eq]
    exact account_concat ..
  | @cancelled id =>
    show cashFold (s.orders.map (OrderRow.afterCancel id)) u = _ + 0
    rw [cashFold, cashBalances_congr (filledRows_cancel s.orders id u), add_zero]
    rfl
  | first | ledger | second => exact (add_zero _).symm

/-- In the run `es` to `s` the event `x` came about when the fold was `v`. -/
def Saw (s : Checking) (es : List CheckEvent) (u : Int) (x : CheckEvent) (v : Int) : Prop :=
  ∃ es₀ es₁, es = es₀ ++ x :: es₁ ∧ v = cashFold s.orders u - fills u es₁

/-- One more step comes about itself, or leaves what came about before. -/
theorem saw_concat (hstep : (checking users).step s e = some s') {u v : Int} {x : CheckEvent} :
    s'.Saw (es ++ [e]) u x v ↔ (e = x ∧ v = cashFold s'.orders u) ∨ s.Saw es u x v := by
  unfold Saw
  simp only [concat_eq_append_cons, cashFold_step hstep u]
  constructor
  · rintro ⟨es₀, es₁, ⟨rfl, hex, -⟩ | ⟨es₂, rfl, rfl⟩, hv⟩
    · exact .inl ⟨hex, by simpa using hv⟩
    · refine .inr ⟨es₀, es₂, rfl, ?_⟩
      simp only [fills_append, fills_cons, fills_nil] at hv
      omega
  · rintro (⟨hex, hv⟩ | ⟨es₀, es₁, rfl, hv⟩)
    · exact ⟨es, [], .inl ⟨rfl, hex, rfl⟩, by simpa using hv⟩
    · refine ⟨es₀, es₁ ++ [e], .inr ⟨es₁, rfl, rfl⟩, ?_⟩
      simp only [fills_append, fills_cons, fills_nil]
      omega

/-- Rows that were read stay read. -/
theorem rows_eq_none (hstep : (checking users).step s e = some s') (h : s'.rows = none) :
    s.rows = none := by
  cases took_of_step hstep with
  | ledger => cases h
  | committed | cancelled | first | second => exact h

/-- Without an order of the user nothing is brought to it. -/
theorem fills_eq_zero {u : Int} (h : ∀ row, .commit row ∈ es → row.userId ≠ some u) :
    fills u es = 0 := by
  apply List.sum_eq_zero
  intro x hx
  obtain ⟨e, he, rfl⟩ := List.mem_map.mp hx
  cases e with
  | commit row =>
    show row.delta u .cash = 0
    rw [OrderRow.delta_of_not_filledFor (by simp [OrderRow.filledFor, h row he])]
  | _ => rfl

/-- What a step does to the balances that are read by the events `x`. -/
theorem read_step (hstep : (checking users).step s e = some s') {x : Int → CheckEvent}
    {readings readings' : List (Int × Option String)}
    (hread : ∀ u cash, (u, some cash) ∈ readings ↔ ∃ v, cash = apiString v ∧ s.Saw es u (x u) v)
    (hstays : (readings' = readings ∧ ∀ u, e ≠ x u) ∨
      ∃ u answered, readings' = readings ++ [(u, s'.answer u answered)] ∧
        ∀ v, e = x v ↔ v = u ∧ answered = true) (u : Int) (cash : String) :
    (u, some cash) ∈ readings' ↔ ∃ v, cash = apiString v ∧ s'.Saw (es ++ [e]) u (x u) v := by
  simp only [saw_concat hstep, and_or_left, exists_or, ← hread]
  rcases hstays with ⟨rfl, hother⟩ | ⟨w, answered, rfl, hsame⟩
  · simp [hother u]
  · rw [List.mem_append, List.mem_singleton, or_comm]
    refine or_congr_left ?_
    simp only [hsame u, answer, Prod.mk.injEq]
    cases answered with
    | true =>
      simp only [if_true, Option.some.injEq, and_true]
      constructor
      · rintro ⟨rfl, rfl⟩
        exact ⟨_, rfl, rfl, rfl⟩
      · rintro ⟨v, rfl, rfl, rfl⟩
        exact ⟨rfl, rfl⟩
    | false => simp

/-- The users that have been asked about are the first ones. -/
theorem keys_concat {readings : List (Int × Option String)} {u : Int} {answer : Option String}
    (hkeys : readings.map Prod.fst = users.take readings.length)
    (hu : users[readings.length]? = some u) :
    (readings ++ [(u, answer)]).map Prod.fst = users.take (readings ++ [(u, answer)]).length := by
  rw [List.map_append, hkeys, List.length_append, List.length_singleton, List.take_add_one, hu]
  rfl

/-- Before the rows are read. -/
structure Early (users : List Int) (es : List CheckEvent) (s : Checking) : Prop where
  complete : ∀ row ∈ s.orders, row.size.isSome ∧ row.price.isSome
  committed : ∀ row, .commit row ∈ es → ∃ row' ∈ s.orders, row'.userId = row.userId
  keys : s.first.map Prod.fst = users.take s.first.length
  read : ∀ u cash, (u, some cash) ∈ s.first ↔
    ∃ v, cash = apiString v ∧ s.Saw es u (.first u true) v
  second : s.second = []

theorem early_start {orders : Orders}
    (hcomplete : ∀ row ∈ orders, row.size.isSome ∧ row.price.isSome) :
    Early users [] (start orders) where
  complete := hcomplete
  committed row h := by cases h
  keys := rfl
  read u cash := by simp [start, Saw]
  second := rfl

theorem Early.step (h : Early users es s) (hstep : (checking users).step s e = some s')
    (hnone : s'.rows = none) : Early users (es ++ [e]) s' := by
  have hcommitted : ∀ {orders : Orders}, (∀ row ∈ s.orders, ∃ row' ∈ orders,
      row'.userId = row.userId) → (∀ row, e = .commit row → ∃ row' ∈ orders,
      row'.userId = row.userId) → ∀ row, .commit row ∈ es ++ [e] → ∃ row' ∈ orders,
      row'.userId = row.userId := by
    intro orders hold hnew row hrow
    rcases List.mem_append.mp hrow with hrow | hrow
    · obtain ⟨row', hrow', huser⟩ := h.committed row hrow
      obtain ⟨row'', hrow'', huser'⟩ := hold row' hrow'
      exact ⟨row'', hrow'', huser'.trans huser⟩
    · exact hnew row (List.mem_singleton.mp hrow).symm
  have hsame : ∀ row ∈ s.orders, ∃ row' ∈ s.orders, row'.userId = row.userId :=
    fun row hrow => ⟨row, hrow, rfl⟩
  cases took_of_step hstep with
  | @committed row hcomplete =>
    refine ⟨forall_mem_concat h.complete hcomplete,
      hcommitted (fun row' hrow' => ⟨row', List.mem_append_left _ hrow', rfl⟩)
        (fun row' heq => ⟨row, List.mem_append_right _ List.mem_cons_self, ?_⟩), h.keys,
      read_step hstep h.read (.inl ⟨rfl, fun u => by simp⟩), h.second⟩
    cases heq
    rfl
  | @cancelled id =>
    refine ⟨fun row' hrow' => ?_,
      hcommitted (fun row hrow => ⟨_, List.mem_map_of_mem hrow, ?_⟩) (fun row heq => by cases heq),
      h.keys, read_step hstep h.read (.inl ⟨rfl, fun u => by simp⟩), h.second⟩
    · obtain ⟨row, hrow, rfl⟩ := List.mem_map.mp hrow'
      obtain ⟨status, hafter⟩ := exists_status_afterCancel id row
      rw [hafter]
      exact h.complete row hrow
    · obtain ⟨status, hafter⟩ := exists_status_afterCancel id row
      rw [hafter]
  | @first u answered _ hu =>
    refine ⟨h.complete, hcommitted hsame (fun row heq => by cases heq), keys_concat h.keys hu,
      read_step hstep h.read (.inr ⟨u, answered, rfl, fun v => ?_⟩), h.second⟩
    simp [eq_comm]
  | ledger => cases hnone
  | second hsome =>
    rw [show s.rows = none from hnone] at hsome
    cases hsome

/-- After the rows were read, in the state `t`. -/
structure Late (users : List Int) (t : Checking) (es : List CheckEvent) (s : Checking) : Prop where
  rows : s.rows = t.rows
  first : s.first = t.first
  fold : ∀ u, cashFold s.orders u = cashFold t.orders u + fills u es
  keys : s.second.map Prod.fst = users.take s.second.length
  read : ∀ u cash, (u, some cash) ∈ s.second ↔
    ∃ v, cash = apiString v ∧ s.Saw es u (.second u true) v

theorem late_self {t : Checking} (h : t.second = []) : Late users t [] t where
  rows := rfl
  first := rfl
  fold u := by simp
  keys := by simp [h]
  read u cash := by simp [h, Saw]

theorem Late.step {t : Checking} {rows : List LedgerRow} (ht : t.rows = some rows)
    (h : Late users t es s) (hstep : (checking users).step s e = some s') :
    Late users t (es ++ [e]) s' := by
  have hfold : ∀ u, cashFold s'.orders u = cashFold t.orders u + fills u (es ++ [e]) := by
    intro u
    rw [cashFold_step hstep u, h.fold u, fills_append, fills_cons, fills_nil]
    omega
  have hrows : s.rows ≠ none := by
    rw [h.rows, ht]
    simp
  cases took_of_step hstep with
  | committed | cancelled =>
    exact ⟨h.rows, h.first, hfold, h.keys, read_step hstep h.read (.inl ⟨rfl, fun u => by simp⟩)⟩
  | first hnone | ledger hnone => exact absurd hnone hrows
  | @second u answered _ hu =>
    refine ⟨h.rows, h.first, hfold, keys_concat h.keys hu,
      read_step hstep h.read (.inr ⟨u, answered, rfl, fun v => ?_⟩)⟩
    simp [eq_comm]

/-- A second balance read in between splits what the orders moved since the rows. -/
theorem Late.fold_second {t : Checking} {fs₀ fs₁ : List CheckEvent} {u : Int}
    (h : Late users t (fs₀ ++ .second u true :: fs₁) s) :
    cashFold s.orders u - fills u fs₁ = cashFold t.orders u + fills u fs₀ := by
  have htotal := h.fold u
  rw [fills_append, fills_cons] at htotal
  change _ = cashFold t.orders u + (fills u fs₀ + (0 + fills u fs₁)) at htotal
  omega

/-- A run that reads the rows once, before its reading and after it. -/
theorem exists_early_late {orders : Orders}
    (hcomplete : ∀ row ∈ orders, row.size.isSome ∧ row.price.isSome) {fs : List CheckEvent}
    (hrun : (checking users).run (start orders) (es ++ .ledger :: fs) = some s) :
    ∃ t, Early users es t ∧ Late users { t with rows := some (ledger t.orders users) } fs s := by
  obtain ⟨s₁, s₂, hearly, hledger, hlate⟩ := (checking users).run_split.mp hrun
  have hrows : s₁.rows = none ∧ s₂ = { s₁ with rows := some (ledger s₁.orders users) } := by
    simp only [checking, Checking.step] at hledger
    split at hledger
    · rename_i hcond
      cases hledger
      exact ⟨hcond.1, rfl⟩
    · cases hledger
  obtain ⟨hnone, rfl⟩ := hrows
  have hfirst : Early users es s₁ :=
    (checking users).run_induction (P := fun es s => s.rows = none → Early users es s)
      (fun _ => early_start hcomplete)
      (fun _ _ _ _ _ h hstep hnone => (h (rows_eq_none hstep hnone)).step hstep hnone)
      hearly hnone
  exact ⟨s₁, hfirst, (checking users).run_induction
    (P := Late users { s₁ with rows := some (ledger s₁.orders users) })
    (late_self hfirst.second) (fun _ _ _ _ _ h hstep => h.step rfl hstep) hlate⟩

end Checking

/-! ### What is found fault with -/

/-- The comparisons of a check over a complete ledger: one for each user that has rows. -/
theorem conserved_ledger {orders : Orders} {users : List Int}
    (hcomplete : ∀ row ∈ orders, row.size.isSome ∧ row.price.isSome)
    (apiCash : JsMap Int CashReading) (shadowCash : JsMap Int String) :
    ∃ outcomes, conserved (ledger orders users) apiCash shadowCash = some outcomes ∧
      ∀ u api db, .apiDiffers u api db ∈ outcomes ↔
        ∃ v ∈ users, u = some v ∧ (∃ row ∈ orders, row.userId = some v) ∧
          db = moneyOf (cashFold orders v) ∧ apiCash.get? v = some (.cash api) ∧ api ≠ db := by
  have htotals : ∀ v ∈ users,
      cashTotal (owned (ledger orders users) v) = some (cashFold orders v) := fun v hv =>
    cashTotal_owned hv fun row hrow _ =>
      isSome_cashDelta_ledgerRow.mpr fun _ => hcomplete row hrow
  have hentry : ∀ entry ∈ (byUser (ledger orders users)).entries, ∃ v ∈ users,
      entry.1 = some v ∧ (∃ row ∈ orders, row.userId = some v) ∧
        cashTotal entry.2 = some (cashFold orders v) := by
    rintro ⟨u, owned⟩ hmem
    obtain ⟨rfl, hne⟩ := mem_byUser.mp hmem
    obtain ⟨row, hrow⟩ := List.exists_mem_of_ne_nil _ hne
    obtain ⟨hin, huser⟩ := List.mem_filter.mp hrow
    obtain ⟨row', hmem', rfl, v, hv, huser'⟩ := userId_of_mem_ledger hin
    have hu : u = some v := (by simpa using huser : (ledgerRow row').userId = u).symm.trans huser'
    subst hu
    exact ⟨v, hv, rfl, ⟨row', hmem', huser'⟩, htotals v hv⟩
  refine ⟨(byUser (ledger orders users)).entries.map fun entry =>
    conserve apiCash shadowCash entry.1 (moneyOf ((cashTotal entry.2).getD 0)), ?_, ?_⟩
  · apply mapM_eq_some_map
    rintro ⟨u, owned⟩ hmem
    obtain ⟨v, -, -, -, htotal⟩ := hentry _ hmem
    show (cashTotal owned).map _ = some (conserve _ _ u (moneyOf ((cashTotal owned).getD 0)))
    rw [show cashTotal owned = _ from htotal]
    rfl
  · intro u api db
    rw [List.mem_map]
    constructor
    · rintro ⟨entry, hmem, hdiffers⟩
      obtain ⟨v, hv, hu, hrows, htotal⟩ := hentry entry hmem
      obtain ⟨rfl, rfl, hcash, hne⟩ := conserve_eq_apiDiffers.mp hdiffers
      rw [htotal] at hne ⊢
      rw [hu] at hcash
      exact ⟨v, hv, hu, hrows, rfl, hcash, hne⟩
    · rintro ⟨v, hv, rfl, ⟨row, hrow, huser⟩, rfl, hcash, hne⟩
      have htotal := htotals v hv
      have hledger : ledgerRow row ∈ ledger orders users := by
        refine List.mem_map_of_mem (List.mem_mergeSort.mpr (List.mem_filter.mpr ⟨hrow, ?_⟩))
        simp [huser, hv]
      have hmem : (some v, owned (ledger orders users) v) ∈
          (byUser (ledger orders users)).entries := by
        refine mem_byUser.mpr ⟨rfl, List.ne_nil_of_mem (List.mem_filter.mpr ⟨hledger, ?_⟩)⟩
        exact decide_eq_true huser
      refine ⟨_, hmem, conserve_eq_apiDiffers.mpr ⟨rfl, ?_, hcash, ?_⟩⟩
      · rw [htotal]
        rfl
      · rw [htotal]
        exact hne

/-- **A correct target is found fault with exactly where its balance came back.**  The check of a
    run whose users are distinct finds no balance that differs from the fold of the rows exactly
    if, for every user and every two of its balances, the orders between the first and the rows
    moved no cash, or those between the first and the second moved some. -/
theorem conservation_iff {users : List Int} (hnodup : users.Nodup) {orders : Orders}
    (hcomplete : ∀ row ∈ orders, row.size.isSome ∧ row.price.isSome) {es fs : List CheckEvent}
    {s : Checking} (hrun : (checking users).run (.start orders) (es ++ .ledger :: fs) = some s)
    (shadowCash : JsMap Int String) :
    ∃ rows outcomes, s.rows = some rows ∧
      conserved rows (stillCash users (cashMap s.first) (cashMap s.second)) shadowCash =
        some outcomes ∧
      ((∀ u api db, .apiDiffers u api db ∉ outcomes) ↔
        ∀ u ∈ users, ∀ es₀ es₁ fs₀ fs₁, es = es₀ ++ .first u true :: es₁ →
          fs = fs₀ ++ .second u true :: fs₁ →
          fills u es₁ = 0 ∨ fills u es₁ + fills u fs₀ ≠ 0) := by
  obtain ⟨s₁, hfirst, hsecond⟩ := Checking.exists_early_late hcomplete hrun
  obtain ⟨outcomes, houtcomes, hdiffers⟩ := @conserved_ledger _ users hfirst.complete
    (stillCash users (cashMap s.first) (cashMap s.second)) shadowCash
  refine ⟨_, outcomes, hsecond.rows, houtcomes, ?_⟩
  have hkeys₁ : (s.first.map Prod.fst).Nodup := by
    rw [hsecond.first]
    exact hfirst.keys ▸ hnodup.sublist (List.take_sublist _ _)
  have hkeys₂ : (s.second.map Prod.fst).Nodup :=
    hsecond.keys ▸ hnodup.sublist (List.take_sublist _ _)
  have hcash : ∀ u ∈ users, ∀ api, (stillCash users (cashMap s.first) (cashMap s.second)).get? u =
      some (.cash api) ↔ (u, some api) ∈ s₁.first ∧ (u, some api) ∈ s.second := fun u hu api => by
    rw [get?_stillCash hkeys₁ hkeys₂ hu, hsecond.first]
  have hfold : ∀ u fs₀ fs₁, fs = fs₀ ++ .second u true :: fs₁ →
      cashFold s.orders u - fills u fs₁ = cashFold s₁.orders u + fills u fs₀ :=
    fun u fs₀ fs₁ hfs => (hfs ▸ hsecond).fold_second
  constructor
  · intro hnone u hu es₀ es₁ fs₀ fs₁ hes hfs
    by_contra hmoved
    rw [not_or, not_not] at hmoved
    obtain ⟨hmoved, hback⟩ := hmoved
    have hread₁ := (hfirst.read u _).mpr ⟨_, rfl, es₀, es₁, hes, rfl⟩
    have hread₂ := (hsecond.read u _).mpr ⟨_, rfl, fs₀, fs₁, hfs, rfl⟩
    have hsame : cashFold s.orders u - fills u fs₁ = cashFold s₁.orders u - fills u es₁ := by
      rw [hfold u fs₀ fs₁ hfs]
      omega
    rw [hsame] at hread₂
    have hrow : ∃ row ∈ s₁.orders, row.userId = some u := by
      by_contra hno
      refine hmoved (Checking.fills_eq_zero fun row hrow huser => hno ?_)
      obtain ⟨row', hrow', huser'⟩ := hfirst.committed row (by simp [hes, hrow])
      exact ⟨row', hrow', huser'.trans huser⟩
    refine hnone _ _ _ ((hdiffers _ _ _).mpr ⟨u, hu, rfl, hrow, rfl,
      (hcash u hu _).mpr ⟨hread₁, hread₂⟩, fun heq => ?_⟩)
    rw [moneyOf_eq] at heq
    have := apiString_injective heq
    omega
  · intro hall u api db hmem
    obtain ⟨v, hv, -, -, rfl, hread, hne⟩ := (hdiffers u api db).mp hmem
    obtain ⟨hread₁, hread₂⟩ := (hcash v hv api).mp hread
    obtain ⟨v₁, rfl, es₀, es₁, hes, hv₁⟩ := (hfirst.read v api).mp hread₁
    obtain ⟨v₂, hsame, fs₀, fs₁, hfs, hv₂⟩ := (hsecond.read v _).mp hread₂
    have hequal := apiString_injective hsame
    rw [hfold v fs₀ fs₁ hfs] at hv₂
    apply hne
    rw [moneyOf_eq]
    refine congrArg apiString ?_
    rcases hall v hv es₀ es₁ fs₀ fs₁ hes hfs with hzero | hmoved
    · omega
    · omega

/-! ### A balance that came back -/

/-- Some cash, and a buy and a sell of ten shares at a peso. -/
def checkDeposit : OrderRow :=
  ⟨1, none, some 1, some 10000, some 100, some "MARKET", some "CASH_IN", some "FILLED", none, none⟩

def checkBuy : OrderRow :=
  ⟨2, some 47, some 1, some 10, some 100, some "MARKET", some "BUY", some "FILLED", none, none⟩

def checkSell : OrderRow :=
  ⟨3, some 47, some 1, some 10, some 100, some "MARKET", some "SELL", some "FILLED", none, none⟩

/-- Somebody buys between the first balance and the rows, and the second balance is another. -/
theorem conservation_boughtBefore : ∃ s rows outcomes,
    (checking [1]).run (.start [checkDeposit])
      [.first 1 true, .commit checkBuy, .ledger, .second 1 true] = some s ∧
    s.rows = some rows ∧
    conserved rows (stillCash [1] (cashMap s.first) (cashMap s.second)) .empty = some outcomes ∧
    ∀ u api db, .apiDiffers u api db ∉ outcomes := by
  obtain ⟨rows, outcomes, hrows, houtcomes, hiff⟩ := @conservation_iff [1]
    (List.nodup_singleton 1) [checkDeposit] (by decide) [.first 1 true, .commit checkBuy]
    [.second 1 true] _ rfl .empty
  refine ⟨_, rows, outcomes, rfl, hrows, houtcomes, hiff.mpr fun u hu es₀ es₁ fs₀ fs₁ hes hfs => ?_⟩
  rw [List.mem_singleton] at hu
  subst hu
  -- there is one read of either kind
  have hes₁ : es₁ = [.commit checkBuy] := by
    rcases es₀ with _ | ⟨e, _ | ⟨e', es₀⟩⟩
    · cases hes
      rfl
    · cases hes
    · cases es₀ <;> cases hes
  have hfs₀ : fs₀ = [] := by
    rcases fs₀ with _ | ⟨e, fs₀⟩
    · rfl
    · cases fs₀ <;> cases hfs
  subst hes₁ hfs₀
  right
  decide

/-- **A balance found fault with.**  Somebody buys between the first balance and the rows, and
    sells between the rows and the second. -/
theorem balance_differs : ∃ s,
    (checking [1]).run (.start [checkDeposit])
      [.first 1 true, .commit checkBuy, .ledger, .commit checkSell, .second 1 true] = some s ∧
    (s.rows.bind fun rows =>
      conserved rows (stillCash [1] (cashMap s.first) (cashMap s.second)) .empty) =
      some [.apiDiffers (some 1) "10000.00" "9990.00"] := by
  refine ⟨_, rfl, ?_⟩
  have hledger :
      ledger [checkDeposit, checkBuy] [1] = [ledgerRow checkDeposit, ledgerRow checkBuy] :=
    ledger_of_pairwise (by decide)
  show conserved (ledger [checkDeposit, checkBuy] [1]) (stillCash [1] (cashMap
    [(1, some (apiString (cashFold [checkDeposit] 1)))]) (cashMap [(1, some (apiString
      (cashFold [checkDeposit, checkBuy, checkSell] 1)))])) .empty = _
  rw [hledger]
  decide +kernel

end Cocos.Tools
