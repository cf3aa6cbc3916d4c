import Mathlib.Data.List.Sort
import Cocos.Lib.JsText
import Cocos.Orders

namespace Cocos.Tools

open Cocos.Lib

/-!
# The harness's folds

`tools/src/load/invariants.ts` checks the API's balances against the rows of the orders table,
and so restates what the API computes: it has a money codec of its own and folds the rows
itself, where the API leaves both folds to SQL.  This file says that the two agree.

* `LedgerRow`, `ledger` — the rows as the harness reads them, a price as the column's text;
* `centavosOf`, `moneyOf` — its codec.  `moneyOf_eq`: it writes what the API writes;
  `centavosOf_eq`: it reads every amount the API's reader accepts, and reads the same;
* `cashDelta`, `shareDelta` — its two folds, row by row;
* `folds_agree` — the cash it writes is the string the API answers with, and the shares it
  counts are those the order rules are given.
-/

/-! ### Rows -/

/-- A whole row as the database holds it, `null` where the column is `NULL`. -/
structure LedgerRow where
  id : Int
  userId : Option Int
  instrumentId : Option Int
  side : Option String
  size : Option Int
  price : Option String
  type : Option String
  status : Option String
deriving DecidableEq, Repr

/-- `price::text`: two decimals, as the column is declared with. -/
def priceText (price : Int) : String := String.ofList (hundredthsText price)

/-- The columns the harness selects. -/
def ledgerRow (row : OrderRow) : LedgerRow :=
  ⟨row.id, row.userId, row.instrumentId, row.side, row.size, row.price.map priceText, row.type,
    row.status⟩

/-- `Reconciler.ledger`: the rows of some users, `ORDER BY id`. -/
def ledger (orders : Orders) (userIds : List Int) : List LedgerRow :=
  ((orders.filter fun row => row.userId.any (· ∈ userIds)).mergeSort
    fun a b => a.id ≤ b.id).map ledgerRow

/-- `Reconciler.highWaterMark`: `COALESCE(MAX(id), 0)`. -/
def highWaterMark (orders : Orders) : Int := (orders.map (·.id)).max?.getD 0

theorem le_highWaterMark {orders : Orders} {row : OrderRow} (h : row ∈ orders) :
    row.id ≤ highWaterMark orders := by
  have hid : row.id ∈ orders.map (·.id) := List.mem_map_of_mem h
  cases hmax : (orders.map (·.id)).max? with
  | none => simp [List.max?_eq_none_iff.mp hmax] at hid
  | some top =>
    rw [highWaterMark, hmax]
    exact (List.max?_eq_some_iff.mp hmax).2 _ hid

/-- Rows that are in order are read as they are. -/
theorem ledger_of_pairwise {orders : Orders} {userIds : List Int}
    (h : orders.Pairwise fun a b => a.id ≤ b.id) : ledger orders userIds =
      (orders.filter fun row => row.userId.any (· ∈ userIds)).map ledgerRow := by
  rw [ledger, List.mergeSort_of_pairwise]
  apply List.Pairwise.filter
  simpa using h

/-- A user of rows that were read back is one that was asked about. -/
theorem userId_of_mem_ledger {orders : Orders} {userIds : List Int} {row : LedgerRow}
    (h : row ∈ ledger orders userIds) :
    ∃ row' ∈ orders, row = ledgerRow row' ∧ ∃ u ∈ userIds, row'.userId = some u := by
  obtain ⟨row', hrow', rfl⟩ := List.mem_map.mp h
  obtain ⟨hmem, huser⟩ := List.mem_filter.mp (List.mem_mergeSort.mp hrow')
  cases hu : row'.userId with
  | none => simp [hu] at huser
  | some u => exact ⟨row', hmem, rfl, u, by simpa [hu] using huser, hu⟩

/-- The rows that are read back are those of their users. -/
theorem ledger_perm (orders : Orders) (userIds : List Int) : (ledger orders userIds).Perm
    ((orders.filter fun row => row.userId.any (· ∈ userIds)).map ledgerRow) :=
  (List.mergeSort_perm _ _).map ledgerRow

/-- Rows of distinct ids are read in the strict order of those. -/
theorem pairwise_ledger {orders : Orders} (h : (orders.map (·.id)).Nodup) (userIds : List Int) :
    (ledger orders userIds).Pairwise fun a b => a.id < b.id := by
  have hle : (ledger orders userIds).Pairwise fun a b => a.id ≤ b.id := by
    rw [ledger, List.pairwise_map]
    refine (List.pairwise_mergeSort (fun a b c hab hbc => ?_) (fun a b => ?_) _).imp fun hab => ?_
    · exact decide_eq_true ((of_decide_eq_true hab).trans (of_decide_eq_true hbc))
    · simpa using Int.le_total a.id b.id
    · exact of_decide_eq_true hab
  have hids : ((ledger orders userIds).map (·.id)).Nodup := by
    have hsub : ((orders.filter fun row => row.userId.any (· ∈ userIds)).map (·.id)).Nodup :=
      h.sublist (List.filter_sublist.map _)
    refine (((ledger_perm orders userIds).map (·.id)).nodup_iff).mpr ?_
    rw [List.map_map]
    exact hsub
  have hne : (ledger orders userIds).Pairwise fun a b => a.id ≠ b.id := List.pairwise_map.mp hids
  exact hle.imp₂ (fun a b hab hne => lt_of_le_of_ne hab hne) hne

/-! ### Money -/

/-- Reads an amount written with two decimals; `none` is the `SyntaxError` of `BigInt`. -/
def centavosOf (decimal : String) : Option Int :=
  let negative := (trimStart decimal.toList).head? = some '-'
  let parts := (trim (decimal.toList.erase '-')).splitOn '.'
  let whole := parts.headD []
  let fraction := parts.tail.headD []
  match bigInt whole, bigInt ((fraction ++ ['0', '0']).take 2) with
  | some pesos, some hundredths =>
    let value := pesos * 100 + hundredths
    some (if negative then -value else value)
  | _, _ => none

/-- Writes centavos as pesos with two decimals. -/
def moneyOf (centavos : Int) : String :=
  let magnitude := centavos.natAbs
  let hundredths := (digits (magnitude % 100)).leftpad 2 '0'
  String.ofList (signText (centavos < 0) ++ digits (magnitude / 100) ++ '.' :: hundredths)

/-- **The two writers are one.** -/
theorem moneyOf_eq (centavos : Int) : moneyOf centavos = apiString centavos := by
  have hpad := leftpad_two_digits (n := centavos.natAbs % 100) (by omega)
  rw [apiString_eq]
  show String.ofList (_ ++ '.' :: (digits (centavos.natAbs % 100)).leftpad 2 '0') = _
  rw [hpad]
  rfl

/-- The pieces a matching text is split in at the point. -/
theorem splitOn_point {q ds : List Char} (hq : ∀ c ∈ q, c.isDigit = true)
    (hds : ∀ c ∈ ds, c.isDigit = true) :
    (q ++ if ds = [] then [] else '.' :: ds).splitOn '.' =
      if ds = [] then [q] else [q, ds] := by
  have hpoint : ∀ {l : List Char}, (∀ c ∈ l, c.isDigit = true) → '.' ∉ l := fun hl hmem =>
    absurd (hl '.' hmem) (by decide)
  split
  · rw [List.append_nil, List.splitOn_eq_singleton (hpoint hq)]
  · rw [List.splitOn_append_cons_self, List.splitOn_eq_singleton (hpoint hq),
      List.splitOn_eq_singleton (hpoint hds)]
    rfl

/-- The number the hundredths stand for: they are cut to two digits, and padded to them. -/
theorem take_two_padded {ds : List Char} (h : ds.length ≤ 2) :
    (ds ++ ['0', '0']).take 2 = ds.rightpad 2 '0' := by
  match ds, h with
  | [], _ => rfl
  | [a], _ => rfl
  | [a, b], _ => rfl

/-- What follows the sign is of digits and the point. -/
theorem isDigit_or_point {q ds : List Char} (hq : ∀ c ∈ q, c.isDigit = true)
    (hds : ∀ c ∈ ds, c.isDigit = true) :
    ∀ c ∈ q ++ (if ds = [] then [] else '.' :: ds), c.isDigit = true ∨ c = '.' := by
  intro c hc
  rcases List.mem_append.mp hc with hc | hc
  · exact .inl (hq c hc)
  · split at hc
    · simp at hc
    · rcases List.mem_cons.mp hc with rfl | hc
      · exact .inr rfl
      · exact .inl (hds c hc)

section Signed

variable (negative : Bool) {body : List Char} (hminus : '-' ∉ body)
include hminus

/-- The sign is seen in front of a body that has none. -/
theorem head?_trimStart_signed (hspace : ∀ c ∈ body, isSpace c = false) :
    (trimStart (signText negative ++ body)).head? = some '-' ↔ negative = true := by
  rw [trimStart_of_not_space]
  · cases negative with
    | true => simp [signText]
    | false =>
      simp only [signText, Bool.false_eq_true, if_false, List.nil_append, iff_false]
      exact fun h => hminus (List.mem_of_mem_head? h)
  · intro c hc
    rcases List.mem_append.mp hc with hsign | hc
    · unfold signText at hsign
      split at hsign
      · rw [List.mem_singleton] at hsign
        subst hsign
        decide
      · simp at hsign
    · exact hspace c hc

/-- The first minus that is erased is the sign. -/
theorem erase_signed : (signText negative ++ body).erase '-' = body := by
  cases negative with
  | true => simp [signText]
  | false => simpa [signText] using List.erase_of_not_mem hminus

end Signed

/-- The sum of pesos and hundredths is the number their digits written together spell. -/
theorem ofDigitChars_rightpad {q ds : List Char} (hlen : ds.length ≤ 2) :
    (Nat.ofDigitChars 10 (q ++ ds.rightpad 2 '0') 0 : Int) =
      Nat.ofDigitChars 10 q 0 * 100 + Nat.ofDigitChars 10 ((ds ++ ['0', '0']).take 2) 0 := by
  have hlength : (ds.rightpad 2 '0').length = 2 := by
    rw [List.length_rightpad]
    omega
  rw [take_two_padded hlen, Nat.ofDigitChars_append, Nat.ofDigitChars_eq_ofDigitChars_zero,
    hlength]
  push_cast
  ring

/-- **Reading what matches.**  A sign, digits and up to two decimals read as the centavos they
    stand for. -/
theorem centavosOf_parts (negative : Bool) {q ds : List Char}
    (hq : ∀ c ∈ q, c.isDigit = true) (hds : ∀ c ∈ ds, c.isDigit = true) (hlen : ds.length ≤ 2) :
    centavosOf (String.ofList (signText negative ++ (q ++ if ds = [] then [] else '.' :: ds))) =
      some (Pesos.centavos ⟨negative, q, ds⟩) := by
  have hbody := isDigit_or_point hq hds
  -- neither white space nor a second minus is in it
  have hspace : ∀ c ∈ q ++ (if ds = [] then [] else '.' :: ds), isSpace c = false := by
    intro c hc
    rcases hbody c hc with hdigit | rfl
    · exact isSpace_of_isDigit hdigit
    · decide
  have hminus : '-' ∉ q ++ (if ds = [] then [] else '.' :: ds) := by
    intro hmem
    rcases hbody _ hmem with hdigit | hpoint
    · exact absurd hdigit (by decide)
    · exact absurd hpoint (by decide)
  have hpieces := splitOn_point hq hds
  have hhead := head?_trimStart_signed negative hminus hspace
  have herase := erase_signed negative hminus
  have hpad : ∀ c ∈ (ds ++ ['0', '0']).take 2, c.isDigit = true := by
    intro c hc
    rcases List.mem_append.mp (List.mem_of_mem_take hc) with hc | hc
    · exact hds c hc
    · simp only [List.mem_cons, List.not_mem_nil, or_false, or_self] at hc
      subst hc
      decide
  generalize (q ++ if ds = [] then [] else '.' :: ds) = body at *
  have hwhole : ((trim body).splitOn '.').headD [] = q := by
    rw [trim_of_not_space hspace, hpieces]
    split <;> rfl
  have hfraction : ((trim body).splitOn '.').tail.headD [] = ds := by
    rw [trim_of_not_space hspace, hpieces]
    split
    · rename_i hnil
      exact hnil.symm
    · rfl
  simp only [centavosOf, String.toList_ofList, herase, hwhole, hfraction, bigInt_digits hq,
    bigInt_digits hpad, hhead, Pesos.centavos, ofDigitChars_rightpad hlen]

/-- **The harness reads what the API reads.**  On every text the API's reader accepts, its own
    gives the same amount. -/
theorem centavosOf_eq {text : String} {c : Int} (h : centavosFromDb text = .ok c) :
    centavosOf text = some c := by
  unfold centavosFromDb at h
  cases hmatch : PESOS text.toList with
  | none => simp [hmatch] at h
  | some p =>
    simp only [hmatch, Except.ok.injEq] at h
    obtain ⟨htext, -, hpesos, hdecimals, hlen⟩ := PESOS_eq_some hmatch
    rw [← String.ofList_toList (s := text), htext,
      centavosOf_parts p.negative hpesos hdecimals hlen]
    exact congrArg some h

/-! ### Folds -/

/-- What a row moves of its user's cash; `none` where the amount cannot be computed, which is
    before the side is looked at. -/
def cashDelta (row : LedgerRow) : Option Int :=
  if row.status ≠ some "FILLED" then some 0
  else
    match row.price.bind centavosOf, row.size with
    | some price, some size =>
      let amount := price * size
      if row.side = some "CASH_IN" ∨ row.side = some "SELL" then some amount
      else if row.side = some "CASH_OUT" ∨ row.side = some "BUY" then some (-amount)
      else some 0
    | _, _ => none

/-- What a row moves of the shares of its instrument; a `null` adds nothing to a sum. -/
def shareDelta (row : LedgerRow) : Int :=
  if row.status ≠ some "FILLED" then 0
  else if row.side = some "BUY" then row.size.getD 0
  else if row.side = some "SELL" then -row.size.getD 0 else 0

/-- The rows of one user, and those of one of its instruments. -/
def owned (rows : List LedgerRow) (u : Int) : List LedgerRow :=
  rows.filter fun row => row.userId = some u

/-- `rows.reduce((total, row) => total + cashDelta(row), 0n)`. -/
def cashTotal (rows : List LedgerRow) : Option Int :=
  rows.foldlM (fun total row => (cashDelta row).map (total + ·)) 0

/-- `rows.reduce((total, row) => total + shareDelta(row), 0)`. -/
def shareTotal (rows : List LedgerRow) : Int :=
  rows.foldl (fun total row => total + shareDelta row) 0

/-- The harness reads the number the column holds. -/
theorem centavosOf_priceText (price : Int) : centavosOf (priceText price) = some price := by
  apply centavosOf_eq
  rw [priceText, ← apiString_eq]
  exact centavosFromDb_apiString price

/-- A FILLED row has an amount where its size and its price are there, and any other moves none. -/
theorem isSome_cashDelta_ledgerRow {row : OrderRow} :
    (cashDelta (ledgerRow row)).isSome ↔
      (row.status = some "FILLED" → row.size.isSome ∧ row.price.isSome) := by
  by_cases hstatus : row.status = some "FILLED"
  · cases hsize : row.size <;> cases hprice : row.price <;>
      simp [cashDelta, ledgerRow, hstatus, hsize, hprice, centavosOf_priceText]
    split
    · rfl
    · split <;> rfl
  · simp [cashDelta, ledgerRow, hstatus]

/-- One row's cash is what it adds to the account behind the view, whatever its side. -/
theorem cashDelta_ledgerRow {row : OrderRow} {u : Int} (hu : row.userId = some u)
    (hsome : (cashDelta (ledgerRow row)).isSome) :
    cashDelta (ledgerRow row) = some (row.delta u .cash) := by
  have hfilled : row.filledFor u = true ↔ row.status = some "FILLED" := by
    simp [OrderRow.filledFor, hu, OrderStatus.text]
  by_cases hstatus : row.status = some "FILLED"
  · obtain ⟨hsize, hprice⟩ := isSome_cashDelta_ledgerRow.mp hsome hstatus
    obtain ⟨size, hsize⟩ := Option.isSome_iff_exists.mp hsize
    obtain ⟨price, hprice⟩ := Option.isSome_iff_exists.mp hprice
    simp only [cashDelta, ledgerRow, OrderRow.delta, hfilled, hstatus, hprice, hsize,
      centavosOf_priceText, Option.map_some, Option.bind_some, OrderRow.cashTerm,
      OrderRow.bringsCash, OrderRow.takesCash, OrderRow.amount, ne_eq, not_true_eq_false,
      if_false, if_true, decide_eq_true_eq, mul_comm price]
    split
    · rfl
    · split <;> rfl
  · simp [cashDelta, ledgerRow, OrderRow.delta, hfilled, hstatus]

/-- One row's shares likewise, in the instrument it names; a size that is not there is no share
    to either. -/
theorem shareDelta_ledgerRow {row : OrderRow} {u i : Int} (hu : row.userId = some u)
    (hi : row.instrumentId = some i) :
    shareDelta (ledgerRow row) = row.delta u (.shares i) := by
  have hfilled : row.filledFor u = true ↔ row.status = some "FILLED" := by
    simp [OrderRow.filledFor, hu, OrderStatus.text]
  by_cases hstatus : row.status = some "FILLED"
  -- of a side that is no trade, neither fold moves a share
  · by_cases hbuy : row.side = some "BUY"
    · simp [shareDelta, ledgerRow, OrderRow.delta, hfilled, hstatus, hbuy, hi,
        OrderRow.tradeOf, OrderRow.isTrade, OrderRow.shareTerm, OrderRow.isBuy, Side.text]
    · by_cases hsell : row.side = some "SELL" <;> cases hsize : row.size <;>
        simp [shareDelta, ledgerRow, OrderRow.delta, hfilled, hstatus, hbuy, hsell, hsize, hi,
          OrderRow.tradeOf, OrderRow.isTrade, OrderRow.shareTerm, OrderRow.isBuy, Side.text]
  · simp [shareDelta, ledgerRow, OrderRow.delta, hfilled, hstatus]

/-- The rows of a user that the harness folds are the user's, in another order. -/
theorem exists_owned_ledger (orders : Orders) {userIds : List Int} {u : Int}
    (hu : u ∈ userIds) :
    ∃ rows : Orders, rows.Perm (orders.filter fun row => row.userId = some u) ∧
      owned (ledger orders userIds) u = rows.map ledgerRow := by
  refine ⟨((orders.filter fun row => row.userId.any (· ∈ userIds)).mergeSort
    fun a b => a.id ≤ b.id).filter fun row => row.userId = some u, ?_, ?_⟩
  · have hsorted := (List.mergeSort_perm (orders.filter fun row => row.userId.any (· ∈ userIds))
      fun a b => a.id ≤ b.id).filter fun row => decide (row.userId = some u)
    refine hsorted.trans (List.Perm.of_eq ?_)
    rw [List.filter_filter]
    apply List.filter_congr
    intro row _
    by_cases h : row.userId = some u <;> simp [h, hu]
  · rw [owned, ledger, List.filter_map]
    rfl

theorem cashTotal_map {rows : Orders} {d : OrderRow → Int}
    (h : ∀ row ∈ rows, cashDelta (ledgerRow row) = some (d row)) :
    cashTotal (rows.map ledgerRow) = some (rows.map d).sum := by
  have key : ∀ (rows : Orders) (total : Int),
      (∀ row ∈ rows, cashDelta (ledgerRow row) = some (d row)) →
      (rows.map ledgerRow).foldlM (fun total row => (cashDelta row).map (total + ·)) total =
        some (total + (rows.map d).sum) := by
    intro rows
    induction rows with
    | nil =>
      intro total _
      simp
    | cons row rows ih =>
      intro total h
      rw [List.map_cons, List.foldlM_cons, h row List.mem_cons_self]
      show (rows.map ledgerRow).foldlM _ (total + d row) = _
      rw [ih _ fun r hr => h r (List.mem_cons_of_mem _ hr), List.map_cons, List.sum_cons,
        add_assoc]
  rw [cashTotal, key rows 0 h, zero_add]

theorem shareTotal_eq (rows : List LedgerRow) : shareTotal rows = (rows.map shareDelta).sum := by
  rw [shareTotal, List.sum_eq_foldl, List.foldl_map]

/-- Only a user's own rows add to its account. -/
theorem account_eq_sum_owned (orders : Orders) (u : Int) (ρ : Resource) :
    account orders u ρ =
      ((orders.filter fun row => row.userId = some u).map fun row => row.delta u ρ).sum := by
  rw [sum_filter, account]
  refine congrArg List.sum (List.map_congr_left fun row _ => ?_)
  by_cases h : row.userId = some u
  · simp [h]
  -- another user's row is not among those the view folds
  · rw [OrderRow.delta_of_not_filledFor (by simp [OrderRow.filledFor, h])]
    simp [h]

/-- **The harness's cash fold is the view's.** -/
theorem cashTotal_owned {orders : Orders} {userIds : List Int} {u : Int} (hu : u ∈ userIds)
    (hsome : ∀ row ∈ orders, row.userId = some u → (cashDelta (ledgerRow row)).isSome) :
    cashTotal (owned (ledger orders userIds) u) = some (cashFold orders u) := by
  obtain ⟨rows, hperm, howned⟩ := exists_owned_ledger orders hu
  have hdelta : ∀ row ∈ rows, cashDelta (ledgerRow row) = some (row.delta u .cash) := by
    intro row hrow
    obtain ⟨hmem, huser⟩ := List.mem_filter.mp (hperm.mem_iff.mp hrow)
    have huser : row.userId = some u := by simpa using huser
    exact cashDelta_ledgerRow huser (hsome row hmem huser)
  -- the two sums run over the rows in different orders
  rw [howned, cashTotal_map hdelta, cashFold_eq, account_eq_sum_owned,
    (hperm.map fun row => row.delta u .cash).sum_eq]

/-- **The harness's share fold is the view's.** -/
theorem shareTotal_owned {orders : Orders} {userIds : List Int} {u : Int} (hu : u ∈ userIds)
    (i : Int) :
    shareTotal ((owned (ledger orders userIds) u).filter fun row => row.instrumentId = some i) =
      netShares orders u i := by
  obtain ⟨rows, hperm, howned⟩ := exists_owned_ledger orders hu
  have hsum : ∀ row ∈ rows, (if row.instrumentId = some i then shareDelta (ledgerRow row) else 0)
      = row.delta u (.shares i) := by
    intro row hrow
    obtain ⟨hmem, huser⟩ := List.mem_filter.mp (hperm.mem_iff.mp hrow)
    split
    · rename_i hi
      exact shareDelta_ledgerRow (by simpa using huser) hi
    · rename_i hi
      simp [OrderRow.delta, OrderRow.tradeOf, hi]
  rw [howned, shareTotal_eq, sum_filter, List.map_map, netShares_eq, account_eq_sum_owned,
    ← (hperm.map fun row => row.delta u (.shares i)).sum_eq]
  refine congrArg List.sum (List.map_congr_left fun row hrow => ?_)
  rw [← hsum row hrow]
  simp only [Function.comp_apply, decide_eq_true_eq]
  rfl

/-! ### Agreement -/

/-- The row is a FILLED one of user `u` on this side whose size is the one the view cannot
    negate. -/
def Unnegatable (u : Int) (side : String) (row : OrderRow) : Prop :=
  row.filledFor u ∧ row.side = some side ∧ row.size = some minInt4

instance (u : Int) (side : String) (row : OrderRow) : Decidable (Unnegatable u side row) :=
  inferInstanceAs (Decidable (_ ∧ _))

/-- The cash the API reads, where no size it negates is out of range to negate. -/
theorem readCash_eq_ok {orders : Orders} {u : Int}
    (hsize : ∀ row ∈ orders, ¬Unnegatable u "BUY" row ∧ ¬Unnegatable u "CASH_OUT" row)
    (hplain : (cashFold orders u).natAbs < 10 ^ 23) :
    readCash orders u = .ok (cashFold orders u) := by
  have hraises : (filledRows orders u).any OrderRow.cashRaises = false := by
    rw [List.any_eq_false]
    intro row hrow hraise
    obtain ⟨hmem, hfilled⟩ := List.mem_filter.mp hrow
    obtain ⟨hbuy, hout⟩ := hsize row hmem
    simp only [OrderRow.cashRaises, OrderRow.takesCash, decide_eq_true_eq] at hraise
    rcases hraise.1 with hside | hside
    · exact hout ⟨hfilled, hside, hraise.2⟩
    · exact hbuy ⟨hfilled, hside, hraise.2⟩
  simp only [readCash, availableCash, hraises]
  exact centavosFromDb_toString hplain

/-- The shares the order rules are given, where the net is an `INT` as well. -/
theorem heldShares_eq_ok {orders : Orders} {u i : Int}
    (hsize : ∀ row ∈ orders, ¬Unnegatable u "SELL" row) (hfits : fitsInt4 (netShares orders u i)) :
    heldShares orders u i = .ok (netShares orders u i) := by
  have hraises : holdingRaises orders u (some i) = false := by
    rw [holdingRaises, castRaises_of_fits hfits, Bool.or_false, List.any_eq_false]
    intro row hrow hraise
    obtain ⟨hmem, htrade⟩ := List.mem_filter.mp hrow
    obtain ⟨hmem, hfilled⟩ := List.mem_filter.mp hmem
    simp only [OrderRow.tradeOf, OrderRow.isTrade, decide_eq_true_eq] at htrade
    simp only [OrderRow.shareRaises, OrderRow.isBuy, decide_eq_true_eq] at hraise
    rcases htrade.2 with hside | hside
    · exact hraise.1 hside
    · exact hsize row hmem ⟨hfilled, hside, hraise.2⟩
  rw [heldShares, hraises, getD_holding, netShares_eq]
  rfl

/-- A minus before the smallest `INT` is an error of the view and none of the harness: a FILLED
    order to buy it at one peso is 2147483648 pesos there, and no balance at all here. -/
theorem folds_differ :
    let row : OrderRow := ⟨1, some 7, some 1, some minInt4, some 100, some "MARKET", some "BUY",
      some "FILLED", none, none⟩
    (cashTotal (owned (ledger [row] [1]) 1)).map moneyOf = some "2147483648.00" ∧
      (readCash [row] 1).map apiString = .error (.database .integerOutOfRange) := by
  decide +kernel

/-- **The harness restates the API's folds exactly.**  Its writer is the API's, its reader
    reads every text the API's accepts as the API does, among them what the column and the API
    write; and for every user of every ledger the cash it writes is the string the API answers
    with, and its shares of an instrument are the ones held. -/
theorem folds_agree :
    (∀ c, moneyOf c = apiString c) ∧
      (∀ text c, centavosFromDb text = .ok c → centavosOf text = some c) ∧
      (∀ c, centavosFromDb (apiString c) = .ok c ∧ centavosFromDb (priceText c) = .ok c) ∧
      ∀ (orders : Orders) (userIds : List Int) (u : Int), u ∈ userIds →
        (∀ row ∈ orders, row.size.isSome ∧ row.price.isSome) →
        ((∀ row ∈ orders, ¬Unnegatable u "BUY" row ∧ ¬Unnegatable u "CASH_OUT" row) →
          (cashFold orders u).natAbs < 10 ^ 23 →
          ∃ cash, cashTotal (owned (ledger orders userIds) u) = some cash ∧
            (readCash orders u).map apiString = .ok (moneyOf cash)) ∧
        ∀ i, (∀ row ∈ orders, ¬Unnegatable u "SELL" row) → fitsInt4 (netShares orders u i) →
          heldShares orders u i = .ok (shareTotal
            ((owned (ledger orders userIds) u).filter fun row => row.instrumentId = some i)) := by
  refine ⟨moneyOf_eq, fun _ _ => centavosOf_eq, fun c => ⟨centavosFromDb_apiString c, ?_⟩, ?_⟩
  · rw [priceText, ← apiString_eq]
    exact centavosFromDb_apiString c
  · intro orders userIds u hu hcolumns
    refine ⟨fun hbuy hplain => ⟨cashFold orders u, ?_, ?_⟩, fun i hsell hfits => ?_⟩
    · exact cashTotal_owned hu fun row hrow _ =>
        isSome_cashDelta_ledgerRow.mpr fun _ => hcolumns row hrow
    · rw [readCash_eq_ok hbuy hplain, moneyOf_eq]
      rfl
    · rw [heldShares_eq_ok hsell hfits, shareTotal_owned hu]

/-- Cash in, a buy, a sell, a row of a side the folds do not know, and one that was rejected. -/
def mixedRows : Orders :=
  [⟨2, some 7, some 1, some 3, some 1050, some "MARKET", some "BUY", some "FILLED", none, none⟩,
   ⟨1, none, some 1, some 100, some 100, some "MARKET", some "CASH_IN", some "FILLED", none, none⟩,
   ⟨3, some 7, some 1, some 1, some 1100, some "MARKET", some "SELL", some "FILLED", none, none⟩,
   ⟨4, some 7, some 1, some 5, some 200, some "MARKET", some "SPLIT", some "FILLED", none, none⟩,
   ⟨5, some 7, some 1, some 9, some 300, some "LIMIT", some "BUY", some "REJECTED", none, none⟩]

theorem folds_agree_mixed :
    (∃ cash, cashTotal (owned (ledger mixedRows [1]) 1) = some cash ∧
      (readCash mixedRows 1).map apiString = .ok (moneyOf cash)) ∧
      heldShares mixedRows 1 7 = .ok (shareTotal
        ((owned (ledger mixedRows [1]) 1).filter fun row => row.instrumentId = some 7)) :=
  have h := folds_agree.2.2.2 mixedRows [1] 1 (by decide) (by decide)
  ⟨h.1 (by decide) (by decide), h.2 7 (by decide) (by decide)⟩

end Cocos.Tools
