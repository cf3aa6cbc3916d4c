import Cocos.Idempotency
import Cocos.IdOrder
import Cocos.Tools.Invariants

namespace Cocos.Tools

open Cocos.Lib

/-!
# The ledgers the API writes

The checks for overdrafts and oversells fold the rows by id, and what they look for is ruled out
commit by commit.

* `ledger_upTo` — a fold that has got to an id is a fold of the rows up to it;
* `Funded` — the tables a run may start from: no fold of a user's cash goes below zero;
* `checks_pass` — **no overdraft and no oversell is found in what any placements and cancels
  leave of such a table**, wherever in the run the mark was read.
-/

/-! ### A fold that has got to an id -/

section UpTo

variable {orders : Orders} {userIds : List Int}

/-- The rows up to an id are the first of those that are read back. -/
theorem ledger_upTo (h : (orders.map (·.id)).Nodup) (userIds : List Int) (k : Int) :
    ledger (upTo orders k) userIds = (ledger orders userIds).filter fun row => row.id ≤ k := by
  have hsub : ((upTo orders k).map (·.id)).Nodup := h.sublist (List.filter_sublist.map _)
  refine List.Perm.eq_of_pairwise (fun a b _ _ hab hba => absurd hab (by omega))
    (pairwise_ledger hsub userIds) ((pairwise_ledger h userIds).filter _) ?_
  refine (ledger_perm _ _).trans (List.Perm.trans (List.Perm.of_eq ?_)
    ((ledger_perm orders userIds).filter _).symm)
  rw [List.filter_map, upTo, List.filter_filter, List.filter_filter]
  refine congrArg _ (List.filter_congr fun row _ => ?_)
  exact Bool.and_comm ..

theorem owned_upTo (h : (orders.map (·.id)).Nodup) (u k : Int) :
    owned (ledger (upTo orders k) userIds) u =
      (owned (ledger orders userIds) u).filter fun row => row.id ≤ k := by
  rw [ledger_upTo h, owned, owned, List.filter_filter, List.filter_filter]
  refine List.filter_congr fun row _ => ?_
  exact Bool.and_comm ..

/-- A fold over the rows that has got to one of them. -/
theorem ledger_of_split (h : (orders.map (·.id)).Nodup) {pre post : List LedgerRow}
    {row : LedgerRow} (hsplit : ledger orders userIds = pre ++ row :: post) :
    pre ++ [row] = ledger (upTo orders row.id) userIds := by
  have hsorted := pairwise_ledger h userIds
  rw [hsplit] at hsorted
  rw [ledger_upTo h, hsplit, filter_le_of_split hsorted]

theorem owned_of_split (h : (orders.map (·.id)).Nodup) {u : Int} {pre post : List LedgerRow}
    {row : LedgerRow} (hsplit : owned (ledger orders userIds) u = pre ++ row :: post) :
    pre ++ [row] = owned (ledger (upTo orders row.id) userIds) u := by
  have hsorted := (pairwise_ledger h userIds).filter fun row => decide (row.userId = some u)
  rw [← owned, hsplit] at hsorted
  rw [owned_upTo h, hsplit, filter_le_of_split hsorted]

/-- The shares of a user's position in the rows up to an id. -/
theorem sharesOf_ledger {u i : Int} (hu : u ∈ userIds) :
    sharesOf (some u, some i) (ledger orders userIds) = account orders u (.shares i) := by
  rw [← netShares_eq, ← shareTotal_owned hu, sharesOf, owned, List.filter_filter]
  refine congrArg _ (List.filter_congr fun row _ => ?_)
  simp [LedgerRow.position, Bool.and_comm]

end UpTo

/-! ### The tables of a run -/

/-- No fold of the cash of any of the users goes below zero, by id. -/
def Funded (start : Orders) (userIds : List Int) : Prop :=
  ∀ u ∈ userIds, ∀ rows, rows <+: owned (ledger start userIds) u →
    ∃ c, cashTotal rows = some c ∧ 0 ≤ c

/-- The rows of a fold that ends have amounts. -/
theorem isSome_of_cashTotal {rows : List LedgerRow} {total : Int}
    (h : cashTotal rows = some total) {row : LedgerRow} (hrow : row ∈ rows) :
    (cashDelta row).isSome := by
  obtain ⟨pre, post, rfl⟩ := List.append_of_mem hrow
  rw [show pre ++ row :: post = (pre ++ [row]) ++ post by simp] at h
  obtain ⟨first, hfirst⟩ := exists_cashTotal_of_append h
  rw [cashTotal_concat] at hfirst
  obtain ⟨_, -, hdelta⟩ := Option.bind_eq_some_iff.mp hfirst
  obtain ⟨delta, hdelta, -⟩ := Option.map_eq_some_iff.mp hdelta
  rw [hdelta]
  rfl

namespace Funded

variable {start : Orders} {userIds : List Int} {u : Int}

theorem isSome (h : Funded start userIds) (hu : u ∈ userIds) {row : OrderRow} (hrow : row ∈ start)
    (huser : row.userId = some u) : (cashDelta (ledgerRow row)).isSome := by
  obtain ⟨c, hc, -⟩ := h u hu _ List.prefix_rfl
  apply isSome_of_cashTotal hc
  refine List.mem_filter.mpr ⟨?_, decide_eq_true huser⟩
  refine (ledger_perm start userIds).mem_iff.mpr (List.mem_map_of_mem ?_)
  exact List.mem_filter.mpr ⟨hrow, by simp [huser, hu]⟩

/-- The cash of a user has been at zero or above, up to any id. -/
theorem cash_upTo (h : Funded start userIds) (hkey : (start.map (·.id)).Nodup) (hu : u ∈ userIds)
    (k : Int) : 0 ≤ account (upTo start k) u .cash := by
  have hsorted := (pairwise_ledger hkey userIds).filter fun row => decide (row.userId = some u)
  have hprefix : owned (ledger (upTo start k) userIds) u <+: owned (ledger start userIds) u := by
    rw [owned_upTo hkey]
    exact filter_le_prefix (hsorted.imp le_of_lt) k
  obtain ⟨c, hc, hnonneg⟩ := h u hu _ hprefix
  have htotal := @cashTotal_owned (upTo start k) userIds u hu fun row hrow huser =>
    h.isSome hu (List.mem_filter.mp hrow).1 huser
  rw [hc, Option.some.injEq, cashFold_eq] at htotal
  omega

end Funded

/-- A row that a run leaves is one of the start, as it was or cancelled, or a whole new order. -/
theorem mem_of_run {m : Market} {start : Orders} {sequence : Int} {es : List Event} {s : State}
    (hrun : (service m).run (.initial start sequence) es = some s) {row : OrderRow}
    (hrow : row ∈ s.orders) :
    (∃ born ∈ start, row = born ∨ row = born.cancelled) ∨
      row.instrumentId.isSome ∧ row.size.isSome ∧ row.price.isSome := by
  obtain ⟨made, h⟩ := history_run hrun
  obtain ⟨born, hborn, hsince⟩ := exists_left_of_forall₂ h.rows hrow
  have hrow : row = born ∨ row = born.cancelled := hsince.imp_right fun h => h.2.1
  rcases List.mem_append.mp hborn with hborn | hborn
  · exact .inl ⟨born, hborn, hrow⟩
  · obtain ⟨r, q, cash, held, id, now, -, rfl⟩ := h.births born hborn
    rcases hrow with rfl | rfl <;> exact .inr ⟨rfl, rfl, rfl⟩

/-- Every order that a run leaves of such a table has an amount, if it is FILLED. -/
theorem isSome_of_run {m : Market} {start : Orders} {userIds : List Int}
    (hfunded : Funded start userIds) {sequence : Int} {es : List Event} {s : State}
    (hrun : (service m).run (.initial start sequence) es = some s) {u : Int} (hu : u ∈ userIds)
    {row : OrderRow} (hrow : row ∈ s.orders) (huser : row.userId = some u) :
    (cashDelta (ledgerRow row)).isSome := by
  rcases mem_of_run hrun hrow with ⟨born, hborn, rfl | rfl⟩ | ⟨-, hsize, hprice⟩
  · exact hfunded.isSome hu hborn huser
  · rfl
  · exact isSome_cashDelta_ledgerRow.mpr fun _ => ⟨hsize, hprice⟩

/-! ### The checks -/

section Checks

variable {m : Market} {table : OrdersTable} {sequence : Int} {userIds : List Int}

/-- No overdraft is found: every fold of a user's cash is one of the start, or one that a commit
    left at zero or above. -/
theorem noOverdraft_passes (hm : m.ClosesNonneg) (hids : ∀ row ∈ table.rows, row.id ≤ sequence)
    (hfunded : Funded table.rows userIds) {es : List Event} {s : State}
    (hrun : (service m).run (.initial table.rows sequence) es = some s) :
    ∃ result, noOverdraft (ledger s.orders userIds) = some result ∧ result.pass = true := by
  have hkey := (cancelInv_run hrun).primaryKey
  rw [noOverdraft_passes_iff]
  intro u pre row post hsplit
  -- the rows are of one of the users that were asked for
  have hrow : row ∈ (ledger s.orders userIds).filter fun row => row.userId = u := by
    rw [hsplit]
    simp
  obtain ⟨hledger, huser⟩ := List.mem_filter.mp hrow
  obtain ⟨row', -, rfl, v, hv, huser'⟩ := userId_of_mem_ledger hledger
  obtain rfl : u = some v := (of_decide_eq_true huser).symm.trans huser'
  refine ⟨cashFold (upTo s.orders row'.id) v, ?_, ?_⟩
  · rw [owned_of_split hkey hsplit]
    exact cashTotal_owned hv fun row hrow huser =>
      isSome_of_run hfunded hrun hv (List.mem_filter.mp hrow).1 huser
  · rw [cashFold_eq]
    have hstart := hfunded.cash_upTo table.primaryKey hv
    rcases (idOrder_run hm hids hrun).accounts v .cash row'.id with hsame | ⟨-, hfloor⟩
    · rw [hsame]
      exact hstart row'.id
    · have hall : account (upTo table.rows sequence) v = account table.rows v :=
        account_upTo_of_le fun row hrow _ => hids row hrow
      have := hstart sequence
      rw [hall] at this
      omega

/-- No oversell is found, wherever the mark was read: a position that goes down ends at zero or
    above, or where it started, and the rows it started from are before the mark. -/
theorem noOversell_passes (hm : m.ClosesNonneg) (hids : ∀ row ∈ table.rows, row.id ≤ sequence)
    {mark : Int} (hmark : ∀ row ∈ table.rows, row.id ≤ mark) {es : List Event} {s : State}
    (hrun : (service m).run (.initial table.rows sequence) es = some s) :
    (noOversell (ledger s.orders userIds) mark).pass = true := by
  have hkey := (cancelInv_run hrun).primaryKey
  have hsorted := pairwise_ledger hkey userIds
  rw [noOversell_pass_iff]
  intro pre row post hsplit hlater hunder
  have hrow : row ∈ ledger s.orders userIds := by
    rw [hsplit]
    simp
  obtain ⟨row', hmem, rfl, u, hu, huser⟩ := userId_of_mem_ledger hrow
  -- a row past the mark is a new order
  have hnew : row'.instrumentId.isSome := by
    rcases mem_of_run hrun hmem with ⟨born, hborn, hrow'⟩ | ⟨hsome, -⟩
    · have hid : row'.id = born.id := by rcases hrow' with rfl | rfl <;> rfl
      have := hmark born hborn
      exact absurd hlater (by show ¬mark < row'.id; omega)
    · exact hsome
  obtain ⟨i, hi⟩ := Option.isSome_iff_exists.mp hnew
  have hposition : (ledgerRow row').position = (some u, some i) := Prod.ext huser hi
  rw [hposition, ledger_of_split hkey hsplit, sharesOf_ledger hu] at hunder
  obtain ⟨hneg, hbelow⟩ := hunder
  have hstart : account (upTo table.rows (min mark sequence)) u = account table.rows u :=
    account_upTo_of_le fun row hrow _ => le_min (hmark row hrow) (hids row hrow)
  -- the rows of the start were folded first, and the floor is no higher than where they ended
  have hfloor : account (upTo s.orders (ledgerRow row').id) u (.shares i) <
      account table.rows u (.shares i) := by
    have hcut : min mark sequence < (ledgerRow row').id := lt_of_le_of_lt (min_le_left ..) hlater
    have hfirst : (pre.filter fun row => row.id ≤ min mark sequence) =
        ledger (upTo s.orders (min mark sequence)) userIds := by
      rw [ledger_upTo hkey, hsplit, filter_le_of_lt (hsplit ▸ hsorted.imp le_of_lt) hcut]
    obtain ⟨rest, hrest⟩ := filter_le_prefix
      ((hsplit ▸ hsorted).sublist (List.sublist_append_left pre _) |>.imp le_of_lt)
      (min mark sequence)
    have hlt := UnderFloor.lt_sharesOf ⟨hneg, hbelow⟩ hrest.symm fun row hrow =>
      (of_decide_eq_true (List.mem_filter.mp hrow).2).trans (min_le_left mark sequence)
    rw [hfirst, sharesOf_ledger hu] at hlt
    rcases (idOrder_run hm hids hrun).accounts u (.shares i) (min mark sequence) with
      hsame | ⟨hpast, -⟩
    · rwa [hsame, hstart] at hlt
    · omega
  rcases (idOrder_run hm hids hrun).accounts u (.shares i) (ledgerRow row').id with
    hsame | ⟨-, hlow⟩
  · have hall : account (upTo table.rows (ledgerRow row').id) u = account table.rows u :=
      account_upTo_of_le fun row hrow _ => (hmark row hrow).trans hlater.le
    rw [hsame, hall] at hfloor
    exact lt_irrefl _ hfloor
  · omega

end Checks

/-- **No overdraft and no oversell is found in a ledger of the API's own.**  From every table in
    which no fold of a user's cash goes below zero by id, any placements and cancels; the mark is
    read anywhere in their run and the rows anywhere after it: both checks pass. -/
theorem checks_pass {m : Market} (hm : m.ClosesNonneg) {table : OrdersTable} {sequence : Int}
    (hids : ∀ row ∈ table.rows, row.id ≤ sequence) {userIds : List Int}
    (hfunded : Funded table.rows userIds) {es fs : List Event} {s s' : State}
    (hmark : (service m).run (.initial table.rows sequence) es = some s)
    (hrows : (service m).run s fs = some s') :
    (∃ result, noOverdraft (ledger s'.orders userIds) = some result ∧ result.pass = true) ∧
      (noOversell (ledger s'.orders userIds) (highWaterMark s.orders)).pass = true := by
  have hrun : (service m).run (.initial table.rows sequence) (es ++ fs) = some s' :=
    (service m).run_trans hmark hrows
  refine ⟨noOverdraft_passes hm hids hfunded hrun,
    noOversell_passes hm hids (fun row hrow => ?_) hrun⟩
  -- the mark is past every row of the start, which are all still there
  have hstill : row.id ∈ s.orders.map (·.id) :=
    ids_appendOnly (appendOnly_run (inv_initial m _ _) hmark) (List.mem_map_of_mem hrow)
  obtain ⟨row', hrow', hid⟩ := List.mem_map.mp hstill
  exact hid ▸ le_highWaterMark hrow'

/-! ### A mark read between an insert and its commit -/

/-- The first order of user 1 is inserted, that of user 2 is inserted after it and committed. -/
def committedOutOfOrder : List Event :=
  let other : Request :=
    { order := ⟨2, 1, .BUY, .MARKET, none, some 1, none⟩, key := "b", valid := by decide }
  [.begin 0 (marketBuy 5 "a" (Eq.refl true)), .lockPlacements 0, .read 0, .read 0, .read 0, .read 0,
    .read 0, .insert 0 7, .begin 1 other, .lockPlacements 1, .read 1, .read 1, .read 1, .read 1,
    .read 1, .insert 1 8, .commit 1]

theorem funded_oneDeposit : Funded oneDeposit.rows [1] := by
  have hledger : owned (ledger oneDeposit.rows [1]) 1 = [ledgerRow (deposit 5)] := by
    rw [ledger_of_pairwise (by decide)]
    rfl
  intro u hu rows hrows
  obtain rfl : u = 1 := List.mem_singleton.mp hu
  rw [hledger, List.prefix_cons_iff] at hrows
  rcases hrows with rfl | ⟨rows, rfl, hrows⟩
  · exact ⟨0, rfl, le_rfl⟩
  · rw [List.prefix_nil.mp hrows]
    exact ⟨500, by decide +kernel, by decide⟩

/-- The mark is 3, and the order with the id 2 commits after it was read. -/
theorem checks_pass_committedOutOfOrder : ∃ s s',
    (service (marketAt 100)).run (.initial oneDeposit.rows 1) committedOutOfOrder = some s ∧
      (service (marketAt 100)).run s [.commit 0] = some s' ∧
      s.orders.map (·.id) = [1, 3] ∧ s'.orders.map (·.id) = [1, 3, 2] ∧
      highWaterMark s.orders = 3 ∧
      (∃ result, noOverdraft (ledger s'.orders [1]) = some result ∧ result.pass = true) ∧
      (noOversell (ledger s'.orders [1]) (highWaterMark s.orders)).pass = true :=
  ⟨_, _, rfl, rfl, rfl, rfl, rfl,
    @checks_pass (marketAt 100) (marketAt_closesNonneg (by decide)) oneDeposit 1 (by decide) [1]
      funded_oneDeposit committedOutOfOrder [.commit 0] _ _ rfl rfl⟩

end Cocos.Tools
