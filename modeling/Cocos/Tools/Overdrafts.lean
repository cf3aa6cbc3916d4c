import Cocos.Tools.Invariants

namespace Cocos.Tools

open Cocos.Lib

/-!
# What is found as an overdraft

The check folds the rows of each user by themselves, whatever rows stand between them, and keeps the
lowest the fold has been with the row that took it there.

* `Overdrawn`, `LowestAt` — cash that was below zero, and the lowest it was with the first row that
  took it there;
* `le_low_iff`, `dipOf_lowest` — **what is kept of a fold** is no more than any of its first parts
  come to, and is where one of them came to if that is below zero;
* `overdraftLines`, `BreachOf` — what is said of every user, before the report is cut to five, and
  the breach of one;
* `mem_overdrawnUsers`, `breaches_of_lines` — the users whose fold has been below zero are those
  that were overdrawn, and the breaches are theirs;
* `overdrafts_exact` — **no overdraft is found exactly if no user's cash was ever below zero**, and
  otherwise there is one breach for each user whose cash was.
-/

/-- The rows of a user, in the order of the list. -/
def rowsOfUser (rows : List LedgerRow) (u : Option Int) : List LedgerRow :=
  rows.filter fun row => row.userId = u

/-- The cash was below zero after some of the first rows. -/
def Overdrawn (owned : List LedgerRow) : Prop :=
  ∃ first, first <+: owned ∧ ∃ c, cashTotal first = some c ∧ c < 0

theorem Overdrawn.ne_nil {owned : List LedgerRow} (h : Overdrawn owned) : owned ≠ [] := by
  obtain ⟨first, hfirst, c, hc, hneg⟩ := h
  intro hnil
  subst hnil
  rw [List.prefix_nil.mp hfirst] at hc
  cases hc
  exact absurd hneg (lt_irrefl 0)

/-- The lowest the cash was over the rows, and the first row after which it was. -/
structure LowestAt (owned : List LedgerRow) (low : Int) (row : LedgerRow) : Prop where
  least : ∀ first, first <+: owned → ∃ c, cashTotal first = some c ∧ low ≤ c
  reached : ∃ pre post, owned = pre ++ row :: post ∧ cashTotal (pre ++ [row]) = some low ∧
    ∀ first, first <+: pre → ∃ c, cashTotal first = some c ∧ low < c

/-! ### The lowest of a fold -/

section Dip

variable {owned : List LedgerRow} {dip : Dip}

/-- A fold that ends keeps where it has got. -/
theorem cashTotal_of_dipOf (h : dipOf owned = some dip) : cashTotal owned = some dip.fold := by
  cases htotal : cashTotal owned with
  | none => cases h.symm.trans ((dipOf_spec owned).1 htotal)
  | some total =>
    obtain ⟨dip', hdip, rfl, -⟩ := (dipOf_spec owned).2 total htotal
    cases h.symm.trans hdip
    rfl

/-- **The lowest of a fold** is the most that none of its first parts are below. -/
theorem le_low_iff (h : dipOf owned = some dip) {x : Int} :
    x ≤ dip.low ↔ ∀ first, first <+: owned → ∃ c, cashTotal first = some c ∧ x ≤ c := by
  obtain ⟨dip', hdip, -, hlow⟩ := (dipOf_spec owned).2 dip.fold (cashTotal_of_dipOf h)
  cases h.symm.trans hdip
  have hnil : (∃ c, cashTotal [] = some c ∧ x ≤ c) ↔ x ≤ 0 := by simp [cashTotal]
  rw [hlow, forall_prefix_iff, hnil]

/-- A user's cash was below zero where the lowest of its fold is. -/
theorem low_neg_iff (h : dipOf owned = some dip) : dip.low < 0 ↔ Overdrawn owned := by
  rw [← not_le, le_low_iff h]
  constructor
  · intro hneg
    push Not at hneg
    obtain ⟨first, hfirst, hbelow⟩ := hneg
    obtain ⟨c, hc, -⟩ := (le_low_iff h).mp le_rfl first hfirst
    exact ⟨first, hfirst, c, hc, hbelow c hc⟩
  · rintro ⟨first, hfirst, c, hc, hneg⟩ hall
    obtain ⟨c', hc', hle⟩ := hall first hfirst
    cases hc.symm.trans hc'
    omega

/-- **The row that is kept of a fold** is the first that took it to its lowest, if that is below
    zero. -/
theorem dipOf_lowest (h : dipOf owned = some dip) (hneg : dip.low < 0) :
    ∃ row, LowestAt owned dip.low row ∧ dip.lowAt = row.id := by
  induction owned using List.reverseRecOn generalizing dip with
  | nil =>
    cases h
    exact absurd hneg (lt_irrefl 0)
  | append_singleton owned row ih =>
    have hleast := (le_low_iff h).mp le_rfl
    rw [dipOf_concat] at h
    obtain ⟨before, hbefore, hadd⟩ := Option.bind_eq_some_iff.mp h
    obtain ⟨delta, hdelta, hdip⟩ := Option.map_eq_some_iff.mp hadd
    by_cases hlower : before.fold + delta < before.low
    · -- this row takes the cash lower than it has been
      rw [if_pos hlower] at hdip
      subst hdip
      refine ⟨row, ⟨hleast, owned, [], rfl, ?_, fun first hfirst => ?_⟩, rfl⟩
      · rw [cashTotal_concat, cashTotal_of_dipOf hbefore, hdelta]
        rfl
      · obtain ⟨c, hc, hle⟩ := (le_low_iff hbefore).mp le_rfl first hfirst
        exact ⟨c, hc, hlower.trans_le hle⟩
    · -- the lowest is where it was
      rw [if_neg hlower] at hdip
      subst hdip
      obtain ⟨low, ⟨-, pre, post, rfl, htotal, hfirst⟩, hid⟩ := ih hbefore hneg
      exact ⟨low, ⟨hleast, pre, post ++ [row], by simp, htotal, hfirst⟩, hid⟩

end Dip

/-! ### What is said of the users -/

/-- What is said of every user, before the report is cut to five breaches. -/
def overdraftLines (rows : List LedgerRow) : Option (List Line) :=
  (byUser rows).entries.mapM fun (u, owned) => (dipOf owned).map (overdraftLine u owned)

theorem noOverdraft_eq (rows : List LedgerRow) :
    noOverdraft rows = (overdraftLines rows).map (verdictOf "no_overdraft") := rfl

/-- The breach of a user: the lowest its cash was, and the first order after which it was. -/
def BreachOf (rows : List LedgerRow) (u : Option Int) (text : String) : Prop :=
  ∃ low row, LowestAt (rowsOfUser rows u) low row ∧
    text = s!"user {nullable u}: the cash fold reached {moneyOf low} at order {row.id}"

/-- No overdraft is found exactly if no first rows of a user's come to less than zero, and all can
    be summed. -/
theorem noOverdraft_passes_iff_first {rows : List LedgerRow} :
    (∃ result, noOverdraft rows = some result ∧ result.pass = true) ↔
      ∀ u first, first <+: rowsOfUser rows u → ∃ c, cashTotal first = some c ∧ 0 ≤ c := by
  rw [noOverdraft_passes_iff]
  refine forall_congr' fun u => ?_
  have hnil : ∃ c, cashTotal [] = some c ∧ 0 ≤ c := ⟨0, rfl, le_rfl⟩
  rw [forall_prefix_iff, and_iff_right hnil]
  rfl

/-- The users whose fold has been below zero, each once. -/
def overdrawnUsers (rows : List LedgerRow) : List (Option Int) :=
  ((byUser rows).entries.filter fun entry => (dipOf entry.2).any (·.low < 0)).map Prod.fst

theorem nodup_overdrawnUsers (rows : List LedgerRow) : (overdrawnUsers rows).Nodup :=
  (byUser rows).nodup.sublist (List.filter_sublist.map Prod.fst)

section Lines

variable {rows : List LedgerRow} {lines : List Line}

/-- Where every fold ends, those are the users that were overdrawn. -/
theorem mem_overdrawnUsers (h : overdraftLines rows = some lines) (u : Option Int) :
    u ∈ overdrawnUsers rows ↔ Overdrawn (rowsOfUser rows u) := by
  have hbelow : ∀ entry ∈ (byUser rows).entries,
      (dipOf entry.2).any (·.low < 0) = true ↔ Overdrawn entry.2 := by
    intro entry hentry
    obtain ⟨line, -, hline⟩ := exists_right_of_forall₂ (forall₂_of_mapM_eq_some h) hentry
    obtain ⟨dip, hdip, -⟩ := Option.map_eq_some_iff.mp hline
    rw [hdip, ← low_neg_iff hdip]
    simp
  rw [overdrawnUsers, List.mem_map]
  constructor
  · rintro ⟨⟨u, owned⟩, hentry, rfl⟩
    obtain ⟨hmem, hneg⟩ := List.mem_filter.mp hentry
    obtain ⟨rfl, -⟩ := mem_byUser.mp hmem
    exact (hbelow _ hmem).mp hneg
  · intro hover
    have hmem : (u, rowsOfUser rows u) ∈ (byUser rows).entries :=
      mem_byUser.mpr ⟨rfl, hover.ne_nil⟩
    exact ⟨_, List.mem_filter.mpr ⟨hmem, (hbelow _ hmem).mpr hover⟩, rfl⟩

/-- What is said of a user is a breach, and the right one, where its fold has been below zero. -/
theorem breach_overdraftLine {u : Option Int} {dip : Dip} (h : dipOf (rowsOfUser rows u) = some dip)
    (hneg : dip.low < 0) :
    ∃ text, (overdraftLine u (rowsOfUser rows u) dip).breach? = some text ∧
      BreachOf rows u text := by
  obtain ⟨row, hrow, hid⟩ := dipOf_lowest h hneg
  rw [overdraftLine, if_pos hneg, hid]
  exact ⟨_, rfl, dip.low, row, hrow, rfl⟩

/-- **The breaches are of the users that were overdrawn**, one of each. -/
theorem breaches_of_lines (h : overdraftLines rows = some lines) :
    List.Forall₂ (BreachOf rows) (overdrawnUsers rows) (lines.filterMap Line.breach?) := by
  have hlines := (List.forall₂_and_left _ _).mpr
    ⟨fun _ hentry => hentry, forall₂_of_mapM_eq_some h⟩
  rw [overdrawnUsers, List.forall₂_map_left_iff]
  refine forall₂_filter_filterMap hlines ?_ ?_
  · rintro ⟨u, owned⟩ line ⟨-, hline⟩ hneg
    obtain ⟨dip, hdip, rfl⟩ := Option.map_eq_some_iff.mp hline
    have hlow : ¬dip.low < 0 := by simpa [hdip] using hneg
    rw [overdraftLine, if_neg hlow]
    rfl
  · rintro ⟨u, owned⟩ line ⟨hmem, hline⟩ hneg
    obtain ⟨dip, hdip, rfl⟩ := Option.map_eq_some_iff.mp hline
    obtain ⟨rfl, -⟩ := mem_byUser.mp hmem
    exact breach_overdraftLine hdip (by simpa [hdip] using hneg)

end Lines

/-- **No overdraft is found exactly if no user's cash was ever below zero**, whatever rows of others
    stand between its own.  What is found otherwise is one breach for each user whose cash was,
    which names the lowest it was and the first order after which it was. -/
theorem overdrafts_exact (rows : List LedgerRow) :
    ((∃ result, noOverdraft rows = some result ∧ result.pass = true) ↔
      ∀ u first, first <+: rowsOfUser rows u → ∃ c, cashTotal first = some c ∧ 0 ≤ c) ∧
    ∀ result, noOverdraft rows = some result →
      ∃ lines, overdraftLines rows = some lines ∧ result = verdictOf "no_overdraft" lines ∧
        ∃ users : List (Option Int), users.Nodup ∧
          (∀ u, u ∈ users ↔ Overdrawn (rowsOfUser rows u)) ∧
          List.Forall₂ (BreachOf rows) users (lines.filterMap Line.breach?) := by
  refine ⟨noOverdraft_passes_iff_first, fun result hresult => ?_⟩
  rw [noOverdraft_eq] at hresult
  obtain ⟨lines, hlines, rfl⟩ := Option.map_eq_some_iff.mp hresult
  exact ⟨lines, hlines, rfl, overdrawnUsers rows, nodup_overdrawnUsers rows,
    mem_overdrawnUsers hlines, breaches_of_lines hlines⟩

/-- User 1 deposits and buys, and between its rows user 2 buys twice and sells. -/
def interleaved : List LedgerRow :=
  let row (id userId : Int) (side : String) (size : Int) (price : String) : LedgerRow :=
    ⟨id, some userId, some 47, some side, some size, some price, some "MARKET", some "FILLED"⟩
  [row 1 1 "CASH_IN" 1000 "1.00", row 2 2 "BUY" 1 "100.00", row 3 1 "BUY" 6 "100.00",
    row 4 2 "BUY" 1 "50.00", row 5 2 "SELL" 1 "500.00"]

/-- What user 1 has covers nothing of what user 2 has not. -/
theorem overdrafts_exact_interleaved :
    noOverdraft interleaved = some ⟨"no_overdraft", false,
        "user 2: the cash fold reached -150.00 at order 4"⟩ ∧
      ∃ users : List (Option Int), users.Nodup ∧
        (∀ u, u ∈ users ↔ Overdrawn (rowsOfUser interleaved u)) ∧
        List.Forall₂ (BreachOf interleaved) users
          ["user 2: the cash fold reached -150.00 at order 4"] := by
  have hfails : noOverdraft interleaved = some ⟨"no_overdraft", false,
      "user 2: the cash fold reached -150.00 at order 4"⟩ := by decide +kernel
  obtain ⟨lines, hlines, -, hbreaches⟩ := (overdrafts_exact interleaved).2 _ hfails
  have hsaid : (overdraftLines interleaved).map (·.filterMap Line.breach?) =
      some ["user 2: the cash fold reached -150.00 at order 4"] := by decide +kernel
  rw [hlines] at hsaid
  exact ⟨hfails, Option.some.inj hsaid ▸ hbreaches⟩

end Cocos.Tools
