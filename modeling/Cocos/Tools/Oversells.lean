import Cocos.Tools.Invariants
import Mathlib.Data.List.Infix

namespace Cocos.Tools

open Cocos.Lib

/-!
# What is found as an oversell

The target sells a position down to zero and no further.  The check holds the rows of a run against
the lowest that each position had been before the run, which may be less than zero.

* `preRunFloor` — that lowest fold, never above zero;
* `noOversell_pass_iff_floor` — no oversell is found exactly if no row of the run that takes shares
  away leaves its position under its floor;
* `oversells_found` — **so what is found is every sale below zero of a position that was not
  short before the run**, and of one that was, every sale below its floor;
* `oversell_missed` — a position that was short is sold below zero again, and nothing is found.
-/

/-! ### The floor of a position -/

/-- The rows at or below the mark. -/
def beforeRun (highWaterMark : Int) (rows : List LedgerRow) : List LedgerRow :=
  rows.filter fun row => row.id ≤ highWaterMark

/-- The lowest the fold of a position has been in the rows before the run, and zero at most. -/
def preRunFloor (highWaterMark : Int) (key : Option Int × Option Int) (rows : List LedgerRow) : Int :=
  ((beforeRun highWaterMark rows).inits.map (sharesOf key)).foldr min 0

theorem lt_foldr_min_iff {l : List Int} {x : Int} : x < l.foldr min 0 ↔ x < 0 ∧ ∀ y ∈ l, x < y := by
  induction l with
  | nil => simp
  | cons y l ih =>
    rw [List.foldr_cons, lt_min_iff, ih, List.forall_mem_cons]
    exact and_left_comm

section Floor

variable {highWaterMark : Int} {key : Option Int × Option Int} {rows : List LedgerRow}

theorem lt_preRunFloor_iff {x : Int} : x < preRunFloor highWaterMark key rows ↔
    x < 0 ∧ ∀ first, first <+: beforeRun highWaterMark rows → x < sharesOf key first := by
  rw [preRunFloor, lt_foldr_min_iff, List.forall_mem_map]
  simp only [List.mem_inits]

theorem preRunFloor_nonpos : preRunFloor highWaterMark key rows ≤ 0 := by
  by_contra hpos
  have h := lt_preRunFloor_iff.mp (not_le.mp hpos)
  exact absurd h.1 (lt_irrefl 0)

theorem preRunFloor_le {first : List LedgerRow} (h : first <+: beforeRun highWaterMark rows) :
    preRunFloor highWaterMark key rows ≤ sharesOf key first := by
  by_contra hlt
  exact absurd ((lt_preRunFloor_iff.mp (not_le.mp hlt)).2 first h) (lt_irrefl _)

/-- The floor of a position is zero unless it was short before the run. -/
theorem preRunFloor_eq_zero_iff : preRunFloor highWaterMark key rows = 0 ↔
    ∀ first, first <+: beforeRun highWaterMark rows → 0 ≤ sharesOf key first := by
  constructor
  · intro h first hfirst
    exact h ▸ preRunFloor_le hfirst
  · intro h
    refine le_antisymm preRunFloor_nonpos (Int.sub_one_lt_iff.mp ?_)
    refine lt_preRunFloor_iff.mpr ⟨by omega, fun first hfirst => ?_⟩
    have := h first hfirst
    omega

end Floor

section Sorted

variable {highWaterMark : Int} {rows pre post : List LedgerRow} {row : LedgerRow}

/-- The rows before the run come before each row of it. -/
theorem beforeRun_prefix (hsorted : rows.Pairwise fun a b => a.id ≤ b.id)
    (hrows : rows = pre ++ row :: post) (hlater : highWaterMark < row.id) :
    beforeRun highWaterMark rows <+: pre := by
  subst hrows
  rw [beforeRun, filter_le_of_lt hsorted hlater]
  exact filter_le_prefix (List.pairwise_append.mp hsorted).1 highWaterMark

/-- The rows up to one of before the run are the first of those. -/
theorem prefix_beforeRun (hsorted : rows.Pairwise fun a b => a.id ≤ b.id)
    (hrows : rows = pre ++ row :: post) (hearlier : row.id ≤ highWaterMark) :
    pre ++ [row] <+: beforeRun highWaterMark rows := by
  have hsplit : rows = (pre ++ [row]) ++ post := by simp [hrows]
  have hself : beforeRun highWaterMark (pre ++ [row]) = pre ++ [row] := by
    rw [beforeRun, List.filter_eq_self]
    intro r hr
    rcases List.mem_append.mp hr with hr | hr
    · have hle := (List.pairwise_append.mp (hrows ▸ hsorted)).2.2 r hr row List.mem_cons_self
      simpa using le_trans hle hearlier
    · rw [List.mem_singleton.mp hr]
      simpa using hearlier
  have happend : beforeRun highWaterMark rows = pre ++ [row] ++ beforeRun highWaterMark post := by
    rw [hsplit, beforeRun, List.filter_append]
    exact congrArg (· ++ _) hself
  rw [happend]
  exact List.prefix_append _ _

/-- What the check holds a row of the run against is the floor of its position. -/
theorem underFloor_iff (hsorted : rows.Pairwise fun a b => a.id ≤ b.id)
    (hrows : rows = pre ++ row :: post) (hlater : highWaterMark < row.id)
    (key : Option Int × Option Int) (x : Int) :
    UnderFloor highWaterMark key pre x ↔ x < preRunFloor highWaterMark key rows := by
  rw [lt_preRunFloor_iff]
  have hpre := beforeRun_prefix hsorted hrows hlater
  constructor
  · intro h
    refine ⟨h.1, fun first hfirst => ?_⟩
    obtain ⟨rest, hrest⟩ := hfirst.trans hpre
    refine h.lt_sharesOf hrest.symm fun r hr => ?_
    simpa using List.of_mem_filter (hfirst.subset hr)
  · rintro ⟨hneg, h⟩
    refine ⟨hneg, fun pre' r post' hpre' _ hid => h _ ?_⟩
    have hsplit : rows = pre' ++ r :: (post' ++ row :: post) := by simp [hrows, hpre']
    exact prefix_beforeRun hsorted hsplit hid

end Sorted

/-! ### What is found -/

section Found

variable {highWaterMark : Int} {rows : List LedgerRow}

/-- No row of the run leaves its position under its floor. -/
theorem noOversell_pass_iff_above (hsorted : rows.Pairwise fun a b => a.id ≤ b.id) :
    (noOversell rows highWaterMark).pass = true ↔
      ∀ pre row post, rows = pre ++ row :: post → highWaterMark < row.id →
        preRunFloor highWaterMark row.position rows ≤ sharesOf row.position (pre ++ [row]) := by
  rw [noOversell_pass_iff]
  refine forall_congr' fun pre => forall_congr' fun row => forall_congr' fun post => ?_
  refine forall_congr' fun hrows => forall_congr' fun hlater => ?_
  rw [underFloor_iff hsorted hrows hlater, not_lt]

/-- If no row of the run that takes shares away leaves its position under its floor, no position
    is ever under its floor. -/
theorem floor_le_sharesOf (hsorted : rows.Pairwise fun a b => a.id ≤ b.id)
    (h : ∀ pre row post, rows = pre ++ row :: post → highWaterMark < row.id → shareDelta row < 0 →
      preRunFloor highWaterMark row.position rows ≤ sharesOf row.position (pre ++ [row]))
    (key : Option Int × Option Int) {first : List LedgerRow} (hfirst : first <+: rows) :
    preRunFloor highWaterMark key rows ≤ sharesOf key first := by
  induction first using List.reverseRecOn with
  | nil => exact preRunFloor_nonpos
  | append_singleton first row ih =>
    obtain ⟨post, hpost⟩ := hfirst
    have hrows : rows = first ++ row :: post := by simp [← hpost]
    have hbefore := ih ⟨row :: post, hrows.symm⟩
    by_cases hearlier : row.id ≤ highWaterMark
    · exact preRunFloor_le (prefix_beforeRun hsorted hrows hearlier)
    · by_cases hkey : row.position = key
      · by_cases htakes : shareDelta row < 0
        · exact hkey ▸ h first row post hrows (not_le.mp hearlier) htakes
        · rw [sharesOf_concat, if_pos hkey]
          omega
      · rw [sharesOf_concat, if_neg hkey, add_zero]
        exact hbefore

/-- **No oversell is found exactly if no row of the run that takes shares away leaves its position
    under its floor.** -/
theorem noOversell_pass_iff_floor (hsorted : rows.Pairwise fun a b => a.id ≤ b.id) :
    (noOversell rows highWaterMark).pass = true ↔
      ∀ pre row post, rows = pre ++ row :: post → highWaterMark < row.id → shareDelta row < 0 →
        preRunFloor highWaterMark row.position rows ≤ sharesOf row.position (pre ++ [row]) := by
  rw [noOversell_pass_iff_above hsorted]
  constructor
  · exact fun h pre row post hrows hlater _ => h pre row post hrows hlater
  · intro h pre row post hrows _
    exact floor_le_sharesOf hsorted h row.position ⟨post, by simp [hrows]⟩

end Found

/-- The row is a sale that was filled. -/
def LedgerRow.IsSale (row : LedgerRow) : Prop := row.status = some "FILLED" ∧ row.side = some "SELL"

/-- Where sizes are not negative, only sales take shares away. -/
theorem isSale_of_shareDelta_neg {row : LedgerRow} (hsize : 0 ≤ row.size.getD 0)
    (h : shareDelta row < 0) : row.IsSale := by
  unfold shareDelta at h
  split_ifs at h with hstatus hbuy hsell
  · omega
  · omega
  · exact ⟨not_not.mp hstatus, hsell⟩
  · omega

/-- What is found as an oversell in the rows, with the mark where it is. -/
structure OversellsFound (rows : List LedgerRow) (highWaterMark : Int) : Prop where
  /-- Nothing is found where no row of the run takes its position under its floor, -/
  floors : (noOversell rows highWaterMark).pass = true ↔
    ∀ pre row post, rows = pre ++ row :: post → highWaterMark < row.id → shareDelta row < 0 →
      preRunFloor highWaterMark row.position rows ≤ sharesOf row.position (pre ++ [row])
  /-- and that is no sale, where no size is negative. -/
  sales : (∀ row ∈ rows, 0 ≤ row.size.getD 0) → ((noOversell rows highWaterMark).pass = true ↔
    ∀ pre row post, rows = pre ++ row :: post → highWaterMark < row.id → row.IsSale →
      preRunFloor highWaterMark row.position rows ≤ sharesOf row.position (pre ++ [row]))
  /-- No floor is above zero, -/
  nonpos : ∀ key, preRunFloor highWaterMark key rows ≤ 0
  /-- and it is zero where the position has not been short before the run. -/
  zero : ∀ key, preRunFloor highWaterMark key rows = 0 ↔
    ∀ first, first <+: beforeRun highWaterMark rows → 0 ≤ sharesOf key first

/-- **An oversell is found exactly if it goes below the floor of its position.** -/
theorem oversells_found {rows : List LedgerRow} {highWaterMark : Int}
    (hsorted : rows.Pairwise fun a b => a.id ≤ b.id) : OversellsFound rows highWaterMark where
  floors := noOversell_pass_iff_floor hsorted
  sales hsizes := by
    rw [noOversell_pass_iff_floor hsorted]
    constructor
    · intro h pre row post hrows _ _
      exact floor_le_sharesOf hsorted h row.position ⟨post, by simp [hrows]⟩
    · intro h pre row post hrows hlater htakes
      have hsize := hsizes row (by simp [hrows])
      exact h pre row post hrows hlater (isSale_of_shareDelta_neg hsize htakes)
  nonpos _ := preRunFloor_nonpos
  zero _ := preRunFloor_eq_zero_iff

/-- A trade of user 1 in instrument 31. -/
def tradeRow (id : Int) (side : String) (size : Int) : LedgerRow :=
  ⟨id, some 1, some 31, some side, some size, some "1502.80", some "MARKET", some "FILLED"⟩

/-- Ten shares short before the run, three are bought back and sold again. -/
def soldAgain : List LedgerRow :=
  [tradeRow 11 "SELL" 10, tradeRow 12 "BUY" 3, tradeRow 13 "SELL" 3]

/-- A sale of a share more takes the position under its floor of minus ten. -/
theorem oversells_found_oneMore :
    (noOversell (soldAgain ++ [tradeRow 14 "SELL" 1]) 11).pass = false := by
  have h : OversellsFound (soldAgain ++ [tradeRow 14 "SELL" 1]) 11 := oversells_found (by decide)
  rw [Bool.eq_false_iff]
  intro hpass
  have hfloor := h.floors.mp hpass soldAgain (tradeRow 14 "SELL" 1) [] rfl (by decide) (by decide)
  exact absurd hfloor (by decide)

/-- **A position that was short before the run is sold below zero, and nothing is found.** -/
theorem oversell_missed : ∃ rows highWaterMark,
    rows.Pairwise (fun a b : LedgerRow => a.id ≤ b.id) ∧
      ¬((noOversell rows highWaterMark).pass = true ↔
        ∀ pre row post, rows = pre ++ row :: post → highWaterMark < row.id → row.IsSale →
          0 ≤ sharesOf row.position (pre ++ [row])) := by
  refine ⟨soldAgain, 11, by decide, fun h => ?_⟩
  have hnone := h.mp (by decide) (soldAgain.take 2) (tradeRow 13 "SELL" 3) [] rfl (by decide)
    ⟨rfl, rfl⟩
  exact absurd hnone (by decide)

end Cocos.Tools
