import Mathlib.Algebra.BigOperators.Group.List.Basic
import Mathlib.Algebra.Order.Group.Int
import Mathlib.Data.List.ReduceOption
import Mathlib.Data.Rat.Floor
import Mathlib.Tactic.Ring

namespace Cocos.Lib

/-!
# SQL values: `NULL`, `SUM`, `int4`, `ROUND`

The parts of SQL's arithmetic a fold over nullable columns goes through.  A column that
may be `NULL` is an `Option`.

* `sqlSum` — the aggregate `SUM`: it skips the `NULL`s and is itself `NULL` when nothing is
  left; `getD_sqlSum` says that under a `COALESCE(…, 0)` it is the sum of the terms, each
  `NULL` counted as `0`;
* `sum_filter` — a `WHERE` under a sum moves into its terms;
* `fitsInt4` — the range of a 32-bit signed integer; the cast into it raises outside of it;
* `sqlRound` — `ROUND`, half away from zero, which leaves whole numbers alone.
-/

/-! ### `SUM` -/

/-- `SUM`: the sum of the terms that are not `NULL`, and `NULL` when there are none. -/
def sqlSum (terms : List (Option Int)) : Option Int :=
  if terms.reduceOption = [] then none else some terms.reduceOption.sum

@[simp] theorem sqlSum_nil : sqlSum [] = none := rfl

theorem sum_reduceOption (terms : List (Option Int)) :
    terms.reduceOption.sum = (terms.map fun t => t.getD 0).sum := by
  induction terms with
  | nil => rfl
  | cons t ts ih => cases t <;> simp [ih]

/-- `COALESCE(SUM(…), 0)` counts each `NULL` as `0`. -/
theorem getD_sqlSum (terms : List (Option Int)) :
    (sqlSum terms).getD 0 = (terms.map fun t => t.getD 0).sum := by
  unfold sqlSum
  split
  · rename_i h
    rw [← sum_reduceOption, h]
    rfl
  · exact sum_reduceOption terms

/-- A sum is `NULL` when all its terms are. -/
theorem sqlSum_eq_none {terms : List (Option Int)} :
    sqlSum terms = none ↔ ∀ t ∈ terms, t = none := by
  have hnil : sqlSum terms = none ↔ terms.reduceOption = [] := by
    unfold sqlSum
    split <;> simp_all
  rw [hnil, List.reduceOption_eq_nil_iff]
  constructor
  · rintro ⟨n, rfl⟩ t ht
    exact List.eq_of_mem_replicate ht
  · exact fun h => ⟨terms.length, List.eq_replicate_of_mem h⟩

/-- A sum with a term that is not `NULL` counts each `NULL` as `0`. -/
theorem sqlSum_eq_some {terms : List (Option Int)} {t : Option Int} (ht : t ∈ terms)
    (hsome : t ≠ none) : sqlSum terms = some (terms.map fun t => t.getD 0).sum := by
  obtain ⟨total, htotal⟩ := Option.ne_none_iff_exists'.mp
    fun hnone => hsome (sqlSum_eq_none.mp hnone t ht)
  rw [← getD_sqlSum, htotal, Option.getD_some]

/-- A `WHERE` under a sum counts the rows it drops as `0`. -/
theorem sum_filter {α : Type*} (p : α → Bool) (f : α → Int) (rows : List α) :
    ((rows.filter p).map f).sum = (rows.map fun row => if p row then f row else 0).sum := by
  induction rows with
  | nil => rfl
  | cons row rows ih => cases h : p row <;> simp [h, ih]

/-! ### `int4` -/

/-- The smallest value of the `INT` type. -/
def minInt4 : Int := -2147483648

/-- The largest value of the `INT` type. -/
def maxInt4 : Int := 2147483647

/-- `x` is a value of the `INT` type. -/
def fitsInt4 (x : Int) : Prop := minInt4 ≤ x ∧ x ≤ maxInt4

instance (x : Int) : Decidable (fitsInt4 x) := inferInstanceAs (Decidable (_ ∧ _))

theorem fitsInt4_iff {x : Int} : fitsInt4 x ↔ -2147483648 ≤ x ∧ x ≤ 2147483647 := Iff.rfl

@[simp] theorem fitsInt4_zero : fitsInt4 0 := by decide

/-! ### `ROUND` -/

/-- `ROUND`: to the nearest whole number, a half away from zero. -/
def sqlRound (x : ℚ) : Int := if 0 ≤ x then ⌊x + 1 / 2⌋ else -⌊-x + 1 / 2⌋

@[simp] theorem sqlRound_intCast (n : Int) : sqlRound (n : ℚ) = n := by
  have hfloor : ∀ m : Int, ⌊(m : ℚ) + 1 / 2⌋ = m := fun m => by
    rw [Int.floor_intCast_add]
    norm_num
  unfold sqlRound
  split
  · exact hfloor n
  · have h := hfloor (-n)
    push_cast at h
    rw [h, neg_neg]

end Cocos.Lib
