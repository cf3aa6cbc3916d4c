import Mathlib.Algebra.BigOperators.Group.Finset.Basic
import Mathlib.Algebra.BigOperators.Ring.Finset
import Cocos.OrderRules

namespace Cocos

/-!
# Accounts and trades

What the ledger is for, in its own terms: an account is an amount of every resource, of
cash and of the shares of each instrument; a trade draws from one and supplies another.

* `Trade.draw` — how much of each resource a trade takes (less than nothing is a supply);
* `Trade.Covered` — the account holds what the trade draws from its own `resource`;
* `Trade.fill` — the account after the trade.  `fill_resource_nonneg` and `le_fill` are the
  two halves of "covered trades never overspend": the resource drawn from stays at or
  above zero, and no other goes down;
* `Account.value` — what an account is worth at a weight for each instrument, and
  `Trade.value_fill`: a trade at that weight is worth nothing;
* `decide_status_eq_filled_iff` — the order rules fill exactly the covered MARKET trades of
  the account they are shown.
-/

/-- What an account holds amounts of: pesos, and the shares of each instrument. -/
inductive Resource
  | cash
  | shares (instrumentId : Int)
deriving DecidableEq, Repr

/-- An amount of every resource; cash is counted in centavos. -/
abbrev Account := Resource → Int

/-- A buy or a sell of some shares at a price. -/
structure Trade where
  side : Side
  instrumentId : Int
  price : Int
  size : Int

namespace Trade

/-- The resource a trade has to be covered in. -/
def resource (t : Trade) : Resource :=
  match t.side with
  | .BUY => .cash
  | .SELL => .shares t.instrumentId

/-- What a trade takes from a resource, negative for what it gives. -/
def draw (t : Trade) : Resource → Int
  | .cash =>
    match t.side with
    | .BUY => t.price * t.size
    | .SELL => -(t.price * t.size)
  | .shares i =>
    if i = t.instrumentId then
      match t.side with
      | .BUY => -t.size
      | .SELL => t.size
    else 0

/-- The account holds what the trade draws from its resource. -/
def Covered (t : Trade) (a : Account) : Prop := t.draw t.resource ≤ a t.resource

instance (t : Trade) (a : Account) : Decidable (t.Covered a) :=
  inferInstanceAs (Decidable (_ ≤ _))

/-- The account after the trade. -/
def fill (t : Trade) (a : Account) : Account := fun ρ => a ρ - t.draw ρ

@[simp] theorem fill_apply (t : Trade) (a : Account) (ρ : Resource) :
    t.fill a ρ = a ρ - t.draw ρ := rfl

/-- A covered trade leaves its resource at or above zero. -/
theorem fill_resource_nonneg {t : Trade} {a : Account} (h : t.Covered a) :
    0 ≤ t.fill a t.resource := by
  rw [fill_apply]
  exact Int.sub_nonneg_of_le h

/-- At a price and a size that are not negative a trade draws from no resource but its own. -/
theorem draw_nonpos {t : Trade} (hprice : 0 ≤ t.price) (hsize : 0 ≤ t.size) {ρ : Resource}
    (h : ρ ≠ t.resource) : t.draw ρ ≤ 0 := by
  have hcost : 0 ≤ t.price * t.size := Int.mul_nonneg hprice hsize
  cases hside : t.side <;> cases ρ with
  | cash => simp_all [draw, resource]
  | shares i =>
    simp only [draw, hside]
    split <;> simp_all [resource]

/-- What a trade draws from its own resource is never negative. -/
theorem draw_resource_nonneg {t : Trade} (hprice : 0 ≤ t.price) (hsize : 0 ≤ t.size) :
    0 ≤ t.draw t.resource := by
  cases hside : t.side with
  | BUY => simpa [draw, resource, hside] using Int.mul_nonneg hprice hsize
  | SELL => simpa [draw, resource, hside] using hsize

/-- At a price and a size that are not negative a trade lowers no resource but its own. -/
theorem le_fill {t : Trade} (hprice : 0 ≤ t.price) (hsize : 0 ≤ t.size) {a : Account}
    {ρ : Resource} (h : ρ ≠ t.resource) : a ρ ≤ t.fill a ρ := by
  have := draw_nonpos hprice hsize h
  rw [fill_apply]
  omega

end Trade

/-! ### What an account is worth -/

/-- The cash, and the shares of the instruments in `S` at their weights. -/
def Account.value (w : Int → Int) (S : Finset Int) (a : Account) : Int :=
  a .cash + ∑ i ∈ S, a (.shares i) * w i

/-- An instrument of which nothing is held can be left out. -/
theorem Account.value_subset {w : Int → Int} {S T : Finset Int} {a : Account} (hST : S ⊆ T)
    (hzero : ∀ i ∈ T, i ∉ S → a (.shares i) = 0) : a.value w S = a.value w T := by
  unfold Account.value
  rw [Finset.sum_subset hST]
  intro i hi hiS
  rw [hzero i hi hiS, Int.zero_mul]

/-- **A trade at the weight of its instrument is worth nothing.** -/
theorem Trade.value_fill {t : Trade} {w : Int → Int} {S : Finset Int} (a : Account)
    (hmem : t.instrumentId ∈ S) (hprice : w t.instrumentId = t.price) :
    (t.fill a).value w S = a.value w S := by
  -- the shares it moves, at the weight, are the cash it moves the other way
  have hdraw : ∑ i ∈ S, t.draw (.shares i) * w i = -t.draw .cash := by
    rw [Finset.sum_eq_single_of_mem t.instrumentId hmem]
    · rw [hprice]
      cases hside : t.side <;> simp [draw, hside, mul_comm]
    · intro i _ hne
      simp [draw, hne]
  have hsum : ∑ i ∈ S, t.fill a (.shares i) * w i =
      ∑ i ∈ S, a (.shares i) * w i - ∑ i ∈ S, t.draw (.shares i) * w i := by
    rw [← Finset.sum_sub_distrib]
    apply Finset.sum_congr rfl
    intro i _
    rw [fill_apply, Int.sub_mul]
  unfold Account.value
  rw [hsum, hdraw, fill_apply]
  omega

/-! ### The order rules on an account -/

/-- The trade a placement is about, at the price it executes at. -/
def Placement.trade (p : Placement) (instrumentId : Int) : Trade :=
  ⟨p.side, instrumentId, p.executed, p.size⟩

/-- A placement is covered exactly when its trade is, on the account it was shown. -/
theorem Placement.covered_iff {p : Placement} {instrumentId : Int} {a : Account}
    (hcash : p.availableCash = a .cash) (hshares : p.heldShares = a (.shares instrumentId)) :
    p.covered = true ↔ (p.trade instrumentId).Covered a := by
  cases hside : p.side <;>
    simp [covered, Trade.Covered, trade, Trade.draw, Trade.resource, hside, hcash, hshares]

/-- The order rules fill exactly the covered MARKET trades. -/
theorem Placement.decide_status_eq_filled_iff {p : Placement} {instrumentId : Int} {a : Account}
    (hcash : p.availableCash = a .cash) (hshares : p.heldShares = a (.shares instrumentId)) :
    p.decide.status = .FILLED ↔ p.type = .MARKET ∧ (p.trade instrumentId).Covered a := by
  rw [decide_status_eq_filled, covered_iff hcash hshares]

end Cocos
