import Cocos.Tools.ShadowLedger

namespace Cocos.Tools

open Cocos.Lib
open Numbers

/-!
# What fits the numbers

The ledger reckons in doubles, and what it reckons is exact as long as no amount it reads, adds or
multiplies is rounded.

* `ShadowUser.FitsCover`, `FitsHold`, `FitsSettle` — nothing is rounded where an order is covered,
  where it is held for or released, and where its answer is booked;
* `ShadowLedger.FitsReserve`, `FitsSettle`, `FitsLose` — nor in a call of the ledger;
* `reserve_eq`, `settle_eq`, `lose_eq`, `seed_eq` — **such a call is the call of exact
  arithmetic.**
-/

/-! ### One user -/

namespace ShadowUser

section Fits

variable [N : Numbers] (user : ShadowUser)

/-- Nothing is rounded where what is not held aside is weighed against the order. -/
def FitsCover (order : SimOrder) (price : Int) : Prop :=
  (order.side = .BUY → Numbers.Keeps (user.cash - user.heldCash) ∧
    Numbers.Keeps (price * order.size)) ∧
  (order.side = .SELL → Numbers.Keeps ((user.shares.get? order.instrumentId).getD 0 -
    (user.heldShares.get? order.instrumentId).getD 0))

/-- Nor where cash and shares are added to those that are held. -/
def FitsHold (instrumentId cash shares : Int) : Prop :=
  Numbers.Keeps (user.heldCash + cash) ∧
    Numbers.Keeps ((user.heldShares.get? instrumentId).getD 0 + shares)

/-- Nor where an order is released and its fill is booked. -/
def FitsSettle (r : Reservation) (execution : Option Execution) : Prop :=
  user.FitsHold r.order.instrumentId (-r.heldCash) (-r.heldShares) ∧
    ∀ e ∈ execution, e.status = .FILLED → Reads e.price ∧
      Numbers.Keeps (r.order.direction * readCentavos e.price * r.order.size) ∧
      Numbers.Keeps (user.cash - r.order.direction * readCentavos e.price * r.order.size) ∧
      Numbers.Keeps ((user.shares.get? r.order.instrumentId).getD 0 +
        r.order.direction * r.order.size)

instance (order : SimOrder) (price : Int) : Decidable (user.FitsCover order price) :=
  inferInstanceAs (Decidable (_ ∧ _))

instance (instrumentId cash shares : Int) : Decidable (user.FitsHold instrumentId cash shares) :=
  inferInstanceAs (Decidable (_ ∧ _))

instance (r : Reservation) (execution : Option Execution) :
    Decidable (user.FitsSettle r execution) :=
  inferInstanceAs (Decidable (_ ∧ ∀ _ ∈ _, _))

end Fits

variable [N : Numbers] {user : ShadowUser}

theorem covers_eq {order : SimOrder} {price : Int} (h : user.FitsCover order price) :
    user.covers order price = user.covers (N := .exact) order price := by
  unfold covers
  split
  · rename_i hside
    obtain ⟨hcash, hcost⟩ := h.1 hside
    rw [hcash, hcost, whole_exact, whole_exact]
  · rename_i hside
    rw [h.2 hside, whole_exact]

theorem reserve_eq {r : Reservation}
    (h : user.FitsHold r.order.instrumentId r.heldCash r.heldShares) :
    user.reserve r = user.reserve (N := .exact) r := by
  have hcash : whole _ = _ := h.1
  have hshares : whole _ = _ := h.2
  simp only [reserve, hold, hcash, hshares, whole_exact]

theorem release_eq {r : Reservation}
    (h : user.FitsHold r.order.instrumentId (-r.heldCash) (-r.heldShares)) :
    user.release r = user.release (N := .exact) r := by
  have hcash : whole _ = _ := h.1
  have hshares : whole _ = _ := h.2
  simp only [release, hold, sub_eq_add_neg, hcash, hshares, whole_exact]

theorem settle_eq {r : Reservation} {execution : Option Execution}
    (h : user.FitsSettle r execution) :
    user.settle r execution = user.settle (N := .exact) r execution := by
  unfold settle
  rw [release_eq h.1]
  split
  · rename_i price
    obtain ⟨hprice, hcost, hcash, hshares⟩ := h.2 _ rfl rfl
    simp only [cash_release, shares_release]
    rw [show toCentavos price = readCentavos price from hprice, hcost, hcash, hshares, whole_exact,
      whole_exact, whole_exact, toCentavos_exact]
  · rfl

theorem lose_eq {r : Reservation}
    (h : user.FitsHold r.order.instrumentId (-r.heldCash) (-r.heldShares)) :
    user.lose r = user.lose (N := .exact) r := by
  simp only [lose, release_eq h]

theorem seed_eq {portfolio : SeedPortfolio} (h : Reads portfolio.availableCash) :
    user.seed portfolio = user.seed (N := .exact) portfolio := by
  simp only [seed, toCentavos_exact, show toCentavos portfolio.availableCash = _ from h]

end ShadowUser

/-! ### The ledger -/

namespace ShadowLedger

section Fits

variable [N : Numbers] (ledger : ShadowLedger)

/-- Nothing is rounded where an order is reserved. -/
def FitsReserve (order : SimOrder) : Prop :=
  ∀ user ∈ ledger.users.get? order.userId,
    (∀ price ∈ ledger.prices.get? order.instrumentId, user.FitsCover order price) ∧
      user.FitsHold order.instrumentId (ledger.reservation order).heldCash
        (ledger.reservation order).heldShares

/-- Nor where it is settled. -/
def FitsSettle (r : Reservation) (execution : Option Execution) : Prop :=
  (∀ e ∈ execution, Reads e.price) ∧
    (r.generation = ledger.current → ∀ user ∈ ledger.users.get? r.order.userId,
      user.FitsSettle r execution)

/-- Nor where it is given up. -/
def FitsLose (r : Reservation) : Prop :=
  r.generation = ledger.current → ∀ user ∈ ledger.users.get? r.order.userId,
    user.FitsHold r.order.instrumentId (-r.heldCash) (-r.heldShares)

instance (order : SimOrder) : Decidable (ledger.FitsReserve order) :=
  inferInstanceAs (Decidable (∀ _ ∈ _, (∀ _ ∈ _, _) ∧ _))

instance (r : Reservation) (execution : Option Execution) :
    Decidable (ledger.FitsSettle r execution) :=
  inferInstanceAs (Decidable ((∀ _ ∈ _, _) ∧ (_ → ∀ _ ∈ _, _)))

instance (r : Reservation) : Decidable (ledger.FitsLose r) :=
  inferInstanceAs (Decidable (_ → ∀ _ ∈ _, _))

end Fits

variable [N : Numbers] {ledger : ShadowLedger}

theorem expect_eq {user : Option ShadowUser} {order : SimOrder} {price : Option Int}
    (h : ∀ v ∈ user, ∀ p ∈ price, v.FitsCover order p) :
    expect user order price = expect (N := .exact) user order price := by
  unfold expect
  split
  · rw [ShadowUser.covers_eq (h _ rfl _ rfl)]
  · rfl

theorem reservation_eq {order : SimOrder} (h : ledger.FitsReserve order) :
    ledger.reservation order = ledger.reservation (N := .exact) order := by
  have hexpect := expect_eq fun v hv p hp => (h v hv).1 p hp
  simp only [reservation, hexpect]
  split
  · rename_i user price huser _ hprice hside
    rw [((h user huser).1 price hprice).1 hside |>.2, whole_exact]
  all_goals rfl

/-- **A reserve where nothing is rounded.** -/
theorem reserve_eq {order : SimOrder} (h : ledger.FitsReserve order) :
    ledger.reserve order = ledger.reserve (N := .exact) order := by
  have hfits : ∀ user ∈ ledger.users.get? order.userId,
      user.reserve (ledger.reservation order) =
        user.reserve (N := .exact) (ledger.reservation order) := by
    refine fun user huser => ShadowUser.reserve_eq ?_
    rw [order_reservation]
    exact (h user huser).2
  simp only [reserve]
  rw [JsMap.modify_congr hfits, reservation_eq h]

/-- **A settlement.** -/
theorem settle_eq {r : Reservation} {execution : Option Execution}
    (h : ledger.FitsSettle r execution) :
    ledger.settle r execution = ledger.settle (N := .exact) r execution := by
  have hlearn : ledger.learn r execution = ledger.learn (N := .exact) r execution := by
    unfold learn
    split
    · rw [toCentavos_exact, show toCentavos _ = _ from h.1 _ rfl]
    · rfl
  simp only [settle, hlearn, current_learn, users_learn]
  split
  · rfl
  · rename_i hgeneration
    rw [JsMap.modify_congr fun user huser =>
      ShadowUser.settle_eq (h.2 (not_not.mp hgeneration) user huser)]

/-- **A loss.** -/
theorem lose_eq {r : Reservation} (h : ledger.FitsLose r) :
    ledger.lose r = ledger.lose (N := .exact) r := by
  unfold lose
  split
  · rfl
  · rename_i hgeneration
    rw [JsMap.modify_congr fun user huser =>
      ShadowUser.lose_eq (h (not_not.mp hgeneration) user huser)]

/-- **A seed.** -/
theorem seed_eq {portfolio : SeedPortfolio} {generation : Nat}
    (h : generation = ledger.current → Reads portfolio.availableCash) (userId : Int) :
    ledger.seed generation userId portfolio =
      ledger.seed (N := .exact) generation userId portfolio := by
  unfold seed
  split
  · rfl
  · rename_i hgeneration
    rw [JsMap.modify_congr fun user _ => ShadowUser.seed_eq (h (not_not.mp hgeneration))]

end ShadowLedger

end Cocos.Tools
