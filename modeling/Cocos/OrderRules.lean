import Cocos.Lib.BigInt
import Cocos.Lib.Sql
import Cocos.Money

namespace Cocos

open Cocos.Lib

/-!
# The rules of an order

`src/orders/order-rules.ts`: the vocabulary of an order, how a request is sized, how it is
decided against the user's cash and shares, and which status may follow which.

* `resolveSize` — a size as sent, or the whole shares an amount buys; `resolveSize_amount`
  says that it **is the exact floor**, and `resolveSize_bounds` keeps both inside the size an
  order can hold;
* `Placement.decide` — a covered MARKET order fills at the close, a covered LIMIT order
  rests at its price, and what is not covered is rejected;
* `canTransition` — a resting order may be cancelled, and nothing else may happen to any.
-/

/-! ### Vocabulary -/

inductive Side
  | BUY
  | SELL
deriving DecidableEq, Repr

inductive OrderType
  | MARKET
  | LIMIT
deriving DecidableEq, Repr

inductive OrderStatus
  | NEW
  | FILLED
  | REJECTED
  | CANCELLED
deriving DecidableEq, Repr

/-- `ORDER_STATUSES`. -/
def ORDER_STATUSES : List OrderStatus := [.NEW, .FILLED, .REJECTED, .CANCELLED]

/-- The text a side is stored as. -/
def Side.text : Side → String
  | .BUY => "BUY"
  | .SELL => "SELL"

/-- The text an order type is stored as. -/
def OrderType.text : OrderType → String
  | .MARKET => "MARKET"
  | .LIMIT => "LIMIT"

/-- The text a status is stored as. -/
def OrderStatus.text : OrderStatus → String
  | .NEW => "NEW"
  | .FILLED => "FILLED"
  | .REJECTED => "REJECTED"
  | .CANCELLED => "CANCELLED"

theorem OrderStatus.text_injective : Function.Injective OrderStatus.text := by
  intro a b h
  cases a <;> cases b <;> first | rfl | exact absurd h (by decide)

/-- The largest size an order can hold. -/
abbrev MAX_INT4 : Int := maxInt4

/-! ### Sizing -/

/-- What an order is sized from. -/
structure Sizing where
  size : Option Int
  amount : Option Int
  price : Int

/-- The size as sent, or the whole shares `amount` buys at `price`.  The quotient is bounded
    on its operands, so a price of zero is turned away before the division. -/
def resolveSize (s : Sizing) : Except Thrown Int :=
  match s.size, s.amount with
  | some _, some _ | none, none => .error (.orderRuleError "Send exactly one of size or amount")
  | some size, none => .ok size
  | none, some amount =>
    if amount < s.price then
      .error (.orderRuleError
        s!"An amount of {apiString amount} buys no share at {apiString s.price}")
    else if amount ≥ s.price * (MAX_INT4 + 1) then
      .error (.orderRuleError
        s!"An amount of {apiString amount} buys more than {MAX_INT4} shares at {apiString s.price}")
    else match bigIntDiv amount s.price with
      | none => .error (.rangeError "Division by zero")
      | some shares => .ok (toNumber shares)

/-- `n` is the whole shares that `amount` buys at `price`, and a size an order can hold. -/
def WholeShares (amount price n : Int) : Prop :=
  1 ≤ n ∧ n ≤ MAX_INT4 ∧ n * price ≤ amount ∧ amount < (n + 1) * price

/-- Whole shares are bought at a positive price only. -/
theorem WholeShares.price_pos {amount price n : Int} (h : WholeShares amount price n) :
    0 < price := by
  obtain ⟨-, -, hlow, hhigh⟩ := h
  rw [Int.add_mul, Int.one_mul] at hhigh
  omega

/-- The whole shares an amount buys are its quotient by the price, and a `Number`. -/
theorem WholeShares.eq_tdiv {amount price n : Int} (h : WholeShares amount price n) :
    n = amount.tdiv price ∧ toNumber n = n := by
  have hpos := h.price_pos
  obtain ⟨hone, hmax, hlow, hhigh⟩ := h
  have hcost : 0 ≤ n * price := Int.mul_nonneg (by omega) hpos.le
  constructor
  · rw [Int.tdiv_eq_ediv_of_nonneg (by omega)]
    apply le_antisymm
    · exact (Int.le_ediv_iff_mul_le hpos).mpr hlow
    · exact Int.lt_add_one_iff.mp ((Int.ediv_lt_iff_lt_mul hpos).mpr hhigh)
  · apply toNumber_eq_self
    simp only [MAX_INT4, maxInt4] at hmax
    omega

/-- **The two bounds on the operands are the two ends of the quotient's range.** -/
theorem exists_wholeShares_iff {amount price : Int} :
    (∃ n, WholeShares amount price n) ↔ ¬amount < price ∧ ¬amount ≥ price * (MAX_INT4 + 1) := by
  constructor
  · rintro ⟨n, h⟩
    have hpos := h.price_pos
    obtain ⟨hone, hmax, hlow, hhigh⟩ := h
    constructor
    · have hshare : 1 * price ≤ n * price := Int.mul_le_mul_of_nonneg_right hone hpos.le
      omega
    · have hshares : (n + 1) * price ≤ (MAX_INT4 + 1) * price :=
        Int.mul_le_mul_of_nonneg_right (by omega) hpos.le
      rw [mul_comm price]
      omega
  · rintro ⟨hlow, hhigh⟩
    -- no amount is at once above a price that is not positive and below many times it
    have hpos : 0 < price := by
      simp only [MAX_INT4, maxInt4] at hhigh
      omega
    refine ⟨amount / price, ?_, ?_, Int.ediv_mul_le amount hpos.ne', ?_⟩
    · exact (Int.le_ediv_iff_mul_le hpos).mpr (by omega)
    · apply Int.lt_add_one_iff.mp
      apply (Int.ediv_lt_iff_lt_mul hpos).mpr
      rw [mul_comm]
      omega
    · exact Int.lt_ediv_add_one_mul_self amount hpos

/-- An amount that buys whole shares is sized to them. -/
theorem resolveSize_wholeShares {amount price n : Int} (h : WholeShares amount price n) :
    resolveSize ⟨none, some amount, price⟩ = .ok n := by
  obtain ⟨hlow, hhigh⟩ := exists_wholeShares_iff.mp ⟨n, h⟩
  obtain ⟨heq, hnumber⟩ := h.eq_tdiv
  simp only [resolveSize, if_neg hlow, if_neg hhigh, bigIntDiv_of_ne_zero h.price_pos.ne', ← heq,
    hnumber]

/-- Any other is turned away, by a message that names it. -/
theorem resolveSize_turnedAway {amount price : Int} (h : ¬∃ n, WholeShares amount price n) :
    ∃ rest, resolveSize ⟨none, some amount, price⟩ =
      .error (.orderRuleError ("An amount of " ++ rest)) := by
  rw [exists_wholeShares_iff] at h
  by_cases hlow : amount < price
  · refine ⟨apiString amount ++ (" buys no share at " ++ apiString price), ?_⟩
    simp only [resolveSize, if_pos hlow, ← String.append_assoc]
    rfl
  · have hhigh : amount ≥ price * (MAX_INT4 + 1) := by
      by_contra hnot
      exact h ⟨hlow, hnot⟩
    refine ⟨apiString amount ++ (" buys more than " ++ (toString MAX_INT4 ++
      (" shares at " ++ apiString price))), ?_⟩
    simp only [resolveSize, if_neg hlow, if_pos hhigh, ← String.append_assoc]
    rfl

/-- **Sizing by an amount is the exact floor.**  It answers the whole shares the amount buys, by a
    division by a positive price whose quotient is a `Number` as it is, and turns away exactly the
    amounts that buy no number of shares an order can hold. -/
theorem resolveSize_amount (amount price : Int) :
    (∀ n, resolveSize ⟨none, some amount, price⟩ = .ok n ↔ WholeShares amount price n) ∧
      ((∃ message, resolveSize ⟨none, some amount, price⟩ = .error (.orderRuleError message)) ↔
        ¬∃ n, WholeShares amount price n) ∧
      ∀ n, WholeShares amount price n → bigIntDiv amount price = some n ∧ toNumber n = n := by
  have hdivides : ∀ n, WholeShares amount price n →
      bigIntDiv amount price = some n ∧ toNumber n = n := by
    intro n hn
    obtain ⟨heq, hnumber⟩ := hn.eq_tdiv
    exact ⟨by rw [bigIntDiv_of_ne_zero hn.price_pos.ne', ← heq], hnumber⟩
  by_cases hshares : ∃ n, WholeShares amount price n
  · obtain ⟨n, hn⟩ := hshares
    rw [resolveSize_wholeShares hn]
    refine ⟨fun k => ⟨?_, fun hk => ?_⟩, ?_, hdivides⟩
    · rintro ⟨⟩
      exact hn
    · rw [hn.eq_tdiv.1, hk.eq_tdiv.1]
    · simpa using ⟨n, hn⟩
  · obtain ⟨rest, herror⟩ := resolveSize_turnedAway hshares
    rw [herror]
    refine ⟨fun k => ⟨?_, fun hk => ?_⟩, ?_, hdivides⟩
    · rintro ⟨⟩
    · exact absurd ⟨k, hk⟩ hshares
    · simpa using hshares

/-- The first guard fires on the sizings that name neither or both, and nothing else says so. -/
theorem resolveSize_exactlyOne_iff (s : Sizing) :
    resolveSize s = .error (.orderRuleError "Send exactly one of size or amount") ↔
      s.size.isSome = s.amount.isSome := by
  obtain ⟨size, amount, price⟩ := s
  cases size with
  | some size => cases amount <;> simp [resolveSize]
  | none =>
    cases amount with
    | none => simp [resolveSize]
    | some amount =>
      by_cases hshares : ∃ n, WholeShares amount price n
      · obtain ⟨n, hn⟩ := hshares
        simp [resolveSize_wholeShares hn]
      · obtain ⟨rest, herror⟩ := resolveSize_turnedAway hshares
        have hmessage : "An amount of " ++ rest ≠ "Send exactly one of size or amount" := by
          intro h
          have hhead := congrArg (fun m : String => m.toList.head?) h
          simp at hhead
        simp [herror, hmessage]

/-- A resolved size is one an order can hold, if the size that was sent is. -/
theorem resolveSize_bounds {s : Sizing} {n : Int}
    (hsize : ∀ size, s.size = some size → 1 ≤ size ∧ size ≤ MAX_INT4)
    (h : resolveSize s = .ok n) : 1 ≤ n ∧ n ≤ MAX_INT4 := by
  obtain ⟨size, amount, price⟩ := s
  cases size with
  | some size =>
    cases amount with
    | some amount => exact absurd h (by simp [resolveSize])
    | none =>
      rw [resolveSize, Except.ok.injEq] at h
      exact h ▸ hsize size rfl
  | none =>
    cases amount with
    | none => exact absurd h (by simp [resolveSize])
    | some amount =>
      by_cases hshares : ∃ k, WholeShares amount price k
      · obtain ⟨k, hk⟩ := hshares
        rw [resolveSize_wholeShares hk, Except.ok.injEq] at h
        exact h ▸ ⟨hk.1, hk.2.1⟩
      · obtain ⟨rest, herror⟩ := resolveSize_turnedAway hshares
        rw [herror] at h
        cases h

/-! ### The decision -/

/-- What an order is decided from. -/
structure Placement where
  side : Side
  type : OrderType
  price : Option Int
  close : Int
  availableCash : Int
  heldShares : Int
  size : Int

/-- How an order was decided, and at which price. -/
structure Decision where
  status : OrderStatus
  price : Int
deriving DecidableEq, Repr

namespace Placement

/-- The price an order executes at: a LIMIT order's own, the latest close otherwise. -/
def executed (p : Placement) : Int :=
  match p.type, p.price with
  | .LIMIT, some price => price
  | _, _ => p.close

/-- The cash covers the buy, or the held shares cover the sell. -/
def covered (p : Placement) : Bool :=
  match p.side with
  | .BUY => p.availableCash ≥ p.executed * p.size
  | .SELL => p.heldShares ≥ p.size

/-- A covered order is filled or rests, by its type; any other is rejected. -/
def decide (p : Placement) : Decision :=
  let accepted : OrderStatus := match p.type with
    | .MARKET => .FILLED
    | .LIMIT => .NEW
  ⟨if p.covered then accepted else .REJECTED, p.executed⟩

@[simp] theorem decide_price (p : Placement) : p.decide.price = p.executed := rfl

/-- Only a covered MARKET order is filled. -/
theorem decide_status_eq_filled (p : Placement) :
    p.decide.status = .FILLED ↔ p.type = .MARKET ∧ p.covered = true := by
  unfold decide
  cases p.type <;> cases p.covered <;> simp

/-- The status of a MARKET order is one of two, and so is that of a LIMIT order. -/
theorem decide_status_cases (p : Placement) :
    (p.type = .MARKET ∧ (p.decide.status = .FILLED ∨ p.decide.status = .REJECTED)) ∨
      (p.type = .LIMIT ∧ (p.decide.status = .NEW ∨ p.decide.status = .REJECTED)) := by
  unfold decide
  cases p.type <;> cases p.covered <;> simp

/-- A MARKET order executes at the close. -/
theorem executed_of_market {p : Placement} (h : p.type = .MARKET) : p.executed = p.close := by
  simp [executed, h]

end Placement

/-! ### Transitions -/

/-- `TRANSITIONS`: the statuses each status may be followed by. -/
def TRANSITIONS : OrderStatus → List OrderStatus
  | .NEW => [.CANCELLED]
  | .FILLED => []
  | .REJECTED => []
  | .CANCELLED => []

/-- Whether an order in the first status may go to the second. -/
def canTransition (current next : OrderStatus) : Bool := (TRANSITIONS current).contains next

/-- The statuses an order can be cancelled from. -/
def CANCELLABLE : List OrderStatus :=
  ORDER_STATUSES.filter fun status => canTransition status .CANCELLED

/-- A resting order is the only one that can be cancelled. -/
theorem CANCELLABLE_eq : CANCELLABLE = [.NEW] := by decide

end Cocos
