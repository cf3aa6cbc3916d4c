import Cocos.OrderRules

namespace Cocos

open Cocos.Lib

/-!
# The body of a placement

`src/orders/place-order.dto.ts`: the body of `POST /orders` and the validator every body
passes before a placement sees it.  A number of the body is the decimal its `String()`
prints; a size that is a whole number is an `Int`.

* `PlaceOrderDto.valid` — the conjunction of the validators, field by field;
* `Request` — a body that passed them, with the key it was sent under: what the service is
  called with.
-/

/-- Between `MIN_MONEY` and `MAX_MONEY`, with at most two decimals. -/
def isMoney (value : Decimal) : Bool :=
  10 ^ value.scale ≤ 100 * value.mantissa ∧
    100 * value.mantissa ≤ 9999999999 * 10 ^ value.scale ∧ value.scale ≤ 2

/-- A whole number of shares an order can hold. -/
def isSize (value : Int) : Bool := 1 ≤ value ∧ value ≤ MAX_INT4

/-- The body of a placement. -/
structure PlaceOrderDto where
  userId : Int
  instrumentId : Int
  side : Side
  type : OrderType
  price : Option Decimal
  size : Option Int
  amount : Option Decimal
deriving DecidableEq

namespace PlaceOrderDto

/-- `@IsInt() @IsPositive() @Max(MAX_INT4)`. -/
def isId (id : Int) : Bool := 0 < id ∧ id ≤ MAX_INT4

/-- `LimitPrice`: money on a LIMIT order, absent on a MARKET one. -/
def limitPrice (o : PlaceOrderDto) : Bool :=
  match o.type, o.price with
  | .LIMIT, some price => isMoney price
  | .LIMIT, none => false
  | .MARKET, price => price.isNone

/-- `SizeOrAmount`: exactly one of the two, and the size a whole number of shares. -/
def sizeOrAmount (o : PlaceOrderDto) : Bool :=
  match o.size with
  | none => o.amount.isSome
  | some size => o.amount.isNone && isSize size

/-- `Money`: absent, or money. -/
def money (value : Option Decimal) : Bool := value.all isMoney

/-- Every validator of the body passes. -/
def valid (o : PlaceOrderDto) : Bool :=
  isId o.userId && isId o.instrumentId && o.limitPrice && o.sizeOrAmount && money o.amount

theorem size_bounds {o : PlaceOrderDto} (h : o.valid = true) {size : Int}
    (hs : o.size = some size) : 1 ≤ size ∧ size ≤ MAX_INT4 := by
  simp only [valid, Bool.and_eq_true] at h
  have hsize := h.1.2
  simp only [sizeOrAmount, hs, Bool.and_eq_true, isSize, decide_eq_true_eq] at hsize
  exact hsize.2

end PlaceOrderDto

/-- A validated body and the `Idempotency-Key` it was sent under. -/
structure Request where
  order : PlaceOrderDto
  key : String
  valid : order.valid = true

end Cocos
