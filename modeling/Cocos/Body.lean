import Cocos.PlaceOrderDto

namespace Cocos

open Cocos.Lib

/-!
# Bodies as they are sent

The body of `POST /orders` before anything is known of it: each field may be missing, and hold
any JSON value.  `src/orders/place-order.dto.ts` turns away what is no order.

* `Json`, `Body` — the values a field can hold, and the fields that are looked at;
* `ClassValidator` — what the validators take from their library, which counts the decimals of a
  number off its text, and throws where the text has none to count;
* `Body.passes` — the validators, each on the raw values;
* `Body.order` — the order a body spells;
* `passes_iff` — **what passes is the valid orders**, whatever else the fields could hold.
-/

/-- A JSON value.  Nothing looks into the nested ones. -/
inductive Json
  | null
  | boolean
  /-- A finite number, as the decimal its `String()` prints. -/
  | number (value : Decimal)
  /-- A literal past the largest double. -/
  | infinite (negative : Bool)
  | string (text : String)
  | array
  | object
deriving DecidableEq

/-- The fields of a body; a missing one is `undefined`. -/
structure Body where
  userId : Option Json
  instrumentId : Option Json
  side : Option Json
  type : Option Json
  price : Option Json
  size : Option Json
  amount : Option Json

/-- How the decimals of a number are counted: those of its text, where it is in plain notation. -/
structure ClassValidator where
  decimalPlaces : Decimal → Except Thrown Nat
  decimalPlaces_plain : ∀ d : Decimal, -7 < d.exponent → d.exponent < 21 →
    decimalPlaces d = .ok d.scale

/-- `MIN_MONEY`. -/
def MIN_MONEY : Decimal := .ofHundredths 1

/-- `MAX_MONEY`. -/
def MAX_MONEY : Decimal := .ofHundredths 9999999999

/-- `SIDES`. -/
def SIDES : List Side := [.BUY, .SELL]

/-- `ORDER_TYPES`. -/
def ORDER_TYPES : List OrderType := [.MARKET, .LIMIT]

namespace Body

/-! ### The validators -/

/-- `@IsInt()`. -/
def isInt : Option Json → Bool
  | some (.number d) => d.scale = 0
  | _ => false

/-- `@IsPositive()`. -/
def isPositive : Option Json → Bool
  | some (.number d) => 0 < d.mantissa
  | some (.infinite negative) => !negative
  | _ => false

/-- `@Max(max)`, of a whole number. -/
def max (max : Int) : Option Json → Bool
  | some (.number d) => d.mantissa ≤ max * 10 ^ d.scale
  | some (.infinite negative) => negative
  | _ => false

/-- `@IsIn(values)`. -/
def isIn (values : List String) : Option Json → Bool
  | some (.string text) => values.contains text
  | _ => false

/-- `isMoney`: the range before the decimals, which are not to be counted outside of it. -/
def isMoney (lib : ClassValidator) : Option Json → Except Thrown Bool
  | some (.number d) =>
    if MIN_MONEY ≤ d ∧ d ≤ MAX_MONEY then (lib.decimalPlaces d).map fun places => places ≤ 2
    else .ok false
  | _ => .ok false

/-- `isSize`. -/
def isSize (value : Option Json) : Bool :=
  match value with
  | some (.number d) =>
    d.scale = 0 ∧ 10 ^ d.scale ≤ d.mantissa ∧ d.mantissa ≤ MAX_INT4 * 10 ^ d.scale
  | _ => false

/-- The three validators of an id. -/
def isId (value : Option Json) : Bool := isInt value && isPositive value && max MAX_INT4 value

/-- `LimitPrice`. -/
def limitPrice (lib : ClassValidator) (b : Body) : Except Thrown Bool :=
  if b.type = some (.string OrderType.LIMIT.text) then isMoney lib b.price else .ok b.price.isNone

/-- `SizeOrAmount`. -/
def sizeOrAmount (b : Body) : Bool :=
  if b.size.isNone then b.amount.isSome else b.amount.isNone && isSize b.size

/-- `Money`. -/
def money (lib : ClassValidator) (value : Option Json) : Except Thrown Bool :=
  if value.isNone then .ok true else isMoney lib value

/-- Every validator of every field passes; one that throws fails the request. -/
def passes (lib : ClassValidator) (b : Body) : Except Thrown Bool := do
  let price ← b.limitPrice lib
  let amount ← money lib b.amount
  return isId b.userId && isId b.instrumentId && isIn (SIDES.map Side.text) b.side &&
    isIn (ORDER_TYPES.map OrderType.text) b.type && price && b.sizeOrAmount && amount

/-! ### The order a body spells -/

/-- A number. -/
def decimal : Json → Option Decimal
  | .number d => some d
  | _ => none

/-- A whole number. -/
def whole : Json → Option Int
  | .number d => if d.scale = 0 then some d.mantissa else none
  | _ => none

/-- One of several values, by its text. -/
def oneOf {α : Type} (values : List α) (text : α → String) : Json → Option α
  | .string s => values.find? fun a => text a = s
  | _ => none

/-- A field that may be missing. -/
def optional {α : Type} (read : Json → Option α) : Option Json → Option (Option α)
  | none => some none
  | some value => (read value).map some

/-- The order a body spells, if each field holds what an order has there. -/
def order (b : Body) : Option PlaceOrderDto := do
  let userId ← b.userId.bind whole
  let instrumentId ← b.instrumentId.bind whole
  let side ← b.side.bind (oneOf SIDES Side.text)
  let type ← b.type.bind (oneOf ORDER_TYPES OrderType.text)
  let price ← optional decimal b.price
  let size ← optional whole b.size
  let amount ← optional decimal b.amount
  return ⟨userId, instrumentId, side, type, price, size, amount⟩

theorem order_eq_some {b : Body} {o : PlaceOrderDto} :
    b.order = some o ↔ b.userId.bind whole = some o.userId ∧
      b.instrumentId.bind whole = some o.instrumentId ∧
      b.side.bind (oneOf SIDES Side.text) = some o.side ∧
      b.type.bind (oneOf ORDER_TYPES OrderType.text) = some o.type ∧
      optional decimal b.price = some o.price ∧ optional whole b.size = some o.size ∧
      optional decimal b.amount = some o.amount := by
  simp only [order, bind, pure, Option.bind_eq_some_iff, Option.some.injEq]
  constructor
  · rintro ⟨_, hu, _, hi, _, hs, _, ht, _, hp, _, hz, _, ha, rfl⟩
    exact ⟨hu, hi, hs, ht, hp, hz, ha⟩
  · rintro ⟨hu, hi, hs, ht, hp, hz, ha⟩
    exact ⟨_, hu, _, hi, _, hs, _, ht, _, hp, _, hz, _, ha, rfl⟩

/-! ### What passes -/

section Fields

variable (lib : ClassValidator) (value : Option Json)

theorem isId_iff :
    isId value = true ↔ ∃ id, value.bind whole = some id ∧ PlaceOrderDto.isId id = true := by
  rcases value with _ | (_ | _ | d | _ | _ | _ | _)
  case some.number =>
    by_cases h : d.scale = 0 <;> simp [isId, isInt, isPositive, max, whole, PlaceOrderDto.isId, h]
  all_goals simp [isId, isInt, whole]

theorem isIn_iff {α : Type} (values : List α) (text : α → String) :
    isIn (values.map text) value = true ↔ ∃ a, value.bind (oneOf values text) = some a := by
  rcases value with _ | (_ | _ | _ | _ | s | _ | _)
  case some.string =>
    simp [isIn, oneOf, ← Option.isSome_iff_exists, List.find?_isSome]
  all_goals simp [isIn, oneOf]

/-- **The range comes first**, so the decimals that are counted are there to count. -/
theorem isMoney_number (d : Decimal) : isMoney lib (some (.number d)) = .ok (Cocos.isMoney d) := by
  have hlow : MIN_MONEY ≤ d ↔ 10 ^ d.scale ≤ 100 * d.mantissa := by
    show (1 : Int) * 10 ^ d.scale ≤ d.mantissa * 10 ^ 2 ↔ _
    omega
  have hhigh : d ≤ MAX_MONEY ↔ 100 * d.mantissa ≤ 9999999999 * 10 ^ d.scale := by
    show d.mantissa * 10 ^ 2 ≤ (9999999999 : Int) * 10 ^ d.scale ↔ _
    omega
  simp only [isMoney, Cocos.isMoney, hlow, hhigh]
  by_cases h : 10 ^ d.scale ≤ 100 * d.mantissa ∧ 100 * d.mantissa ≤ 9999999999 * 10 ^ d.scale
  · obtain ⟨hmin, hmax⟩ := Decimal.exponent_of_mem_range h.1 h.2
    simp [h, lib.decimalPlaces_plain d hmin hmax, Except.map]
  · rw [if_neg h]
    congr 1
    symm
    rw [decide_eq_false_iff_not]
    exact fun hall => h ⟨hall.1, hall.2.1⟩

/-- No value makes `isMoney` throw, and it passes the money. -/
theorem isMoney_eq :
    isMoney lib value = .ok ((value.bind decimal).any Cocos.isMoney) := by
  rcases value with _ | (_ | _ | d | _ | _ | _ | _)
  case some.number => exact isMoney_number lib d
  all_goals rfl

theorem isSize_iff :
    isSize value = true ↔ ∃ size, value.bind whole = some size ∧ Cocos.isSize size = true := by
  rcases value with _ | (_ | _ | d | _ | _ | _ | _)
  case some.number =>
    by_cases h : d.scale = 0 <;> simp [isSize, Cocos.isSize, whole, h]
  all_goals simp [isSize, whole]

end Fields

/-- The validators come to an answer on every body. -/
theorem passes_eq (lib : ClassValidator) (b : Body) :
    b.passes lib = .ok (isId b.userId && isId b.instrumentId && isIn (SIDES.map Side.text) b.side &&
      isIn (ORDER_TYPES.map OrderType.text) b.type &&
      (if b.type = some (.string OrderType.LIMIT.text) then (b.price.bind decimal).any Cocos.isMoney
        else b.price.isNone) &&
      b.sizeOrAmount && (b.amount.isNone || (b.amount.bind decimal).any Cocos.isMoney)) := by
  have hprice : b.limitPrice lib = .ok (if b.type = some (.string OrderType.LIMIT.text) then
      (b.price.bind decimal).any Cocos.isMoney else b.price.isNone) := by
    unfold limitPrice
    rw [isMoney_eq]
    split <;> rfl
  have hamount : money lib b.amount =
      .ok (b.amount.isNone || (b.amount.bind decimal).any Cocos.isMoney) := by
    unfold money
    rw [isMoney_eq]
    cases b.amount <;> rfl
  simp only [passes, hprice, hamount, bind, Except.bind, pure, Except.pure]

/-- A field is read as missing when it is, and as a value when that can be read. -/
theorem optional_eq_some {α : Type} {read : Json → Option α} {value : Option Json}
    {a : Option α} : optional read value = some a ↔
      (value = none ∧ a = none) ∨ ∃ x, value.bind read = some x ∧ a = some x := by
  cases value with
  | none => simp [optional, eq_comm]
  | some v => simp [optional, Option.map_eq_some_iff, eq_comm]

/-- A field that is read is read as present when it is present. -/
theorem isSome_of_optional {α : Type} {read : Json → Option α} {value : Option Json}
    {a : Option α} (h : optional read value = some a) : value.isSome = a.isSome := by
  cases value with
  | none => simp [← Option.some.inj h]
  | some v =>
    obtain ⟨x, -, rfl⟩ := Option.map_eq_some_iff.mp h
    rfl

/-- A value that was found by its text is that text. -/
theorem eq_text_of_oneOf {α : Type} {values : List α} {text : α → String} {value : Option Json}
    {a : α} (h : value.bind (oneOf values text) = some a) : value = some (.string (text a)) := by
  obtain ⟨v, rfl, hv⟩ := Option.bind_eq_some_iff.mp h
  cases v with
  | string s =>
    have := List.find?_some hv
    rw [of_decide_eq_true this]
  | _ => cases hv

/-- **A body that passes spells an order.** -/
theorem exists_order_of_passes {lib : ClassValidator} {b : Body} (h : b.passes lib = .ok true) :
    ∃ o, b.order = some o := by
  rw [passes_eq, Except.ok.injEq] at h
  simp only [Bool.and_eq_true, Bool.or_eq_true] at h
  obtain ⟨⟨⟨⟨⟨⟨huser, hinstrument⟩, hside⟩, htype⟩, hprice⟩, hsize⟩, hamount⟩ := h
  obtain ⟨userId, huser, -⟩ := (isId_iff _).mp huser
  obtain ⟨instrumentId, hinstrument, -⟩ := (isId_iff _).mp hinstrument
  obtain ⟨side, hside⟩ := (isIn_iff _ SIDES _).mp hside
  obtain ⟨type, htype⟩ := (isIn_iff _ ORDER_TYPES _).mp htype
  have hprice' : ∃ price, optional decimal b.price = some price := by
    split at hprice
    · obtain ⟨d, hd, -⟩ := Option.any_eq_true _ _ |>.mp hprice
      exact ⟨_, optional_eq_some.mpr (.inr ⟨d, hd, rfl⟩)⟩
    · exact ⟨_, optional_eq_some.mpr (.inl ⟨Option.isNone_iff_eq_none.mp hprice, rfl⟩)⟩
  have hsize' : ∃ size, optional whole b.size = some size := by
    unfold sizeOrAmount at hsize
    split at hsize
    · rename_i hnone
      exact ⟨_, optional_eq_some.mpr (.inl ⟨Option.isNone_iff_eq_none.mp hnone, rfl⟩)⟩
    · rw [Bool.and_eq_true] at hsize
      obtain ⟨size, hs, -⟩ := (isSize_iff _).mp hsize.2
      exact ⟨_, optional_eq_some.mpr (.inr ⟨size, hs, rfl⟩)⟩
  have hamount' : ∃ amount, optional decimal b.amount = some amount := by
    rcases hamount with hnone | hmoney
    · exact ⟨_, optional_eq_some.mpr (.inl ⟨Option.isNone_iff_eq_none.mp hnone, rfl⟩)⟩
    · obtain ⟨d, hd, -⟩ := Option.any_eq_true _ _ |>.mp hmoney
      exact ⟨_, optional_eq_some.mpr (.inr ⟨d, hd, rfl⟩)⟩
  obtain ⟨price, hprice'⟩ := hprice'
  obtain ⟨size, hsize'⟩ := hsize'
  obtain ⟨amount, hamount'⟩ := hamount'
  exact ⟨⟨userId, instrumentId, side, type, price, size, amount⟩, order_eq_some.mpr
    ⟨huser, hinstrument, hside, htype, hprice', hsize', hamount'⟩⟩

/-- **Of a body that spells an order the validators say what they say of the order.** -/
theorem passes_of_order {b : Body} {o : PlaceOrderDto} (h : b.order = some o)
    (lib : ClassValidator) : b.passes lib = .ok o.valid := by
  obtain ⟨huser, hinstrument, hside, htype, hprice, hsize, hamount⟩ := order_eq_some.mp h
  have hids : ∀ {value : Option Json} {id : Int}, value.bind whole = some id →
      isId value = PlaceOrderDto.isId id := by
    intro value id hvalue
    rw [Bool.eq_iff_iff, isId_iff, hvalue]
    simp
  have hlimit : (if b.type = some (.string OrderType.LIMIT.text) then
      (b.price.bind decimal).any Cocos.isMoney else b.price.isNone) = o.limitPrice := by
    rw [eq_text_of_oneOf htype]
    unfold PlaceOrderDto.limitPrice
    rcases optional_eq_some.mp hprice with ⟨hnone, hp⟩ | ⟨d, hd, hp⟩
    · rw [hp, hnone]
      cases o.type <;> simp [OrderType.text]
    · obtain ⟨v, hv, -⟩ := Option.bind_eq_some_iff.mp hd
      rw [hp, hd, hv]
      cases o.type <;> simp [OrderType.text]
  have hsized : b.sizeOrAmount = o.sizeOrAmount := by
    have hamount' : b.amount.isNone = o.amount.isNone := by
      rcases optional_eq_some.mp hamount with ⟨hnone, ha⟩ | ⟨d, hd, ha⟩
      · rw [hnone, ha]
        rfl
      · obtain ⟨v, hv, -⟩ := Option.bind_eq_some_iff.mp hd
        rw [hv, ha]
        rfl
    unfold sizeOrAmount PlaceOrderDto.sizeOrAmount
    rcases optional_eq_some.mp hsize with ⟨hnone, hs⟩ | ⟨n, hn, hs⟩
    · rw [hnone, hs]
      simpa [← Option.not_isNone] using hamount'
    · obtain ⟨v, hv, -⟩ := Option.bind_eq_some_iff.mp hn
      have hfits : isSize b.size = Cocos.isSize n := by
        rw [Bool.eq_iff_iff, isSize_iff, hn]
        simp
      rw [hfits, hv, hs, hamount']
      rfl
  have hmoney : (b.amount.isNone || (b.amount.bind decimal).any Cocos.isMoney) =
      PlaceOrderDto.money o.amount := by
    rcases optional_eq_some.mp hamount with ⟨hnone, ha⟩ | ⟨d, hd, ha⟩
    · rw [hnone, ha]
      rfl
    · obtain ⟨v, hv, -⟩ := Option.bind_eq_some_iff.mp hd
      rw [ha, hd, hv]
      rfl
  rw [passes_eq, hids huser, hids hinstrument, (isIn_iff _ SIDES _).mpr ⟨_, hside⟩,
    (isIn_iff _ ORDER_TYPES _).mpr ⟨_, htype⟩, hlimit, hsized, hmoney]
  simp [PlaceOrderDto.valid]

/-- **What passes is the valid orders.** -/
theorem passes_iff (lib : ClassValidator) (b : Body) :
    b.passes lib = .ok true ↔ ∃ o, b.order = some o ∧ o.valid = true := by
  constructor
  · intro h
    obtain ⟨o, ho⟩ := exists_order_of_passes h
    rw [passes_of_order ho lib, Except.ok.injEq] at h
    exact ⟨o, ho, h⟩
  · rintro ⟨o, ho, hvalid⟩
    rw [passes_of_order ho lib, hvalid]

end Body

/-! ### Counting decimals off a text -/

/-- The decimals of a number: none of a whole one, else the characters between the first point of
    its text and the next, if it has a point. -/
def decimalPlacesOfText (d : Decimal) : Except Thrown Nat :=
  if d.scale = 0 then .ok 0
  else match d.text.dropWhile (· ≠ '.') with
    | [] => .error .typeError
    | _ :: decimals => .ok (decimals.takeWhile (· ≠ '.')).length

/-- In plain notation the decimals of a number follow the one point of its text. -/
theorem text_of_scale_ne_zero {d : Decimal} (hscale : d.scale ≠ 0)
    (hplain : -7 < d.exponent ∧ d.exponent < 21) : ∃ before decimals : List Char,
      d.text = before ++ '.' :: decimals ∧ decimals.length = d.scale ∧
        (∀ c ∈ before, c ≠ '.') ∧ ∀ c ∈ decimals, c ≠ '.' := by
  have hdigits : ∀ n, ∀ c ∈ digits n, c ≠ '.' := by
    rintro n c hc rfl
    exact absurd (isDigit_of_mem_digits hc) (by decide)
  refine ⟨signText (d.mantissa < 0) ++ digits (d.mantissa.natAbs / 10 ^ d.scale),
    (digits (d.mantissa.natAbs % 10 ^ d.scale)).leftpad d.scale '0', ?_, ?_, ?_, ?_⟩
  · rw [Decimal.text, if_pos hplain, Decimal.plain, if_neg hscale, List.append_assoc]
  · rw [List.length_leftpad]
    have hfits : (digits (d.mantissa.natAbs % 10 ^ d.scale)).length ≤ d.scale :=
      (Nat.length_toDigits_le_iff (by decide) (by omega)).mpr
        (Nat.mod_lt _ (Nat.pow_pos (by decide)))
    omega
  · intro c hc
    rcases List.mem_append.mp hc with hc | hc
    · unfold signText at hc
      split at hc
      · rw [List.mem_singleton.mp hc]
        decide
      · cases hc
    · exact hdigits _ c hc
  · intro c hc
    rw [List.leftpad, List.mem_append] at hc
    rcases hc with hc | hc
    · rw [List.eq_of_mem_replicate hc]
      decide
    · exact hdigits _ c hc

/-- The validator that counts off the text. -/
def ClassValidator.ofText : ClassValidator where
  decimalPlaces := decimalPlacesOfText
  decimalPlaces_plain d hmin hmax := by
    unfold decimalPlacesOfText
    by_cases hscale : d.scale = 0
    · rw [if_pos hscale, hscale]
    · obtain ⟨before, decimals, htext, hlen, hbefore, hdecimals⟩ :=
        text_of_scale_ne_zero hscale ⟨hmin, hmax⟩
      have hdrop : d.text.dropWhile (· ≠ '.') = '.' :: decimals := by
        rw [htext, List.dropWhile_append_of_pos (by simpa using hbefore)]
        simp
      have htake : decimals.takeWhile (· ≠ '.') = decimals := by
        rw [List.takeWhile_eq_self_iff]
        simpa using hdecimals
      rw [if_neg hscale, hdrop]
      simp only [htake, hlen]

end Cocos
