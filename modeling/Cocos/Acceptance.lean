import Cocos.Body
import Cocos.Lib.Numeric
import Cocos.MoneyCodec
import Cocos.Orders

namespace Cocos

open Cocos.Lib

/-!
# What the validator accepts, a placement carries

A body that passes goes through the placement without a conversion that throws, an internal check
that trips or a centavo that is lost.

* `Accepted` — what is known of a body that passed, before any table is read;
* `Carried` — what is known of the row it becomes and of the answer it gets;
* `cast_apiString` — money survives the cast of its text and the type of its column;
* `accepted_is_carried` — **every accepted body is carried**.
-/

/-! ### Money on its way -/

/-- Money is a whole number of centavos that the column holds. -/
theorem eq_ofHundredths_of_isMoney {d : Decimal} (h : isMoney d = true) :
    ∃ c, d = .ofHundredths c ∧ 1 ≤ c ∧ c ≤ 9999999999 := by
  obtain ⟨hlow, hhigh, hscale⟩ : 10 ^ d.scale ≤ 100 * d.mantissa ∧
      100 * d.mantissa ≤ 9999999999 * 10 ^ d.scale ∧ d.scale ≤ 2 := of_decide_eq_true h
  refine ⟨_, Decimal.eq_ofHundredths hscale, ?_⟩
  obtain hs | hs | hs : d.scale = 0 ∨ d.scale = 1 ∨ d.scale = 2 := by omega
  all_goals
    rw [hs] at hlow hhigh ⊢
    omega

/-- It is read as that. -/
theorem centavosFromApi_of_isMoney {d : Decimal} (h : isMoney d = true) :
    ∃ c, centavosFromApi d = .ok c ∧ 1 ≤ c ∧ c ≤ 9999999999 := by
  obtain ⟨c, rfl, hlow, hhigh⟩ := eq_ofHundredths_of_isMoney h
  refine ⟨c, ?_, hlow, hhigh⟩
  unfold centavosFromApi
  exact centavosFromDb_toString (by omega)

/-- **Money survives the cast of its text and the type of its column.** -/
theorem cast_apiString (numeric : NumericCast) {c : Int} (h : c.natAbs ≤ 9999999999) :
    (numeric.read (apiString c)).bind (numericColumn 10 2) = some c := by
  obtain ⟨n, -, htext, hvalue⟩ := exists_canonical_apiString c
  rw [← htext, numeric.read_numeral, Option.bind_some]
  refine numericColumn_units ?_ (by omega)
  rw [← hvalue]
  ring

/-- An optional money of a body is read, and is present in centavos when it is in the body. -/
theorem centavos_of_money {value : Option Decimal} (h : PlaceOrderDto.money value = true) :
    ∃ c, centavos value = .ok c ∧ c.isSome = value.isSome ∧
      ∀ x, c = some x → 1 ≤ x ∧ x ≤ 9999999999 := by
  cases value with
  | none => exact ⟨none, rfl, rfl, by simp⟩
  | some d =>
    obtain ⟨c, hc, hlow, hhigh⟩ := centavosFromApi_of_isMoney h
    refine ⟨some c, by rw [centavos, hc, Except.map], rfl, ?_⟩
    rintro x ⟨⟩
    exact ⟨hlow, hhigh⟩

namespace PlaceOrderDto

variable {o : PlaceOrderDto}

/-- A price that passed is money, whether or not there is one. -/
theorem money_price (h : o.valid = true) : money o.price = true := by
  simp only [valid, Bool.and_eq_true] at h
  have hprice := h.1.1.2
  unfold limitPrice at hprice
  unfold money
  cases ht : o.type <;> cases hp : o.price <;> simp_all

theorem price_isSome_iff (h : o.valid = true) : o.price.isSome ↔ o.type = .LIMIT := by
  simp only [valid, Bool.and_eq_true] at h
  have hprice := h.1.1.2
  unfold limitPrice at hprice
  cases ht : o.type <;> cases hp : o.price <;> simp_all

theorem money_amount (h : o.valid = true) : money o.amount = true := by
  simp only [valid, Bool.and_eq_true] at h
  exact h.2

theorem isSome_size_ne (h : o.valid = true) : o.size.isSome ≠ o.amount.isSome := by
  simp only [valid, Bool.and_eq_true] at h
  have hsize := h.1.2
  unfold sizeOrAmount at hsize
  cases hs : o.size <;> cases ha : o.amount <;> simp_all

end PlaceOrderDto

/-- What a valid order is sized from: its prices are money, and it names a size or an amount. -/
theorem sized_of_valid {o : PlaceOrderDto} (h : o.valid = true) (close : Int) :
    ∃ price amount, centavos o.price = .ok price ∧ price.isSome = o.price.isSome ∧
      (∀ x, price = some x → 1 ≤ x ∧ x ≤ 9999999999) ∧ amount.isSome ≠ o.size.isSome ∧
      sized o close = (resolveSize ⟨o.size, amount, price.getD close⟩).map
        fun size => ⟨close, price, size⟩ := by
  obtain ⟨price, hprice, hsome, hbounds⟩ := centavos_of_money (PlaceOrderDto.money_price h)
  obtain ⟨amount, hamount, hsome', -⟩ := centavos_of_money (PlaceOrderDto.money_amount h)
  refine ⟨price, amount, hprice, hsome, hbounds, ?_, ?_⟩
  · rw [hsome']
    exact (PlaceOrderDto.isSome_size_ne h).symm
  · simp only [sized, hprice, hamount, bind, Except.bind, pure, Except.pure]
    cases resolveSize ⟨o.size, amount, price.getD close⟩ <;> rfl

/-! ### The row -/

/-- What is known of a body that passed, before any table is read. -/
structure Accepted (b : Body) (o : PlaceOrderDto) : Prop where
  spelled : b.order = some o
  one_size : b.size.isSome ≠ b.amount.isSome
  price_iff : b.price.isSome ↔ b.type = some (.string "LIMIT")
  money : ∀ d, o.price = some d ∨ o.amount = some d →
    ∃ c, centavosFromApi d = .ok c ∧ 1 ≤ c ∧ c ≤ 9999999999
  sizing : ∀ close, sized o close ≠ .error (.orderRuleError "Send exactly one of size or amount")

/-- What is known of the row an order at this close becomes, and of its answer. -/
structure Carried (numeric : NumericCast) (o : PlaceOrderDto) (close : Int) (row : OrderRow)
    (answer : OrderView) : Prop where
  size : ∃ n, row.size = some n ∧ 1 ≤ n ∧ n ≤ MAX_INT4
  price : ∃ c, row.price = some c ∧ 0 ≤ c ∧ c ≤ 9999999999 ∧
    (o.type = .LIMIT → ∃ d, o.price = some d ∧ centavosFromApi d = .ok c) ∧
    (o.type = .MARKET → c = close) ∧
    (numeric.read (apiString c)).bind (numericColumn 10 2) = some c ∧ answer.price = apiString c

/-- A body that passed is accepted. -/
theorem accepted_of_passes {lib : ClassValidator} {b : Body} (h : b.passes lib = .ok true) :
    ∃ o, Accepted b o ∧ o.valid = true := by
  obtain ⟨o, ho, hvalid⟩ := (Body.passes_iff lib b).mp h
  obtain ⟨-, -, -, htype, hprice, hsize, hamount⟩ := Body.order_eq_some.mp ho
  refine ⟨o, ⟨ho, ?_, ?_, ?_, ?_⟩, hvalid⟩
  · rw [Body.isSome_of_optional hsize, Body.isSome_of_optional hamount]
    exact PlaceOrderDto.isSome_size_ne hvalid
  · rw [Body.isSome_of_optional hprice, PlaceOrderDto.price_isSome_iff hvalid,
      Body.eq_text_of_oneOf htype]
    cases o.type <;> simp [OrderType.text]
  · rintro d (hd | hd)
    · have hmoney := PlaceOrderDto.money_price hvalid
      rw [hd] at hmoney
      exact centavosFromApi_of_isMoney hmoney
    · have hmoney := PlaceOrderDto.money_amount hvalid
      rw [hd] at hmoney
      exact centavosFromApi_of_isMoney hmoney
  · intro close herror
    obtain ⟨price, amount, -, -, -, hone, hsized⟩ := sized_of_valid hvalid close
    rw [hsized] at herror
    cases hresolved : resolveSize ⟨o.size, amount, price.getD close⟩ with
    | ok n => simp [hresolved, Except.map] at herror
    | error thrown =>
      simp only [hresolved, Except.map, Except.error.injEq] at herror
      rw [herror, resolveSize_exactlyOne_iff] at hresolved
      exact hone hresolved.symm

/-- The close an instrument is traded at, from its quote. -/
theorem tradableClose_of_quote {m : Market} {i close : Int} {type : Option String}
    (hquote : quote m i = some ⟨type, some close⟩) (htype : type ≠ some "MONEDA")
    (hfits : close.natAbs ≤ 9999999999) : tradableClose m i = .ok close := by
  simp only [tradableClose, hquote, if_neg htype]
  exact centavosFromDb_toString (by omega)

/-- The row of a placement that went through its readings, and its answer. -/
theorem carried_of_readings (numeric : NumericCast) {m : Market} {orders : Orders} {r : Request}
    {q : Sized} {cash held id : Int} {now : Timestamp} {answer : OrderView}
    (hread : Readings m orders r q cash held) (hlow : 0 ≤ q.close) (hhigh : q.close ≤ 9999999999)
    (hview : view ((newOrder r q cash held).row id now) = .ok answer) :
    Carried numeric r.order q.close ((newOrder r q cash held).row id now) answer := by
  obtain ⟨price, amount, hprice, hsome, hbounds, -, hsized⟩ := sized_of_valid r.valid q.close
  have hlimit : q.limitPrice = price := by
    have hq := hread.sized
    rw [hsized] at hq
    cases hresolved : resolveSize ⟨r.order.size, amount, price.getD q.close⟩ with
    | error thrown => simp [hresolved, Except.map] at hq
    | ok n =>
      simp only [hresolved, Except.map, Except.ok.injEq] at hq
      rw [← hq]
  obtain ⟨c, datetime, hc, -, rfl⟩ := view_eq_ok hview
  have hrow : c = (placement r.order q cash held).executed := (Option.some.inj hc).symm
  refine ⟨⟨q.size, rfl, sized_size_bounds r.valid hread.sized⟩, c, hc, ?_⟩
  have hpriced : 0 ≤ c ∧ c ≤ 9999999999 ∧
      (r.order.type = .LIMIT → ∃ d, r.order.price = some d ∧ centavosFromApi d = .ok c) ∧
      (r.order.type = .MARKET → c = q.close) := by
    rw [hrow]
    unfold Placement.executed placement
    cases ht : r.order.type with
    | MARKET => simp [hlow, hhigh]
    | LIMIT =>
      obtain ⟨d, hd⟩ :=
        Option.isSome_iff_exists.mp ((PlaceOrderDto.price_isSome_iff r.valid).mpr ht)
      obtain ⟨x, hx⟩ := Option.isSome_iff_exists.mp (hsome.trans (by rw [hd]; rfl))
      have hread' : centavosFromApi d = .ok x := by
        rw [hd, hx, centavos] at hprice
        cases hapi : centavosFromApi d <;> simp_all [Except.map]
      have := hbounds x hx
      simp only [hlimit, hx, reduceCtorEq, false_implies, and_true]
      exact ⟨by omega, this.2, fun _ => ⟨d, hd, hread'⟩⟩
  obtain ⟨hnonneg, hfits, hlimited, hmarket⟩ := hpriced
  exact ⟨hnonneg, hfits, hlimited, hmarket, cast_apiString numeric (by omega), rfl⟩

/-- **Every accepted body is carried.** -/
theorem accepted_is_carried (lib : ClassValidator) (numeric : NumericCast) {b : Body}
    (hpasses : b.passes lib = .ok true) :
    ∃ o, Accepted b o ∧ ∃ hvalid : o.valid = true,
      ∀ (m : Market) (type : Option String) (close : Int),
        quote m o.instrumentId = some ⟨type, some close⟩ → type ≠ some "MONEDA" → 0 ≤ close →
        close ≤ 9999999999 → ∀ key id now orders row,
          (place m ⟨o, key, hvalid⟩ id now orders).2 = orders ++ [row] →
          ∃ answer, (place m ⟨o, key, hvalid⟩ id now orders).1 = .ok ⟨answer, false⟩ ∧
            Carried numeric o close row answer := by
  obtain ⟨o, haccepted, hvalid⟩ := accepted_of_passes hpasses
  refine ⟨o, haccepted, hvalid, ?_⟩
  intro m type close hquote htype hlow hhigh key id now orders row hrow
  rcases place_cases m ⟨o, key, hvalid⟩ id now orders with
    ⟨thrown, h⟩ | ⟨_, _, -, -, h⟩ | ⟨q, cash, held, answer, hread, -, hview, h⟩
  · simp [h] at hrow
  · simp [h] at hrow
  · rw [h] at hrow ⊢
    obtain rfl := List.singleton_inj.mp (List.append_cancel_left hrow)
    have hclose : q.close = close := by
      have htrade := tradableClose_of_quote hquote htype (by omega)
      exact Except.ok.inj (hread.close.symm.trans htrade)
    subst hclose
    exact ⟨answer, rfl, carried_of_readings numeric hread hlow hhigh hview⟩

/-- A body that buys for 1.20 pesos at 0.50 or less, and names no size. -/
def amountBody : Body where
  userId := some (.number (.ofHundredths 100))
  instrumentId := some (.number (.ofHundredths 100))
  side := some (.string "BUY")
  type := some (.string "LIMIT")
  price := some (.number (.ofHundredths 50))
  size := none
  amount := some (.number (.ofHundredths 120))

/-- The order it spells, and the row that becomes at a close of one peso. -/
def amountOrder : PlaceOrderDto :=
  ⟨1, 1, .BUY, .LIMIT, some (.ofHundredths 50), none, some (.ofHundredths 120)⟩

def amountRow : OrderRow :=
  ⟨2, some 1, some 1, some 2, some 50, some "LIMIT", some "BUY", some "NEW", some 7, some "a"⟩

/-- It rests as an order for two shares at 0.50. -/
theorem accepted_is_carried_amountBody : ∃ answer, Accepted amountBody amountOrder ∧
    Carried .parsed amountOrder 100 amountRow answer ∧ answer.price = apiString 50 := by
  obtain ⟨o, haccepted, hvalid, hcarried⟩ := accepted_is_carried .ofText .parsed (b := amountBody)
    (by rw [Body.passes_eq]; decide +kernel)
  have ho : amountBody.order = some amountOrder := by decide +kernel
  obtain rfl := Option.some.inj (haccepted.spelled.symm.trans ho)
  have hplace : (place (marketAt 100) ⟨amountOrder, "a", by decide +kernel⟩ 2 7 [deposit 5]).2 =
      [deposit 5] ++ [amountRow] := by decide +kernel
  obtain ⟨answer, -, hrow⟩ := hcarried (marketAt 100) (some "ACCIONES") 100 rfl (by decide)
    (by decide) (by decide) "a" 2 7 [deposit 5] amountRow hplace
  refine ⟨answer, haccepted, hrow, ?_⟩
  obtain ⟨c, hc, -, -, -, -, -, hprice⟩ := hrow.price
  rw [hprice, ← Option.some.inj hc]

end Cocos
