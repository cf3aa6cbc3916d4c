import Cocos.Lib.Double
import Cocos.Lib.JsMap
import Cocos.Account
import Cocos.Money

namespace Cocos.Tools

open Cocos.Lib

/-!
# The shadow ledger

`tools/src/simulation/shadow-ledger.ts`: what the harness believes each of its users holds, and
what it therefore expects the target to answer.  An order that is sent is *reserved*; its answer
*settles* it, and an answer that never came *loses* it.

* `Numbers` — what the ledger reckons in: `Numbers.double`, the numbers of the language, or
  `Numbers.exact`;
* `ShadowLedger.reserve`, `settle`, `lose`, `seed`, `reseed`, `needsReseed` — as the source has
  them, on the record of one user (`ShadowUser`) and on the map of all (`users`);
* `ShadowUser.account`, `ShadowUser.held` — the two accounts such a record keeps: what is there,
  and what is held aside for the orders that are not settled;
* `ShadowLedger.snapshot` — what is shown of it;
* `account_settle`, `held_release`, `held_reserve` — each operation in terms of them;
* `expect_eq_filled`, `expect_eq_rejected` — the two predictions: the trade is covered by what is
  not held aside, or it is not and nothing else is in flight.

What is known of the accounts is stated for exact arithmetic.  Outstanding orders are counted one
by one, and their number is not rounded.
-/

/-! ### Numbers -/

/-- The numbers of a ledger, as what the exact result of an operation is rounded to. -/
class Numbers where
  number : ℚ → ℚ

namespace Numbers

/-- Nothing is rounded. -/
abbrev exact : Numbers := ⟨id⟩

/-- The numbers of the language. -/
abbrev double : Numbers := ⟨nearest⟩

/-- A whole result. -/
def whole [N : Numbers] (n : Int) : Int := ⌊N.number n⌋

/-- A whole number that is not rounded. -/
def Keeps [N : Numbers] (n : Int) : Prop := whole n = n

instance [N : Numbers] (n : Int) : Decidable (Keeps n) := inferInstanceAs (Decidable (_ = _))

@[simp] theorem whole_exact (n : Int) : whole (N := exact) n = n := Int.floor_intCast n

/-- Doubles keep the whole numbers of 53 binary digits. -/
theorem keeps_double {n : Int} (h : |n| < 2 ^ 53) : Keeps (N := double) n :=
  (congrArg Int.floor (nearest_intCast h)).trans (Int.floor_intCast n)

end Numbers

open Numbers

/-! ### Orders -/

/-- What the harness expects of an order. -/
inductive Expectation
  | FILLED
  | REJECTED
  | UNKNOWN
deriving DecidableEq, Repr

/-- The type of an order; a LIMIT order carries its price. -/
inductive SimOrderType
  | MARKET
  | LIMIT (price : String)
deriving DecidableEq, Repr

/-- An order the harness sends.  The sizes of the loop are at least `sizeMin`, which is at least
    one, and those of the load engine are constants. -/
structure SimOrder where
  userId : Int
  instrumentId : Int
  side : Side
  size : Int
  type : SimOrderType
  size_pos : 0 < size
deriving DecidableEq, Repr

/-- The order as a trade at some price. -/
def SimOrder.trade (order : SimOrder) (price : Int) : Trade :=
  ⟨order.side, order.instrumentId, price, order.size⟩

/-- The resource the order has to be covered in. -/
def SimOrder.resource (order : SimOrder) : Resource :=
  match order.side with
  | .BUY => .cash
  | .SELL => .shares order.instrumentId

/-- The target's answer to an order. -/
structure Execution where
  status : OrderStatus
  price : String
deriving DecidableEq, Repr

/-- A portfolio as the target reports it. -/
structure SeedPortfolio where
  availableCash : String
  positions : List (Int × Int)
deriving DecidableEq, Repr

/-- The centavos of an amount as the API writes it; it writes nothing else there. -/
def readCentavos (money : String) : Int :=
  match centavosFromDb money with
  | .ok centavos => centavos
  | .error _ => 0

@[simp] theorem readCentavos_apiString (centavos : Int) :
    readCentavos (apiString centavos) = centavos := by
  rw [readCentavos, centavosFromDb_apiString]

/-- `Math.round(Number(money) * 100)`. -/
def toCentavos [N : Numbers] (money : String) : Int :=
  toCents N.number (N.number (readCentavos money / 100))

/-- `(centavos / 100).toFixed(2)`, for less than `10 ^ 21` pesos. -/
def toMoney [N : Numbers] (centavos : Int) : String :=
  apiString (toFixed (N.number (centavos / 100)))

namespace Numbers

/-- The amount is read to the centavo. -/
def Reads [N : Numbers] (money : String) : Prop := toCentavos money = readCentavos money

/-- The amount is written to the centavo. -/
def Shows [N : Numbers] (centavos : Int) : Prop := toMoney centavos = apiString centavos

instance [N : Numbers] (money : String) : Decidable (Reads money) :=
  inferInstanceAs (Decidable (_ = _))

instance [N : Numbers] (centavos : Int) : Decidable (Shows centavos) :=
  inferInstanceAs (Decidable (_ = _))

@[simp] theorem toCentavos_exact (money : String) :
    toCentavos (N := exact) money = readCentavos money := by
  refine floor_add_half_eq ?_
  show |(readCentavos money : ℚ) / 100 * 100 - readCentavos money| < 1 / 2
  simp

@[simp] theorem toMoney_exact (centavos : Int) :
    toMoney (N := exact) centavos = apiString centavos :=
  congrArg apiString (toFixed_div centavos)

/-- **Doubles read what is below `2 ^ 45` pesos to the centavo.** -/
theorem reads_double {money : String} (h : |readCentavos money| < 2 ^ 45 * 100) :
    Reads (N := double) money :=
  toCents_nearest h

/-- Above that they may be a centavo off. -/
example : toCentavos (N := double) "39202512302457.52" = 3920251230245753 := by decide +kernel

/-- **And write what is below `2 ^ 46` pesos to the centavo.** -/
theorem shows_double {centavos : Int} (h : |centavos| < 2 ^ 46 * 100) :
    Shows (N := double) centavos :=
  congrArg apiString (toFixed_nearest h)

end Numbers

/-! ### The shadow of a user -/

/-- What is kept of one user. -/
structure ShadowUser where
  cash : Int
  shares : JsMap Int Int
  heldCash : Int
  heldShares : JsMap Int Int
  outstanding : Int
  seeded : Bool
  uncertain : Bool

/-- A user nothing is known of. -/
def ShadowUser.blank : ShadowUser := ⟨0, .empty, 0, .empty, 0, false, false⟩

/-- What one unsettled order is holding. -/
structure Reservation where
  generation : Nat
  order : SimOrder
  expectation : Expectation
  heldCash : Int
  heldShares : Int
deriving DecidableEq, Repr

/-- What an order adds to the shares, by its sign. -/
def SimOrder.direction (order : SimOrder) : Int :=
  match order.side with
  | .BUY => 1
  | .SELL => -1

namespace ShadowUser

variable [N : Numbers]

/-- `hold`: adds to the shares held of an instrument. -/
def hold (user : ShadowUser) (instrumentId shares : Int) : ShadowUser :=
  let held := (user.heldShares.get? instrumentId).getD 0
  { user with heldShares := user.heldShares.set instrumentId (whole (held + shares)) }

/-- What is not held aside covers the order at this price. -/
def covers (user : ShadowUser) (order : SimOrder) (price : Int) : Bool :=
  match order.side with
  | .BUY => whole (user.cash - user.heldCash) ≥ whole (price * order.size)
  | .SELL => whole ((user.shares.get? order.instrumentId).getD 0 -
      (user.heldShares.get? order.instrumentId).getD 0) ≥ order.size

/-- `seed`: the portfolio as it was read.  Orders that are still owed a settlement keep the
    shadow untrusted. -/
def seed (user : ShadowUser) (portfolio : SeedPortfolio) : ShadowUser :=
  { user with
    cash := toCentavos portfolio.availableCash
    shares := .ofEntries portfolio.positions
    seeded := true
    uncertain := user.outstanding > 0 }

/-- The user with one more order out, and what that order holds. -/
def reserve (user : ShadowUser) (r : Reservation) : ShadowUser :=
  let user := { user with
    outstanding := user.outstanding + 1
    heldCash := whole (user.heldCash + r.heldCash) }
  if r.heldShares ≠ 0 then user.hold r.order.instrumentId r.heldShares else user

/-- `release`: the order is out no more, and holds nothing. -/
def release (user : ShadowUser) (r : Reservation) : ShadowUser :=
  let user := { user with
    outstanding := user.outstanding - 1
    heldCash := whole (user.heldCash - r.heldCash) }
  if r.heldShares ≠ 0 then user.hold r.order.instrumentId (-r.heldShares) else user

/-- `settle`: the order is released, and a fill is booked at the price it was filled at. -/
def settle (user : ShadowUser) (r : Reservation) (execution : Option Execution) : ShadowUser :=
  let user := user.release r
  match execution with
  | some ⟨.FILLED, price⟩ =>
    { user with
      cash := whole (user.cash - whole (r.order.direction * toCentavos price * r.order.size))
      shares := user.shares.set r.order.instrumentId
        (whole ((user.shares.get? r.order.instrumentId).getD 0 +
          r.order.direction * r.order.size)) }
  | _ => user

/-- `lose`: the order is released, and the shadow trusted no more. -/
def lose (user : ShadowUser) (r : Reservation) : ShadowUser :=
  -- the target may still decide the order, so what is known is no evidence
  { user.release r with uncertain := true }

end ShadowUser

/-- What is shown of a user. -/
structure ShadowUserSnapshot where
  userId : Int
  cash : String
  seeded : Bool
  uncertain : Bool
  outstanding : Int
  positions : List (Int × Int)
deriving DecidableEq, Repr

/-- What is shown is evidence: the shadow is trusted, and no order of the user is out. -/
def ShadowUserSnapshot.settled (user : ShadowUserSnapshot) : Bool :=
  user.seeded && !user.uncertain && user.outstanding = 0

/-! ### The ledger -/

/-- The shadows of all users, the prices learned from the target's answers, and the
    generation. -/
structure ShadowLedger where
  users : JsMap Int ShadowUser
  prices : JsMap Int Int
  current : Nat

namespace ShadowLedger

/-- A ledger of no users. -/
def empty : ShadowLedger := ⟨.empty, .empty, 0⟩

/-- Opens a generation: every shadow is thrown away. -/
def reseed (ledger : ShadowLedger) (userIds : List Int) : ShadowLedger :=
  { ledger with
    current := ledger.current + 1
    -- the prices are the target's, and stay
    users := userIds.foldl (fun users userId => users.set userId .blank) .empty }

section Calls

variable [N : Numbers]

/-- Installs a portfolio that was read for a generation, if that is still the current one. -/
def seed (ledger : ShadowLedger) (generation : Nat) (userId : Int) (portfolio : SeedPortfolio) :
    ShadowLedger :=
  if generation ≠ ledger.current then ledger
  else { ledger with users := ledger.users.modify userId fun user => user.seed portfolio }

/-- What the shadow expects of an order. -/
def expect (user : Option ShadowUser) (order : SimOrder) (price : Option Int) : Expectation :=
  match order.type, user, price with
  | .MARKET, some user, some price =>
    if user.seeded = false ∨ user.uncertain then .UNKNOWN
    else if user.covers order price then .FILLED
    -- short of it, which anything still out could change
    else if user.outstanding = 0 then .REJECTED
    else .UNKNOWN
  | _, _, _ => .UNKNOWN

/-- The reservation of an order: only an expected fill holds anything. -/
def reservation (ledger : ShadowLedger) (order : SimOrder) : Reservation :=
  let user := ledger.users.get? order.userId
  let price := ledger.prices.get? order.instrumentId
  let expectation := expect user order price
  let r : Reservation := ⟨ledger.current, order, expectation, 0, 0⟩
  match user, expectation, price, order.side with
  | some _, .FILLED, some price, .BUY => { r with heldCash := whole (price * order.size) }
  | some _, .FILLED, some _, .SELL => { r with heldShares := order.size }
  | _, _, _, _ => r

/-- Reserves an order. -/
def reserve (ledger : ShadowLedger) (order : SimOrder) : Reservation × ShadowLedger :=
  let r := ledger.reservation order
  (r, { ledger with users := ledger.users.modify order.userId fun user => user.reserve r })

/-- Learns the price a MARKET order was answered with. -/
def learn (ledger : ShadowLedger) (r : Reservation) (execution : Option Execution) :
    ShadowLedger :=
  match execution, r.order.type with
  | some execution, .MARKET =>
    { ledger with prices := ledger.prices.set r.order.instrumentId (toCentavos execution.price) }
  | _, _ => ledger

/-- Settles an order by its answer, `none` for one that names no order.  What was reserved against
    a shadow that was since thrown away is dropped. -/
def settle (ledger : ShadowLedger) (r : Reservation) (execution : Option Execution) :
    ShadowLedger :=
  -- a price is learned from any generation's answer
  let ledger := ledger.learn r execution
  if r.generation ≠ ledger.current then ledger
  else { ledger with
    users := ledger.users.modify r.order.userId fun user => user.settle r execution }

/-- Gives an order up: no answer came. -/
def lose (ledger : ShadowLedger) (r : Reservation) : ShadowLedger :=
  if r.generation ≠ ledger.current then ledger
  else { ledger with users := ledger.users.modify r.order.userId fun user => user.lose r }

/-- What is shown of the shadows: every user, with the shares that are not zero. -/
def snapshot (ledger : ShadowLedger) : List ShadowUserSnapshot :=
  ledger.users.entries.map fun (userId, user) =>
    ⟨userId, toMoney user.cash, user.seeded, user.uncertain, user.outstanding,
      user.shares.entries.filter fun e => e.2 ≠ 0⟩

theorem userIds_snapshot (ledger : ShadowLedger) :
    ledger.snapshot.map (·.userId) = ledger.users.entries.map Prod.fst := by
  rw [snapshot, List.map_map]
  rfl

end Calls

/-- A shadow that is not trusted is read back once nothing is out. -/
def needsReseed (ledger : ShadowLedger) (userId : Int) : Bool :=
  (ledger.users.get? userId).any fun user =>
    user.outstanding = 0 && (user.uncertain || !user.seeded)

end ShadowLedger

/-! ### The accounts behind a shadow -/

/-- What the shadow says a user has. -/
def ShadowUser.account (user : ShadowUser) : Account
  | .cash => user.cash
  | .shares i => (user.shares.get? i).getD 0

/-- What is held aside of it. -/
def ShadowUser.held (user : ShadowUser) : Account
  | .cash => user.heldCash
  | .shares i => (user.heldShares.get? i).getD 0

/-- What one order holds. -/
def Reservation.held (r : Reservation) : Account
  | .cash => r.heldCash
  | .shares i => if i = r.order.instrumentId then r.heldShares else 0

/-- What a portfolio reports. -/
def SeedPortfolio.account (portfolio : SeedPortfolio) : Account
  | .cash => readCentavos portfolio.availableCash
  | .shares i => ((JsMap.ofEntries portfolio.positions).get? i).getD 0

/-- What an answer says the order has drawn: a fill, its trade at the price of the answer. -/
def SimOrder.drawn (order : SimOrder) (execution : Option Execution) : Account :=
  match execution with
  | some ⟨.FILLED, price⟩ => (order.trade (readCentavos price)).draw
  | _ => fun _ => 0

theorem SimOrder.drawn_some (order : SimOrder) (execution : Execution) :
    order.drawn (some execution) = if execution.status = .FILLED then
      (order.trade (readCentavos execution.price)).draw else fun _ => 0 := by
  obtain ⟨status, price⟩ := execution
  cases status <;> rfl

namespace ShadowUser

section Frame

variable [N : Numbers] (user : ShadowUser) (r : Reservation) (execution : Option Execution)
  (portfolio : SeedPortfolio)

/-- Reserving moves no balance. -/
@[simp] theorem account_reserve : (user.reserve r).account = user.account := by
  funext ρ
  unfold reserve
  split <;> cases ρ <;> rfl

@[simp] theorem outstanding_reserve : (user.reserve r).outstanding = user.outstanding + 1 := by
  unfold reserve
  split <;> rfl

@[simp] theorem seeded_reserve : (user.reserve r).seeded = user.seeded := by
  unfold reserve
  split <;> rfl

@[simp] theorem uncertain_reserve : (user.reserve r).uncertain = user.uncertain := by
  unfold reserve
  split <;> rfl

@[simp] theorem account_release : (user.release r).account = user.account := by
  funext ρ
  unfold release
  split <;> cases ρ <;> rfl

@[simp] theorem outstanding_release : (user.release r).outstanding = user.outstanding - 1 := by
  unfold release
  split <;> rfl

@[simp] theorem cash_release : (user.release r).cash = user.cash := by
  unfold release
  split <;> rfl

@[simp] theorem shares_release : (user.release r).shares = user.shares := by
  unfold release
  split <;> rfl

@[simp] theorem seeded_release : (user.release r).seeded = user.seeded := by
  unfold release
  split <;> rfl

@[simp] theorem uncertain_release : (user.release r).uncertain = user.uncertain := by
  unfold release
  split <;> rfl

@[simp] theorem held_settle : (user.settle r execution).held = (user.release r).held := by
  funext ρ
  unfold settle
  split <;> cases ρ <;> rfl

@[simp] theorem outstanding_settle :
    (user.settle r execution).outstanding = user.outstanding - 1 := by
  rw [← outstanding_release user r]
  unfold settle
  split <;> rfl

@[simp] theorem seeded_settle : (user.settle r execution).seeded = user.seeded := by
  rw [← seeded_release user r]
  unfold settle
  split <;> rfl

@[simp] theorem uncertain_settle : (user.settle r execution).uncertain = user.uncertain := by
  rw [← uncertain_release user r]
  unfold settle
  split <;> rfl

@[simp] theorem uncertain_lose : (user.lose r).uncertain = true := rfl

@[simp] theorem outstanding_lose : (user.lose r).outstanding = user.outstanding - 1 :=
  outstanding_release user r

/-- Losing an order moves no balance. -/
@[simp] theorem account_lose : (user.lose r).account = user.account := by
  rw [← account_release user r]
  funext ρ
  cases ρ <;> rfl

@[simp] theorem held_lose : (user.lose r).held = (user.release r).held := by
  funext ρ
  cases ρ <;> rfl

/-- A seed is the portfolio it was read from, if that is read to the centavo. -/
theorem account_seed (h : Reads portfolio.availableCash) :
    (user.seed portfolio).account = portfolio.account := by
  funext ρ
  cases ρ with
  | cash => exact h
  | shares => rfl

@[simp] theorem outstanding_seed : (user.seed portfolio).outstanding = user.outstanding := rfl

@[simp] theorem held_seed : (user.seed portfolio).held = user.held := by
  funext ρ
  cases ρ <;> rfl

@[simp] theorem uncertain_seed :
    (user.seed portfolio).uncertain = decide (user.outstanding > 0) := rfl

end Frame

section Exact

attribute [local instance] Numbers.exact

variable (user : ShadowUser) (r : Reservation) (execution : Option Execution)

theorem held_hold (i n : Int) (ρ : Resource) :
    (user.hold i n).held ρ = user.held ρ + if ρ = .shares i then n else 0 := by
  cases ρ with
  | cash => simp [hold, held]
  | shares j =>
    simp only [hold, held, whole_exact, JsMap.get?_set, Resource.shares.injEq]
    by_cases h : j = i
    · simp [h]
    · simp [h]

/-- Reserving holds what the reservation says. -/
theorem held_reserve (ρ : Resource) : (user.reserve r).held ρ = user.held ρ + r.held ρ := by
  unfold reserve
  split
  · rw [held_hold]
    cases ρ with
    | cash => simp [held, Reservation.held]
    | shares i => simp [held, Reservation.held]
  · rename_i h
    cases ρ with
    | cash => exact whole_exact _
    | shares i => simp_all [held, Reservation.held]

/-- Releasing gives it back. -/
theorem held_release (ρ : Resource) : (user.release r).held ρ = user.held ρ - r.held ρ := by
  unfold release
  split
  · rw [held_hold]
    cases ρ with
    | cash => simp [held, Reservation.held]
    | shares i =>
      simp only [held, Reservation.held, Resource.shares.injEq]
      split <;> omega
  · rename_i h
    cases ρ with
    | cash => exact whole_exact _
    | shares i => simp_all [held, Reservation.held]

/-- Settling a fill books its trade, and nothing else moves a balance. -/
theorem account_settle (ρ : Resource) :
    (user.settle r execution).account ρ = user.account ρ - r.order.drawn execution ρ := by
  rw [← account_release user r]
  unfold settle SimOrder.drawn
  split
  · rename_i price
    cases hside : r.order.side <;> cases ρ with
    | cash =>
      simp only [account, SimOrder.trade, Trade.draw, SimOrder.direction, hside, whole_exact,
        toCentavos_exact]
      ring
    | shares i =>
      simp only [account, SimOrder.trade, Trade.draw, SimOrder.direction, hside, whole_exact,
        JsMap.get?_set]
      by_cases hi : i = r.order.instrumentId
      · simp only [hi, if_true, Option.getD_some]
        ring
      · simp [hi]
  · rw [sub_zero]

@[simp] theorem account_seed_exact (portfolio : SeedPortfolio) :
    (user.seed portfolio).account = portfolio.account :=
  user.account_seed portfolio (toCentavos_exact _)

/-- What is not held aside covers the order exactly when its trade is covered by it. -/
theorem covers_iff {order : SimOrder} {price : Int} :
    user.covers order price = true ↔
      (order.trade price).draw order.resource ≤
        user.account order.resource - user.held order.resource := by
  cases hside : order.side <;>
    simp [covers, SimOrder.trade, SimOrder.resource, Trade.draw, account, held, hside]

end Exact

end ShadowUser

/-! ### What a shadow keeps of its orders -/

/-- A quantity of a shadow to which an order adds while it is out, and nothing else does. -/
structure ShadowUser.Keeps [N : Numbers] (q : ShadowUser → Int) (c : Reservation → Int) : Prop where
  blank : q .blank = 0
  reserve : ∀ user r, q (user.reserve r) = q user + c r
  settle : ∀ user r execution, q (user.settle r execution) = q user - c r
  lose : ∀ user r, q (user.lose r) = q user - c r
  seed : ∀ user portfolio, q (user.seed portfolio) = q user

theorem ShadowUser.keeps_outstanding [N : Numbers] : Keeps ShadowUser.outstanding fun _ => 1 :=
  ⟨rfl, outstanding_reserve, outstanding_settle, outstanding_lose, outstanding_seed⟩

section Exact

attribute [local instance] Numbers.exact

theorem ShadowUser.keeps_held (ρ : Resource) : Keeps (·.held ρ) (·.held ρ) where
  blank := by cases ρ <;> rfl
  reserve user r := user.held_reserve r ρ
  settle user r execution := by rw [held_settle, held_release]
  lose user r := by rw [held_lose, held_release]
  seed user portfolio := by rw [held_seed]

end Exact

/-! ### One user of the ledger -/

namespace ShadowLedger

variable (ledger : ShadowLedger)

@[simp] theorem current_reseed (userIds : List Int) :
    (ledger.reseed userIds).current = ledger.current + 1 := rfl

/-- After a reseed the users are those that were given, and nothing is known of them. -/
theorem get?_reseed (userIds : List Int) (u : Int) :
    (ledger.reseed userIds).users.get? u = if u ∈ userIds then some .blank else none := by
  have key : ∀ (ids : List Int) (users : JsMap Int ShadowUser),
      (ids.foldl (fun users userId => users.set userId .blank) users).get? u =
        if u ∈ ids then some .blank else users.get? u := by
    intro ids
    induction ids with
    | nil => simp
    | cons id ids ih =>
      intro users
      rw [List.foldl_cons, ih, JsMap.get?_set]
      by_cases hmem : u ∈ ids
      · simp [hmem]
      · simp [hmem]
  exact key userIds .empty

section Frame

variable [N : Numbers]

@[simp] theorem current_seed (generation : Nat) (userId : Int) (portfolio : SeedPortfolio) :
    (ledger.seed generation userId portfolio).current = ledger.current := by
  unfold seed
  split <;> rfl

@[simp] theorem prices_seed (generation : Nat) (userId : Int) (portfolio : SeedPortfolio) :
    (ledger.seed generation userId portfolio).prices = ledger.prices := by
  unfold seed
  split <;> rfl

/-- A seed of the current generation is installed, for the user it was read for. -/
theorem get?_seed (generation : Nat) (userId : Int) (portfolio : SeedPortfolio) (u : Int) :
    (ledger.seed generation userId portfolio).users.get? u =
      if u = userId ∧ generation = ledger.current then
        (ledger.users.get? u).map fun user => user.seed portfolio
      else ledger.users.get? u := by
  unfold seed
  by_cases hg : generation = ledger.current
  · simp [hg, JsMap.get?_modify]
  · simp [hg]

@[simp] theorem current_reserve (order : SimOrder) :
    (ledger.reserve order).2.current = ledger.current := rfl

theorem get?_reserve (order : SimOrder) (u : Int) :
    (ledger.reserve order).2.users.get? u =
      if u = order.userId then
        (ledger.users.get? u).map fun user => user.reserve (ledger.reservation order)
      else ledger.users.get? u :=
  JsMap.get?_modify _ _ _ _

variable (r : Reservation) (execution : Option Execution)

@[simp] theorem current_learn : (ledger.learn r execution).current = ledger.current := by
  unfold learn
  split <;> rfl

@[simp] theorem users_learn : (ledger.learn r execution).users = ledger.users := by
  unfold learn
  split <;> rfl

@[simp] theorem current_settle : (ledger.settle r execution).current = ledger.current := by
  simp only [settle]
  split
  · exact ledger.current_learn r execution
  · exact ledger.current_learn r execution

theorem prices_settle : (ledger.settle r execution).prices = (ledger.learn r execution).prices := by
  simp only [settle]
  split <;> rfl

/-- A settlement of the current generation is booked; any other is dropped. -/
theorem get?_settle (u : Int) :
    (ledger.settle r execution).users.get? u =
      if u = r.order.userId ∧ r.generation = ledger.current then
        (ledger.users.get? u).map fun user => user.settle r execution
      else ledger.users.get? u := by
  simp only [settle, current_learn]
  by_cases hg : r.generation = ledger.current
  · simp [hg, JsMap.get?_modify]
  · simp [hg]

@[simp] theorem current_lose : (ledger.lose r).current = ledger.current := by
  unfold lose
  split <;> rfl

@[simp] theorem prices_lose : (ledger.lose r).prices = ledger.prices := by
  unfold lose
  split <;> rfl

/-- A loss in the current generation is booked; any other is dropped. -/
theorem get?_lose (u : Int) :
    (ledger.lose r).users.get? u =
      if u = r.order.userId ∧ r.generation = ledger.current then
        (ledger.users.get? u).map fun user => user.lose r
      else ledger.users.get? u := by
  unfold lose
  by_cases hg : r.generation = ledger.current
  · simp [hg, JsMap.get?_modify]
  · simp [hg]

/-! ### Predictions -/

@[simp] theorem order_reservation (order : SimOrder) :
    (ledger.reservation order).order = order := by
  simp only [reservation]
  split <;> rfl

@[simp] theorem generation_reservation (order : SimOrder) :
    (ledger.reservation order).generation = ledger.current := by
  simp only [reservation]
  split <;> rfl

theorem expectation_reservation (order : SimOrder) :
    (ledger.reservation order).expectation =
      expect (ledger.users.get? order.userId) order (ledger.prices.get? order.instrumentId) := by
  simp only [reservation]
  split <;> rfl

/-- What is expected, if it is not `UNKNOWN`, is of a MARKET order whose price was learned, and by
    a trusted shadow. -/
theorem expect_eq_iff {user : Option ShadowUser} {order : SimOrder} {price : Option Int}
    {expectation : Expectation} (hknown : expectation ≠ .UNKNOWN) :
    expect user order price = expectation ↔ order.type = .MARKET ∧ ∃ v p,
      user = some v ∧ price = some p ∧ v.seeded = true ∧ v.uncertain = false ∧
        (if v.covers order p then .FILLED
          else if v.outstanding = 0 then .REJECTED else .UNKNOWN) = expectation := by
  unfold expect
  split
  · rename_i v p htype
    by_cases hs : v.seeded = false ∨ v.uncertain = true
    · rw [if_pos hs]
      refine iff_of_false (Ne.symm hknown) ?_
      rintro ⟨-, _, _, ⟨⟩, ⟨⟩, hseeded, hcertain, -⟩
      rcases hs with hs | hs
      · exact absurd (hs.symm.trans hseeded) (by simp)
      · exact absurd (hs.symm.trans hcertain) (by simp)
    · rw [if_neg hs]
      rw [not_or, Bool.not_eq_false, Bool.not_eq_true] at hs
      simp [htype, hs]
  · rename_i hno
    refine iff_of_false (Ne.symm hknown) ?_
    rintro ⟨htype, v, p, rfl, rfl, -⟩
    exact hno v p htype rfl rfl

/-- **A fill is expected** of a MARKET order whose trade, at the price that was learned, is
    covered by what a trusted user has and does not hold aside. -/
theorem expect_eq_filled {user : Option ShadowUser} {order : SimOrder} {price : Option Int} :
    expect user order price = .FILLED ↔ order.type = .MARKET ∧ ∃ v p,
      user = some v ∧ price = some p ∧ v.seeded = true ∧ v.uncertain = false ∧
        v.covers order p = true := by
  have hcovered : ∀ (v : ShadowUser) p, (if v.covers order p then Expectation.FILLED
      else if v.outstanding = 0 then .REJECTED else .UNKNOWN) = .FILLED ↔
        v.covers order p = true := by
    intro v p
    split
    · simp [*]
    · split <;> simp [*]
  simp only [expect_eq_iff (show Expectation.FILLED ≠ .UNKNOWN by simp), hcovered]

/-- **A rejection is expected** where it is not covered and nothing else is out. -/
theorem expect_eq_rejected {user : Option ShadowUser} {order : SimOrder} {price : Option Int} :
    expect user order price = .REJECTED ↔ order.type = .MARKET ∧ ∃ v p,
      user = some v ∧ price = some p ∧ v.seeded = true ∧ v.uncertain = false ∧
        v.covers order p = false ∧ v.outstanding = 0 := by
  have hshort : ∀ (v : ShadowUser) p, (if v.covers order p then Expectation.FILLED
      else if v.outstanding = 0 then .REJECTED else .UNKNOWN) = .REJECTED ↔
        v.covers order p = false ∧ v.outstanding = 0 := by
    intro v p
    split
    · simp [*]
    · split <;> simp [*]
  simp only [expect_eq_iff (show Expectation.REJECTED ≠ .UNKNOWN by simp), hshort]

end Frame

section Exact

attribute [local instance] Numbers.exact

/-- **Only an expected fill holds anything**: what its trade draws from the resource it has to be
    covered in. -/
theorem held_reservation {order : SimOrder} {price : Int}
    (hprice : ledger.prices.get? order.instrumentId = some price) (ρ : Resource) :
    (ledger.reservation order).held ρ =
      if (ledger.reservation order).expectation = .FILLED ∧ ρ = order.resource then
        (order.trade price).draw ρ
      else 0 := by
  rw [expectation_reservation, hprice]
  simp only [reservation, hprice]
  cases hexpect : expect (ledger.users.get? order.userId) order (some price) with
  | FILLED =>
    obtain ⟨-, v, _, huser, -⟩ := expect_eq_filled.mp hexpect
    cases hside : order.side <;> cases ρ <;>
      simp +contextual [huser, hside, Reservation.held, SimOrder.resource, SimOrder.trade,
        Trade.draw]
  | REJECTED => cases ρ <;> simp [Reservation.held]
  | UNKNOWN => cases ρ <;> simp [Reservation.held]

/-- Without a price nothing is expected, and nothing held. -/
theorem held_reservation_unpriced {order : SimOrder}
    (hprice : ledger.prices.get? order.instrumentId = none) (ρ : Resource) :
    (ledger.reservation order).held ρ = 0 := by
  simp only [reservation, hprice]
  cases ρ <;> simp [Reservation.held]

end Exact

end ShadowLedger

end Cocos.Tools
