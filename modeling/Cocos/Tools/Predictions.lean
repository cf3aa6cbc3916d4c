import Cocos.Tools.Flights

namespace Cocos.Tools

open Cocos.Lib
open Numbers

/-!
# Predictions

The shadow expects an order to be filled when what it does not hold aside covers it, and to be
rejected when nothing else is out and it is not covered.  Neither has to come true while other
orders are in flight.  The closes are fixed here: what was learned is a close, and stays one.

* `Flight.Spoiled` — an order in flight at the same time has been filled and works against the
  expectation: for a fill, one that holds nothing has drawn on the resource the order needs; for
  a rejection, one has supplied it;
* `Foreseen` — what holds while no order is decided that is spoiled: the book covers all that is
  held for expected fills, and is short of every expected rejection;
* `predictions_hold` — **unspoiled predictions come true**, and `prediction_contradicted`, two
  overlapping buys of which the second is decided first.
-/

/-! ### What works against an expectation -/

namespace Flight

/-- What the order draws at the target's close. -/
def cost (close : Int → Int) (x : Flight) : Account :=
  (x.order.trade (close x.order.instrumentId)).draw

/-- The order was in flight when `o` was sent, or was sent later. -/
def Overlaps (x o : Flight) : Prop := ∀ clock, x.closedAt = some clock → o.sentAt < clock

/-- What the order has drawn works against what is expected of `o`. -/
def WorksAgainst (x o : Flight) : Prop :=
  match o.reservation.expectation with
  | .FILLED => x.reservation.expectation ≠ .FILLED ∧ 0 < x.drawn o.order.resource
  | .REJECTED => x.drawn o.order.resource < 0
  | .UNKNOWN => False

/-- An order of the same user, in flight at the same time, works against what is expected. -/
def Spoiled (w : World) (o : Flight) : Prop :=
  ∃ x ∈ w.flights, x.order.userId = o.order.userId ∧ x.Overlaps o ∧ x.WorksAgainst o

end Flight

/-- The target decides no order of user `u` that is spoiled. -/
def Unspoiled (u : Int) (w : World) : Event → Prop
  | .execute k => ∀ o, w.flights[k]? = some o → o.order.userId = u → ¬o.Spoiled w
  | _ => True

/-- The event throws shadows away, or installs a portfolio. -/
def Event.seeds : Event → Bool
  | .seedUsers _ | .deliver _ => true
  | _ => false

/-- **Every prediction about an order of `u` that was decided came true.** -/
def PredictionsHold (u : Int) (w : World) : Prop :=
  ∀ o ∈ w.flights, o.order.userId = u → ∀ execution clock,
    o.outcome = some (.executed execution clock) →
    (o.reservation.expectation = .FILLED → execution.status = .FILLED) ∧
      (o.reservation.expectation = .REJECTED → execution.status = .REJECTED)

section Exact

attribute [local instance] Numbers.exact

/-! ### What becomes of a flight -/

/-- The flight `y` is what a step at the moment `clock` made of `x`. -/
structure Flight.Became (clock : Nat) (x y : Flight) : Prop where
  reservation : y.reservation = x.reservation
  sentAt : y.sentAt = x.sentAt
  outcome : y.outcome = x.outcome ∨ x.outcome = none
  closedAt : y.closedAt = x.closedAt ∨ x.closedAt = none ∧ y.closedAt = some clock

namespace Flight.Became

variable {x : Flight} (clock : Nat)

theorem refl (x : Flight) : x.Became clock x := ⟨rfl, rfl, .inl rfl, .inl rfl⟩

theorem decided (h : x.outcome = none) (outcome : Option Outcome) :
    x.Became clock { x with outcome := outcome } := ⟨rfl, rfl, .inr h, .inl rfl⟩

theorem closed (h : x.closedAt = none) : x.Became clock { x with closedAt := some clock } :=
  ⟨rfl, rfl, .inl rfl, .inr ⟨h, rfl⟩⟩

end Flight.Became

section Steps

variable {close : Int → Int} {w w' : World} {e : Event}

/-- A flight that is replaced by what became of it leaves every flight with one that it became. -/
theorem exists_became_set {k : Nat} {x y : Flight} (hk : w.flights[k]? = some x)
    (hy : x.Became w.clock y) {z : Flight} (hz : z ∈ w.flights) :
    ∃ z' ∈ w.flights.set k y, z.Became w.clock z' := by
  rcases mem_set_or hz k y with hmem | hzk
  · exact ⟨z, hmem, .refl _ z⟩
  · obtain rfl := Option.some.inj (hk.symm.trans hzk)
    obtain ⟨hlt, -⟩ := List.getElem?_eq_some_iff.mp hk
    exact ⟨y, List.mem_set hlt y, hy⟩

/-- Every flight becomes one of those after the step. -/
theorem flights_forward (hstep : Took (fun _ => close) w e w') {x : Flight} (hx : x ∈ w.flights) :
    ∃ y ∈ w'.flights, x.Became w.clock y := by
  cases hstep with
  | place order => exact ⟨x, List.mem_append_left _ hx, .refl _ x⟩
  | execute hk hopen =>
    rw [World.execute_flights]
    exact exists_became_set hk (.decided _ hopen _) hx
  | shed hk hopen =>
    rw [World.shed_flights]
    exact exists_became_set hk (.decided _ hopen _) hx
  | answer hk _ hopen =>
    rw [World.answer_flights]
    exact exists_became_set hk (.closed _ hopen) hx
  | lose hk hopen =>
    rw [World.lose_flights]
    exact exists_became_set hk (.closed _ hopen) hx
  | seedUsers | take | fail | deliver => exact ⟨x, hx, .refl _ x⟩

/-- Every flight after the step was one before, or has just been sent. -/
theorem flights_backward (hstep : Took (fun _ => close) w e w') {y : Flight} (hy : y ∈ w'.flights) :
    (∃ x ∈ w.flights, x.Became w.clock y) ∨
      ∃ order, e = .place order ∧ y = ⟨w.ledger.reservation order, w.clock, none, none⟩ := by
  have hset : ∀ {k : Nat} {x z : Flight}, w.flights[k]? = some x → x.Became w.clock z →
      y ∈ w.flights.set k z → ∃ x ∈ w.flights, x.Became w.clock y := by
    intro k x z hk hz hy
    rcases List.mem_or_eq_of_mem_set hy with hy | rfl
    · exact ⟨y, hy, .refl _ y⟩
    · exact ⟨x, List.mem_of_getElem? hk, hz⟩
  cases hstep with
  | place order =>
    rcases List.mem_append.mp hy with hy | hy
    · exact .inl ⟨y, hy, .refl _ y⟩
    · rw [List.mem_singleton] at hy
      exact .inr ⟨order, rfl, hy⟩
  | execute hk hopen =>
    rw [World.execute_flights] at hy
    exact .inl (hset hk (.decided _ hopen _) hy)
  | shed hk hopen =>
    rw [World.shed_flights] at hy
    exact .inl (hset hk (.decided _ hopen _) hy)
  | answer hk _ hopen =>
    rw [World.answer_flights] at hy
    exact .inl (hset hk (.closed _ hopen) hy)
  | lose hk hopen =>
    rw [World.lose_flights] at hy
    exact .inl (hset hk (.closed _ hopen) hy)
  | seedUsers | take | fail | deliver => exact .inl ⟨y, hy, .refl _ y⟩

end Steps

/-! ### What the shadow has learned -/

/-- The order was reserved at the target's close, and answered at it. -/
structure Flight.Faithful (close : Int → Int) (clock : Nat) (x : Flight) : Prop where
  close_nonneg : 0 ≤ close x.order.instrumentId
  sent : x.sentAt < clock
  market : x.reservation.expectation ≠ .UNKNOWN → x.order.type = .MARKET
  holds : ∀ ρ, x.reservation.held ρ =
    if x.reservation.expectation = .FILLED ∧ ρ = x.order.resource then x.cost close ρ else 0
  answered : ∀ execution t, x.outcome = some (.executed execution t) →
    (x.order.type = .MARKET → readCentavos execution.price = close x.order.instrumentId) ∧
      (execution.status = .FILLED → x.order.type = .MARKET)

/-- All prices that were learned are closes, and every order is reserved and answered at them. -/
structure Truthful (close : Int → Int) (w : World) : Prop where
  closes_nonneg : ∀ i, 0 ≤ close i
  prices : ∀ i price, w.ledger.prices.get? i = some price → price = close i
  flights : ∀ x ∈ w.flights, x.Faithful close w.clock

section Truth

variable {close : Int → Int} {w w' : World} {e : Event}

namespace Flight

variable {x : Flight} {clock : Nat}

/-- An order has drawn nothing, or its trade at the close. -/
theorem Faithful.drawn_cases (h : x.Faithful close clock) :
    (∀ ρ, x.drawn ρ = 0) ∨ x.drawn = x.cost close := by
  cases hout : x.outcome with
  | none => exact .inl (drawn_of_open hout)
  | some outcome =>
    cases outcome with
    | shed => exact .inl (drawn_of_shed hout)
    | executed execution t =>
      obtain ⟨hprice, hmarket⟩ := h.answered execution t hout
      have hdrawn : x.drawn = x.order.drawn (some execution) := by
        rw [drawn, hout]
        rfl
      rw [SimOrder.drawn_some] at hdrawn
      by_cases hfilled : execution.status = .FILLED
      · right
        rw [hdrawn, if_pos hfilled, hprice (hmarket hfilled)]
        rfl
      · left
        intro ρ
        rw [hdrawn, if_neg hfilled]

theorem cost_resource_nonneg {close : Int → Int} (h : 0 ≤ close x.order.instrumentId) :
    0 ≤ x.cost close x.order.resource :=
  Trade.draw_resource_nonneg (t := x.order.trade (close x.order.instrumentId))
    h (le_of_lt x.order.size_pos)

theorem cost_nonpos {close : Int → Int} (h : 0 ≤ close x.order.instrumentId) {ρ : Resource}
    (hρ : ρ ≠ x.order.resource) : x.cost close ρ ≤ 0 :=
  Trade.draw_nonpos (t := x.order.trade (close x.order.instrumentId)) h
    (le_of_lt x.order.size_pos) hρ

theorem Faithful.held_nonneg (h : x.Faithful close clock) (ρ : Resource) :
    0 ≤ x.reservation.held ρ := by
  rw [h.holds]
  split
  · rename_i hρ
    rw [hρ.2]
    exact cost_resource_nonneg h.close_nonneg
  · exact le_rfl

/-- **A hold is enough**: an expected fill draws from no resource more than it holds of it. -/
theorem Faithful.drawn_le_held (h : x.Faithful close clock)
    (hexpect : x.reservation.expectation = .FILLED) (ρ : Resource) :
    x.drawn ρ ≤ x.reservation.held ρ := by
  rcases h.drawn_cases with hzero | hcost
  · rw [hzero]
    exact h.held_nonneg ρ
  · rw [hcost, h.holds]
    by_cases hρ : ρ = x.order.resource
    · rw [if_pos ⟨hexpect, hρ⟩]
    · rw [if_neg fun hboth => hρ hboth.2]
      exact cost_nonpos h.close_nonneg hρ

/-- What holds nothing is not held for. -/
theorem Faithful.held_eq_zero (h : x.Faithful close clock)
    (hexpect : x.reservation.expectation ≠ .FILLED) (ρ : Resource) : x.reservation.held ρ = 0 := by
  rw [h.holds, if_neg fun hboth => hexpect hboth.1]

/-- An order of which nothing but the moment changed. -/
theorem Faithful.later (h : x.Faithful close clock) : x.Faithful close (clock + 1) :=
  { h with sent := Nat.lt_succ_of_lt h.sent }

end Flight

/-- An order is reserved at the close, if a price was learned. -/
theorem Truthful.reservation (h : Truthful close w) (order : SimOrder) :
    Flight.Faithful close (w.clock + 1) ⟨w.ledger.reservation order, w.clock, none, none⟩ where
  close_nonneg := h.closes_nonneg _
  sent := Nat.lt_succ_self _
  market hexpect := by
    rw [ShadowLedger.expectation_reservation] at hexpect
    rw [Flight.order, ShadowLedger.order_reservation]
    by_contra htype
    cases htypes : order.type with
    | MARKET => exact htype htypes
    | LIMIT price => exact hexpect (by simp [ShadowLedger.expect, htypes])
  holds ρ := by
    simp only [Flight.cost, Flight.order, ShadowLedger.order_reservation]
    cases hprice : w.ledger.prices.get? order.instrumentId with
    | some price =>
      rw [ShadowLedger.held_reservation _ hprice, h.prices _ _ hprice]
    | none =>
      have hexpect : (w.ledger.reservation order).expectation ≠ .FILLED := by
        rw [ShadowLedger.expectation_reservation, hprice]
        intro hfilled
        obtain ⟨-, _, _, -, hnone, -⟩ := ShadowLedger.expect_eq_filled.mp hfilled
        cases hnone
      rw [ShadowLedger.held_reservation_unpriced _ hprice, if_neg fun hboth => hexpect hboth.1]
  answered _ _ hout := by cases hout

theorem Truthful.step (h : Truthful close w) (hstep : Took (fun _ => close) w e w') :
    Truthful close w' := by
  have hlater : ∀ x ∈ w.flights, x.Faithful close (w.clock + 1) :=
    fun x hx => (h.flights x hx).later
  cases hstep with
  | place order =>
    refine ⟨h.closes_nonneg, h.prices, fun x hx => ?_⟩
    rcases List.mem_append.mp hx with hx | hx
    · exact hlater x hx
    · rw [List.mem_singleton] at hx
      exact hx ▸ h.reservation order
  | @execute k x hk =>
    refine ⟨h.closes_nonneg, h.prices, ?_⟩
    rw [World.execute_flights]
    refine forall_mem_set (P := Flight.Faithful close (w.clock + 1)) hlater ?_ k
    have hx := hlater x (List.mem_of_getElem? hk)
    refine ⟨hx.close_nonneg, hx.sent, hx.market, hx.holds, fun execution t hout => ?_⟩
    cases hout
    refine ⟨fun hmarket => ?_, fun hfilled => (Book.decideOn_eq_filled.mp hfilled).1⟩
    rw [World.verdict, readCentavos_apiString]
    exact Book.decideOn_price hmarket
  | @shed k x hk =>
    refine ⟨h.closes_nonneg, h.prices, ?_⟩
    rw [World.shed_flights]
    refine forall_mem_set (P := Flight.Faithful close (w.clock + 1)) hlater ?_ k
    have hx := hlater x (List.mem_of_getElem? hk)
    exact ⟨hx.close_nonneg, hx.sent, hx.market, hx.holds, fun _ _ hout => by cases hout⟩
  | @answer k x outcome hk houtcome =>
    have hx := hlater x (List.mem_of_getElem? hk)
    refine ⟨h.closes_nonneg, ?_, ?_⟩
    · -- a price is learned from an order that was answered at the close
      intro i price hprice
      rw [World.answer_ledger, ShadowLedger.prices_settle] at hprice
      unfold ShadowLedger.learn at hprice
      split at hprice
      · rename_i execution hexecution hmarket
        rw [JsMap.get?_set] at hprice
        split at hprice
        · rename_i hi
          cases outcome with
          | shed => cases hexecution
          | executed execution' t =>
            cases hexecution
            rw [← Option.some.inj hprice, hi]
            exact (toCentavos_exact _).trans ((hx.answered _ t houtcome).1 hmarket)
        · exact h.prices i price hprice
      · exact h.prices i price hprice
    · rw [World.answer_flights, World.answer_clock]
      refine forall_mem_set (P := Flight.Faithful close (w.clock + 1)) hlater ?_ k
      exact ⟨hx.close_nonneg, hx.sent, hx.market, hx.holds, hx.answered⟩
  | @lose k x hk =>
    have hx := hlater x (List.mem_of_getElem? hk)
    refine ⟨h.closes_nonneg, ?_, ?_⟩
    · rw [World.lose_ledger, ShadowLedger.prices_lose]
      exact h.prices
    · rw [World.lose_flights, World.lose_clock]
      refine forall_mem_set (P := Flight.Faithful close (w.clock + 1)) hlater ?_ k
      exact ⟨hx.close_nonneg, hx.sent, hx.market, hx.holds, hx.answered⟩
  | seedUsers | take | fail => exact ⟨h.closes_nonneg, h.prices, hlater⟩
  | deliver =>
    refine ⟨h.closes_nonneg, ?_, hlater⟩
    rw [World.deliver, World.finish, ShadowLedger.prices_seed]
    exact h.prices

end Truth

/-! ### Holds, and orders that were given up -/

/-- The shadow of `u` holds what the orders that are due hold. -/
def Held (u : Int) (w : World) : Prop :=
  ∀ user, w.ledger.users.get? u = some user → ∀ ρ,
    user.held ρ = tally (Flight.due w.ledger.current u fun x => x.reservation.held ρ) w.flights

/-- Every order is of the generation there is. -/
def OneGeneration (w : World) : Prop :=
  ∀ x ∈ w.flights, x.reservation.generation = w.ledger.current

/-- Where an order of `u` was given up that is not decided yet, the shadow is not trusted, and
    nothing was predicted since. -/
def GivenUp (u : Int) (w : World) : Prop :=
  ∀ x ∈ w.flights, x.order.userId = u → x.outcome = none → ∀ clock, x.closedAt = some clock →
    w.trusted u = false ∧ ∀ o ∈ w.flights, o.order.userId = u →
      o.reservation.expectation ≠ .UNKNOWN → o.sentAt < clock

section Orders

variable {close : Int → Int} {w w' : World} {e : Event} {u : Int}

theorem Held.step (hg : Generations w) (h : Held u w) (hstep : Took (fun _ => close) w e w') :
    Held u w' :=
  fun user huser ρ => Tallied.step (ShadowUser.keeps_held ρ) hg
    (fun user huser => h user huser ρ) hstep user huser

/-- Without a reset the generation stays. -/
theorem current_step (hevent : e.seeds = false) (hstep : Took (fun _ => close) w e w') :
    w'.ledger.current = w.ledger.current := by
  cases hstep with
  | place | execute | shed | take | fail => rfl
  | answer => rw [World.answer_ledger, ShadowLedger.current_settle]
  | lose => rw [World.lose_ledger, ShadowLedger.current_lose]
  | seedUsers | deliver => cases hevent

theorem OneGeneration.generations (h : OneGeneration w) : Generations w :=
  fun x hx => le_of_eq (h x hx)

theorem OneGeneration.step (h : OneGeneration w) (hevent : e.seeds = false)
    (hstep : Took (fun _ => close) w e w') : OneGeneration w' := by
  intro y hy
  rw [current_step hevent hstep]
  rcases flights_backward hstep hy with ⟨x, hx, hbecame⟩ | ⟨order, -, rfl⟩
  · rw [hbecame.reservation]
    exact h x hx
  · exact w.ledger.generation_reservation order

/-- Trust that is lost is not won back without a portfolio. -/
theorem untrusted_step (h : w.trusted u = false) (hevent : e.seeds = false)
    (hstep : Took (fun _ => close) w e w') : w'.trusted u = false := by
  unfold World.trusted at h ⊢
  cases hstep with
  | place order =>
    rw [World.place_ledger, ShadowLedger.get?_reserve]
    split
    · cases hv : w.ledger.users.get? u <;> simp_all [ShadowUser.trusted]
    · exact h
  | answer =>
    rw [World.answer_ledger, ShadowLedger.get?_settle]
    split
    · cases hv : w.ledger.users.get? u <;> simp_all [ShadowUser.trusted]
    · exact h
  | lose =>
    rw [World.lose_ledger, ShadowLedger.get?_lose]
    split
    · cases hv : w.ledger.users.get? u <;> simp [ShadowUser.trusted]
    · exact h
  | execute | shed | take | fail => exact h
  | seedUsers | deliver => cases hevent

/-- Something is expected only of the orders of a trusted user. -/
theorem trusted_of_expectation {order : SimOrder}
    (h : (w.ledger.reservation order).expectation ≠ .UNKNOWN) :
    w.trusted order.userId = true := by
  rw [ShadowLedger.expectation_reservation] at h
  cases hexpect : ShadowLedger.expect (w.ledger.users.get? order.userId) order
      (w.ledger.prices.get? order.instrumentId) with
  | FILLED =>
    obtain ⟨-, v, _, hv, -, hseeded, hcertain, -⟩ := ShadowLedger.expect_eq_filled.mp hexpect
    simp [World.trusted, hv, ShadowUser.trusted, hseeded, hcertain]
  | REJECTED =>
    obtain ⟨-, v, _, hv, -, hseeded, hcertain, -⟩ := ShadowLedger.expect_eq_rejected.mp hexpect
    simp [World.trusted, hv, ShadowUser.trusted, hseeded, hcertain]
  | UNKNOWN => exact absurd hexpect h

/-- An order that is given up costs its user the trust. -/
theorem untrusted_lose {k : Nat} {x : Flight} (hg : x.reservation.generation = w.ledger.current) :
    (w.lose k x).trusted x.order.userId = false := by
  rw [World.trusted, World.lose_ledger, ShadowLedger.get?_lose, if_pos ⟨rfl, hg⟩]
  cases w.ledger.users.get? x.order.userId <;> simp [ShadowUser.trusted]

theorem GivenUp.step (h : GivenUp u w) (ht : Truthful close w) (hg : OneGeneration w)
    (hevent : e.seeds = false) (hstep : Took (fun _ => close) w e w') : GivenUp u w' := by
  have hold : ∀ x ∈ w.flights, x.order.userId = u → x.outcome = none → ∀ clock,
      x.closedAt = some clock → w'.trusted u = false ∧ ∀ o ∈ w'.flights, o.order.userId = u →
        o.reservation.expectation ≠ .UNKNOWN → o.sentAt < clock := by
    intro x hx hu hopen clock hclosed
    -- no prediction is made while the shadow is not trusted
    obtain ⟨huntrusted, hbefore⟩ := h x hx hu hopen clock hclosed
    refine ⟨untrusted_step huntrusted hevent hstep, fun o' ho' hou hexpect => ?_⟩
    rcases flights_backward hstep ho' with ⟨o, ho, hbecame⟩ | ⟨order, -, rfl⟩
    · rw [hbecame.sentAt]
      rw [hbecame.reservation] at hexpect
      rw [Flight.order, hbecame.reservation] at hou
      exact hbefore o ho hou hexpect
    · have hou : order.userId = u := by simpa [Flight.order] using hou
      have htrusted := trusted_of_expectation hexpect
      rw [hou, huntrusted] at htrusted
      cases htrusted
  intro y hy hu hopen clock hclosed
  cases hstep with
  | place order =>
    rcases List.mem_append.mp hy with hy | hy
    · exact hold y hy hu hopen clock hclosed
    · rw [List.mem_singleton] at hy
      subst hy
      cases hclosed
  | execute | shed =>
    rcases List.mem_or_eq_of_mem_set hy with hy | rfl
    · exact hold y hy hu hopen clock hclosed
    · cases hopen
  | answer _ houtcome =>
    rw [World.answer_flights] at hy
    rcases List.mem_or_eq_of_mem_set hy with hy | rfl
    · exact hold y hy hu hopen clock hclosed
    · rw [houtcome] at hopen
      cases hopen
  | @lose k x hk hx =>
    have hx' := hg x (List.mem_of_getElem? hk)
    rw [World.lose_flights] at hy
    rcases List.mem_or_eq_of_mem_set hy with hy | rfl
    · exact hold y hy hu hopen clock hclosed
    · -- given up just now: everything that is expected was sent before
      cases hclosed
      refine ⟨hu ▸ untrusted_lose hx', fun o' ho' _ _ => ?_⟩
      have hstep : Took (fun _ => close) w (.lose k) (w.lose k x) := .lose hk hx
      rcases flights_backward hstep ho' with ⟨o, ho, hbecame⟩ | ⟨_, h, _⟩
      · rw [hbecame.sentAt]
        exact (ht.flights o ho).sent
      · cases h
  | take | fail => exact hold y hy hu hopen clock hclosed
  | seedUsers | deliver => cases hevent

end Orders

/-! ### Spoiled orders -/

section Spoiling

variable {close : Int → Int} {w w' : World} {e : Event} {u : Int}

/-- What spoils an order depends on nothing that becomes of it. -/
theorem Flight.Became.spoiled_iff {clock : Nat} {o o' : Flight} (h : o.Became clock o')
    (w : World) : o'.Spoiled w ↔ o.Spoiled w := by
  simp only [Flight.Spoiled, Flight.Overlaps, Flight.WorksAgainst, Flight.order, h.reservation,
    h.sentAt]

/-- **An order that is spoiled stays spoiled.** -/
theorem spoiled_step (hstep : Took (fun _ => close) w e w') {o : Flight} (ho : o.sentAt < w.clock)
    (h : o.Spoiled w) : o.Spoiled w' := by
  obtain ⟨x, hx, hu, hoverlaps, hagainst⟩ := h
  obtain ⟨y, hy, hbecame⟩ := flights_forward hstep hx
  refine ⟨y, hy, by rw [Flight.order, hbecame.reservation]; exact hu, ?_, ?_⟩
  · intro clock hclosed
    -- an order closed now was in flight until now, when the other had been sent
    rcases hbecame.closedAt with hsame | ⟨-, hnow⟩
    · exact hoverlaps clock (hsame ▸ hclosed)
    · rw [hnow, Option.some.injEq] at hclosed
      exact hclosed ▸ ho
  · -- what has drawn something is decided, and stays as it is
    have hdrawn : x.drawn o.order.resource ≠ 0 → y.drawn = x.drawn := by
      intro hne
      rcases hbecame.outcome with hsame | hopen
      · simp only [Flight.drawn, Flight.order, hbecame.reservation, hsame]
      · exact absurd (Flight.drawn_of_open hopen _) hne
    unfold Flight.WorksAgainst at hagainst ⊢
    cases hexpect : o.reservation.expectation with
    | FILLED =>
      simp only [hexpect] at hagainst ⊢
      rw [hbecame.reservation, hdrawn (by omega)]
      exact hagainst
    | REJECTED =>
      simp only [hexpect] at hagainst ⊢
      rw [hdrawn (by omega)]
      exact hagainst
    | UNKNOWN => simp only [hexpect] at hagainst

/-- An order that is not decided and not spoiled was so before, or has just been sent. -/
theorem unspoiled_backward (ht : Truthful close w) (hstep : Took (fun _ => close) w e w')
    {o' : Flight} (ho' : o' ∈ w'.flights) (hopen : o'.outcome = none) (hclean : ¬o'.Spoiled w') :
    (∃ o ∈ w.flights, o'.reservation = o.reservation ∧ o.outcome = none ∧ ¬o.Spoiled w ∧
      ¬o.Spoiled w') ∨
      ∃ order, e = .place order ∧ o' = ⟨w.ledger.reservation order, w.clock, none, none⟩ := by
  rcases flights_backward hstep ho' with ⟨o, ho, hbecame⟩ | hnew
  · left
    rw [hbecame.spoiled_iff] at hclean
    refine ⟨o, ho, hbecame.reservation, ?_, fun hspoiled => hclean ?_, hclean⟩
    · rcases hbecame.outcome with hsame | hnone
      · rw [← hsame, hopen]
      · exact hnone
    · exact spoiled_step hstep (ht.flights o ho).sent hspoiled
  · exact .inr hnew

/-- An order that is decided now overlaps all that is expected of its user's others. -/
theorem GivenUp.overlaps (h : GivenUp u w) {x o : Flight} (hx : x ∈ w.flights)
    (hxu : x.order.userId = u) (hopen : x.outcome = none) (ho : o ∈ w.flights)
    (hou : o.order.userId = u) (hexpect : o.reservation.expectation ≠ .UNKNOWN)
    (outcome : Option Outcome) : { x with outcome := outcome }.Overlaps o :=
  fun clock hclosed => (h x hx hxu hopen clock hclosed).2 o ho hou hexpect

end Spoiling

/-! ### Expected fills -/

/-- What an order of `u` holds while it is not decided. -/
def Flight.pending (u : Int) (ρ : Resource) (x : Flight) : Int :=
  if x.order.userId = u ∧ x.outcome = none then x.reservation.held ρ else 0

/-- **The book covers all that is held** of the resource that an unspoiled expected fill needs. -/
def Covered (u : Int) (w : World) : Prop :=
  ∀ o ∈ w.flights, o.order.userId = u → o.reservation.expectation = .FILLED → o.outcome = none →
    ¬o.Spoiled w →
    tally (Flight.pending u o.order.resource) w.flights ≤ (w.books u).account o.order.resource

/-- **The book is short** of what an unspoiled expected rejection needs. -/
def Short (close : Int → Int) (u : Int) (w : World) : Prop :=
  ∀ o ∈ w.flights, o.order.userId = u → o.reservation.expectation = .REJECTED →
    o.outcome = none → ¬o.Spoiled w →
    (w.books u).account o.order.resource < o.cost close o.order.resource

/-- What holds while no order of `u` is decided that is spoiled. -/
structure Foreseen (close : Int → Int) (u : Int) (w : World) : Prop where
  truthful : Truthful close w
  generation : OneGeneration w
  counted : Counted u w
  balanced : Balanced u w
  held : Held u w
  givenUp : GivenUp u w
  covered : Covered u w
  short : Short close u w
  predictions : PredictionsHold u w

section Expected

variable {close : Int → Int} {w w' : World} {e : Event} {u : Int}

/-- **There is room for what is expected to fill**: with nothing in flight that draws on the
    resource and holds nothing, the book covers it on top of all that is held. -/
theorem Foreseen.room (h : Foreseen close u w) {order : SimOrder} (hu : order.userId = u)
    (hexpect : (w.ledger.reservation order).expectation = .FILLED)
    (hquiet : ∀ x ∈ w.flights, x.order.userId = u → x.closedAt = none →
      x.reservation.expectation ≠ .FILLED → x.drawn order.resource ≤ 0) :
    tally (Flight.pending u order.resource) w.flights +
      (w.ledger.reservation order).held order.resource ≤ (w.books u).account order.resource := by
  have htrusted : w.trusted u = true := by
    rw [← hu]
    exact trusted_of_expectation (by rw [hexpect]; simp)
  obtain ⟨-, v, price, hv, hprice, hseeded, hcertain, hcovers⟩ :=
    ShadowLedger.expect_eq_filled.mp (ShadowLedger.expectation_reservation _ order ▸ hexpect)
  rw [hu] at hv
  have hbook := h.balanced v hv (by simp [ShadowUser.trusted, hseeded, hcertain]) order.resource
  have hheld := h.held v hv order.resource
  rw [v.covers_iff, hbook, hheld] at hcovers
  rw [ShadowLedger.held_reservation _ hprice, if_pos ⟨hexpect, rfl⟩]
  -- order by order, what is pending and what is owed is held
  have hsum : tally (Flight.pending u order.resource) w.flights +
      tally (Flight.due w.ledger.current u fun x => x.drawn order.resource) w.flights ≤
        tally (Flight.due w.ledger.current u fun x => x.reservation.held order.resource)
          w.flights := by
    rw [← tally_add]
    apply tally_le_tally
    intro x hx
    by_cases hxu : x.order.userId = u
    · cases hclosed : x.closedAt with
      | some clock =>
        have hnot : x.dueIn w.ledger.current u = false := by simp [Flight.dueIn, hclosed]
        have hdecided : x.outcome ≠ none := fun hopen => by
          have huntrusted := (h.givenUp x hx hxu hopen clock hclosed).1
          rw [htrusted] at huntrusted
          cases huntrusted
        simp [Flight.pending, hdecided, Flight.due_of_not_due hnot]
      | none =>
        have hdue : x.dueIn w.ledger.current u = true := by
          simp [Flight.dueIn, hxu, h.generation x hx, hclosed]
        simp only [Flight.due, hdue, if_true, Flight.pending, hxu, true_and]
        have hfaithful := h.truthful.flights x hx
        split
        · rename_i hopen
          rw [Flight.drawn_of_open hopen]
          omega
        · rw [zero_add]
          by_cases hxe : x.reservation.expectation = .FILLED
          · exact hfaithful.drawn_le_held hxe _
          · rw [hfaithful.held_eq_zero hxe]
            exact hquiet x hx hxu hclosed hxe
    · have hnot : x.dueIn w.ledger.current u = false := by simp [Flight.dueIn, hxu]
      simp [Flight.pending, hxu, Flight.due_of_not_due hnot]
  omega

/-- Deciding an order takes what it held out of what is pending. -/
theorem tally_pending_decided {k : Nat} {x : Flight} (hk : w.flights[k]? = some x)
    (hopen : x.outcome = none) (outcome : Outcome) (ρ : Resource) :
    tally (Flight.pending u ρ) (w.flights.set k { x with outcome := some outcome }) =
      tally (Flight.pending u ρ) w.flights -
        if x.order.userId = u then x.reservation.held ρ else 0 := by
  rw [tally_set hk]
  simp [Flight.pending, hopen]

/-- Closing one leaves what is pending as it is. -/
theorem tally_pending_closed {k : Nat} {x : Flight} (hk : w.flights[k]? = some x) (clock : Nat)
    (ρ : Resource) :
    tally (Flight.pending u ρ) (w.flights.set k { x with closedAt := some clock }) =
      tally (Flight.pending u ρ) w.flights :=
  tally_set_of_eq hk rfl

/-- **Filling an order takes no more than it held**, of a resource that an unspoiled expected
    fill needs. -/
theorem Foreseen.drawn_le_held (h : Foreseen close u w) {k : Nat} {x o : Flight}
    (hk : w.flights[k]? = some x) (hopen : x.outcome = none) (hxu : x.order.userId = u)
    (ho : o ∈ w.flights) (hou : o.order.userId = u)
    (hexpect : o.reservation.expectation = .FILLED)
    (hclean : ¬o.Spoiled (w.execute close k x)) :
    x.order.drawn (some (w.verdict close x.order)) o.order.resource ≤
      x.reservation.held o.order.resource := by
  have hx := List.mem_of_getElem? hk
  obtain ⟨hlt, -⟩ := List.getElem?_eq_some_iff.mp hk
  by_cases hxe : x.reservation.expectation = .FILLED
  · have hfaithful := (h.truthful.step (.execute hk hopen)).flights _ (List.mem_set hlt _)
    exact hfaithful.drawn_le_held hxe _
  · rw [(h.truthful.flights x hx).held_eq_zero hxe]
    by_contra hdrew
    refine hclean ⟨_, List.mem_set hlt _, hxu.trans hou.symm,
      h.givenUp.overlaps hx hxu hopen ho hou (by rw [hexpect]; simp) _, ?_⟩
    unfold Flight.WorksAgainst
    rw [hexpect]
    exact ⟨hxe, not_le.mp hdrew⟩

/-- A new order finds room for what it holds, or holds nothing of the resource. -/
theorem Foreseen.covered_place (h : Foreseen close u w) (order : SimOrder) :
    Covered u (w.place order) := by
  intro o' ho' hou hexpect hopen hclean
  have hnew : Flight.pending u o'.order.resource ⟨w.ledger.reservation order, w.clock, none, none⟩ =
      if order.userId = u then (w.ledger.reservation order).held o'.order.resource else 0 := by
    simp [Flight.pending, Flight.order]
  rw [World.place_flights, tally_concat, hnew]
  show _ ≤ (w.books u).account _
  -- only an order that is expected to fill, of this user and resource, adds to what is held
  by_cases hfills : order.userId = u ∧ (w.ledger.reservation order).expectation = .FILLED ∧
      o'.order.resource = order.resource
  · obtain ⟨hu, hfilled, hρ⟩ := hfills
    rw [if_pos hu, hρ]
    refine h.room hu hfilled fun x hx hxu hxopen hxe => ?_
    by_contra hdrew
    refine hclean ⟨x, List.mem_append_left _ hx, hxu.trans hou.symm, ?_, ?_⟩
    · intro clock hclosed
      rw [hxopen] at hclosed
      cases hclosed
    · unfold Flight.WorksAgainst
      rw [hexpect, hρ]
      exact ⟨hxe, not_le.mp hdrew⟩
  · have hzero : (if order.userId = u then
        (w.ledger.reservation order).held o'.order.resource else 0) = 0 := by
      split
      · rename_i hu
        have hholds := (h.truthful.reservation order).holds o'.order.resource
        rw [if_neg] at hholds
        · exact hholds
        · simp only [Flight.order, ShadowLedger.order_reservation]
          exact fun hboth => hfills ⟨hu, hboth⟩
      · rfl
    rw [hzero, add_zero]
    have hstep : Took (fun _ => close) w (.place order) (w.place order) := .place order
    rcases unspoiled_backward h.truthful hstep ho' hopen hclean with
      ⟨o, ho, hsame, hopen₀, hclean₀, -⟩ | ⟨order', heq, rfl⟩
    · rw [Flight.order, hsame] at hou ⊢
      exact h.covered o ho hou (hsame ▸ hexpect) hopen₀ hclean₀
    · cases heq
      refine absurd ⟨?_, hexpect, ?_⟩ hfills
      · simpa [Flight.order] using hou
      · simp [Flight.order]

theorem Foreseen.covered_step (h : Foreseen close u w) (hevent : e.seeds = false)
    (hstep : Took (fun _ => close) w e w') : Covered u w' := by
  by_cases hplace : ∃ order, e = .place order
  · obtain ⟨order, rfl⟩ := hplace
    cases hstep
    exact h.covered_place order
  intro o' ho' hou hexpect hopen hclean
  rcases unspoiled_backward h.truthful hstep ho' hopen hclean with
    ⟨o, ho, hsame, hopen₀, hclean₀, hclean'⟩ | ⟨order, heq, -⟩
  · have horder : o'.order = o.order := congrArg Reservation.order hsame
    rw [horder] at hou ⊢
    rw [hsame] at hexpect
    have hold := h.covered o ho hou hexpect hopen₀ hclean₀
    cases hstep with
    | place order => exact absurd ⟨order, rfl⟩ hplace
    | @execute k x hk hxopen =>
      rw [World.execute_flights, tally_pending_decided hk hxopen, World.account_execute]
      by_cases hxu : x.order.userId = u
      -- the hold goes with the order, and what the book loses is no more than it
      · have hle := h.drawn_le_held hk hxopen hxu ho hou hexpect hclean'
        rw [if_pos hxu, if_pos hxu.symm]
        omega
      · rw [if_neg hxu, if_neg (Ne.symm hxu)]
        omega
    | @shed k x hk hxopen =>
      rw [World.shed_flights, tally_pending_decided hk hxopen]
      have hnonneg := (h.truthful.flights x (List.mem_of_getElem? hk)).held_nonneg
        o.order.resource
      show _ ≤ (w.books u).account _
      split <;> omega
    | answer hk =>
      rw [World.answer_flights, World.answer_books, tally_pending_closed hk]
      exact hold
    | lose hk =>
      rw [World.lose_flights, World.lose_books, tally_pending_closed hk]
      exact hold
    | take | fail => exact hold
    | seedUsers | deliver => cases hevent
  · exact absurd ⟨order, heq⟩ hplace

/-! ### Expected rejections -/

/-- **An order is short when its rejection is expected**: nothing is owed and nothing held, so
    the shadow is the book. -/
theorem Foreseen.short_place (h : Foreseen close u w) {order : SimOrder} (hu : order.userId = u)
    (hexpect : (w.ledger.reservation order).expectation = .REJECTED) :
    (w.books u).account order.resource <
      (order.trade (close order.instrumentId)).draw order.resource := by
  obtain ⟨-, v, price, hv, hprice, hseeded, hcertain, hshort, hout⟩ :=
    ShadowLedger.expect_eq_rejected.mp (ShadowLedger.expectation_reservation _ order ▸ hexpect)
  rw [hu] at hv
  have hbook := h.balanced v hv (by simp [ShadowUser.trusted, hseeded, hcertain]) order.resource
  -- with nothing outstanding nothing is owed and nothing held
  rw [h.counted.tally_due hv hout, add_zero] at hbook
  have hheld := h.held v hv order.resource
  rw [h.counted.tally_due hv hout] at hheld
  rw [← h.truthful.prices _ _ hprice, ← hbook]
  by_contra hcovers
  have hcovered : v.covers order price = true := by
    rw [v.covers_iff]
    omega
  rw [hcovered] at hshort
  cases hshort

/-- **Filling an order supplies nothing** of a resource that an unspoiled expected rejection
    needs. -/
theorem Foreseen.drawn_nonneg (h : Foreseen close u w) {k : Nat} {x o : Flight}
    (hk : w.flights[k]? = some x) (hopen : x.outcome = none) (hxu : x.order.userId = u)
    (ho : o ∈ w.flights) (hou : o.order.userId = u)
    (hexpect : o.reservation.expectation = .REJECTED)
    (hclean : ¬o.Spoiled (w.execute close k x)) :
    0 ≤ x.order.drawn (some (w.verdict close x.order)) o.order.resource := by
  have hx := List.mem_of_getElem? hk
  obtain ⟨hlt, -⟩ := List.getElem?_eq_some_iff.mp hk
  -- a fill that supplies the resource would spoil the rejection
  by_contra hsupplied
  refine hclean ⟨_, List.mem_set hlt _, hxu.trans hou.symm,
    h.givenUp.overlaps hx hxu hopen ho hou (by rw [hexpect]; simp) _, ?_⟩
  unfold Flight.WorksAgainst
  rw [hexpect]
  exact not_le.mp hsupplied

theorem Foreseen.short_step (h : Foreseen close u w) (hevent : e.seeds = false)
    (hstep : Took (fun _ => close) w e w') : Short close u w' := by
  intro o' ho' hou hexpect hopen hclean
  rcases unspoiled_backward h.truthful hstep ho' hopen hclean with
    ⟨o, ho, hsame, hopen₀, hclean₀, hclean'⟩ | ⟨order, rfl, rfl⟩
  · have horder : o'.order = o.order := congrArg Reservation.order hsame
    rw [horder] at hou
    rw [Flight.cost, horder]
    rw [hsame] at hexpect
    have hold := h.short o ho hou hexpect hopen₀ hclean₀
    cases hstep with
    | @execute k x hk hxopen =>
      rw [World.account_execute]
      split
      · rename_i hxu
        -- the book gains nothing of the resource, so what was short stays short
        have hle := h.drawn_nonneg hk hxopen hxu.symm ho hou hexpect hclean'
        exact lt_of_le_of_lt (Int.sub_le_self _ hle) hold
      · rw [sub_zero]
        exact hold
    | answer =>
      rw [World.answer_books]
      exact hold
    | lose =>
      rw [World.lose_books]
      exact hold
    | place | shed | take | fail => exact hold
    | seedUsers | deliver => cases hevent
  · cases hstep
    simp only [Flight.cost, Flight.order, ShadowLedger.order_reservation] at hou ⊢
    exact h.short_place hou hexpect

/-! ### Predictions come true -/

/-- **An unspoiled order is decided as it was expected.** -/
theorem Foreseen.verdict (h : Foreseen close u w) {o : Flight} (ho : o ∈ w.flights)
    (hou : o.order.userId = u) (hopen : o.outcome = none) (hclean : ¬o.Spoiled w) :
    (o.reservation.expectation = .FILLED → (w.verdict close o.order).status = .FILLED) ∧
      (o.reservation.expectation = .REJECTED → (w.verdict close o.order).status = .REJECTED) := by
  have hfaithful := h.truthful.flights o ho
  constructor
  · intro hexpect
    -- what it holds is part of all that is held, and that is covered
    have hcovered := h.covered o ho hou hexpect hopen hclean
    have hnonneg : ∀ x ∈ w.flights, 0 ≤ Flight.pending u o.order.resource x := by
      intro x hx
      unfold Flight.pending
      split
      · exact (h.truthful.flights x hx).held_nonneg _
      · exact le_rfl
    have hpart := le_tally_of_mem hnonneg ho
    rw [Flight.pending, if_pos ⟨hou, hopen⟩, hfaithful.holds, if_pos ⟨hexpect, rfl⟩] at hpart
    rw [World.verdict, Book.decideOn_eq_filled, hou]
    exact ⟨hfaithful.market (by rw [hexpect]; simp), hpart.trans hcovered⟩
  · intro hexpect
    have hshort := h.short o ho hou hexpect hopen hclean
    -- a MARKET order is filled or rejected, and short of its cost it is not filled
    have hmarket := hfaithful.market (by rw [hexpect]; simp)
    rcases @Book.decideOn_market close (w.books o.order.userId) _ hmarket with
      hfilled | hrejected
    · obtain ⟨-, hcovered⟩ := Book.decideOn_eq_filled.mp hfilled
      rw [hou] at hcovered
      exact absurd hshort (not_lt.mpr hcovered)
    · exact hrejected

theorem Foreseen.predictions_step (h : Foreseen close u w) (hclean : Unspoiled u w e)
    (hstep : Took (fun _ => close) w e w') : PredictionsHold u w' := by
  intro o' ho' hou execution clock hout
  have hold : ∀ o ∈ w.flights, o'.reservation = o.reservation → o'.outcome = o.outcome →
      (o'.reservation.expectation = .FILLED → execution.status = .FILLED) ∧
        (o'.reservation.expectation = .REJECTED → execution.status = .REJECTED) := by
    intro o ho hsame houtcome
    rw [hsame]
    exact h.predictions o ho (by rw [← hou, Flight.order, Flight.order, hsame]) execution clock
      (houtcome ▸ hout)
  have hset : ∀ {k : Nat} {x : Flight} {t : Nat}, w.flights[k]? = some x →
      o' ∈ w.flights.set k { x with closedAt := some t } →
      (o'.reservation.expectation = .FILLED → execution.status = .FILLED) ∧
        (o'.reservation.expectation = .REJECTED → execution.status = .REJECTED) := by
    intro k x t hk hmem
    rcases List.mem_or_eq_of_mem_set hmem with hmem | rfl
    · exact hold o' hmem rfl rfl
    · exact hold x (List.mem_of_getElem? hk) rfl rfl
  cases hstep with
  | place order =>
    rcases List.mem_append.mp ho' with ho' | ho'
    · exact hold o' ho' rfl rfl
    · rw [List.mem_singleton] at ho'
      subst ho'
      cases hout
  | @execute k x hk hopen =>
    rw [World.execute_flights] at ho'
    rcases List.mem_or_eq_of_mem_set ho' with ho' | rfl
    · exact hold o' ho' rfl rfl
    · cases hout
      have hx := List.mem_of_getElem? hk
      exact h.verdict (o := x) hx hou hopen (hclean x hk hou)
  | @shed k x hk hopen =>
    rw [World.shed_flights] at ho'
    rcases List.mem_or_eq_of_mem_set ho' with ho' | rfl
    · exact hold o' ho' rfl rfl
    · cases hout
  | answer hk =>
    rw [World.answer_flights] at ho'
    exact hset hk ho'
  | lose hk =>
    rw [World.lose_flights] at ho'
    exact hset hk ho'
  | seedUsers | take | fail | deliver => exact hold o' ho' rfl rfl

/-- Nothing that is filled escapes a trusted shadow: the one order that could is given up. -/
theorem Foreseen.noStrayFill (h : Foreseen close u w) (hstep : Took (fun _ => close) w e w') :
    NoStrayFill (fun _ => close) u w e := by
  cases hstep with
  | @execute k x hk hopen =>
    intro y hy hyu _ hdue
    cases hk.symm.trans hy
    have hx := List.mem_of_getElem? hk
    cases hclosed : x.closedAt with
    | some clock => exact (h.givenUp x hx hyu hopen clock hclosed).1
    | none => simp [Flight.dueIn, hyu, h.generation x hx, hclosed] at hdue
  | _ => trivial

/-- **One step** keeps what is foreseen, if the order it decides is not spoiled. -/
theorem Foreseen.step (h : Foreseen close u w) (hclean : Unspoiled u w e)
    (hevent : e.seeds = false) (hstep : Took (fun _ => close) w e w') : Foreseen close u w' where
  truthful := h.truthful.step hstep
  generation := h.generation.step hevent hstep
  counted := h.counted.step h.generation.generations hstep
  balanced := balanced_orders_step h.balanced (h.noStrayFill hstep)
    (fun j he => by rw [he] at hevent; cases hevent) hstep
  held := h.held.step h.generation.generations hstep
  givenUp := h.givenUp.step h.truthful h.generation hevent hstep
  covered := h.covered_step hevent hstep
  short := h.short_step hevent hstep
  predictions := h.predictions_step hclean hstep

end Expected

/-! ### The theorem -/

/-- The shadow of `u` was read while nothing was in flight, and every price that was learned is
    the target's close.  What went before is not kept. -/
structure Seeded (close : Int → Int) (u : Int) (w : World) : Prop where
  quiet : w.flights = []
  prices : ∀ i price, w.ledger.prices.get? i = some price → price = close i
  shadow : ∀ user, w.ledger.users.get? u = some user → user.outstanding = 0 ∧
    (∀ ρ, user.held ρ = 0) ∧ user.account = (w.books u).account

theorem Seeded.foreseen {close : Int → Int} (hclose : ∀ i, 0 ≤ close i) {u : Int} {w : World}
    (h : Seeded close u w) : Foreseen close u w where
  truthful := ⟨hclose, h.prices, by simp [h.quiet]⟩
  generation := by simp [OneGeneration, h.quiet]
  counted user huser := by simp [h.quiet, (h.shadow user huser).1]
  balanced user huser _ ρ := by simp [h.quiet, (h.shadow user huser).2.2]
  held user huser ρ := by simp [h.quiet, (h.shadow user huser).2.1]
  givenUp := by simp [GivenUp, h.quiet]
  covered := by simp [Covered, h.quiet]
  short := by simp [Short, h.quiet]
  predictions := by simp [PredictionsHold, h.quiet]

/-- In exact arithmetic unspoiled predictions come true. -/
theorem predictions_hold_exact {close : Int → Int} (hclose : ∀ i, 0 ≤ close i) {u : Int}
    {es : List Event} {w₀ w : World} (h₀ : Seeded close u w₀) (horders : ∀ e ∈ es, e.seeds = false)
    (halong : (simulation fun _ => close).Along (Unspoiled u) w₀ es)
    (hrun : (simulation fun _ => close).run w₀ es = some w) : PredictionsHold u w := by
  have hforeseen : Foreseen close u w :=
    (simulation fun _ => close).invariant_along
      (P := fun w e => Unspoiled u w e ∧ e.seeds = false)
      (fun h hsafe he => h.step hsafe.1 hsafe.2 (took_of_step he)) (h₀.foreseen hclose)
      ((simulation fun _ => close).along_and halong
        ((simulation fun _ => close).along_of_forall horders)) hrun
  exact hforeseen.predictions

end Exact

/-- **Unspoiled predictions come true**, for any number of orders of any users, in any order of
    reserves, decisions, answers and losses, while nothing is rounded. -/
theorem predictions_hold [N : Numbers] {close : Int → Int} (hclose : ∀ i, 0 ≤ close i) {u : Int}
    {es : List Event} {w₀ w : World} (h₀ : Seeded close u w₀) (horders : ∀ e ∈ es, e.seeds = false)
    (hfits : (simulation fun _ => close).Along World.Fits w₀ es)
    (halong : (simulation fun _ => close).Along (Unspoiled u) w₀ es)
    (hrun : (simulation fun _ => close).run w₀ es = some w) : PredictionsHold u w :=
  predictions_hold_exact hclose h₀ horders ((along_eq hfits).mp halong) (run_eq hfits ▸ hrun)

/-! ### Sample orders -/

/-- User 1 buys so many shares of instrument 1. -/
def buy (size : Int) (h : 0 < size) : SimOrder := ⟨1, 1, .BUY, size, .MARKET, h⟩

/-- User 1 has ten pesos and its shadow was read, and the harness knows that a share costs one. -/
def knownPrice : World :=
  { World.initial fun _ => ⟨1000, .empty⟩ with
    ledger := ⟨.set .empty 1 { ShadowUser.blank with cash := 1000, seeded := true },
      .set .empty 1 100, 1⟩ }

theorem knownPrice_seeded : Seeded (fun _ => 100) 1 knownPrice where
  quiet := rfl
  prices i price hprice := by
    simp only [knownPrice, JsMap.get?_set] at hprice
    split at hprice
    · exact (Option.some.inj hprice).symm
    · cases hprice
  shadow user huser := by
    cases huser
    refine ⟨rfl, fun ρ => ?_, funext fun ρ => ?_⟩
    · cases ρ <;> rfl
    · cases ρ <;> rfl

/-- A fill that is expected and decided first, and an order it leaves nothing for. -/
def decidedInOrder : List Event :=
  [.place (buy 10 (by decide)), .place (buy 1 Int.one_pos), .execute 0, .execute 1, .answer 1,
    .answer 0]

theorem unspoiled_decidedInOrder :
    (simulation (N := .exact) fun _ _ => 100).Along (Unspoiled 1) knownPrice decidedInOrder := by
  refine Machine.along_cons _ trivial rfl ?_
  refine Machine.along_cons _ trivial rfl ?_
  refine Machine.along_cons _ (fun o ho _ => ?_) rfl ?_
  · cases ho
    rintro ⟨x, hx, -, -, -, hdrew⟩
    refine absurd hdrew ((fun h : ∀ y ∈ _, ¬0 < Flight.drawn y .cash => h x hx) ?_)
    decide +kernel
  refine Machine.along_cons _ (fun o ho _ => ?_) rfl ?_
  · cases ho
    exact fun ⟨x, _, _, _, hagainst⟩ => hagainst
  refine Machine.along_cons _ trivial rfl ?_
  exact Machine.along_cons _ trivial rfl trivial

section Doubles

attribute [local instance] Numbers.double

/-- With doubles, which round nothing here, both orders are decided as they were expected. -/
theorem predictions_hold_decidedInOrder : ∃ w,
    (simulation fun _ _ => 100).run knownPrice decidedInOrder = some w ∧ PredictionsHold 1 w := by
  have hclose : ∀ _ : Int, (0 : Int) ≤ 100 := fun _ => by decide
  have hfits : (simulation fun _ _ => 100).Along World.Fits knownPrice decidedInOrder := by
    decide +kernel
  obtain ⟨w, hrun⟩ : ∃ w, (simulation (N := .exact) fun _ _ => 100).run knownPrice
      decidedInOrder = some w := ⟨_, rfl⟩
  rw [← run_eq hfits] at hrun
  exact ⟨w, hrun, predictions_hold hclose knownPrice_seeded (by decide +kernel) hfits
    ((along_eq hfits).mpr unspoiled_decidedInOrder) hrun⟩

/-- **A prediction is contradicted**: the second order holds nothing, is decided first, and takes
    a peso that was held for the first. -/
theorem prediction_contradicted : ∃ w,
    Seeded (fun _ => 100) 1 knownPrice ∧ (simulation fun _ _ => 100).run knownPrice
      [.place (buy 10 (by decide)), .place (buy 1 (by decide)), .execute 1, .execute 0] = some w ∧
      ¬PredictionsHold 1 w := by
  refine ⟨_, knownPrice_seeded, rfl, fun h => ?_⟩
  have hfilled := (h _ List.mem_cons_self (by decide +kernel) _ _ rfl).1 (by decide +kernel)
  exact absurd hfilled (by decide +kernel)

end Doubles

end Cocos.Tools
