import Cocos.Lib.Tally
import Cocos.Tools.Simulation

namespace Cocos.Tools

open Cocos.Lib

/-!
# Orders in flight

What the orders that were sent add up to, whatever becomes of them in between.

* `Flight.dueIn` — the settlement of an order is still due: it was reserved in this generation
  and is not closed; `tally_due_sent`, `tally_due_decided`, `tally_due_closed` say what each step
  does to a sum over such orders;
* `Tallied.step` — **what a shadow keeps of its orders is what those that are due add to it**,
  so that it counts as outstanding the orders that are due (`Counted`);
* `Balanced` — a trusted shadow differs from the book by exactly the fills it is still owed, and
  `balanced_orders_step`: in exact arithmetic nothing that happens to orders breaks that but the
  fill of one that no settlement is due for (`NoStrayFill`).
-/

/-! ### One order -/

namespace Flight

/-- What the target's answer says the order drew. -/
def drawn (x : Flight) : Account := x.order.drawn (x.outcome.bind Outcome.execution)

/-- The order is user `u`'s, and its settlement is still due in generation `g`. -/
def dueIn (g : Nat) (u : Int) (x : Flight) : Bool :=
  x.order.userId = u ∧ x.reservation.generation = g ∧ x.closedAt = none

/-- Counts an order by `f` while it is due. -/
def due (g : Nat) (u : Int) (f : Flight → Int) (x : Flight) : Int := if x.dueIn g u then f x else 0

theorem drawn_of_open {x : Flight} (h : x.outcome = none) (ρ : Resource) : x.drawn ρ = 0 := by
  simp [drawn, h, SimOrder.drawn]

theorem drawn_of_shed {x : Flight} (h : x.outcome = some .shed) (ρ : Resource) :
    x.drawn ρ = 0 := by
  simp [drawn, h, Outcome.execution, SimOrder.drawn]

theorem due_of_not_due {g : Nat} {u : Int} {x : Flight} (h : x.dueIn g u = false)
    (f : Flight → Int) : x.due g u f = 0 := by
  simp [due, h]

theorem due_nonneg (g : Nat) (u : Int) {f : Flight → Int} {x : Flight} (h : 0 ≤ f x) :
    0 ≤ x.due g u f := by
  unfold due
  split
  · exact h
  · exact le_rfl

/-- An order that is not closed is due to its own user, in its own generation. -/
theorem dueIn_of_open {x : Flight} (h : x.closedAt = none) (g : Nat) (u : Int) :
    x.dueIn g u = decide (u = x.order.userId ∧ x.reservation.generation = g) := by
  simp only [dueIn, h, and_true, decide_eq_decide]
  exact and_congr_left fun _ => eq_comm

end Flight

section Due

variable {xs : List Flight} {k : Nat} {x : Flight} (g : Nat) (u : Int) (f : Flight → Int)

/-- An order that is sent is due from then on. -/
theorem tally_due_sent (hopen : x.closedAt = none) :
    tally (Flight.due g u f) (xs ++ [x]) = tally (Flight.due g u f) xs +
      if u = x.order.userId ∧ x.reservation.generation = g then f x else 0 := by
  rw [tally_concat, Flight.due, Flight.dueIn_of_open hopen]
  simp only [decide_eq_true_eq]

/-- An order that is decided is due as it was, and counts as decided. -/
theorem tally_due_decided (hk : xs[k]? = some x) (outcome : Option Outcome) :
    tally (Flight.due g u f) (xs.set k { x with outcome := outcome }) =
      tally (Flight.due g u f) xs +
        if x.dueIn g u then f { x with outcome := outcome } - f x else 0 := by
  have hsame : { x with outcome := outcome }.dueIn g u = x.dueIn g u := rfl
  rw [tally_set hk, Flight.due, Flight.due, hsame]
  split <;> ring

/-- An order that is closed is due no more. -/
theorem tally_due_closed (hk : xs[k]? = some x) (hopen : x.closedAt = none) (clock : Nat) :
    tally (Flight.due g u f) (xs.set k { x with closedAt := some clock }) =
      tally (Flight.due g u f) xs -
        if u = x.order.userId ∧ x.reservation.generation = g then f x else 0 := by
  have hclosed : { x with closedAt := some clock }.dueIn g u = false := by simp [Flight.dueIn]
  rw [tally_set hk, Flight.due_of_not_due hclosed, Flight.due, Flight.dueIn_of_open hopen, add_zero]
  simp only [decide_eq_true_eq]

end Due

/-! ### Generations -/

/-- No order is of a generation that is still to come. -/
def Generations (w : World) : Prop :=
  ∀ x ∈ w.flights, x.reservation.generation ≤ w.ledger.current

section Steps

variable [N : Numbers] {closes : Nat → Int → Int} {w w' : World} {e : Event} {u : Int}

theorem Generations.step (h : Generations w) (hstep : Took closes w e w') : Generations w' := by
  cases hstep with
  | place order =>
    intro x hx
    rcases List.mem_append.mp hx with hx | hx
    · exact h x hx
    · rw [List.mem_singleton] at hx
      subst hx
      exact le_of_eq (w.ledger.generation_reservation order)
  | @execute k x hk | @shed k x hk =>
    refine forall_mem_set (P := fun y : Flight => y.reservation.generation ≤ w.ledger.current)
      h ?_ k
    exact h x (List.mem_of_getElem? hk)
  | @answer k x _ hk | @lose k x hk =>
    simp only [Generations, World.answer_flights, World.answer_ledger, World.lose_flights,
      World.lose_ledger, ShadowLedger.current_settle, ShadowLedger.current_lose]
    refine forall_mem_set (P := fun y : Flight => y.reservation.generation ≤ w.ledger.current)
      h ?_ k
    exact h x (List.mem_of_getElem? hk)
  | seedUsers users =>
    exact fun x hx => le_trans (h x hx) (Nat.le_succ _)
  | take | fail => exact h
  | deliver =>
    intro x hx
    exact le_of_le_of_eq (h x hx) (ShadowLedger.current_seed _ _ _ _).symm

/-! ### What a shadow keeps of its orders -/

/-- The quantity is what the orders that are due add to it. -/
def Tallied (q : ShadowUser → Int) (c : Reservation → Int) (u : Int) (w : World) : Prop :=
  ∀ user, w.ledger.users.get? u = some user →
    q user = tally (Flight.due w.ledger.current u fun x => c x.reservation) w.flights

/-- **What a shadow keeps of its orders is what those that are due add to it.** -/
theorem Tallied.step {q : ShadowUser → Int} {c : Reservation → Int} (hq : ShadowUser.Keeps q c)
    (hg : Generations w) (h : Tallied q c u w) (hstep : Took closes w e w') :
    Tallied q c u w' := by
  intro user huser
  cases hstep with
  | place order =>
    rw [World.place_ledger, ShadowLedger.get?_reserve] at huser
    rw [World.place_flights, World.place_ledger, ShadowLedger.current_reserve,
      tally_due_sent _ _ _ rfl]
    simp only [Flight.order, ShadowLedger.order_reservation, ShadowLedger.generation_reservation,
      and_true]
    split at huser
    · rename_i hu
      obtain ⟨v, hv, rfl⟩ := Option.map_eq_some_iff.mp huser
      rw [hq.reserve, h v hv, if_pos hu]
    · rename_i hu
      rw [h user huser, if_neg hu, add_zero]
  | execute hk | shed hk =>
    simp only [World.execute, World.shed] at huser ⊢
    rw [h user huser, tally_due_decided _ _ _ hk, sub_self, ite_self, add_zero]
  | answer hk _ hopen =>
    rw [World.answer_ledger, ShadowLedger.get?_settle] at huser
    rw [World.answer_flights, World.answer_ledger, ShadowLedger.current_settle,
      tally_due_closed _ _ _ hk hopen]
    split at huser
    · rename_i hu
      obtain ⟨v, hv, rfl⟩ := Option.map_eq_some_iff.mp huser
      rw [hq.settle, h v hv, if_pos hu]
    · rename_i hu
      rw [h user huser, if_neg hu, sub_zero]
  | lose hk hopen =>
    rw [World.lose_ledger, ShadowLedger.get?_lose] at huser
    rw [World.lose_flights, World.lose_ledger, ShadowLedger.current_lose,
      tally_due_closed _ _ _ hk hopen]
    split at huser
    · rename_i hu
      obtain ⟨v, hv, rfl⟩ := Option.map_eq_some_iff.mp huser
      rw [hq.lose, h v hv, if_pos hu]
    · rename_i hu
      rw [h user huser, if_neg hu, sub_zero]
  | seedUsers users =>
    -- no order was reserved in a generation that opens only now
    have hzero : tally (Flight.due (w.ledger.current + 1) u fun x => c x.reservation) w.flights =
        0 := by
      apply tally_eq_zero
      intro x hx
      have hold := hg x hx
      have hne : x.reservation.generation ≠ w.ledger.current + 1 := by omega
      exact Flight.due_of_not_due (by simp [Flight.dueIn, hne]) _
    rw [World.seedUsers, ShadowLedger.get?_reseed] at huser
    split at huser
    · rw [Option.some.injEq] at huser
      rw [← huser, hq.blank]
      exact hzero.symm
    · cases huser
  | take | fail => exact h user huser
  | deliver =>
    rw [World.deliver, World.finish, ShadowLedger.get?_seed] at huser
    show q user = tally (Flight.due (w.ledger.seed _ _ _).current u _) w.flights
    rw [ShadowLedger.current_seed]
    split at huser
    · obtain ⟨v, hv, rfl⟩ := Option.map_eq_some_iff.mp huser
      rw [hq.seed, h v hv]
    · exact h user huser

/-! ### Outstanding orders -/

/-- The shadow of `u` counts as outstanding what is due in its generation. -/
def Counted (u : Int) (w : World) : Prop :=
  ∀ user, w.ledger.users.get? u = some user →
    user.outstanding = tally (Flight.due w.ledger.current u fun _ => 1) w.flights

theorem Counted.step (hg : Generations w) (h : Counted u w) (hstep : Took closes w e w') :
    Counted u w' :=
  Tallied.step ShadowUser.keeps_outstanding hg h hstep

end Steps

section Due

variable {w : World} {u : Int}

/-- A shadow never counts fewer than no orders. -/
theorem Counted.nonneg (h : Counted u w) {user : ShadowUser}
    (huser : w.ledger.users.get? u = some user) : 0 ≤ user.outstanding := by
  rw [h user huser]
  exact tally_nonneg fun _ _ => Flight.due_nonneg _ _ Int.one_nonneg

/-- With nothing outstanding no order is due. -/
theorem Counted.dueIn_eq_false (h : Counted u w) {user : ShadowUser}
    (huser : w.ledger.users.get? u = some user) (hout : user.outstanding = 0) {x : Flight}
    (hx : x ∈ w.flights) : x.dueIn w.ledger.current u = false := by
  have hzero : x.due w.ledger.current u (fun _ => 1) = 0 :=
    eq_zero_of_tally (fun _ _ => Flight.due_nonneg _ _ Int.one_nonneg)
      ((h user huser).symm.trans hout) hx
  by_contra hdue
  rw [Flight.due, if_pos (by simpa using hdue)] at hzero
  exact absurd hzero one_ne_zero

/-- With nothing outstanding a sum over what is due is zero. -/
theorem Counted.tally_due (h : Counted u w) {user : ShadowUser}
    (huser : w.ledger.users.get? u = some user) (hout : user.outstanding = 0)
    (f : Flight → Int) : tally (Flight.due w.ledger.current u f) w.flights = 0 :=
  tally_eq_zero fun _ hx => Flight.due_of_not_due (h.dueIn_eq_false huser hout hx) f

end Due

/-! ### Trusted shadows -/

/-- The shadow is taken as evidence. -/
def ShadowUser.trusted (user : ShadowUser) : Bool := user.seeded && !user.uncertain

/-- The shadow of user `u` is there, and taken as evidence. -/
def World.trusted (w : World) (u : Int) : Bool := (w.ledger.users.get? u).any ShadowUser.trusted

/-- **A trusted shadow is the book and what it is owed**: the orders that are filled and not
    settled yet. -/
def Balanced (u : Int) (w : World) : Prop :=
  ∀ user, w.ledger.users.get? u = some user → user.trusted = true → ∀ ρ,
    user.account ρ = (w.books u).account ρ +
      tally (Flight.due w.ledger.current u fun x => x.drawn ρ) w.flights

/-- The target fills an order of user `u` that no settlement is due for (one of an older
    generation, or one that was given up) only while the shadow of `u` is not trusted. -/
def NoStrayFill (closes : Nat → Int → Int) (u : Int) (w : World) : Event → Prop
  | .execute k => ∀ x, w.flights[k]? = some x → x.order.userId = u →
      (w.verdict (closes w.clock) x.order).status = .FILLED → x.dueIn w.ledger.current u = false →
      w.trusted u = false
  | _ => True

section Trust

attribute [local instance] Numbers.exact

variable {closes : Nat → Int → Int} {w w' : World} {e : Event} {u : Int}

/-- **One step of an order**, or a reset, keeps a trusted shadow balanced in exact arithmetic. -/
theorem balanced_orders_step (hb : Balanced u w) (hsafe : NoStrayFill closes u w e)
    (hevent : ∀ j, e ≠ .deliver j) (hstep : Took closes w e w') : Balanced u w' := by
  intro user huser htrusted ρ
  cases hstep with
  | place order =>
    rw [World.place_ledger, ShadowLedger.get?_reserve] at huser
    rw [World.place_flights, World.place_ledger, ShadowLedger.current_reserve,
      tally_due_sent _ _ _ rfl, Flight.drawn_of_open rfl, ite_self, add_zero]
    split at huser
    · obtain ⟨v, hv, rfl⟩ := Option.map_eq_some_iff.mp huser
      rw [ShadowUser.account_reserve]
      exact hb v hv (by simpa [ShadowUser.trusted] using htrusted) ρ
    · exact hb user huser htrusted ρ
  | @execute k x hk hopen =>
    have hold := hb user huser htrusted ρ
    rw [World.account_execute, hold]
    simp only [World.execute]
    rw [tally_due_decided _ _ _ hk, Flight.drawn_of_open hopen, sub_zero]
    show _ = _ - _ + (_ + if x.dueIn w.ledger.current u then
      x.order.drawn (some (w.verdict (closes w.clock) x.order)) ρ else 0)
    by_cases hdue : x.dueIn w.ledger.current u = true
    · -- what the book loses now, the settlement will take from the shadow
      have hu : u = x.order.userId := by
        simp only [Flight.dueIn, decide_eq_true_eq] at hdue
        exact hdue.1.symm
      rw [if_pos hu, if_pos hdue]
      omega
    · rw [if_neg hdue]
      by_cases hu : u = x.order.userId
      · rw [if_pos hu]
        -- nothing is due for it: if it is filled, the shadow is not trusted
        have hnot : (w.verdict (closes w.clock) x.order).status ≠ .FILLED := by
          intro hfilled
          have huntrusted := hsafe x hk hu.symm hfilled (by simpa using hdue)
          simp only [World.trusted, show w.ledger.users.get? u = some user from huser] at huntrusted
          simp [htrusted] at huntrusted
        rw [SimOrder.drawn_some, if_neg hnot]
        omega
      · rw [if_neg hu]
        omega
  | @shed k x hk hopen =>
    simp only [World.shed] at huser ⊢
    rw [tally_due_decided _ _ _ hk, Flight.drawn_of_open hopen, Flight.drawn_of_shed rfl, sub_self,
      ite_self, add_zero]
    exact hb user huser htrusted ρ
  | @answer k x outcome hk houtcome hopen =>
    rw [World.answer_ledger, ShadowLedger.get?_settle] at huser
    rw [World.answer_flights, World.answer_ledger, ShadowLedger.current_settle,
      World.answer_books, tally_due_closed _ _ _ hk hopen]
    split at huser
    · -- the shadow books what it was owed
      rename_i hu
      obtain ⟨v, hv, rfl⟩ := Option.map_eq_some_iff.mp huser
      -- the settlement is by the answer the target's fill was drawn from
      have hdrawn : x.drawn ρ = x.order.drawn outcome.execution ρ := by
        rw [Flight.drawn, houtcome]
        rfl
      have hold := hb v hv (by simpa [ShadowUser.trusted] using htrusted) ρ
      rw [ShadowUser.account_settle, if_pos hu, hdrawn, hold]
      show _ - x.order.drawn _ ρ = _
      omega
    · rename_i hu
      rw [if_neg hu, sub_zero]
      exact hb user huser htrusted ρ
  | @lose k x hk hopen =>
    rw [World.lose_ledger, ShadowLedger.get?_lose] at huser
    rw [World.lose_flights, World.lose_ledger, ShadowLedger.current_lose, World.lose_books,
      tally_due_closed _ _ _ hk hopen]
    split at huser
    · obtain ⟨v, hv, rfl⟩ := Option.map_eq_some_iff.mp huser
      -- an order that is given up leaves nothing to be trusted
      simp [ShadowUser.trusted] at htrusted
    · rename_i hu
      rw [if_neg hu, sub_zero]
      exact hb user huser htrusted ρ
  | seedUsers users =>
    rw [World.seedUsers, ShadowLedger.get?_reseed] at huser
    split at huser
    · cases huser
      cases htrusted
    · cases huser
  | take | fail => exact hb user huser htrusted ρ
  | @deliver j => exact absurd rfl (hevent j)

end Trust

end Cocos.Tools
