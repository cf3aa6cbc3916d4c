import Cocos.Lib.Machine
import Cocos.Lib.Sql
import Cocos.Lib.Tally
import Cocos.Tools.LedgerNumbers

namespace Cocos.Tools

open Cocos.Lib
open Numbers

/-!
# The books of the shadow ledger

Generations are opened, portfolios seeded, orders reserved, and what was reserved is settled or
lost, in any order and from any generation.

* `LedgerCall`, `bookkeeping` — the calls, on the ledger and the reservations that it handed out,
  each of which is released once at most;
* `Kept.step` — a user keeps, of the orders of the generation, what those that are not released
  add to it;
* `Booked.step` — a user's balances are those of the last seed, less what the orders settled
  since have drawn;
* `Journal.Fits` — nothing is rounded in a call;
* `books_balance` — **so the books balance after any calls** in exact arithmetic, and on doubles
  after any in which nothing is rounded.
-/

/-! ### The calls -/

/-- A call of the ledger.  A reservation is named by its place among those handed out. -/
inductive LedgerCall
  | reseed (userIds : List Int)
  | seed (generation : Nat) (userId : Int) (portfolio : SeedPortfolio)
  | reserve (order : SimOrder)
  | settle (k : Nat) (r : Reservation) (execution : Option Execution)
  | lose (k : Nat) (r : Reservation)
deriving DecidableEq, Repr

/-- A reservation that was handed out. -/
structure Handed where
  reservation : Reservation
  released : Bool
deriving DecidableEq, Repr

/-- The ledger, and what it has handed out. -/
structure Journal where
  ledger : ShadowLedger
  handed : List Handed

/-- A new ledger. -/
def Journal.initial : Journal := ⟨.empty, []⟩

/-- The ledger is called.  What was handed out and is not yet released may be settled or lost, at
    any time after. -/
def bookkeeping [N : Numbers] : Machine Journal LedgerCall where
  step s
    | .reseed userIds => some { s with ledger := s.ledger.reseed userIds }
    | .seed generation userId portfolio =>
      some { s with ledger := s.ledger.seed generation userId portfolio }
    | .reserve order =>
      let (r, ledger) := s.ledger.reserve order
      some ⟨ledger, s.handed ++ [⟨r, false⟩]⟩
    | .settle k r execution =>
      if s.handed[k]? = some ⟨r, false⟩ then
        some ⟨s.ledger.settle r execution, s.handed.set k ⟨r, true⟩⟩
      else none
    | .lose k r =>
      if s.handed[k]? = some ⟨r, false⟩ then some ⟨s.ledger.lose r, s.handed.set k ⟨r, true⟩⟩
      else none

/-- What one call does. -/
inductive Called [N : Numbers] (s : Journal) : LedgerCall → Journal → Prop
  | reseed (userIds : List Int) :
    Called s (.reseed userIds) { s with ledger := s.ledger.reseed userIds }
  | seed (generation : Nat) (userId : Int) (portfolio : SeedPortfolio) :
    Called s (.seed generation userId portfolio)
      { s with ledger := s.ledger.seed generation userId portfolio }
  | reserve (order : SimOrder) : Called s (.reserve order)
      ⟨(s.ledger.reserve order).2, s.handed ++ [⟨s.ledger.reservation order, false⟩]⟩
  | settle {k : Nat} {r : Reservation} (execution : Option Execution)
    (h : s.handed[k]? = some ⟨r, false⟩) : Called s (.settle k r execution)
      ⟨s.ledger.settle r execution, s.handed.set k ⟨r, true⟩⟩
  | lose {k : Nat} {r : Reservation} (h : s.handed[k]? = some ⟨r, false⟩) :
    Called s (.lose k r) ⟨s.ledger.lose r, s.handed.set k ⟨r, true⟩⟩

theorem called_of_step [N : Numbers] {s s' : Journal} {call : LedgerCall}
    (hstep : bookkeeping.step s call = some s') : Called s call s' := by
  cases call with
  | reseed userIds =>
    cases hstep
    exact .reseed userIds
  | seed generation userId portfolio =>
    cases hstep
    exact .seed generation userId portfolio
  | reserve order =>
    cases hstep
    exact .reserve order
  | settle k r execution =>
    simp only [bookkeeping, Option.ite_none_right_eq_some, Option.some.injEq] at hstep
    obtain ⟨hk, rfl⟩ := hstep
    exact .settle execution hk
  | lose k r =>
    simp only [bookkeeping, Option.ite_none_right_eq_some, Option.some.injEq] at hstep
    obtain ⟨hk, rfl⟩ := hstep
    exact .lose hk

/-! ### What the ledger holds -/

/-- The reservation is one of user `u` in generation `g` that is not released. -/
def Handed.owedIn (g : Nat) (u : Int) (h : Handed) : Bool :=
  h.released = false ∧ h.reservation.generation = g ∧ h.reservation.order.userId = u

/-- The reservations of user `u` in the current generation that are not released. -/
def Journal.owed (s : Journal) (u : Int) : List Reservation :=
  (s.handed.filter (Handed.owedIn s.ledger.current u)).map (·.reservation)

/-- What a reservation that is owed counts for. -/
def Handed.owes (g : Nat) (u : Int) (c : Reservation → Int) (h : Handed) : Int :=
  if h.owedIn g u then c h.reservation else 0

theorem sum_owed (s : Journal) (u : Int) (c : Reservation → Int) :
    ((s.owed u).map c).sum = tally (Handed.owes s.ledger.current u c) s.handed := by
  rw [Journal.owed, List.map_map, sum_filter]
  rfl

/-- A release leaves the reservations as they are. -/
theorem forall_release {handed : List Handed} {P : Reservation → Prop} {k : Nat} {r : Reservation}
    (hk : handed[k]? = some ⟨r, false⟩) (h : ∀ x ∈ handed, P x.reservation) :
    ∀ x ∈ handed.set k ⟨r, true⟩, P x.reservation := by
  have hr : P r := h ⟨r, false⟩ (List.mem_of_getElem? hk)
  exact forall_mem_set (P := fun x : Handed => P x.reservation) h hr k

/-- No reservation is of a generation that is not open yet. -/
def Journal.Generations (s : Journal) : Prop :=
  ∀ h ∈ s.handed, h.reservation.generation ≤ s.ledger.current

theorem Journal.Generations.step [N : Numbers] {s s' : Journal} {call : LedgerCall}
    (h : s.Generations) (hstep : Called s call s') : s'.Generations := by
  cases hstep with
  | reseed userIds => exact fun x hx => (h x hx).trans (Nat.le_succ _)
  | seed generation userId portfolio =>
    intro x hx
    rw [ShadowLedger.current_seed]
    exact h x hx
  | reserve order =>
    intro x hx
    rcases List.mem_append.mp hx with hx | hx
    · exact h x hx
    · rw [List.mem_singleton.mp hx]
      exact (s.ledger.generation_reservation order).le
  | settle execution hk =>
    rw [Generations, ShadowLedger.current_settle]
    exact forall_release (P := fun r => r.generation ≤ s.ledger.current) hk h
  | lose hk =>
    rw [Generations, ShadowLedger.current_lose]
    exact forall_release (P := fun r => r.generation ≤ s.ledger.current) hk h

section Kept

variable {q : ShadowUser → Int} {c : Reservation → Int} {s s' : Journal} {call : LedgerCall}

/-- The quantity is what the reservations that are owed add to it. -/
def Kept (q : ShadowUser → Int) (c : Reservation → Int) (s : Journal) : Prop :=
  ∀ u user, s.ledger.users.get? u = some user →
    q user = tally (Handed.owes s.ledger.current u c) s.handed

/-- What is released is not owed any more. -/
theorem tally_owes_release {k : Nat} {r : Reservation} (hk : s.handed[k]? = some ⟨r, false⟩)
    (g : Nat) (u : Int) : tally (Handed.owes g u c) (s.handed.set k ⟨r, true⟩) =
      tally (Handed.owes g u c) s.handed -
        if u = r.order.userId ∧ r.generation = g then c r else 0 := by
  rw [tally_set hk]
  by_cases hu : u = r.order.userId
  · subst hu
    by_cases hg : r.generation = g <;> simp [Handed.owes, Handed.owedIn, hg]
  · simp [Handed.owes, Handed.owedIn, hu, Ne.symm hu]

/-- **One call keeps the quantity at what is owed.** -/
theorem Kept.step [N : Numbers] (hq : ShadowUser.Keeps q c) (hg : s.Generations) (h : Kept q c s)
    (hstep : Called s call s') : Kept q c s' := by
  intro u user huser
  cases hstep with
  | reseed userIds =>
    -- nothing was reserved in a generation that opens only now
    have hnone : tally (Handed.owes (s.ledger.current + 1) u c) s.handed = 0 := by
      apply tally_eq_zero
      intro x hx
      have hne : x.reservation.generation ≠ s.ledger.current + 1 := by
        have := hg x hx
        omega
      simp [Handed.owes, Handed.owedIn, hne]
    rw [ShadowLedger.get?_reseed, Option.ite_none_right_eq_some, Option.some.injEq] at huser
    rw [← huser.2, hq.blank]
    exact hnone.symm
  | seed generation userId portfolio =>
    rw [ShadowLedger.get?_seed] at huser
    rw [ShadowLedger.current_seed]
    split at huser
    · obtain ⟨v, hv, rfl⟩ := Option.map_eq_some_iff.mp huser
      rw [hq.seed, h u v hv]
    · exact h u user huser
  | reserve order =>
    rw [ShadowLedger.get?_reserve] at huser
    rw [ShadowLedger.current_reserve, tally_concat]
    simp only [Handed.owes, Handed.owedIn, ShadowLedger.generation_reservation,
      ShadowLedger.order_reservation, true_and, decide_eq_true_eq]
    split at huser
    · rename_i hu
      obtain ⟨v, hv, rfl⟩ := Option.map_eq_some_iff.mp huser
      rw [hq.reserve, h u v hv, if_pos hu.symm]
    · rename_i hu
      rw [h u user huser, if_neg (Ne.symm hu), add_zero]
  | settle execution hk =>
    rw [ShadowLedger.get?_settle] at huser
    rw [ShadowLedger.current_settle, tally_owes_release hk]
    split at huser
    · rename_i hu
      obtain ⟨v, hv, rfl⟩ := Option.map_eq_some_iff.mp huser
      rw [hq.settle, h u v hv, if_pos hu]
    · rename_i hu
      rw [h u user huser, if_neg hu, sub_zero]
  | lose hk =>
    rw [ShadowLedger.get?_lose] at huser
    rw [ShadowLedger.current_lose, tally_owes_release hk]
    split at huser
    · rename_i hu
      obtain ⟨v, hv, rfl⟩ := Option.map_eq_some_iff.mp huser
      rw [hq.lose, h u v hv, if_pos hu]
    · rename_i hu
      rw [h u user huser, if_neg hu, sub_zero]

end Kept

/-! ### What the ledger learns -/

/-- The price of the answer is not negative. -/
def LedgerCall.priced : LedgerCall → Bool
  | .settle _ _ (some execution) => 0 ≤ readCentavos execution.price
  | _ => true

/-- No price that was learned is negative, and no reservation holds less than nothing. -/
structure Journal.Nonneg (s : Journal) : Prop where
  prices : ∀ i price, s.ledger.prices.get? i = some price → 0 ≤ price
  holds : ∀ h ∈ s.handed, ∀ ρ, 0 ≤ h.reservation.held ρ

section Exact

attribute [local instance] Numbers.exact

/-- At a price that is not negative an order does not hold less than nothing. -/
theorem held_reservation_nonneg {ledger : ShadowLedger}
    (h : ∀ i price, ledger.prices.get? i = some price → 0 ≤ price) (order : SimOrder)
    (ρ : Resource) : 0 ≤ (ledger.reservation order).held ρ := by
  cases hprice : ledger.prices.get? order.instrumentId with
  | none => rw [ledger.held_reservation_unpriced hprice]
  | some price =>
    rw [ledger.held_reservation hprice]
    split
    · rename_i hheld
      obtain ⟨-, rfl⟩ := hheld
      have hcost := mul_nonneg (h _ _ hprice) order.size_pos.le
      have hsize := order.size_pos.le
      cases hside : order.side <;>
        simp only [SimOrder.resource, SimOrder.trade, Trade.draw, hside, if_true] <;> assumption
    · exact le_rfl

theorem prices_learn_nonneg {ledger : ShadowLedger}
    (h : ∀ i price, ledger.prices.get? i = some price → 0 ≤ price) {k : Nat} {r : Reservation}
    {execution : Option Execution} (hpriced : (LedgerCall.settle k r execution).priced = true) :
    ∀ i price, (ledger.learn r execution).prices.get? i = some price → 0 ≤ price := by
  intro i price hi
  unfold ShadowLedger.learn at hi
  split at hi
  · rw [JsMap.get?_set] at hi
    split at hi
    · cases hi
      simpa [LedgerCall.priced] using hpriced
    · exact h i price hi
  · exact h i price hi

theorem Journal.Nonneg.step {s s' : Journal} {call : LedgerCall} (h : s.Nonneg)
    (hpriced : call.priced = true) (hstep : Called s call s') : s'.Nonneg := by
  cases hstep with
  | reseed userIds => exact ⟨h.prices, h.holds⟩
  | seed generation userId portfolio =>
    exact ⟨by rw [ShadowLedger.prices_seed]; exact h.prices, h.holds⟩
  | reserve order =>
    refine ⟨h.prices, fun x hx => ?_⟩
    rcases List.mem_append.mp hx with hx | hx
    · exact h.holds x hx
    · rw [List.mem_singleton.mp hx]
      exact held_reservation_nonneg h.prices order
  | settle execution hk =>
    refine ⟨?_, forall_release (P := fun r => ∀ ρ, 0 ≤ r.held ρ) hk h.holds⟩
    rw [ShadowLedger.prices_settle]
    exact prices_learn_nonneg h.prices hpriced
  | lose hk =>
    refine ⟨?_, forall_release (P := fun r => ∀ ρ, 0 ≤ r.held ρ) hk h.holds⟩
    rw [ShadowLedger.prices_lose]
    exact h.prices

end Exact

/-! ### The balances -/

/-- What the call makes of the balances of user `u` in generation `g`, if it starts them anew. -/
def LedgerCall.base (g : Nat) (u : Int) : LedgerCall → Option Account
  | .reseed _ => some fun _ => 0
  | .seed generation userId portfolio =>
    if generation = g ∧ userId = u then some portfolio.account else none
  | _ => none

/-- What the call draws on them: a settlement of the generation, what its order was filled for. -/
def LedgerCall.drew (g : Nat) (u : Int) : LedgerCall → Account
  | .settle _ r execution =>
    if r.generation = g ∧ r.order.userId = u then r.order.drawn execution else fun _ => 0
  | _ => fun _ => 0

/-- The balances are those of the last seed of user `u` in generation `g`, or nothing if there was
    none, less all that was drawn since. -/
def Booked (g : Nat) (u : Int) (calls : List LedgerCall) (account : Account) : Prop :=
  ∃ pre call post base, calls = pre ++ call :: post ∧ call.base g u = some base ∧
    (∀ c ∈ post, c.base g u = none) ∧
    ∀ ρ, account ρ = base ρ - tally (fun c => c.drew g u ρ) post

/-- A call that starts nothing anew draws on the balances. -/
theorem Booked.concat {g : Nat} {u : Int} {calls : List LedgerCall} {account account' : Account}
    {call : LedgerCall} (h : Booked g u calls account) (hnone : call.base g u = none)
    (haccount : ∀ ρ, account' ρ = account ρ - call.drew g u ρ) :
    Booked g u (calls ++ [call]) account' := by
  obtain ⟨pre, first, post, base, rfl, hbase, hpost, hbooked⟩ := h
  refine ⟨pre, first, post ++ [call], base, by simp, hbase, fun c hc => ?_, fun ρ => ?_⟩
  · rcases List.mem_append.mp hc with hc | hc
    · exact hpost c hc
    · rw [List.mem_singleton.mp hc, hnone]
  · rw [haccount, hbooked, tally_concat]
    ring

/-- A call that starts them anew. -/
theorem booked_base {g : Nat} {u : Int} (calls : List LedgerCall) {account : Account}
    {call : LedgerCall} (h : call.base g u = some account) :
    Booked g u (calls ++ [call]) account :=
  ⟨calls, call, [], account, rfl, h, by simp, fun ρ => by simp⟩

/-- The balances of every user are booked. -/
def Journal.Booked (s : Journal) (calls : List LedgerCall) : Prop :=
  ∀ u user, s.ledger.users.get? u = some user →
    Cocos.Tools.Booked s.ledger.current u calls user.account

section Exact

attribute [local instance] Numbers.exact

/-- **One more call of exact arithmetic keeps the balances booked.** -/
theorem Journal.Booked.step {s s' : Journal} {calls : List LedgerCall} {call : LedgerCall}
    (h : s.Booked calls) (hstep : Called s call s') : s'.Booked (calls ++ [call]) := by
  intro u user huser
  cases hstep with
  | reseed userIds =>
    rw [ShadowLedger.get?_reseed, Option.ite_none_right_eq_some, Option.some.injEq] at huser
    refine booked_base calls ?_
    rw [← huser.2]
    refine congrArg some (funext fun ρ => ?_)
    cases ρ <;> rfl
  | seed generation userId portfolio =>
    rw [ShadowLedger.get?_seed] at huser
    rw [ShadowLedger.current_seed]
    split at huser
    · rename_i hu
      obtain ⟨v, hv, rfl⟩ := Option.map_eq_some_iff.mp huser
      refine booked_base calls ?_
      rw [LedgerCall.base, if_pos ⟨hu.2, hu.1.symm⟩, ShadowUser.account_seed_exact]
    · rename_i hu
      refine (h u user huser).concat (if_neg fun hc => hu ⟨hc.2.symm, hc.1⟩) fun ρ => ?_
      exact (sub_zero _).symm
  | reserve order =>
    rw [ShadowLedger.get?_reserve] at huser
    rw [ShadowLedger.current_reserve]
    split at huser
    · obtain ⟨v, hv, rfl⟩ := Option.map_eq_some_iff.mp huser
      refine (h u v hv).concat rfl fun ρ => ?_
      rw [ShadowUser.account_reserve]
      exact (sub_zero _).symm
    · exact (h u user huser).concat rfl fun ρ => (sub_zero _).symm
  | settle execution hk =>
    rw [ShadowLedger.get?_settle] at huser
    rw [ShadowLedger.current_settle]
    split at huser
    · rename_i hu
      obtain ⟨v, hv, rfl⟩ := Option.map_eq_some_iff.mp huser
      refine (h u v hv).concat rfl fun ρ => ?_
      rw [ShadowUser.account_settle, LedgerCall.drew, if_pos ⟨hu.2, hu.1.symm⟩]
    · rename_i hu
      refine (h u user huser).concat rfl fun ρ => ?_
      rw [LedgerCall.drew, if_neg fun hc => hu ⟨hc.2.symm, hc.1⟩, sub_zero]
  | lose hk =>
    rw [ShadowLedger.get?_lose] at huser
    rw [ShadowLedger.current_lose]
    split at huser
    · obtain ⟨v, hv, rfl⟩ := Option.map_eq_some_iff.mp huser
      refine (h u v hv).concat rfl fun ρ => ?_
      rw [ShadowUser.account_lose]
      exact (sub_zero _).symm
    · exact (h u user huser).concat rfl fun ρ => (sub_zero _).symm

end Exact

/-! ### The books -/

/-- The books balance on the journal `s` that the calls have led to. -/
structure BooksBalance [N : Numbers] (calls : List LedgerCall) (s : Journal) : Prop where
  /-- A user has as many orders outstanding as there are reservations owed, -/
  outstanding : ∀ u user, s.ledger.users.get? u = some user →
    user.outstanding = (s.owed u).length
  /-- and holds what those hold, of the cash and of each instrument's shares, -/
  held : ∀ u user, s.ledger.users.get? u = some user →
    ∀ ρ, user.held ρ = ((s.owed u).map (·.held ρ)).sum
  /-- which is never less than nothing. -/
  held_nonneg : ∀ u user, s.ledger.users.get? u = some user → ∀ ρ, 0 ≤ user.held ρ
  /-- What a user has is what was seeded last, less what was drawn since. -/
  account : ∀ u user, s.ledger.users.get? u = some user →
    Booked s.ledger.current u calls user.account
  /-- What was reserved in an older generation or for no user changes no user, -/
  stale : ∀ r execution,
    r.generation ≠ s.ledger.current ∨ s.ledger.users.get? r.order.userId = none →
      (s.ledger.settle r execution).users = s.ledger.users ∧
        (s.ledger.lose r).users = s.ledger.users
  /-- nor does the reserving of an order for no user. -/
  unknown : ∀ order, s.ledger.users.get? order.userId = none →
    (s.ledger.reserve order).2.users = s.ledger.users

section Stale

variable [N : Numbers]

/-- Of a key that is not there nothing is changed. -/
theorem users_settle_of_stale {ledger : ShadowLedger} {r : Reservation}
    (h : r.generation ≠ ledger.current ∨ ledger.users.get? r.order.userId = none)
    (execution : Option Execution) : (ledger.settle r execution).users = ledger.users := by
  simp only [ShadowLedger.settle, ShadowLedger.current_learn]
  rcases h with hgeneration | huser
  · rw [if_pos hgeneration, ShadowLedger.users_learn]
  · split
    · exact ledger.users_learn r execution
    · rw [ShadowLedger.users_learn]
      exact JsMap.modify_of_none huser _

theorem users_lose_of_stale {ledger : ShadowLedger} {r : Reservation}
    (h : r.generation ≠ ledger.current ∨ ledger.users.get? r.order.userId = none) :
    (ledger.lose r).users = ledger.users := by
  unfold ShadowLedger.lose
  rcases h with hgeneration | huser
  · rw [if_pos hgeneration]
  · split
    · rfl
    · exact JsMap.modify_of_none huser _

end Stale

/-- The users of a new ledger keep nothing, since there are none. -/
theorem kept_run [N : Numbers] {q : ShadowUser → Int} {c : Reservation → Int}
    (hq : ShadowUser.Keeps q c) {calls : List LedgerCall} {s : Journal} (hrun : bookkeeping.run .initial calls = some s) :
    Kept q c s := by
  have key : s.Generations ∧ Kept q c s :=
    bookkeeping.invariant_run (I := fun s => s.Generations ∧ Kept q c s)
      (fun h hstep => ⟨h.1.step (called_of_step hstep), h.2.step hq h.1 (called_of_step hstep)⟩)
      ⟨fun _ hx => (by cases hx), fun _ _ huser => (by cases huser)⟩ hrun
  exact key.2

section Exact

attribute [local instance] Numbers.exact

theorem nonneg_run {calls : List LedgerCall} (hpriced : ∀ call ∈ calls, call.priced = true)
    {s : Journal} (hrun : bookkeeping.run .initial calls = some s) : s.Nonneg := by
  refine bookkeeping.invariant_along (P := fun _ call => call.priced = true)
    (fun h hcall hstep => h.step hcall (called_of_step hstep)) ⟨?_, ?_⟩
    (bookkeeping.along_of_forall hpriced) hrun
  · exact fun i price hprice => (by cases hprice)
  · exact fun x hx => (by cases hx)

theorem booked_run {calls : List LedgerCall} {s : Journal}
    (hrun : bookkeeping.run .initial calls = some s) : s.Booked calls :=
  bookkeeping.run_induction (P := fun calls s => s.Booked calls)
    (fun _ _ huser => (by cases huser))
    (fun _ _ _ _ _ h hstep => h.step (called_of_step hstep)) hrun

/-- In exact arithmetic the books balance after any calls. -/
theorem books_balance_exact {calls : List LedgerCall}
    (hpriced : ∀ call ∈ calls, call.priced = true) {s : Journal}
    (hrun : bookkeeping.run .initial calls = some s) : BooksBalance calls s where
  outstanding u user huser := by
    rw [kept_run ShadowUser.keeps_outstanding hrun u user huser, ← sum_owed]
    simp
  held u user huser ρ := by
    rw [sum_owed]
    exact kept_run (ShadowUser.keeps_held ρ) hrun u user huser
  held_nonneg u user huser ρ := by
    refine (tally_nonneg ?_).trans_eq (kept_run (ShadowUser.keeps_held ρ) hrun u user huser).symm
    intro x hx
    unfold Handed.owes
    split
    · exact (nonneg_run hpriced hrun).holds x hx ρ
    · exact le_rfl
  account := booked_run hrun
  stale _ execution h := ⟨users_settle_of_stale h execution, users_lose_of_stale h⟩
  unknown _ huser := JsMap.modify_of_none huser _

end Exact

/-! ### Calls in which nothing is rounded -/

section Fits

variable [N : Numbers]

/-- Nothing is rounded in the call. -/
def Journal.Fits (s : Journal) : LedgerCall → Prop
  | .reseed _ => True
  | .seed generation _ portfolio => generation = s.ledger.current → Reads portfolio.availableCash
  | .reserve order => s.ledger.FitsReserve order
  | .settle _ r execution => s.ledger.FitsSettle r execution
  | .lose _ r => s.ledger.FitsLose r

instance Journal.decidableFits (s : Journal) : ∀ call, Decidable (s.Fits call)
  | .reseed _ => inferInstanceAs (Decidable True)
  | .seed generation _ portfolio => inferInstanceAs (Decidable
    (generation = s.ledger.current → Reads portfolio.availableCash))
  | .reserve order => inferInstanceAs (Decidable (s.ledger.FitsReserve order))
  | .settle _ r execution => inferInstanceAs (Decidable (s.ledger.FitsSettle r execution))
  | .lose _ r => inferInstanceAs (Decidable (s.ledger.FitsLose r))

theorem bookkeeping_eq {s : Journal} {call : LedgerCall} (h : s.Fits call) :
    bookkeeping.step s call = (bookkeeping (N := .exact)).step s call := by
  cases call with
  | reseed userIds => rfl
  | seed generation userId portfolio => simp only [bookkeeping, ShadowLedger.seed_eq h]
  | reserve order => simp only [bookkeeping, ShadowLedger.reserve_eq h]
  | settle k r execution => simp only [bookkeeping, ShadowLedger.settle_eq h]
  | lose k r => simp only [bookkeeping, ShadowLedger.lose_eq h]

/-- Otherwise they do after any in which nothing is rounded. -/
theorem books_balance_of_fits {calls : List LedgerCall} (hpriced : ∀ call ∈ calls, call.priced = true)
    (hfits : bookkeeping.Along Journal.Fits .initial calls) {s : Journal}
    (hrun : bookkeeping.run .initial calls = some s) : BooksBalance calls s := by
  rw [Machine.run_congr (fun _ _ => bookkeeping_eq) hfits] at hrun
  obtain ⟨houtstanding, hheld, hnonneg, haccount, -, -⟩ := books_balance_exact hpriced hrun
  exact ⟨houtstanding, hheld, hnonneg, haccount,
    fun _ execution h => ⟨users_settle_of_stale h execution, users_lose_of_stale h⟩,
    fun _ huser => JsMap.modify_of_none huser _⟩

end Fits

/-- **The books balance after any calls**, in exact centavos; and so they do on the numbers of the
    language as long as none of them is rounded. -/
theorem books_balance {calls : List LedgerCall} (hpriced : ∀ call ∈ calls, call.priced = true) :
    (∀ s, (bookkeeping (N := .exact)).run .initial calls = some s →
      BooksBalance (N := .exact) calls s) ∧
    ∀ s, (bookkeeping (N := .double)).Along (Journal.Fits (N := .double)) .initial calls →
      (bookkeeping (N := .double)).run .initial calls = some s →
      BooksBalance (N := .double) calls s :=
  ⟨fun _ hrun => books_balance_exact hpriced hrun,
    fun _ hfits hrun => books_balance_of_fits (N := .double) hpriced hfits hrun⟩

section Doubles

attribute [local instance] Numbers.double

/-- User 1 buys a share of instrument 1. -/
def buyShare : SimOrder := ⟨1, 1, .BUY, 1, .MARKET, Int.one_pos⟩

/-- A share is bought at one peso, which is learned, and another is on its way. -/
def boughtOne : List LedgerCall :=
  [.reseed [1], .seed 1 1 ⟨"10.00", []⟩, .reserve buyShare,
    .settle 0 ⟨1, buyShare, .UNKNOWN, 0, 0⟩ (some ⟨.FILLED, "1.00"⟩), .reserve buyShare]

/-- The one on its way is outstanding, and a peso is held for it. -/
theorem books_balance_boughtOne : ∃ s user, bookkeeping.run .initial boughtOne = some s ∧
    s.ledger.users.get? 1 = some user ∧ user.outstanding = 1 ∧ user.held .cash = 100 ∧
      Booked 1 1 boughtOne user.account := by
  obtain ⟨s, hrun, huser, howed⟩ := bookkeeping.exists_run .initial boughtOne
    (P := fun s => (s.ledger.users.get? 1).isSome ∧
      s.owed 1 = [⟨1, buyShare, .FILLED, 100, 0⟩] ∧ s.ledger.current = 1) (by decide +kernel)
  obtain ⟨user, huser⟩ := Option.isSome_iff_exists.mp huser
  have h := (books_balance (by decide +kernel)).2 s (by decide +kernel) hrun
  have hout := h.outstanding 1 user huser
  have hheld := h.held 1 user huser .cash
  rw [howed.1] at hout hheld
  exact ⟨s, user, hrun, huser, hout, hheld, howed.2 ▸ h.account 1 user huser⟩

end Doubles

end Cocos.Tools
