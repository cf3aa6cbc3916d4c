import Cocos.Tools.Flights

namespace Cocos.Tools

open Cocos.Lib
open Numbers

/-!
# Shadows that are thrown away and read back

A portfolio is read at one moment and installed at a later one, with orders decided and settled
in between.  What is installed is the target's balance of the first moment.

* `PortfolioRead.Accurate` — a portfolio on its way differs from the book by exactly what was
  drawn since it was taken (`drawn_step`), and `Inv`: so do all, after every step;
* `NoStaleSeed` — no portfolio is installed and trusted after a fill it does not have;
* `balanced_step` — in exact arithmetic a trusted shadow stays balanced in the steps that are
  `Undisturbed`;
* `reset_safe`, `heal_installs_balance` — **runs of such steps, in which nothing is rounded, keep
  every shadow right**, and `reset_unsafe`, `heal_installs_stale`, one run each that has another.
-/

/-! ### What was drawn since a moment -/

namespace Flight

/-- The order was filled after the moment given. -/
def filledAfter (moment : Nat) (x : Flight) : Bool :=
  match x.outcome with
  | some (.executed ⟨.FILLED, _⟩ clock) => moment < clock
  | _ => false

/-- Where the target has decided the order, it was before the moment given. -/
def DecidedBefore (moment : Nat) (x : Flight) : Prop :=
  ∀ execution clock, x.outcome = some (.executed execution clock) → clock < moment

/-- What an order of user `u` has drawn since a moment. -/
def drawnSince (moment : Nat) (u : Int) (ρ : Resource) (x : Flight) : Int :=
  if x.order.userId = u ∧ x.filledAfter moment then x.drawn ρ else 0

/-- An order that is decided after a moment has drawn what it draws since then. -/
theorem drawnSince_decided {x : Flight} {execution : Execution} {moment clock : Nat}
    (h : moment < clock) (u : Int) (ρ : Resource) :
    { x with outcome := some (.executed execution clock) }.drawnSince moment u ρ =
      if u = x.order.userId then x.order.drawn (some execution) ρ else 0 := by
  by_cases hu : u = x.order.userId
  · subst hu
    obtain ⟨status, price⟩ := execution
    cases status <;>
      simp [drawnSince, filledAfter, drawn, Outcome.execution, SimOrder.drawn_some, h]
  · simp [drawnSince, hu, Ne.symm hu]

theorem drawnSince_open {x : Flight} (h : x.outcome = none) (moment : Nat) (u : Int)
    (ρ : Resource) : x.drawnSince moment u ρ = 0 := by
  rw [drawnSince, drawn_of_open h, ite_self]

/-- An order that was decided before a moment has drawn nothing since. -/
theorem DecidedBefore.drawnSince {x : Flight} {clock moment : Nat}
    (h : x.DecidedBefore clock) (hle : clock ≤ moment) (u : Int) (ρ : Resource) :
    x.drawnSince moment u ρ = 0 := by
  have hnot : x.filledAfter moment = false := by
    unfold filledAfter
    split
    · rename_i price t hout
      have := h _ t hout
      simp only [decide_eq_false_iff_not]
      omega
    · rfl
  simp [Flight.drawnSince, hnot]

end Flight

/-! ### Portfolios on their way -/

/-- A portfolio on its way differs from the book by what the orders of its user have drawn since
    it was taken. -/
def PortfolioRead.Accurate (w : World) (r : PortfolioRead) : Prop :=
  ∀ portfolio clock, r.phase = .taken portfolio clock → clock < w.clock ∧ ∀ ρ,
    portfolio.account ρ = (w.books r.userId).account ρ +
      tally (Flight.drawnSince clock r.userId ρ) w.flights

/-- What holds in every state a run reaches. -/
structure Inv (w : World) : Prop where
  generations : Generations w
  counted : ∀ u, Counted u w
  decided : ∀ x ∈ w.flights, x.DecidedBefore w.clock
  portfolios : ∀ r ∈ w.reads, r.Accurate w

theorem inv_initial (books : Int → Book) : Inv (.initial books) where
  generations _ h := absurd h List.not_mem_nil
  counted u user h := by
    rw [World.initial, ShadowLedger.empty, JsMap.get?_empty] at h
    cases h
  decided _ h := absurd h List.not_mem_nil
  portfolios _ h := absurd h List.not_mem_nil

section Steps

variable [N : Numbers] {closes : Nat → Int → Int} {w w' : World} {e : Event}

theorem decided_step (h : ∀ x ∈ w.flights, x.DecidedBefore w.clock)
    (hstep : Took closes w e w') : ∀ x ∈ w'.flights, x.DecidedBefore w'.clock := by
  have hlater : ∀ x ∈ w.flights, x.DecidedBefore (w.clock + 1) :=
    fun x hx execution clock hout => Nat.lt_succ_of_lt (h x hx execution clock hout)
  cases hstep with
  | place order =>
    intro x hx execution clock hout
    rcases List.mem_append.mp hx with hx | hx
    · exact hlater x hx execution clock hout
    · rw [List.mem_singleton] at hx
      subst hx
      cases hout
  | @execute k x hk =>
    refine forall_mem_set (P := Flight.DecidedBefore (w.clock + 1)) hlater ?_ k
    intro execution clock hout
    cases hout
    exact Nat.lt_succ_self _
  | @shed k x hk =>
    refine forall_mem_set (P := Flight.DecidedBefore (w.clock + 1)) hlater ?_ k
    intro execution clock hout
    cases hout
  | @answer k x _ hk | @lose k x hk =>
    simp only [World.answer_flights, World.answer_clock, World.lose_flights, World.lose_clock]
    refine forall_mem_set (P := Flight.DecidedBefore (w.clock + 1)) hlater ?_ k
    exact hlater x (List.mem_of_getElem? hk)
  | seedUsers | take | fail | deliver => exact hlater

/-- **What was in the book at a moment** is what is there now and what was drawn since. -/
theorem drawn_step (hstep : Took closes w e w') {moment : Nat} (hmoment : moment < w.clock)
    (u : Int) (ρ : Resource) :
    (w'.books u).account ρ + tally (Flight.drawnSince moment u ρ) w'.flights =
      (w.books u).account ρ + tally (Flight.drawnSince moment u ρ) w.flights := by
  cases hstep with
  | place order =>
    rw [World.place_flights, tally_concat, Flight.drawnSince_open rfl, add_zero]
    rfl
  | @execute k x hk hopen =>
    rw [World.account_execute]
    simp only [World.execute]
    -- what leaves the book now is drawn after the moment
    rw [tally_set hk, Flight.drawnSince_decided hmoment, Flight.drawnSince_open hopen]
    omega
  | @shed k x hk hopen =>
    have hshed : { x with outcome := some .shed }.drawnSince moment u ρ = 0 := by
      rw [Flight.drawnSince, Flight.drawn_of_shed rfl, ite_self]
    simp only [World.shed]
    rw [tally_set hk, hshed, Flight.drawnSince_open hopen]
    omega
  | @answer k x outcome hk | @lose k x hk =>
    simp only [World.answer_books, World.answer_flights, World.lose_books, World.lose_flights]
    -- closing an order changes neither what it drew nor when
    rw [tally_set_of_eq hk]
    rfl
  | seedUsers | take | fail | deliver => rfl

/-- A portfolio in `w'` was on its way before, is not taken, or was taken just now. -/
theorem reads_step (hstep : Took closes w e w') {r : PortfolioRead} (hr : r ∈ w'.reads) :
    r ∈ w.reads ∨ (∀ portfolio clock, r.phase ≠ .taken portfolio clock) ∨
      (r.phase = .taken (w.books r.userId).portfolio w.clock ∧ w'.books = w.books ∧
        w'.flights = w.flights) := by
  have hasked : ∀ {r : PortfolioRead}, r.phase = .asked →
      ∀ portfolio clock, r.phase ≠ .taken portfolio clock := fun h _ _ h' => by
    rw [h] at h'
    cases h'
  cases hstep with
  | place | execute | shed => exact .inl hr
  | answer | lose => exact (World.mem_reads_reseed _ _ hr).imp_right fun h => .inl (hasked h)
  | seedUsers users =>
    rcases List.mem_append.mp hr with hr | hr
    · exact .inl hr
    · obtain ⟨_, -, rfl⟩ := List.mem_map.mp hr
      exact .inr (.inl (hasked rfl))
  | take =>
    rcases List.mem_or_eq_of_mem_set hr with hr | rfl
    · exact .inl hr
    · exact .inr (.inr ⟨rfl, rfl, rfl⟩)
  | fail | deliver =>
    rcases List.mem_or_eq_of_mem_set hr with hr | rfl
    · exact .inl hr
    · exact .inr (.inl fun _ _ h => by cases h)

/-- **A portfolio differs from the book by what was drawn since it was taken.** -/
theorem portfolios_step (h : Inv w) (hstep : Took closes w e w') :
    ∀ r ∈ w'.reads, r.Accurate w' := by
  intro r hr portfolio clock hphase
  have hclock : w.clock < w'.clock := by
    cases hstep <;> simp [World.place, World.execute, World.shed, World.seedUsers, World.take,
      World.finish, World.deliver]
  rcases reads_step hstep hr with hold | hnot | ⟨hnow, hbooks, hflights⟩
  · obtain ⟨hlt, haccount⟩ := h.portfolios r hold portfolio clock hphase
    refine ⟨hlt.trans hclock, fun ρ => ?_⟩
    rw [haccount, drawn_step hstep hlt]
  · exact absurd hphase (hnot portfolio clock)
  · -- nothing has been decided after this very moment
    rw [hnow] at hphase
    cases hphase
    refine ⟨hclock, fun ρ => ?_⟩
    have hzero : tally (Flight.drawnSince w.clock r.userId ρ) w.flights = 0 :=
      tally_eq_zero fun x hx => (h.decided x hx).drawnSince le_rfl _ _
    rw [hbooks, hflights, hzero, Book.account_portfolio, add_zero]

theorem Inv.step (h : Inv w) (hstep : Took closes w e w') : Inv w' where
  generations := h.generations.step hstep
  counted u := (h.counted u).step h.generations hstep
  decided := decided_step h.decided hstep
  portfolios := portfolios_step h hstep

end Steps

/-! ### What is installed -/

/-- A portfolio of user `u` that arrives in its generation with none of the user's orders
    outstanding was taken after the last fill of an order of `u`. -/
def NoStaleSeed (u : Int) (w : World) : Event → Prop
  | .deliver j => ∀ r portfolio clock user, w.reads[j]? = some r →
      r.phase = .taken portfolio clock → r.userId = u → r.generation = w.ledger.current →
      w.ledger.users.get? u = some user → user.outstanding = 0 →
      ∀ x ∈ w.flights, x.order.userId = u → x.filledAfter clock = false
  | _ => True

/-- The target fills no order behind the back of a trusted shadow of `u`, neither while it is
    trusted nor while it is read. -/
def Undisturbed (closes : Nat → Int → Int) (u : Int) (w : World) (e : Event) : Prop :=
  NoStrayFill closes u w e ∧ NoStaleSeed u w e

section Trust

variable {closes : Nat → Int → Int} {w w' : World} {e : Event} {u : Int}

/-- **A portfolio that has every fill is the book.** -/
theorem portfolio_eq_book (h : Inv w) {r : PortfolioRead} {portfolio : SeedPortfolio}
    {clock : Nat} (hr : r ∈ w.reads) (hphase : r.phase = .taken portfolio clock)
    (hfresh : ∀ x ∈ w.flights, x.order.userId = r.userId → x.filledAfter clock = false)
    (ρ : Resource) : portfolio.account ρ = (w.books r.userId).account ρ := by
  have hzero : tally (Flight.drawnSince clock r.userId ρ) w.flights = 0 := by
    apply tally_eq_zero
    intro x hx
    unfold Flight.drawnSince
    split
    · rename_i hdrawn
      rw [hfresh x hx hdrawn.1] at hdrawn
      exact absurd hdrawn.2 (by simp)
    · rfl
  rw [(h.portfolios r hr portfolio clock hphase).2 ρ, hzero, add_zero]

/-- A portfolio that leaves its user certain found nothing outstanding, and is the book. -/
theorem seed_eq_book [N : Numbers] (h : Inv w) {j : Nat} {r : PortfolioRead}
    {portfolio : SeedPortfolio} {clock : Nat} (hj : w.reads[j]? = some r) (hphase : r.phase = .taken portfolio clock)
    (hgen : r.generation = w.ledger.current) {v : ShadowUser}
    (hv : w.ledger.users.get? r.userId = some v) (hcertain : (v.seed portfolio).uncertain = false)
    (hreads : r.phase.Fits) (hfresh : NoStaleSeed r.userId w (.deliver j)) :
    v.outstanding = 0 ∧ (v.seed portfolio).account = (w.books r.userId).account := by
  -- `outstanding > 0` is all that `seed` asks, so certain means that nothing is out
  have hnonneg := (h.counted r.userId).nonneg hv
  have hzero : v.outstanding = 0 := by
    have : v.outstanding ≤ 0 := by simpa using hcertain
    omega
  refine ⟨hzero, ?_⟩
  have hread : Reads portfolio.availableCash := by
    rw [hphase] at hreads
    exact hreads
  funext ρ
  rw [v.account_seed portfolio hread]
  exact portfolio_eq_book h (List.mem_of_getElem? hj) hphase
    (hfresh r portfolio clock v hj hphase rfl hgen hv hzero) ρ

section Exact

attribute [local instance] Numbers.exact

/-- In exact arithmetic every portfolio is read to the centavo. -/
theorem ReadPhase.fits_exact (phase : ReadPhase) : phase.Fits := by
  cases phase with
  | taken => exact toCentavos_exact _
  | asked | finished => trivial

/-- **One step** keeps a trusted shadow balanced, if it is undisturbed. -/
theorem balanced_step (h : Inv w) (hb : Balanced u w) (hsafe : Undisturbed closes u w e)
    (hstep : Took closes w e w') : Balanced u w' := by
  by_cases hdeliver : ∃ j, e = .deliver j
  · obtain ⟨j, rfl⟩ := hdeliver
    cases hstep with
    | @deliver _ r portfolio clock hj hphase =>
      intro user huser htrusted ρ
      rw [World.deliver, World.finish, ShadowLedger.get?_seed] at huser
      show user.account ρ = (w.books u).account ρ +
        tally (Flight.due (w.ledger.seed _ _ _).current u _) w.flights
      rw [ShadowLedger.current_seed]
      split at huser
      · rename_i hu
        obtain ⟨rfl, hgen⟩ := hu
        obtain ⟨v, hv, rfl⟩ := Option.map_eq_some_iff.mp huser
        obtain ⟨-, hcertain⟩ : _ ∧ (v.seed portfolio).uncertain = false := by
          simpa only [ShadowUser.trusted, Bool.and_eq_true, Bool.not_eq_true'] using htrusted
        obtain ⟨hzero, haccount⟩ := seed_eq_book h hj hphase hgen hv hcertain
          r.phase.fits_exact hsafe.2
        rw [haccount, (h.counted _).tally_due hv hzero, add_zero]
      · exact hb user huser htrusted ρ
  · exact balanced_orders_step hb hsafe.1 (fun j he => hdeliver ⟨j, he⟩) hstep

end Exact

end Trust

/-! ### Sample worlds -/

/-- User 1 buys one share of instrument 1. -/
def buyOne : SimOrder := ⟨1, 1, .BUY, 1, .MARKET, Int.one_pos⟩

/-- Every user has ten pesos. -/
def tenPesos (_ : Int) : Book := ⟨1000, .empty⟩

/-- Every share costs one, at every moment. -/
def onePeso (_ : Nat) (_ : Int) : Int := 100

/-! ### Resets -/

/-- Nothing of the current generation is under way for user `u`, and nothing of an older one is
    still to be decided. -/
structure Quiet (u : Int) (w : World) : Prop where
  orders : ∀ x ∈ w.flights, x.order.userId = u → x.reservation.generation = w.ledger.current →
    x.outcome ≠ none ∧ x.closedAt ≠ none
  portfolios : ∀ r ∈ w.reads, r.userId = u → r.generation = w.ledger.current →
    r.phase = .finished
  older : ∀ x ∈ w.flights, x.order.userId = u → x.reservation.generation < w.ledger.current →
    x.outcome ≠ none

/-- The shadow of a user that stands still says what the target has. -/
def ResetSafe (u : Int) (w : World) : Prop :=
  ∀ user, w.ledger.users.get? u = some user → user.seeded = true → user.uncertain = false →
    user.outstanding = 0 → Quiet u w → user.account = (w.books u).account

section Exact

attribute [local instance] Numbers.exact

/-- In exact arithmetic resets are safe in undisturbed runs. -/
theorem reset_safe_exact {closes : Nat → Int → Int} {books : Int → Book} {u : Int}
    {es : List Event} {w : World}
    (halong : (simulation closes).Along (Undisturbed closes u) (.initial books) es)
    (hrun : (simulation closes).run (.initial books) es = some w) : ResetSafe u w := by
  have hbalanced : Inv w ∧ Balanced u w := by
    refine (simulation closes).invariant_along (I := fun w => Inv w ∧ Balanced u w)
      (fun h hsafe he => ⟨h.1.step (took_of_step he), ?_⟩) ⟨inv_initial books, ?_⟩ halong hrun
    · exact balanced_step h.1 h.2 hsafe (took_of_step he)
    · intro user huser
      cases huser
  obtain ⟨hinv, hbalanced⟩ := hbalanced
  intro user huser hseeded hcertain hout _
  funext ρ
  rw [hbalanced user huser (by simp [ShadowUser.trusted, hseeded, hcertain]) ρ,
    (hinv.counted u).tally_due huser hout, add_zero]

end Exact

/-- **Resets are safe in undisturbed runs** in which nothing is rounded, with any orders in
    flight. -/
theorem reset_safe [N : Numbers] {closes : Nat → Int → Int} {books : Int → Book} {u : Int}
    {es : List Event} {w : World}
    (hfits : (simulation closes).Along World.Fits (.initial books) es)
    (halong : (simulation closes).Along (Undisturbed closes u) (.initial books) es)
    (hrun : (simulation closes).run (.initial books) es = some w) : ResetSafe u w :=
  reset_safe_exact ((along_eq hfits).mp halong) (run_eq hfits ▸ hrun)

/-- A reset with an order in flight that the target executes before it takes the new portfolio. -/
def executedBeforeReset : List Event :=
  [.seedUsers [1], .take 0, .deliver 0, .place buyOne, .execute 0, .seedUsers [1], .take 1,
    .deliver 1, .answer 0]

theorem undisturbed_executedBeforeReset : (simulation (N := .exact) onePeso).Along
    (Undisturbed onePeso 1) (.initial tenPesos) executedBeforeReset := by
  refine Machine.along_cons _ ⟨trivial, trivial⟩ rfl ?_
  refine Machine.along_cons _ ⟨trivial, trivial⟩ rfl ?_
  refine Machine.along_cons _ ⟨trivial, fun _ _ _ _ _ _ _ _ _ _ x hx => by cases hx⟩ rfl ?_
  refine Machine.along_cons _ ⟨trivial, trivial⟩ rfl ?_
  refine Machine.along_cons _ ⟨fun x hx _ _ hdue => ?_, trivial⟩ rfl ?_
  · cases hx
    exact absurd hdue (by decide +kernel)
  refine Machine.along_cons _ ⟨trivial, trivial⟩ rfl ?_
  refine Machine.along_cons _ ⟨trivial, trivial⟩ rfl ?_
  refine Machine.along_cons _ ⟨trivial, fun r p c user hj hphase _ _ _ _ => ?_⟩ rfl ?_
  · cases hj
    cases hphase
    decide +kernel
  exact Machine.along_cons _ ⟨trivial, trivial⟩ rfl trivial

section Doubles

attribute [local instance] Numbers.double

theorem reset_safe_executedBefore : ∃ w,
    (simulation onePeso).run (.initial tenPesos) executedBeforeReset = some w ∧
      ResetSafe 1 w := by
  have hfits : (simulation onePeso).Along World.Fits (.initial tenPesos) executedBeforeReset := by
    decide +kernel
  obtain ⟨w, hrun⟩ : ∃ w, (simulation (N := .exact) onePeso).run (.initial tenPesos)
      executedBeforeReset = some w := ⟨_, rfl⟩
  rw [← run_eq hfits] at hrun
  exact ⟨w, hrun, reset_safe hfits ((along_eq hfits).mpr undisturbed_executedBeforeReset) hrun⟩

/-- **A reset loses an order** that the target executes after it took the new portfolio: the new
    shadow does not have it, its settlement is dropped, and what the shadow says, and trusts, is
    a peso more than there is. -/
theorem reset_unsafe : ∃ w,
    (simulation onePeso).run (.initial tenPesos) [.seedUsers [1], .take 0, .deliver 0,
      .place buyOne, .seedUsers [1], .take 1, .deliver 1, .execute 0, .answer 0] = some w ∧
      ¬ResetSafe 1 w := by
  refine ⟨_, (run_eq (by decide +kernel)).trans rfl, fun h => ?_⟩
  have haccount := h _ rfl rfl rfl rfl ⟨by decide +kernel, by decide +kernel, by decide +kernel⟩
  exact absurd (congrFun haccount .cash) (by decide +kernel)

end Doubles

/-! ### Re-reads -/

/-- A portfolio of the current generation that arrives is read to the centavo. -/
def World.ReadsPortfolio [N : Numbers] (w : World) : Event → Prop
  | .deliver j => ∀ r ∈ w.reads[j]?, r.generation = w.ledger.current → r.phase.Fits
  | _ => True

instance [N : Numbers] (w : World) : ∀ e, Decidable (w.ReadsPortfolio e)
  | .deliver j => inferInstanceAs (Decidable (∀ r ∈ w.reads[j]?,
    r.generation = w.ledger.current → r.phase.Fits))
  | .place _ | .execute _ | .shed _ | .answer _ | .lose _ | .seedUsers _ | .take _ | .fail _ =>
    inferInstanceAs (Decidable True)

/-- A portfolio of the current generation that leaves its user certain is what the target has
    when it arrives. -/
def SeedsBalance [N : Numbers] (closes : Nat → Int → Int) (w : World) : Event → Prop
  | .deliver j => ∀ r w' user, w.reads[j]? = some r → r.generation = w.ledger.current →
      (simulation closes).step w (.deliver j) = some w' →
      w'.ledger.users.get? r.userId = some user →
      user.uncertain = false → user.account = (w'.books r.userId).account
  | _ => True

/-- **Re-reads install the target's balance** where every portfolio of the current generation is
    read to the centavo and none that is trusted is stale. -/
theorem heal_installs_balance [N : Numbers] {closes : Nat → Int → Int} {books : Int → Book}
    {es : List Event} (hreads : (simulation closes).Along World.ReadsPortfolio (.initial books) es)
    (halong : (simulation closes).Along (fun w e => ∀ u, NoStaleSeed u w e) (.initial books) es) :
    (simulation closes).Along (SeedsBalance closes) (.initial books) es := by
  refine (simulation closes).along_mono (I := Inv) (fun h _ he => h.step (took_of_step he)) ?_
    (inv_initial books) ((simulation closes).along_and hreads halong)
  rintro w e h ⟨hread, hfresh⟩
  cases e with
  | deliver j =>
    intro r w' user hj hgen hstep huser hcertain
    cases took_of_step hstep with
    | @deliver _ r' portfolio clock hj' hphase =>
      cases hj.symm.trans hj'
      rw [World.deliver, World.finish, ShadowLedger.get?_seed, if_pos ⟨rfl, hgen⟩] at huser
      obtain ⟨v, hv, rfl⟩ := Option.map_eq_some_iff.mp huser
      exact (seed_eq_book h hj hphase hgen hv hcertain (hread r hj hgen) (hfresh r.userId)).2
  | _ => trivial

/-- An order whose answer is lost, and a re-read after it was executed. -/
def executedBeforeRead : List Event :=
  [.seedUsers [1], .take 0, .deliver 0, .place buyOne, .execute 0, .lose 0, .take 1, .deliver 1]

theorem fresh_executedBeforeRead : (simulation (N := .exact) onePeso).Along
    (fun w e => ∀ u, NoStaleSeed u w e) (.initial tenPesos) executedBeforeRead := by
  refine Machine.along_cons _ (fun _ => trivial) rfl ?_
  refine Machine.along_cons _ (fun _ => trivial) rfl ?_
  refine Machine.along_cons _ (fun _ _ _ _ _ _ _ _ _ _ _ x hx => by cases hx) rfl ?_
  refine Machine.along_cons _ (fun _ => trivial) rfl ?_
  refine Machine.along_cons _ (fun _ => trivial) rfl ?_
  refine Machine.along_cons _ (fun _ => trivial) rfl ?_
  refine Machine.along_cons _ (fun _ => trivial) rfl ?_
  refine Machine.along_cons _ (fun u r p c user hj hphase _ _ _ _ x hx _ => ?_) rfl trivial
  cases hj
  cases hphase
  refine (fun h : ∀ y ∈ _, Flight.filledAfter 6 y = false => h x hx) ?_
  decide +kernel

section Doubles

attribute [local instance] Numbers.double

theorem heal_installs_balance_executedBefore :
    (simulation onePeso).Along (SeedsBalance onePeso) (.initial tenPesos) executedBeforeRead := by
  have hfits : (simulation onePeso).Along World.Fits (.initial tenPesos) executedBeforeRead := by
    decide +kernel
  exact heal_installs_balance (by decide +kernel) ((along_eq hfits).mpr fresh_executedBeforeRead)

/-- **A re-read installs a stale balance**: the order sent after the portfolio was taken is
    settled before it arrives, and what arrives is trusted. -/
theorem heal_installs_stale : ∃ w,
    (simulation onePeso).run (.initial tenPesos) [.seedUsers [1], .take 0, .deliver 0,
      .place buyOne, .shed 0, .lose 0, .take 1, .place buyOne, .execute 1, .answer 1] = some w ∧
      ¬SeedsBalance onePeso w (.deliver 1) := by
  refine ⟨_, (run_eq (by decide +kernel)).trans rfl, fun h => ?_⟩
  have haccount := h _ _ _ rfl rfl rfl rfl rfl
  exact absurd (congrFun haccount .cash) (by decide +kernel)

end Doubles

end Cocos.Tools
