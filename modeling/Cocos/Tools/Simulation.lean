import Cocos.Lib.Machine
import Cocos.Tools.LedgerNumbers

namespace Cocos.Tools

open Cocos.Lib
open Numbers

/-!
# The simulation and its target

`SimulationService` of `tools/src/simulation/simulation.service.ts`, and a target that decides
orders as the API does, with everything that can be under way between them.

* `Book` — what the target has of one user; `decideOn` is its decision on an order, at the
  closes of the moment;
* `Flight`, `PortfolioRead` — an order that was sent and a portfolio that was asked for, with
  how far each has got and the moments it got there;
* `Event`, `step` — an order is sent, decided, shed, answered or given up; the shadows are thrown
  away and read anew; a portfolio is asked for, taken, and delivered or not;
* `Took`, `took_of_step` — **all a step can do**, one constructor for each way it can go;
* `World.Fits`, `step_eq` — nothing is rounded in a step, which is then **the step of exact
  arithmetic**; `run_eq`, `along_eq` say it of runs.

An order that is given up may still be decided: the client's silence stops nothing.  An answer
that comes without an order (the target shed it, or refused the request) is one outcome, `shed`.
Moments are counted in steps (`World.clock`); the closes may change from one to the next.
-/

/-! ### The target -/

/-- What the target has of one user. -/
structure Book where
  cash : Int
  shares : JsMap Int Int

namespace Book

/-- The account of the book. -/
def account (book : Book) : Account
  | .cash => book.cash
  | .shares i => (book.shares.get? i).getD 0

/-- The book after a trade. -/
def fill (book : Book) (t : Trade) : Book :=
  ⟨book.cash - t.draw .cash, book.shares.set t.instrumentId
    (book.account (.shares t.instrumentId) - t.draw (.shares t.instrumentId))⟩

/-- The portfolio the target reports: the positions are those that are not zero. -/
def portfolio (book : Book) : SeedPortfolio :=
  ⟨apiString book.cash, book.shares.entries.filter fun e => e.2 ≠ 0⟩

@[simp] theorem account_fill (book : Book) (t : Trade) :
    (book.fill t).account = t.fill book.account := by
  funext ρ
  cases ρ with
  | cash => rfl
  | shares i =>
    rw [Trade.fill_apply]
    simp only [fill, account, JsMap.get?_set]
    by_cases h : i = t.instrumentId
    · simp [h]
    · simp [h, Trade.draw]

/-- **A portfolio reports the book.** -/
@[simp] theorem account_portfolio (book : Book) : book.portfolio.account = book.account := by
  funext ρ
  cases ρ with
  | cash => simp [portfolio, SeedPortfolio.account, account]
  | shares i =>
    simp only [portfolio, SeedPortfolio.account, account, JsMap.get?_ofEntries_filter]
    cases book.shares.get? i with
    | none => rfl
    | some quantity =>
      by_cases h : quantity = 0
      · simp [Option.filter, h]
      · simp [Option.filter, h]

/-- What an order is decided from. -/
def placement (close : Int → Int) (book : Book) (order : SimOrder) : Placement where
  side := order.side
  type := match order.type with
    | .MARKET => .MARKET
    | .LIMIT _ => .LIMIT
  price := match order.type with
    | .MARKET => none
    | .LIMIT price => some (readCentavos price)
  close := close order.instrumentId
  availableCash := book.cash
  heldShares := book.account (.shares order.instrumentId)
  size := order.size

/-- The target's decision. -/
def decideOn (close : Int → Int) (book : Book) (order : SimOrder) : Decision :=
  (placement close book order).decide

/-- **The target fills the MARKET orders whose trade at the close is covered.** -/
theorem decideOn_eq_filled {close : Int → Int} {book : Book} {order : SimOrder} :
    (decideOn close book order).status = .FILLED ↔ order.type = .MARKET ∧
      (order.trade (close order.instrumentId)).draw order.resource ≤
        book.account order.resource := by
  have htrade : order.type = .MARKET →
      (placement close book order).trade order.instrumentId =
        order.trade (close order.instrumentId) := by
    intro htype
    simp [Placement.trade, SimOrder.trade, Placement.executed, placement, htype]
  have htypes : (placement close book order).type = .MARKET ↔ order.type = .MARKET := by
    cases h : order.type <;> simp [placement, h]
  rw [decideOn, @Placement.decide_status_eq_filled_iff _ order.instrumentId book.account rfl rfl,
    htypes]
  refine and_congr_right fun htype => ?_
  rw [htrade htype]
  rfl

/-- A MARKET order is priced at the close, filled or not. -/
theorem decideOn_price {close : Int → Int} {book : Book} {order : SimOrder}
    (h : order.type = .MARKET) : (decideOn close book order).price = close order.instrumentId := by
  simp [decideOn, Placement.executed, placement, h]

/-- A MARKET order that is not filled is rejected. -/
theorem decideOn_market {close : Int → Int} {book : Book} {order : SimOrder}
    (h : order.type = .MARKET) : (decideOn close book order).status = .FILLED ∨
      (decideOn close book order).status = .REJECTED := by
  rcases (placement close book order).decide_status_cases with ⟨-, hstatus⟩ | ⟨htype, -⟩
  · exact hstatus
  · simp [placement, h] at htype

end Book

/-! ### What is under way -/

/-- What became of an order at the target, and when. -/
inductive Outcome
  | executed (execution : Execution) (clock : Nat)
  | shed
deriving DecidableEq, Repr

/-- The order in the answer, if it names one. -/
def Outcome.execution : Outcome → Option Execution
  | .executed execution _ => some execution
  | .shed => none

/-- An order that was sent: its reservation, what became of it, and when `place` settled it or
    gave it up. -/
structure Flight where
  reservation : Reservation
  sentAt : Nat
  outcome : Option Outcome
  closedAt : Option Nat

/-- The order that was sent. -/
abbrev Flight.order (x : Flight) : SimOrder := x.reservation.order

/-- How far a portfolio has got. -/
inductive ReadPhase
  | asked
  /-- The target has taken it, and the answer is on its way. -/
  | taken (portfolio : SeedPortfolio) (clock : Nat)
  | finished
deriving DecidableEq, Repr

/-- A portfolio that was asked for, by `seedUsers` or by the re-read of one user. -/
structure PortfolioRead where
  userId : Int
  generation : Nat
  healing : Bool
  phase : ReadPhase
deriving DecidableEq, Repr

/-- The shadow ledger, the target's books, and what is between them. -/
structure World where
  ledger : ShadowLedger
  books : Int → Book
  flights : List Flight
  reads : List PortfolioRead
  reseeding : List Int
  clock : Nat

namespace World

/-- Nothing sent yet. -/
def initial (books : Int → Book) : World := ⟨.empty, books, [], [], [], 0⟩

/-- `SimulationService.place` up to the send. -/
def place [N : Numbers] (w : World) (order : SimOrder) : World :=
  let (r, ledger) := w.ledger.reserve order
  { w with
    ledger := ledger
    flights := w.flights ++ [⟨r, w.clock, none, none⟩]
    clock := w.clock + 1 }

/-- The target's answer to an order, decided on its user's book. -/
def verdict (close : Int → Int) (w : World) (order : SimOrder) : Execution :=
  let decision := (w.books order.userId).decideOn close order
  ⟨decision.status, apiString decision.price⟩

/-- The target decides order `k`. -/
def execute (close : Int → Int) (w : World) (k : Nat) (x : Flight) : World :=
  let execution := w.verdict close x.order
  { w with
    books := if execution.status = .FILLED then
        Function.update w.books x.order.userId
          ((w.books x.order.userId).fill (x.order.trade (close x.order.instrumentId)))
      else w.books
    -- a LIMIT order rests as NEW or is refused: neither moves the book
    flights := w.flights.set k { x with outcome := some (.executed execution w.clock) }
    clock := w.clock + 1 }

/-- The target sheds order `k`. -/
def shed (w : World) (k : Nat) (x : Flight) : World :=
  { w with flights := w.flights.set k { x with outcome := some .shed }, clock := w.clock + 1 }

/-- `SimulationService.reseed`, where `needsReseed` asks for it: one re-read at a time. -/
def reseed (w : World) (userId : Int) : World :=
  if w.ledger.needsReseed userId ∧ userId ∉ w.reseeding then
    { w with
      reads := w.reads ++ [⟨userId, w.ledger.current, true, .asked⟩]
      reseeding := w.reseeding ++ [userId] }
  else w

/-- The answer to order `k` arrives. -/
def answer [N : Numbers] (w : World) (k : Nat) (x : Flight) (outcome : Outcome) : World :=
  reseed { w with
    ledger := w.ledger.settle x.reservation outcome.execution
    flights := w.flights.set k { x with closedAt := some w.clock }
    clock := w.clock + 1 } x.order.userId

/-- Order `k` is given up. -/
def lose [N : Numbers] (w : World) (k : Nat) (x : Flight) : World :=
  reseed { w with
    ledger := w.ledger.lose x.reservation
    flights := w.flights.set k { x with closedAt := some w.clock }
    clock := w.clock + 1 } x.order.userId

/-- `SimulationService.seedUsers`, up to the answers: every shadow is thrown away, and every
    user's portfolio asked for. -/
def seedUsers (w : World) (users : List Int) : World :=
  let ledger := w.ledger.reseed users
  { w with
    ledger := ledger
    reads := w.reads ++ users.map fun userId => ⟨userId, ledger.current, false, .asked⟩
    clock := w.clock + 1 }

/-- The target takes portfolio `j`. -/
def take (w : World) (j : Nat) (r : PortfolioRead) : World :=
  { w with
    reads := w.reads.set j { r with phase := .taken (w.books r.userId).portfolio w.clock }
    clock := w.clock + 1 }

/-- The end of a re-read. -/
def finish (w : World) (j : Nat) (r : PortfolioRead) : World :=
  { w with
    reads := w.reads.set j { r with phase := .finished }
    -- `finally`: whether the portfolio could be used or not
    reseeding := if r.healing then w.reseeding.erase r.userId else w.reseeding
    clock := w.clock + 1 }

/-- Portfolio `j` arrives. -/
def deliver [N : Numbers] (w : World) (j : Nat) (r : PortfolioRead) (portfolio : SeedPortfolio) :
    World :=
  finish { w with ledger := w.ledger.seed r.generation r.userId portfolio } j r

end World

namespace World

/-- **What the target draws from the book is what its answer says was drawn.** -/
theorem account_execute (close : Int → Int) (w : World) (k : Nat) (x : Flight) (u : Int)
    (ρ : Resource) :
    ((w.execute close k x).books u).account ρ = (w.books u).account ρ -
      if u = x.order.userId then x.order.drawn (some (w.verdict close x.order)) ρ else 0 := by
  by_cases hfilled : (w.verdict close x.order).status = .FILLED
  -- only MARKET orders are filled, and their answer carries the close
  · have hmarket := (Book.decideOn_eq_filled.mp hfilled).1
    have hprice : readCentavos (w.verdict close x.order).price = close x.order.instrumentId := by
      rw [verdict, readCentavos_apiString, Book.decideOn_price hmarket]
    rw [SimOrder.drawn_some, if_pos hfilled, hprice]
    simp only [execute, hfilled, if_true, Function.update_apply]
    by_cases hu : u = x.order.userId
    · simp [hu]
    · simp [hu]
  · rw [SimOrder.drawn_some, if_neg hfilled]
    simp [execute, hfilled]

section Fields

variable (w : World) (k : Nat) (x : Flight) (outcome : Outcome) (userId : Int)

@[simp] theorem execute_flights (close : Int → Int) : (w.execute close k x).flights =
    w.flights.set k { x with outcome := some (.executed (w.verdict close x.order) w.clock) } := rfl

@[simp] theorem shed_flights : (w.shed k x).flights =
    w.flights.set k { x with outcome := some .shed } := rfl

@[simp] theorem reseed_ledger : (w.reseed userId).ledger = w.ledger := by
  unfold reseed
  split <;> rfl

@[simp] theorem reseed_books : (w.reseed userId).books = w.books := by
  unfold reseed
  split <;> rfl

@[simp] theorem reseed_flights : (w.reseed userId).flights = w.flights := by
  unfold reseed
  split <;> rfl

@[simp] theorem reseed_clock : (w.reseed userId).clock = w.clock := by
  unfold reseed
  split <;> rfl

/-- All a re-read adds is a portfolio that is asked for. -/
theorem mem_reads_reseed {r : PortfolioRead} (h : r ∈ (w.reseed userId).reads) :
    r ∈ w.reads ∨ r.phase = .asked := by
  unfold reseed at h
  split at h
  · rcases List.mem_append.mp h with h | h
    · exact .inl h
    · rw [List.mem_singleton] at h
      exact .inr (h ▸ rfl)
  · exact .inl h

section Calls

variable [N : Numbers]

@[simp] theorem place_ledger (order : SimOrder) :
    (w.place order).ledger = (w.ledger.reserve order).2 := rfl

@[simp] theorem place_flights (order : SimOrder) : (w.place order).flights =
    w.flights ++ [⟨w.ledger.reservation order, w.clock, none, none⟩] := rfl

@[simp] theorem answer_ledger : (w.answer k x outcome).ledger =
    w.ledger.settle x.reservation outcome.execution := reseed_ledger _ _

@[simp] theorem answer_books : (w.answer k x outcome).books = w.books := reseed_books _ _

@[simp] theorem answer_flights : (w.answer k x outcome).flights =
    w.flights.set k { x with closedAt := some w.clock } := reseed_flights _ _

@[simp] theorem answer_clock : (w.answer k x outcome).clock = w.clock + 1 := reseed_clock _ _

@[simp] theorem lose_ledger : (w.lose k x).ledger = w.ledger.lose x.reservation :=
  reseed_ledger _ _

@[simp] theorem lose_books : (w.lose k x).books = w.books := reseed_books _ _

@[simp] theorem lose_flights : (w.lose k x).flights =
    w.flights.set k { x with closedAt := some w.clock } := reseed_flights _ _

@[simp] theorem lose_clock : (w.lose k x).clock = w.clock + 1 := reseed_clock _ _

end Calls

end Fields

end World

/-! ### The steps -/

/-- One step of the harness, of the target or of what is between them.  Orders and portfolios
    are numbered separately, as they were sent and asked for. -/
inductive Event
  | place (order : SimOrder)
  | execute (k : Nat)
  | shed (k : Nat)
  | answer (k : Nat)
  | lose (k : Nat)
  | seedUsers (users : List Int)
  | take (j : Nat)
  | fail (j : Nat)
  | deliver (j : Nat)

section Steps

variable [N : Numbers]

/-- One step, `none` where it cannot be taken. -/
def step (closes : Nat → Int → Int) (w : World) : Event → Option World
  | .place order => some (w.place order)
  | .execute k =>
    match w.flights[k]? with
    | some x => if x.outcome = none then some (w.execute (closes w.clock) k x) else none
    | none => none
  | .shed k =>
    match w.flights[k]? with
    | some x => if x.outcome = none then some (w.shed k x) else none
    | none => none
  | .answer k =>
    match w.flights[k]? with
    | some x =>
      match x.outcome, x.closedAt with
      | some outcome, none => some (w.answer k x outcome)
      | _, _ => none
    | none => none
  | .lose k =>
    match w.flights[k]? with
    | some x => if x.closedAt = none then some (w.lose k x) else none
    | none => none
  | .seedUsers users => some (w.seedUsers users)
  | .take j =>
    match w.reads[j]? with
    | some r => if r.phase = .asked then some (w.take j r) else none
    | none => none
  | .fail j =>
    match w.reads[j]? with
    | some r => if r.phase ≠ .finished then some (w.finish j r) else none
    | none => none
  | .deliver j =>
    match w.reads[j]? with
    | some r =>
      match r.phase with
      | .taken portfolio _ => some (w.deliver j r portfolio)
      | _ => none
    | none => none

/-- The simulation against a target with these closes, moment by moment. -/
def simulation (closes : Nat → Int → Int) : Machine World Event := ⟨step closes⟩

/-- All a step can do. -/
inductive Took (closes : Nat → Int → Int) (w : World) : Event → World → Prop
  | place (order : SimOrder) : Took closes w (.place order) (w.place order)
  | execute {k : Nat} {x : Flight} (hk : w.flights[k]? = some x) (hopen : x.outcome = none) :
      Took closes w (.execute k) (w.execute (closes w.clock) k x)
  | shed {k : Nat} {x : Flight} (hk : w.flights[k]? = some x) (hopen : x.outcome = none) :
      Took closes w (.shed k) (w.shed k x)
  | answer {k : Nat} {x : Flight} {outcome : Outcome} (hk : w.flights[k]? = some x)
      (houtcome : x.outcome = some outcome) (hopen : x.closedAt = none) :
      Took closes w (.answer k) (w.answer k x outcome)
  | lose {k : Nat} {x : Flight} (hk : w.flights[k]? = some x) (hopen : x.closedAt = none) :
      Took closes w (.lose k) (w.lose k x)
  | seedUsers (users : List Int) : Took closes w (.seedUsers users) (w.seedUsers users)
  | take {j : Nat} {r : PortfolioRead} (hj : w.reads[j]? = some r) (hphase : r.phase = .asked) :
      Took closes w (.take j) (w.take j r)
  | fail {j : Nat} {r : PortfolioRead} (hj : w.reads[j]? = some r)
      (hphase : r.phase ≠ .finished) : Took closes w (.fail j) (w.finish j r)
  | deliver {j : Nat} {r : PortfolioRead} {portfolio : SeedPortfolio} {clock : Nat}
      (hj : w.reads[j]? = some r) (hphase : r.phase = .taken portfolio clock) :
      Took closes w (.deliver j) (w.deliver j r portfolio)

theorem took_of_step {closes : Nat → Int → Int} {w w' : World} {e : Event}
    (h : (simulation closes).step w e = some w') : Took closes w e w' := by
  have h : step closes w e = some w' := h
  cases e with
  | place order => exact Option.some.inj h ▸ .place order
  | seedUsers users => exact Option.some.inj h ▸ .seedUsers users
  | execute k | shed k | lose k =>
    simp only [step] at h
    split at h
    · rename_i hk
      split at h
      · rename_i hopen
        cases h
        constructor <;> assumption
      · cases h
    · cases h
  | answer k =>
    simp only [step] at h
    split at h
    · rename_i hk
      split at h
      · rename_i houtcome hopen
        exact Option.some.inj h ▸ .answer hk houtcome hopen
      · cases h
    · cases h
  | take j | fail j =>
    simp only [step] at h
    split at h
    · rename_i hj
      split at h
      · rename_i hphase
        cases h
        constructor <;> assumption
      · cases h
    · cases h
  | deliver j =>
    simp only [step] at h
    split at h
    · rename_i hj
      split at h
      · rename_i hphase
        exact Option.some.inj h ▸ .deliver hj hphase
      · cases h
    · cases h

end Steps

/-! ### Steps in which nothing is rounded -/

section Fits

variable [N : Numbers]

/-- A portfolio that is on its way is read to the centavo. -/
def ReadPhase.Fits : ReadPhase → Prop
  | .taken portfolio _ => Reads portfolio.availableCash
  | .asked | .finished => True

instance ReadPhase.decidableFits : ∀ phase : ReadPhase, Decidable phase.Fits
  | .taken portfolio _ => inferInstanceAs (Decidable (Reads portfolio.availableCash))
  | .asked | .finished => inferInstanceAs (Decidable True)

/-- Nothing the shadow reads or reckons in the step is rounded. -/
def World.Fits (w : World) : Event → Prop
  | .place order => w.ledger.FitsReserve order
  | .answer k => ∀ x ∈ w.flights[k]?, ∀ outcome ∈ x.outcome,
    w.ledger.FitsSettle x.reservation outcome.execution
  | .lose k => ∀ x ∈ w.flights[k]?, w.ledger.FitsLose x.reservation
  | .deliver j => ∀ r ∈ w.reads[j]?, r.generation = w.ledger.current → r.phase.Fits
  | .execute _ | .shed _ | .seedUsers _ | .take _ | .fail _ => True

instance World.decidableFits (w : World) : ∀ e, Decidable (w.Fits e)
  | .place order => inferInstanceAs (Decidable (w.ledger.FitsReserve order))
  | .answer k => inferInstanceAs (Decidable (∀ x ∈ w.flights[k]?, ∀ outcome ∈ x.outcome,
    w.ledger.FitsSettle x.reservation outcome.execution))
  | .lose k => inferInstanceAs (Decidable (∀ x ∈ w.flights[k]?, w.ledger.FitsLose x.reservation))
  | .deliver j => inferInstanceAs (Decidable (∀ r ∈ w.reads[j]?,
    r.generation = w.ledger.current → r.phase.Fits))
  | .execute _ | .shed _ | .seedUsers _ | .take _ | .fail _ => inferInstanceAs (Decidable True)

/-- **A step in which nothing is rounded is that of exact arithmetic.** -/
theorem step_eq {closes : Nat → Int → Int} {w : World} {e : Event} (h : w.Fits e) :
    step closes w e = step (N := .exact) closes w e := by
  cases e with
  | place order =>
    simp only [step, World.place, ShadowLedger.reserve_eq h]
  | answer k =>
    simp only [step]
    split
    · split
      · simp only [World.answer, ShadowLedger.settle_eq (h _ ‹_› _ ‹_›)]
      · rfl
    · rfl
  | lose k =>
    simp only [step]
    split
    · simp only [World.lose, ShadowLedger.lose_eq (h _ ‹_›)]
    · rfl
  | deliver j =>
    simp only [step]
    split
    · split
      · rename_i r hj phase portfolio clock hphase
        have hreads : r.generation = w.ledger.current → r.phase.Fits := h r hj
        rw [hphase] at hreads
        simp only [World.deliver, ShadowLedger.seed_eq hreads]
      · rfl
    · rfl
  | execute | shed | seedUsers | take | fail => rfl

variable {closes : Nat → Int → Int} {w : World} {es : List Event}

theorem run_eq (h : (simulation closes).Along World.Fits w es) :
    (simulation closes).run w es = (simulation (N := .exact) closes).run w es :=
  Machine.run_congr (fun _ _ => step_eq) h

theorem along_eq {P : World → Event → Prop} (h : (simulation closes).Along World.Fits w es) :
    (simulation closes).Along P w es ↔ (simulation (N := .exact) closes).Along P w es :=
  Machine.along_congr (fun _ _ => step_eq) h

end Fits

end Cocos.Tools
