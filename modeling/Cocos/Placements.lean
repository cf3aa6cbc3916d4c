import Mathlib.Logic.Function.Basic
import Cocos.Lib.Machine
import Cocos.Orders

namespace Cocos

open Cocos.Lib

/-!
# Placements and cancels, statement by statement

Any number of placements and cancels at once, as a machine whose events are the single
statements.  The transactions are `READ COMMITTED`: a statement reads the rows committed
when it starts (`State.orders`), and an inserted row is its own transaction's until the commit
appends it.

* `Phase` — how far the transaction of a placement has got, with what it has read;
* `Phase.read` — its next read, on the rows committed at that moment;
* `Event`, `step` — one statement of one request, `none` where it is not its turn;
* `Took`, `took_of_step` — **all a step can do**, one constructor for each way it can go, and
  `Read` for the reads: every invariant is proved from these.

The advisory lock of a user is held from `lockPlacements` to `unlock`, and `unlock` waits for
the end of the transaction: the lock outlasts the moment the commit is visible.  An answer
that is lost on its way is no event, for nothing here depends on its arrival.  A `timeOut`
stands for every way a transaction is given up: the two waits of `place`, a broken
connection, a restart of the database.
-/

/-! ### The state -/

/-- How far the transaction of a placement has got. -/
inductive Phase
  /-- Begun: waiting for the placement lock of its user. -/
  | opened
  /-- The key is looked up next. -/
  | locked
  /-- The user is looked up next. -/
  | keyFree
  /-- The instrument is quoted next. -/
  | userKnown
  /-- The cash is read next. -/
  | priced (q : Sized)
  /-- The shares are read next. -/
  | funded (q : Sized) (cash : Int)
  /-- The row is inserted next. -/
  | measured (q : Sized) (cash held : Int)
  /-- The row is in the transaction, and the commit is next. -/
  | inserted (row : OrderRow) (placed : Placed)
  /-- The key named a stored row, and the commit is next. -/
  | replaying (placed : Placed)
  /-- A statement threw, and the rollback is next. -/
  | threw (thrown : Thrown)
  | committed (placed : Placed)
  | rolledBack (thrown : Thrown)
  | timedOut

namespace Phase

/-- The transaction is over. -/
def finished : Phase → Bool
  | .committed _ | .rolledBack _ | .timedOut => true
  | _ => false

/-- The transaction has taken the lock and is not over. -/
def holdsLock : Phase → Bool
  | .opened | .committed _ | .rolledBack _ | .timedOut => false
  | _ => true

/-- The phase after a statement that may throw. -/
def after {α : Type} (next : α → Phase) : Except Thrown α → Phase
  | .ok a => next a
  | .error thrown => .threw thrown

/-- The next read of a placement, if a read is what comes next: `placeWithin` up to the next
    `await`. -/
def read (m : Market) (orders : Orders) (r : Request) : Phase → Option Phase
  | .locked =>
    some (match byIdempotencyKey orders r.order.userId r.key with
      | some replayed => after (fun order => .replaying ⟨order, true⟩) (view replayed)
      | none => .keyFree)
  | .keyFree =>
    some (if userExists m r.order.userId then .userKnown
      else .threw (.notFound s!"User {r.order.userId} not found"))
  | .userKnown =>
    some (after .priced ((tradableClose m r.order.instrumentId).bind (sized r.order)))
  | .priced q => some (after (.funded q) (readCash orders r.order.userId))
  | .funded q cash =>
    some (after (.measured q cash) (heldShares orders r.order.userId r.order.instrumentId))
  | _ => none

end Phase

/-- A placement: its request, how far it has got, and the id its insert drew. -/
structure Attempt where
  request : Request
  phase : Phase
  drawn : Option Int

/-- The user a placement locks. -/
def Attempt.user (a : Attempt) : Int := a.request.order.userId

/-- How far a cancel has got. -/
inductive CancelPhase
  /-- The `UPDATE` matched, and this is the row it returned. -/
  | returned (row : OrderRow)
  /-- The `UPDATE` matched no row: the status is read next. -/
  | missed
  | refused (thrown : Thrown)

/-- A cancel: the order it is aimed at, and how far it has got. -/
structure CancelAttempt where
  id : Int
  phase : CancelPhase

/-- What a cancel answers, once it does. -/
def CancelPhase.answer : CancelPhase → Option (Except Thrown OrderView)
  | .returned row => some (view row)
  | .missed => none
  | .refused thrown => some (.error thrown)

/-- The committed rows, the last id the sequence gave out, the placement lock of each user,
    and the requests by number. -/
structure State where
  orders : Orders
  sequence : Int
  lock : Int → Option Nat
  placements : Nat → Option Attempt
  cancels : Nat → Option CancelAttempt

namespace State

/-- Nothing requested yet. -/
def initial (orders : Orders) (sequence : Int) : State :=
  ⟨orders, sequence, fun _ => none, fun _ => none, fun _ => none⟩

/-- The state with placement `t` as given. -/
def put (s : State) (t : Nat) (a : Attempt) : State :=
  { s with placements := Function.update s.placements t (some a) }

/-- The state with cancel `c` as given. -/
def putCancel (s : State) (c : Nat) (a : CancelAttempt) : State :=
  { s with cancels := Function.update s.cancels c (some a) }

section Put

variable (s : State) (t : Nat) (a : Attempt) (c : Nat) (b : CancelAttempt)

@[simp] theorem put_orders : (s.put t a).orders = s.orders := rfl
@[simp] theorem put_sequence : (s.put t a).sequence = s.sequence := rfl
@[simp] theorem put_lock : (s.put t a).lock = s.lock := rfl
@[simp] theorem put_cancels : (s.put t a).cancels = s.cancels := rfl
@[simp] theorem put_placements :
    (s.put t a).placements = Function.update s.placements t (some a) := rfl
@[simp] theorem putCancel_orders : (s.putCancel c b).orders = s.orders := rfl
@[simp] theorem putCancel_sequence : (s.putCancel c b).sequence = s.sequence := rfl
@[simp] theorem putCancel_lock : (s.putCancel c b).lock = s.lock := rfl
@[simp] theorem putCancel_placements : (s.putCancel c b).placements = s.placements := rfl
@[simp] theorem putCancel_cancels :
    (s.putCancel c b).cancels = Function.update s.cancels c (some b) := rfl

/-- A placement after a `put` is the one put, or another that was there. -/
theorem put_eq_some {t' : Nat} {a' : Attempt} :
    (s.put t a).placements t' = some a' ↔
      t' = t ∧ a' = a ∨ t' ≠ t ∧ s.placements t' = some a' := by
  rw [put_placements, Function.update_apply]
  split <;> simp_all [eq_comm]

/-- A cancel after a `putCancel` is the one put, or another that was there. -/
theorem putCancel_eq_some {c' : Nat} {b' : CancelAttempt} :
    (s.putCancel c b).cancels c' = some b' ↔
      c' = c ∧ b' = b ∨ c' ≠ c ∧ s.cancels c' = some b' := by
  rw [putCancel_cancels, Function.update_apply]
  split <;> simp_all [eq_comm]

end Put

end State

/-! ### The steps -/

/-- One statement of one request.  Placements and cancels are numbered separately. -/
inductive Event
  | begin (t : Nat) (r : Request)
  | lockPlacements (t : Nat)
  | read (t : Nat)
  | insert (t : Nat) (now : Timestamp)
  | commit (t : Nat)
  | rollback (t : Nat)
  | timeOut (t : Nat)
  | unlock (t : Nat)
  | cancel (c : Nat) (id : Int)
  | statusOf (c : Nat)

/-- The phase after the insert, which drew `id`. -/
def inserting (orders : Orders) (r : Request) (q : Sized) (cash held id : Int)
    (now : Timestamp) : Phase :=
  .after (fun created => .inserted created.1 ⟨created.2, false⟩) do
    let created ← insert orders (newOrder r q cash held) id now
    let order ← view created
    return (created, order)

/-- What the `UPDATE` of a cancel leaves the cancel to do. -/
def updated : Option OrderRow → CancelPhase
  | some row => .returned row
  | none => .missed

/-- One step, `none` where the event is not that request's next. -/
def step (m : Market) (s : State) : Event → Option State
  | .begin t r =>
    match s.placements t with
    | none => some (s.put t ⟨r, .opened, none⟩)
    | some _ => none
  | .lockPlacements t =>
    match s.placements t with
    | some ⟨r, .opened, drawn⟩ =>
      match s.lock r.order.userId with
      | none => some
          { s.put t ⟨r, .locked, drawn⟩ with lock := Function.update s.lock r.order.userId (some t) }
      | some _ => none
    | _ => none
  | .read t =>
    match s.placements t with
    | some a =>
      (a.phase.read m s.orders a.request).map fun phase => s.put t { a with phase := phase }
    | none => none
  | .insert t now =>
    match s.placements t with
    | some ⟨r, .measured q cash held, _⟩ => some
        { s.put t ⟨r, inserting s.orders r q cash held (s.sequence + 1) now,
            some (s.sequence + 1)⟩ with sequence := s.sequence + 1 }
    | _ => none
  | .commit t =>
    match s.placements t with
    | some ⟨r, .inserted row placed, drawn⟩ => some
        { s.put t ⟨r, .committed placed, drawn⟩ with orders := s.orders ++ [row] }
    | some ⟨r, .replaying placed, drawn⟩ => some (s.put t ⟨r, .committed placed, drawn⟩)
    | _ => none
  | .rollback t =>
    match s.placements t with
    | some ⟨r, .threw thrown, drawn⟩ => some (s.put t ⟨r, .rolledBack (caught thrown), drawn⟩)
    | _ => none
  | .timeOut t =>
    match s.placements t with
    | some a => if a.phase.finished then none else some (s.put t { a with phase := .timedOut })
    | none => none
  | .unlock t =>
    match s.placements t with
    | some a =>
      if a.phase.finished ∧ s.lock a.user = some t then
        some { s with lock := Function.update s.lock a.user none }
      else none
    | none => none
  | .cancel c id =>
    match s.cancels c with
    | none =>
      let result := cancelOrder s.orders id CANCELLABLE
      some { s.putCancel c ⟨id, updated result.1⟩ with orders := result.2 }
    | some _ => none
  | .statusOf c =>
    match s.cancels c with
    | some ⟨id, .missed⟩ =>
      some (s.putCancel c ⟨id, .refused (refusal id (Cocos.statusOf s.orders id))⟩)
    | _ => none

/-- The machine of the service over a market. -/
def service (m : Market) : Machine State Event := ⟨step m⟩

/-! ### All a step can do -/

/-- The ways a read can go, from the phase before it to the phase after. -/
inductive Read (m : Market) (orders : Orders) (r : Request) : Phase → Phase → Prop
  | replay {row order} (hrow : byIdempotencyKey orders r.order.userId r.key = some row)
      (hview : view row = .ok order) : Read m orders r .locked (.replaying ⟨order, true⟩)
  | replayThrew {row thrown} (hrow : byIdempotencyKey orders r.order.userId r.key = some row)
      (hview : view row = .error thrown) : Read m orders r .locked (.threw thrown)
  | keyFree (hkey : byIdempotencyKey orders r.order.userId r.key = none) :
      Read m orders r .locked .keyFree
  | userKnown (huser : userExists m r.order.userId = true) : Read m orders r .keyFree .userKnown
  | noUser (huser : userExists m r.order.userId = false) :
      Read m orders r .keyFree (.threw (.notFound s!"User {r.order.userId} not found"))
  | priced {close q} (hclose : tradableClose m r.order.instrumentId = .ok close)
      (hsized : sized r.order close = .ok q) : Read m orders r .userKnown (.priced q)
  | unpriced {thrown}
      (hsized : (tradableClose m r.order.instrumentId).bind (sized r.order) = .error thrown) :
      Read m orders r .userKnown (.threw thrown)
  | funded {q cash} (hcash : readCash orders r.order.userId = .ok cash) :
      Read m orders r (.priced q) (.funded q cash)
  | cashThrew {q thrown} (hcash : readCash orders r.order.userId = .error thrown) :
      Read m orders r (.priced q) (.threw thrown)
  | measured {q cash held}
      (hheld : heldShares orders r.order.userId r.order.instrumentId = .ok held) :
      Read m orders r (.funded q cash) (.measured q cash held)
  | heldThrew {q cash thrown}
      (hheld : heldShares orders r.order.userId r.order.instrumentId = .error thrown) :
      Read m orders r (.funded q cash) (.threw thrown)

/-- All a read can do. -/
theorem read_of_eq {m : Market} {orders : Orders} {r : Request} {phase phase' : Phase}
    (h : phase.read m orders r = some phase') : Read m orders r phase phase' := by
  cases phase with
  | locked =>
    simp only [Phase.read, Option.some.injEq] at h
    subst h
    cases hrow : byIdempotencyKey orders r.order.userId r.key with
    | none => exact .keyFree hrow
    | some row =>
      cases hview : view row with
      | error thrown => simpa [Phase.after, hview] using Read.replayThrew hrow hview
      | ok order => simpa [Phase.after, hview] using Read.replay hrow hview
  | keyFree =>
    simp only [Phase.read, Option.some.injEq] at h
    subst h
    split
    · exact .userKnown ‹_›
    · exact .noUser (Bool.eq_false_of_not_eq_true ‹_›)
  | userKnown =>
    simp only [Phase.read, Option.some.injEq] at h
    subst h
    cases hq : (tradableClose m r.order.instrumentId).bind (sized r.order) with
    | error thrown => exact .unpriced hq
    | ok q =>
      obtain ⟨close, hclose, hsized⟩ := bind_eq_ok.mp hq
      exact .priced hclose hsized
  | priced q =>
    simp only [Phase.read, Option.some.injEq] at h
    subst h
    cases hcash : readCash orders r.order.userId with
    | error thrown => exact .cashThrew hcash
    | ok cash => exact .funded hcash
  | funded q cash =>
    simp only [Phase.read, Option.some.injEq] at h
    subst h
    cases hheld : heldShares orders r.order.userId r.order.instrumentId with
    | error thrown => exact .heldThrew hheld
    | ok held => exact .measured hheld
  | _ => cases h

/-- The ways a step can go, with the state each leaves. -/
inductive Took (m : Market) (s : State) : Event → State → Prop
  | begun {t r} (h : s.placements t = none) :
      Took m s (.begin t r) (s.put t ⟨r, .opened, none⟩)
  | locked {t r drawn} (h : s.placements t = some ⟨r, .opened, drawn⟩)
      (hfree : s.lock r.order.userId = none) :
      Took m s (.lockPlacements t)
        { s.put t ⟨r, .locked, drawn⟩ with
          lock := Function.update s.lock r.order.userId (some t) }
  | read {t r phase drawn phase'} (h : s.placements t = some ⟨r, phase, drawn⟩)
      (hread : phase.read m s.orders r = some phase') :
      Took m s (.read t) (s.put t ⟨r, phase', drawn⟩)
  | inserted {t now r q cash held drawn}
      (h : s.placements t = some ⟨r, .measured q cash held, drawn⟩) :
      Took m s (.insert t now)
        { s.put t ⟨r, inserting s.orders r q cash held (s.sequence + 1) now,
            some (s.sequence + 1)⟩ with sequence := s.sequence + 1 }
  | committed {t r row placed drawn}
      (h : s.placements t = some ⟨r, .inserted row placed, drawn⟩) :
      Took m s (.commit t)
        { s.put t ⟨r, .committed placed, drawn⟩ with orders := s.orders ++ [row] }
  | replayed {t r placed drawn} (h : s.placements t = some ⟨r, .replaying placed, drawn⟩) :
      Took m s (.commit t) (s.put t ⟨r, .committed placed, drawn⟩)
  | rolledBack {t r thrown drawn} (h : s.placements t = some ⟨r, .threw thrown, drawn⟩) :
      Took m s (.rollback t) (s.put t ⟨r, .rolledBack (caught thrown), drawn⟩)
  | timedOut {t r phase drawn} (h : s.placements t = some ⟨r, phase, drawn⟩)
      (hphase : phase.finished = false) :
      Took m s (.timeOut t) (s.put t ⟨r, .timedOut, drawn⟩)
  | unlocked {t a} (h : s.placements t = some a) (hphase : a.phase.finished = true)
      (hlock : s.lock a.user = some t) :
      Took m s (.unlock t) { s with lock := Function.update s.lock a.user none }
  | cancelled {c id} (h : s.cancels c = none) :
      Took m s (.cancel c id)
        { s.putCancel c ⟨id, updated (cancelOrder s.orders id CANCELLABLE).1⟩ with
          orders := s.orders.map (OrderRow.afterCancel id) }
  | refused {c id} (h : s.cancels c = some ⟨id, .missed⟩) :
      Took m s (.statusOf c)
        (s.putCancel c ⟨id, .refused (refusal id (Cocos.statusOf s.orders id))⟩)

/-- **All a step can do.** -/
theorem took_of_step {m : Market} {s s' : State} {e : Event}
    (h : (service m).step s e = some s') : Took m s e s' := by
  simp only [service, step] at h
  split at h
  · split at h <;> cases h
    exact .begun ‹_›
  · split at h
    · split at h <;> cases h
      exact .locked ‹_› ‹_›
    · cases h
  · split at h
    · rename_i a ha
      obtain ⟨r, phase, drawn⟩ := a
      obtain ⟨phase', hread, rfl⟩ := Option.map_eq_some_iff.mp h
      exact .read ha hread
    · cases h
  · split at h <;> cases h
    exact .inserted ‹_›
  · split at h <;> cases h
    · exact .committed ‹_›
    · exact .replayed ‹_›
  · split at h <;> cases h
    exact .rolledBack ‹_›
  · split at h
    · rename_i a ha
      obtain ⟨r, phase, drawn⟩ := a
      split at h <;> cases h
      rename_i hphase
      exact .timedOut ha (Bool.eq_false_of_not_eq_true hphase)
    · cases h
  · split at h
    · split at h <;> cases h
      rename_i a ha hcond
      exact .unlocked ha hcond.1 hcond.2
    · cases h
  · split at h <;> cases h
    exact .cancelled ‹_›
  · split at h <;> cases h
    exact .refused ‹_›

end Cocos
