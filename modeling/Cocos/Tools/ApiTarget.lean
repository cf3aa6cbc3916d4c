import Cocos.Freshness
import Cocos.Portfolio
import Cocos.Tools.Composed
import Cocos.Tools.Simulation

namespace Cocos.Tools

open Cocos.Lib

/-!
# The API as the target

The simulation is followed against a target that has a book of every user and decides an order on
it in one step.  The API has no books, but rows, and a placement takes it many statements.

* `FromHarness` — the requests of the users are the orders of the harness, as they are sent;
* `placement_eq` — what a placement reads, statement by statement, is what the book has;
* `Follows` — the books are the accounts, and each order is decided as its placement is answered;
* `Follows.step` — **a statement of the API is a step of the target, or none**;
* `api_is_target` — **every run of the API is a run of the target**.
-/

/-! ### One decision -/

/-- The placements of the users are the orders that were sent, one each. -/
def FromHarness (users : List Int) (sent : Nat → SimOrder) : Cocos.Event → Prop
  | .begin t r => r.order.userId ∈ users → (sent t).Typed ∧ (sent t).body.order = some r.order
  | _ => True

section Decision

variable {m : Market} {orders : Orders} {r : Request} {q : Sized} {cash held : Int}
  {order : SimOrder} {book : Book}

/-- What the size of an order of the harness comes to, and its price. -/
theorem sized_order (htyped : order.Typed) (hbody : order.body.order = some r.order) {close : Int}
    (hsized : sized r.order close = .ok q) :
    q.size = order.size ∧ q.limitPrice = match order.type with
      | .MARKET => none
      | .LIMIT price => some (readCentavos price) := by
  rw [order_body htyped, Option.some.injEq] at hbody
  rw [← hbody] at hsized
  obtain ⟨userId, instrumentId, side, size, type, hpos⟩ := order
  obtain rfl | rfl : type = .MARKET ∨ type = .LIMIT LIMIT_PRICE := htyped
  · cases hsized
    exact ⟨rfl, rfl⟩
  · have hprice : readCentavos LIMIT_PRICE = 100 := by decide
    have hcentavos : centavos (some (Decimal.ofHundredths 100)) = .ok (some 100) := by decide
    simp only [sized, SimOrder.sent, hcentavos, bind, Except.bind] at hsized
    cases hsized
    exact ⟨rfl, congrArg some hprice.symm⟩

/-- **A placement is decided from what the book has.** -/
theorem placement_eq (hread : Readings m orders r q cash held) (htyped : order.Typed)
    (hbody : order.body.order = some r.order)
    (hbook : book.account = account orders r.order.userId) :
    Cocos.placement r.order q cash held = book.placement m.weight order := by
  obtain ⟨hsize, hlimit⟩ := sized_order htyped hbody hread.sized
  have hclose := weight_of_tradableClose hread.close
  have hcash : cash = book.cash := by
    rw [readCash_eq hread.cash, ← hbook]
    rfl
  have hheld := heldShares_eq hread.held
  rw [← hbook] at hheld
  rw [order_body htyped, Option.some.injEq] at hbody
  rw [← hbody] at hclose hheld ⊢
  rw [Cocos.placement, Book.placement, hsize, hlimit, ← hclose, hcash, hheld]
  congr 1
  unfold SimOrder.sent
  cases order.type <;> rfl

theorem ids_of_body (htyped : order.Typed) (hbody : order.body.order = some r.order) :
    r.order.userId = order.userId ∧ r.order.instrumentId = order.instrumentId := by
  rw [order_body htyped, Option.some.injEq] at hbody
  rw [← hbody]
  exact ⟨rfl, rfl⟩

/-- The answer of a row is the decision on the book. -/
theorem view_decideOn (hread : Readings m orders r q cash held) (htyped : order.Typed)
    (hbody : order.body.order = some r.order)
    (hbook : book.account = account orders r.order.userId) {id : Int} {now : Timestamp}
    {v : OrderView} (hview : view ((newOrder r q cash held).row id now) = .ok v) :
    v.status = some (book.decideOn m.weight order).status.text ∧
      v.price = apiString (book.decideOn m.weight order).price := by
  obtain ⟨price, datetime, hprice, -, rfl⟩ := view_eq_ok hview
  rw [Book.decideOn, ← placement_eq hread htyped hbody hbook]
  exact ⟨rfl, congrArg apiString (Option.some.inj hprice).symm⟩

/-- A row moves the account as the decision moves the book. -/
theorem account_decideOn (hread : Readings m orders r q cash held) (htyped : order.Typed)
    (hbody : order.body.order = some r.order)
    (hbook : book.account = account orders r.order.userId) (id : Int) (now : Timestamp) (u : Int) :
    account (orders ++ [(newOrder r q cash held).row id now]) u =
      if u = order.userId ∧ (book.decideOn m.weight order).status = .FILLED then
        (order.trade (m.weight order.instrumentId)).fill (account orders u)
      else account orders u := by
  obtain ⟨huser, hinstrument⟩ := ids_of_body htyped hbody
  have hplacement := placement_eq hread htyped hbody hbook
  rw [account_newOrder, hplacement, huser]
  refine ite_congr rfl (fun hfilled => ?_) fun _ => rfl
  have hmarket := (Book.decideOn_eq_filled.mp hfilled.2).1
  rw [fillOf, hplacement, hinstrument]
  simp [Placement.trade, SimOrder.trade, Placement.executed, Book.placement, hmarket]

/-- A decision moves the book of its user, if it is to fill. -/
theorem account_books_execute (close : Int → Int) (w : World) (k : Nat) (x : Flight) (u : Int) :
    ((w.execute close k x).books u).account =
      if u = x.order.userId ∧ (w.verdict close x.order).status = .FILLED then
        (x.order.trade (close x.order.instrumentId)).fill (w.books u).account
      else (w.books u).account := by
  simp only [World.execute]
  by_cases hfilled : (w.verdict close x.order).status = .FILLED
  · rw [if_pos hfilled]
    rcases eq_or_ne u x.order.userId with rfl | hne
    · rw [Function.update_self, Book.account_fill, if_pos ⟨rfl, hfilled⟩]
    · rw [Function.update_of_ne hne, if_neg fun h => hne h.1]
  · rw [if_neg hfilled, if_neg fun h => hfilled h.2]

end Decision

/-! ### Following a run -/

/-- What has become of the order of a placement: it is decided when a row of it is committed, and
    as it is answered. -/
def Decided (outcome : Option Outcome) : Cocos.Phase → Prop
  | .committed ⟨order, false⟩ => ∃ execution clock, outcome = some (.executed execution clock) ∧
      order.status = some execution.status.text ∧ order.price = execution.price
  -- a replay commits nothing of its own
  | .replaying placed => outcome = none ∧ placed.replayed = true
  | _ => outcome = none

/-- The order of a placement, as it was sent. -/
structure SentAs (a : Cocos.Attempt) (order : SimOrder) (x : Flight) : Prop where
  sent : x.order = order
  typed : order.Typed
  body : order.body.order = some a.request.order
  decided : Decided x.outcome a.phase

/-- The target follows the API: the books are the accounts of the rows, and the orders are the
    placements, numbered as `number` says. -/
structure Follows (users : List Int) (sent : Nat → SimOrder) (number : Nat → Nat)
    (s : Cocos.State) (w : World) : Prop where
  books : ∀ u ∈ users, (w.books u).account = account s.orders u
  flights : ∀ t a, s.placements t = some a → a.user ∈ users →
    ∃ x, w.flights[number t]? = some x ∧ SentAs a (sent t) x
  injective : ∀ t t' a a', s.placements t = some a → a.user ∈ users →
    s.placements t' = some a' → a'.user ∈ users → number t = number t' → t = t'
  all : ∀ k x, w.flights[k]? = some x → ∃ t a, number t = k ∧ s.placements t = some a ∧
    a.user ∈ users

namespace Follows

variable {m : Market} {users : List Int} {sent : Nat → SimOrder} {number : Nat → Nat}
  {s s' : Cocos.State} {w : World}

/-- A placement goes on, and its order with it. -/
theorem advance (h : Follows users sent number s w) {w' : World} {t : Nat} {a a' : Cocos.Attempt}
    (ht : s.placements t = some a)
    (hplacements : s'.placements = Function.update s.placements t (some a'))
    (huser : a'.user = a.user)
    (hbooks : ∀ u ∈ users, (w'.books u).account = account s'.orders u)
    (hflight : a'.user ∈ users → ∃ x, w'.flights[number t]? = some x ∧ SentAs a' (sent t) x)
    (hflights : ∀ k, (a.user ∈ users → k ≠ number t) → w'.flights[k]? = w.flights[k]?)
    (hlength : w'.flights.length = w.flights.length) : Follows users sent number s' w' := by
  -- a placement that is there was there before, of the same user
  have hold : ∀ {t' b'}, s'.placements t' = some b' → b'.user ∈ users →
      ∃ b, s.placements t' = some b ∧ b.user ∈ users ∧ (t' ≠ t → b' = b) := by
    intro t' b' hb' hu
    rw [hplacements] at hb'
    rcases eq_or_ne t' t with rfl | hne
    · rw [Function.update_self, Option.some.injEq] at hb'
      exact ⟨a, ht, huser ▸ hb' ▸ hu, fun hne => absurd rfl hne⟩
    · rw [Function.update_of_ne hne] at hb'
      exact ⟨b', hb', hu, fun _ => rfl⟩
  refine ⟨hbooks, fun t' b' hb' hu => ?_, fun t₁ t₂ a₁ a₂ h₁ hu₁ h₂ hu₂ => ?_, fun k x hx => ?_⟩
  · obtain ⟨b, hb, hbu, hsame⟩ := hold hb' hu
    rcases eq_or_ne t' t with rfl | hne
    · rw [hplacements, Function.update_self, Option.some.injEq] at hb'
      subst hb'
      exact hflight hu
    · rw [hflights _ fun hau heq => hne (h.injective t' t b a hb hbu ht hau heq), hsame hne]
      exact h.flights t' b hb hbu
  · obtain ⟨b₁, hb₁, hv₁, -⟩ := hold h₁ hu₁
    obtain ⟨b₂, hb₂, hv₂, -⟩ := hold h₂ hu₂
    exact h.injective t₁ t₂ b₁ b₂ hb₁ hv₁ hb₂ hv₂
  · have hk : k < w.flights.length := hlength ▸ (List.getElem?_eq_some_iff.mp hx).1
    obtain ⟨t', b, hnumber, hb, hu⟩ := h.all k _ (List.getElem?_eq_getElem hk)
    rcases eq_or_ne t' t with rfl | hne
    · obtain rfl : a = b := Option.some.inj (ht.symm.trans hb)
      exact ⟨t', a', hnumber, by rw [hplacements, Function.update_self], huser ▸ hu⟩
    · exact ⟨t', b, hnumber, by rw [hplacements, Function.update_of_ne hne, hb], hu⟩

/-- A placement goes on, and its order is where it was. -/
theorem move (h : Follows users sent number s w) {t : Nat} {a a' : Cocos.Attempt}
    (ht : s.placements t = some a)
    (hplacements : s'.placements = Function.update s.placements t (some a'))
    (hrequest : a'.request = a.request)
    (haccount : ∀ u ∈ users, account s'.orders u = account s.orders u)
    (hdecided : a.user ∈ users → ∀ outcome, Decided outcome a.phase → Decided outcome a'.phase) :
    Follows users sent number s' w := by
  have huser : a'.user = a.user := by rw [Cocos.Attempt.user, hrequest, Cocos.Attempt.user]
  refine h.advance ht hplacements huser (fun u hu => (h.books u hu).trans (haccount u hu).symm)
    (fun hu => ?_) (fun _ _ => rfl) rfl
  obtain ⟨x, hx, hsent⟩ := h.flights t a ht (huser ▸ hu)
  exact ⟨x, hx, hsent.sent, hsent.typed, hrequest ▸ hsent.body,
    hdecided (huser ▸ hu) _ hsent.decided⟩

/-- A step that moves no placement and no account. -/
theorem idle (h : Follows users sent number s w) (hplacements : s'.placements = s.placements)
    (haccount : ∀ u, account s'.orders u = account s.orders u) :
    Follows users sent number s' w :=
  ⟨fun u hu => (h.books u hu).trans (haccount u).symm,
    by rw [hplacements]; exact h.flights, by rw [hplacements]; exact h.injective,
    by rw [hplacements]; exact h.all⟩

/-- A placement of the users is an order that is sent. -/
theorem begun [N : Numbers] (h : Follows users sent number s w) {t : Nat} {r : Request}
    (hnone : s.placements t = none) (htyped : (sent t).Typed)
    (hbody : (sent t).body.order = some r.order) (huser : r.order.userId ∈ users) :
    Follows users sent (Function.update number t w.flights.length) (s.put t ⟨r, .opened, none⟩)
      (w.place (sent t)) := by
  have hlt : ∀ {t' a'}, s.placements t' = some a' → a'.user ∈ users →
      number t' < w.flights.length := fun h' hu => by
    obtain ⟨x, hx, -⟩ := h.flights _ _ h' hu
    exact (List.getElem?_eq_some_iff.mp hx).1
  have hother : ∀ {t' a'}, s.placements t' = some a' → t' ≠ t := fun h' heq => by
    rw [heq, hnone] at h'
    cases h'
  refine ⟨h.books, fun t' a' ht' hu => ?_, fun t₁ t₂ a₁ a₂ h₁ hu₁ h₂ hu₂ hnumber => ?_,
    fun k x hx => ?_⟩
  · rw [World.place_flights]
    rcases (s.put_eq_some _ _).mp ht' with ⟨rfl, rfl⟩ | ⟨hne, hold⟩
    · rw [Function.update_self, List.getElem?_concat_length]
      exact ⟨_, rfl, w.ledger.order_reservation _, htyped, hbody, rfl⟩
    · rw [Function.update_of_ne hne, List.getElem?_append_left (hlt hold hu)]
      exact h.flights t' a' hold hu
  · rcases (s.put_eq_some _ _).mp h₁ with ⟨rfl, -⟩ | ⟨hne₁, hold₁⟩ <;>
      rcases (s.put_eq_some _ _).mp h₂ with ⟨rfl, -⟩ | ⟨hne₂, hold₂⟩
    · rfl
    · rw [Function.update_self, Function.update_of_ne hne₂] at hnumber
      exact absurd hnumber (hlt hold₂ hu₂).ne'
    · rw [Function.update_self, Function.update_of_ne hne₁] at hnumber
      exact absurd hnumber (hlt hold₁ hu₁).ne
    · rw [Function.update_of_ne hne₁, Function.update_of_ne hne₂] at hnumber
      exact h.injective t₁ t₂ a₁ a₂ hold₁ hu₁ hold₂ hu₂ hnumber
  · rw [World.place_flights, List.getElem?_append] at hx
    split at hx
    · obtain ⟨t', a', hk, ha, hu⟩ := h.all k x hx
      exact ⟨t', a', by rw [Function.update_of_ne (hother ha), hk],
        (s.put_eq_some _ _).mpr (.inr ⟨hother ha, ha⟩), hu⟩
    · rw [List.getElem?_singleton] at hx
      split at hx <;> cases hx
      exact ⟨t, _, by rw [Function.update_self]; omega,
        (s.put_eq_some _ _).mpr (.inl ⟨rfl, rfl⟩), huser⟩

/-- A placement of someone else is no order of the harness. -/
theorem begunElse (h : Follows users sent number s w) {t : Nat} {r : Request}
    (hnone : s.placements t = none) (huser : r.order.userId ∉ users) :
    Follows users sent number (s.put t ⟨r, .opened, none⟩) w := by
  have hold : ∀ {t' a'}, (s.put t ⟨r, .opened, none⟩).placements t' = some a' → a'.user ∈ users →
      s.placements t' = some a' := by
    intro t' a' ht' hu
    rcases (s.put_eq_some _ _).mp ht' with ⟨-, rfl⟩ | ⟨-, hold⟩
    · exact absurd hu huser
    · exact hold
  refine ⟨h.books, fun t' a' ht' hu => h.flights t' a' (hold ht' hu) hu,
    fun t₁ t₂ a₁ a₂ h₁ hu₁ h₂ hu₂ =>
      h.injective t₁ t₂ a₁ a₂ (hold h₁ hu₁) hu₁ (hold h₂ hu₂) hu₂, fun k x hx => ?_⟩
  obtain ⟨t', a', hk, ha, hu⟩ := h.all k x hx
  have hne : t' ≠ t := fun heq => by
    rw [heq, hnone] at ha
    cases ha
  exact ⟨t', a', hk, (s.put_eq_some _ _).mpr (.inr ⟨hne, ha⟩), hu⟩

/-- **A commit is a decision of the target.** -/
theorem commit (h : Follows users sent number s w) (hinv : Cocos.Inv m s) {t : Nat} {r : Request}
    {row : OrderRow} {placed : Placed} {drawn : Option Int}
    (ht : s.placements t = some ⟨r, .inserted row placed, drawn⟩) (huser : r.order.userId ∈ users) :
    ∃ x, w.flights[number t]? = some x ∧ x.outcome = none ∧
      Follows users sent number { s.put t ⟨r, .committed placed, drawn⟩ with
        orders := s.orders ++ [row] } (w.execute m.weight (number t) x) := by
  obtain ⟨q, cash, held, id, now, order, hread, -, rfl, hview, rfl⟩ := hinv.readings ht
  obtain ⟨x, hx, hsent⟩ := h.flights t _ ht huser
  obtain ⟨hstatus, hprice⟩ :=
    view_decideOn hread hsent.typed hsent.body (h.books _ huser) hview
  have haccount := account_decideOn hread hsent.typed hsent.body (h.books _ huser) id now
  obtain ⟨huserId, -⟩ := ids_of_body hsent.typed hsent.body
  rw [huserId, ← hsent.sent] at hstatus hprice haccount
  refine ⟨x, hx, hsent.decided, h.advance ht rfl rfl (fun u hu => ?_) (fun _ => ?_)
    (fun k hk => ?_) (by rw [World.execute_flights, List.length_set])⟩
  · rw [account_books_execute, haccount, h.books u hu]
    rfl
  · rw [World.execute_flights, List.getElem?_set_self (List.getElem?_eq_some_iff.mp hx).1]
    exact ⟨_, rfl, hsent.sent, hsent.typed, hsent.body, _, _, rfl, hstatus, hprice⟩
  · rw [World.execute_flights, List.getElem?_set_ne (hk huser).symm]

/-- **A statement of the API is a step of the target, or none.** -/
theorem step [N : Numbers] (h : Follows users sent number s w) (hinv : Cocos.Inv m s)
    {e : Cocos.Event} (he : FromHarness users sent e) (hstep : (Cocos.service m).step s e = some s') :
    ∃ fs w', (simulation fun _ => m.weight).run w fs = some w' ∧
      ∃ number', Follows users sent number' s' w' := by
  -- most statements are none
  have hstay : Follows users sent number s' w →
      ∃ fs w', (simulation fun _ => m.weight).run w fs = some w' ∧
        ∃ number', Follows users sent number' s' w' := fun h => ⟨[], w, rfl, number, h⟩
  cases Cocos.took_of_step hstep with
  | @begun t r hnone =>
    by_cases hu : r.order.userId ∈ users
    · obtain ⟨htyped, hbody⟩ := he hu
      exact ⟨[.place (sent t)], _, rfl, _, h.begun hnone htyped hbody hu⟩
    · exact hstay (h.begunElse hnone hu)
  | locked ht => exact hstay (h.move ht rfl rfl (fun _ _ => rfl) fun _ _ => id)
  | read ht hread =>
    refine hstay (h.move ht rfl rfl (fun _ _ => rfl) fun _ outcome => ?_)
    cases read_of_eq hread with
    | replay hrow hview => exact fun hnone => ⟨hnone, rfl⟩
    | _ => exact id
  | @inserted t now r q cash held drawn ht =>
    refine hstay (h.move ht rfl rfl (fun _ _ => rfl) fun _ outcome hnone => ?_)
    rcases inserting_cases s.orders r q cash held (s.sequence + 1) now with
      ⟨thrown, heq⟩ | ⟨order, -, -, heq⟩ <;>
    · rw [heq]
      exact hnone
  | @committed t r row placed drawn ht =>
    by_cases hu : r.order.userId ∈ users
    · obtain ⟨x, hx, hopen, hfollows⟩ := h.commit hinv ht hu
      refine ⟨[.execute (number t)], _, ?_, number, hfollows⟩
      simp [Machine.run, simulation, Tools.step, hx, hopen]
    -- someone else's row moves no book that is followed
    · refine hstay (h.move ht rfl rfl (fun u hmem => ?_) fun hmem => absurd hmem hu)
      obtain ⟨q, cash, held, id, now, order, -, -, rfl, -⟩ := hinv.readings ht
      exact (account_newOrder r q cash held id now s.orders u).trans
        (if_neg fun heq : u = r.order.userId ∧ _ => hu (heq.1 ▸ hmem))
  | @replayed t r placed drawn ht =>
    refine hstay (h.move ht rfl rfl (fun _ _ => rfl) fun _ outcome hnone => ?_)
    obtain ⟨order, replayed⟩ := placed
    obtain ⟨hnone, rfl⟩ : outcome = none ∧ replayed = true := hnone
    exact hnone
  | rolledBack ht => exact hstay (h.move ht rfl rfl (fun _ _ => rfl) fun _ _ => id)
  | @timedOut t r phase drawn ht hphase =>
    refine hstay (h.move ht rfl rfl (fun _ _ => rfl) fun _ outcome hdecided => ?_)
    cases phase with
    | committed | rolledBack | timedOut => cases hphase
    | replaying => exact hdecided.1
    | _ => exact hdecided
  | unlocked ht => exact hstay (h.idle rfl fun _ => rfl)
  | @cancelled c id ht =>
    exact hstay (h.idle rfl fun u => account_eq_of_filledRows (filledRows_cancel s.orders id u))
  | refused ht => exact hstay (h.idle rfl fun _ => rfl)

end Follows

/-- **Every run of the API is a run of the target.**  Whatever else goes on, the orders of the
    harness are decided as a target decides them that has a book of every user and takes one order
    at a time: each at the commit of its placement, and as the placement is answered. -/
theorem api_is_target [N : Numbers] {m : Market} {users : List Int} {sent : Nat → SimOrder}
    {orders : Orders} {sequence : Int} {es : List Cocos.Event} {s : Cocos.State} {books : Int → Book}
    (hes : ∀ e ∈ es, FromHarness users sent e)
    (hbooks : ∀ u ∈ users, (books u).account = account orders u)
    (hrun : (Cocos.service m).run (.initial orders sequence) es = some s) :
    ∃ fs w, (simulation fun _ => m.weight).run (.initial books) fs = some w ∧
      ∃ number, Follows users sent number s w := by
  have hinitial : Follows users sent id (.initial orders sequence) (.initial books) := by
    refine ⟨hbooks, fun t a ht => ?_, fun t t' a a' ht => ?_, fun k x hx => ?_⟩
    · cases ht
    · cases ht
    · cases hx
  exact (Cocos.service m).followed_run (simulation fun _ => m.weight)
    (R := fun s w => ∃ number, Follows users sent number s w)
    (fun h hstep => h.step hstep)
    (fun hinv he h hstep => by
      obtain ⟨number, h⟩ := h
      exact h.step hinv he hstep)
    (Cocos.inv_initial m orders sequence) ⟨id, hinitial⟩ hes hrun

/-- A buy of three shares, from the request to the commit. -/
def bought : List Cocos.Event :=
  [.begin 0 (marketBuy 3 "a" (Eq.refl true)), .lockPlacements 0, .read 0, .read 0, .read 0,
    .read 0, .read 0, .insert 0 7, .commit 0]

/-- The book of whoever deposited five pesos. -/
def fivePesos : Book := ⟨500, .empty⟩

/-- The target fills the order, and has what is left of the five pesos. -/
theorem api_is_target_bought : ∃ fs w number,
    (simulation (N := .double) fun _ => (marketAt 100).weight).run (.initial fun _ => fivePesos)
      fs = some w ∧
      (w.books 1).account .cash = 200 ∧
      ∃ x execution clock, w.flights[(number : Nat → Nat) 0]? = some x ∧
        x.outcome = some (.executed execution clock) ∧ execution = ⟨.FILLED, "1.00"⟩ := by
  have hbook : fivePesos.account = account [deposit 5] 1 := by
    funext ρ
    cases ρ with
    | cash => decide
    | shares i =>
      have hnone : traded [deposit 5] 1 = ∅ := by decide
      exact (account_of_not_traded (hnone ▸ Finset.notMem_empty i)).symm
  have hes : ∀ e ∈ bought, FromHarness [1] (fun _ => ⟨1, 1, .BUY, 3, .MARKET, by decide⟩) e := by
    simp only [bought, List.forall_mem_cons, FromHarness]
    exact ⟨fun _ => ⟨.inl rfl, rfl⟩, trivial, trivial, trivial, trivial, trivial, trivial, trivial,
      trivial, fun _ h => absurd h List.not_mem_nil⟩
  have hrun : (Cocos.service (marketAt 100)).run (.initial [deposit 5] 1) bought = some _ := rfl
  have hbooks : ∀ u ∈ [(1 : Int)], fivePesos.account = account [deposit 5] u := by
    intro u hu
    rw [List.mem_singleton.mp hu, hbook]
  obtain ⟨fs, w, hfs, number, hfollows⟩ := api_is_target (N := .double) hes hbooks hrun
  obtain ⟨x, hx, hsent⟩ := hfollows.flights 0 _ rfl (List.mem_singleton_self 1)
  obtain ⟨execution, clock, houtcome, hstatus, hprice⟩ := hsent.decided
  refine ⟨fs, w, number, hfs, ?_, x, execution, clock, hx, houtcome, ?_⟩
  · rw [hfollows.books 1 (List.mem_singleton_self 1)]
    decide
  · have hfilled : execution.status = .FILLED :=
      OrderStatus.text_injective (Option.some.inj hstatus).symm
    obtain ⟨status, price⟩ := execution
    obtain rfl : status = .FILLED := hfilled
    obtain rfl : "1.00" = price := hprice
    rfl

end Cocos.Tools
