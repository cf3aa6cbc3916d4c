import Cocos.Placements

namespace Cocos

open Cocos.Lib

/-!
# What a placement has read is still true

A placement reads in several statements and inserts in another, while others commit in
between.  The invariant that makes this safe ties the lock to the readings:

* `Unmoved` — nothing a placement of the user reads has changed from one table to the other;
* `Phase.Fresh` — all a placement has read so far is what the committed rows say now;
* `Inv` — whoever is between its lock and its end owns the lock of its user, its readings are
  fresh, and the rows not yet committed have ids of their own;
* `inv_run` — **the invariant holds in every state a run reaches**.
-/

/-! ### Tables a user cannot tell apart -/

/-- The reads of a placement of `u` that came out one way on the first table come out the
    same on the second. -/
structure Unmoved (u : Int) (orders orders' : Orders) : Prop where
  filled : filledRows orders' u = filledRows orders u
  keys : ∀ key, byIdempotencyKey orders u key = none → byIdempotencyKey orders' u key = none

/-- A cancel moves nothing. -/
theorem Unmoved.cancel (u : Int) (orders : Orders) (id : Int) :
    Unmoved u orders (orders.map (OrderRow.afterCancel id)) where
  filled := filledRows_cancel orders id u
  keys key h := by rw [byIdempotencyKey_cancel, h, Option.map_none]

/-- The commit of a row of another user moves nothing. -/
theorem Unmoved.concat {u : Int} {row : OrderRow} (h : row.userId ≠ some u) (orders : Orders) :
    Unmoved u orders (orders ++ [row]) where
  filled := filledRows_concat (by simp [OrderRow.filledFor, h])
  keys _ hkey := byIdempotencyKey_concat_eq_none hkey (by simp [OrderRow.hasKey, h])

/-! ### Fresh readings -/

/-- All the placement has read is what it would read now. -/
def Phase.Fresh (m : Market) (orders : Orders) (r : Request) : Phase → Prop
  | .keyFree => byIdempotencyKey orders r.order.userId r.key = none
  | .userKnown =>
    byIdempotencyKey orders r.order.userId r.key = none ∧ userExists m r.order.userId = true
  | .priced q =>
    byIdempotencyKey orders r.order.userId r.key = none ∧ userExists m r.order.userId = true ∧
      tradableClose m r.order.instrumentId = .ok q.close ∧ sized r.order q.close = .ok q
  | .funded q cash =>
    byIdempotencyKey orders r.order.userId r.key = none ∧ userExists m r.order.userId = true ∧
      tradableClose m r.order.instrumentId = .ok q.close ∧ sized r.order q.close = .ok q ∧
      readCash orders r.order.userId = .ok cash
  | .measured q cash held => Readings m orders r q cash held
  | .inserted row placed => ∃ q cash held id now order, Readings m orders r q cash held ∧
      (newOrder r q cash held).fits = true ∧ row = (newOrder r q cash held).row id now ∧
      view row = .ok order ∧ placed = ⟨order, false⟩
  | _ => True

namespace Phase

variable {m : Market} {orders orders' : Orders} {r : Request}

/-- Outside the lock there are no readings. -/
theorem fresh_of_not_holdsLock {phase : Phase} (h : phase.holdsLock = false) :
    phase.Fresh m orders r := by
  cases phase <;> trivial

/-- Readings stay fresh on a table where nothing the user reads has moved. -/
theorem Fresh.unmoved {phase : Phase} (h : phase.Fresh m orders r)
    (hmove : Unmoved r.order.userId orders orders') : phase.Fresh m orders' r := by
  -- both folds are of the user's FILLED rows, and those have not moved
  have hcash : readCash orders' r.order.userId = readCash orders r.order.userId := by
    unfold readCash
    rw [availableCash_congr hmove.filled]
  have hread : ∀ {q cash held}, Readings m orders r q cash held →
      Readings m orders' r q cash held := fun hr =>
    { key := hmove.keys _ hr.key
      user := hr.user
      close := hr.close
      sized := hr.sized
      cash := hcash.trans hr.cash
      held := (heldShares_congr hmove.filled _).trans hr.held }
  cases phase with
  | keyFree => exact hmove.keys _ h
  | userKnown => exact ⟨hmove.keys _ h.1, h.2⟩
  | priced q => exact ⟨hmove.keys _ h.1, h.2⟩
  | funded q cash =>
    obtain ⟨hkey, huser, hclose, hsized, hc⟩ := h
    exact ⟨hmove.keys _ hkey, huser, hclose, hsized, hcash.trans hc⟩
  | measured q cash held => exact hread h
  | inserted row placed =>
    obtain ⟨q, cash, held, id, now, order, hr, hrest⟩ := h
    exact ⟨q, cash, held, id, now, order, hread hr, hrest⟩
  | _ => trivial

/-- A read adds what it read. -/
theorem Fresh.read {phase phase' : Phase} (h : phase.Fresh m orders r)
    (hread : Read m orders r phase phase') : phase'.Fresh m orders r := by
  cases hread with
  -- each read relies on the facts of the reads before it and adds its own
  | keyFree hkey => exact hkey
  | userKnown huser => exact ⟨h, huser⟩
  | priced hclose hsized =>
    have hqc := sized_close hsized
    exact ⟨h.1, h.2, hqc ▸ hclose, hqc ▸ hsized⟩
  | funded hcash => exact ⟨h.1, h.2.1, h.2.2.1, h.2.2.2, hcash⟩
  | measured hheld =>
    obtain ⟨hkey, huser, hclose, hsized, hcash⟩ := h
    exact ⟨hkey, huser, hclose, hsized, hcash, hheld⟩
  | _ => trivial

/-- Every read is under the lock. -/
theorem holdsLock_of_read {phase phase' : Phase} (h : Read m orders r phase phase') :
    phase.holdsLock = true := by
  cases h <;> rfl

/-- A read inserts nothing. -/
theorem read_ne_inserted {phase phase' : Phase} (h : Read m orders r phase phase')
    (row : OrderRow) (placed : Placed) : phase' ≠ .inserted row placed := by
  rintro rfl
  cases h

end Phase

/-- An insert either throws or leaves its row in the transaction. -/
theorem inserting_cases (orders : Orders) (r : Request) (q : Sized) (cash held id : Int)
    (now : Timestamp) :
    (∃ thrown, inserting orders r q cash held id now = .threw thrown) ∨
      ∃ order, insert orders (newOrder r q cash held) id now =
          .ok ((newOrder r q cash held).row id now) ∧
        view ((newOrder r q cash held).row id now) = .ok order ∧
        inserting orders r q cash held id now =
          .inserted ((newOrder r q cash held).row id now) ⟨order, false⟩ := by
  unfold inserting
  cases hrow : insert orders (newOrder r q cash held) id now with
  | error e => exact .inl ⟨e, rfl⟩
  | ok row =>
    obtain ⟨-, -, -, rfl⟩ := insert_eq_ok.mp hrow
    cases hview : view ((newOrder r q cash held).row id now) with
    | error e => exact .inl ⟨e, by simp [hview, bind, Except.bind, Phase.after]⟩
    | ok order =>
      exact .inr ⟨order, rfl, rfl, by simp [hview, bind, Except.bind, pure, Except.pure,
        Phase.after]⟩

/-! ### The invariant -/

/-- **The lock, the readings and the ids.** -/
structure Inv (m : Market) (s : State) : Prop where
  /-- Whoever is between its lock and its end owns the lock. -/
  owner : ∀ {t a}, s.placements t = some a → a.phase.holdsLock = true → s.lock a.user = some t
  /-- What it has read is what it would read. -/
  fresh : ∀ {t a}, s.placements t = some a → a.phase.Fresh m s.orders a.request
  /-- A row not yet committed has the id its insert drew, which no committed row has. -/
  pending : ∀ {t a row placed}, s.placements t = some a → a.phase = .inserted row placed →
    a.drawn = some row.id ∧ row.id ∉ s.orders.map (·.id)
  /-- The sequence is past every id it gave out. -/
  drawn_le : ∀ {t a id}, s.placements t = some a → a.drawn = some id → id ≤ s.sequence
  /-- No two inserts drew one id. -/
  drawn_inj : ∀ {t t' a a' id}, s.placements t = some a → s.placements t' = some a' →
    a.drawn = some id → a'.drawn = some id → t = t'

theorem inv_initial (m : Market) (orders : Orders) (sequence : Int) :
    Inv m (.initial orders sequence) where
  owner h := by cases h
  fresh h := by cases h
  pending h := by cases h
  drawn_le h := by cases h
  drawn_inj h := by cases h

namespace Inv

variable {m : Market} {s s' : State}

/-- Two placements of one user are never both between their lock and their end. -/
theorem exclusive (h : Inv m s) {t t' : Nat} {a a' : Attempt} (ht : s.placements t = some a)
    (ht' : s.placements t' = some a') (ha : a.phase.holdsLock = true)
    (ha' : a'.phase.holdsLock = true) (huser : a.user = a'.user) : t = t' := by
  have := h.owner ht ha
  rw [huser, h.owner ht' ha'] at this
  exact (Option.some.inj this).symm

/-- A placement moves on and draws no id. -/
theorem put (h : Inv m s) {t : Nat} {a : Attempt}
    (howner : a.phase.holdsLock = true → s.lock a.user = some t)
    (hfresh : a.phase.Fresh m s.orders a.request)
    (hphase : ∀ row placed, a.phase ≠ .inserted row placed)
    (hdrawn : ∀ id, a.drawn = some id → ∃ b, s.placements t = some b ∧ b.drawn = some id) :
    Inv m (s.put t a) := by
  -- whatever was drawn had been drawn before
  have hold : ∀ {t' a' id}, (s.put t a).placements t' = some a' → a'.drawn = some id →
      ∃ b, s.placements t' = some b ∧ b.drawn = some id := fun ht' hid => by
    rcases (s.put_eq_some t a).mp ht' with ⟨rfl, rfl⟩ | ⟨-, hold⟩
    · exact hdrawn _ hid
    · exact ⟨_, hold, hid⟩
  refine ⟨fun {t' a'} ht' ha' => ?_, fun {t' a'} ht' => ?_, fun {t' a' row p} ht' hrow => ?_,
    fun ht' hid => ?_, fun h₁ h₂ hid₁ hid₂ => ?_⟩
  · rcases (s.put_eq_some t a).mp ht' with ⟨rfl, rfl⟩ | ⟨-, hold⟩
    · exact howner ha'
    · exact h.owner hold ha'
  · rcases (s.put_eq_some t a).mp ht' with ⟨rfl, rfl⟩ | ⟨-, hold⟩
    · exact hfresh
    · exact h.fresh hold
  · rcases (s.put_eq_some t a).mp ht' with ⟨rfl, rfl⟩ | ⟨-, hold⟩
    · exact absurd hrow (hphase row p)
    · exact h.pending hold hrow
  · obtain ⟨b, hb, hbid⟩ := hold ht' hid
    exact h.drawn_le hb hbid
  · obtain ⟨b₁, hb₁, hbid₁⟩ := hold h₁ hid₁
    obtain ⟨b₂, hb₂, hbid₂⟩ := hold h₂ hid₂
    exact h.drawn_inj hb₁ hb₂ hbid₁ hbid₂

/-- A cancel moves on. -/
theorem putCancel (h : Inv m s) (c : Nat) (b : CancelAttempt) : Inv m (s.putCancel c b) :=
  ⟨h.owner, h.fresh, h.pending, h.drawn_le, h.drawn_inj⟩

/-- The lock changes hands between placements that do not hold it. -/
theorem setLock (h : Inv m s) {lock : Int → Option Nat}
    (howner : ∀ {t a}, s.placements t = some a → a.phase.holdsLock = true →
      lock a.user = s.lock a.user) : Inv m { s with lock := lock } where
  owner ht ha := (howner ht ha).trans (h.owner ht ha)
  fresh := h.fresh
  pending := h.pending
  drawn_le := h.drawn_le
  drawn_inj := h.drawn_inj

/-- The committed rows change, but nothing that a placement under its lock reads. -/
theorem setOrders (h : Inv m s) {orders : Orders}
    (hmove : ∀ {t a}, s.placements t = some a → a.phase.holdsLock = true →
      Unmoved a.user s.orders orders)
    (hids : ∀ {t a row placed}, s.placements t = some a → a.phase = .inserted row placed →
      row.id ∉ orders.map (·.id)) : Inv m { s with orders := orders } where
  owner := h.owner
  fresh {t a} ht := by
    cases ha : a.phase.holdsLock with
    | false => exact Phase.fresh_of_not_holdsLock ha
    | true => exact (h.fresh ht).unmoved (hmove ht ha)
  pending ht hrow := ⟨(h.pending ht hrow).1, hids ht hrow⟩
  drawn_le := h.drawn_le
  drawn_inj := h.drawn_inj

/-- A row put into the transaction has an id no other row has. -/
theorem insertRow (h : Inv m s) {t : Nat} {r : Request} {q : Sized} {cash held : Int}
    {drawn : Option Int} (ht : s.placements t = some ⟨r, .measured q cash held, drawn⟩)
    (now : Timestamp) :
    Inv m { s.put t ⟨r, inserting s.orders r q cash held (s.sequence + 1) now,
      some (s.sequence + 1)⟩ with sequence := s.sequence + 1 } := by
  -- the others drew earlier ids
  have hother : ∀ {t' a' id}, s.placements t' = some a' → a'.drawn = some id →
      id ≠ s.sequence + 1 := fun hp hid => by
    have := h.drawn_le hp hid
    omega
  have hlock := h.owner ht rfl
  have hphase := inserting_cases s.orders r q cash held (s.sequence + 1) now
  refine ⟨fun {t' a'} ht' ha' => ?_, fun {t' a'} ht' => ?_, fun {t' a' row p} ht' hrow => ?_,
    fun {t' a' id} ht' hid => ?_, fun {t₁ t₂ a₁ a₂ id} h₁ h₂ hid₁ hid₂ => ?_⟩
  · rcases (s.put_eq_some _ _).mp ht' with ⟨rfl, rfl⟩ | ⟨-, hold⟩
    · exact hlock
    · exact h.owner hold ha'
  · rcases (s.put_eq_some _ _).mp ht' with ⟨rfl, rfl⟩ | ⟨-, hold⟩
    · rcases hphase with ⟨thrown, hthrew⟩ | ⟨order, hinsert, hview, hphase⟩
      · exact hthrew ▸ trivial
      · exact hphase ▸ ⟨q, cash, held, s.sequence + 1, now, order, h.fresh ht,
          (insert_eq_ok.mp hinsert).1, rfl, hview, rfl⟩
    · exact h.fresh hold
  · rcases (s.put_eq_some _ _).mp ht' with ⟨rfl, rfl⟩ | ⟨-, hold⟩
    · rcases hphase with ⟨thrown, hthrew⟩ | ⟨order, hinsert, -, hphase⟩
      · exact absurd (hthrew.symm.trans hrow) (by simp)
      · cases hphase.symm.trans hrow
        exact ⟨rfl, (insert_eq_ok.mp hinsert).2.1⟩
    · exact h.pending hold hrow
  · rcases (s.put_eq_some _ _).mp ht' with ⟨rfl, rfl⟩ | ⟨-, hold⟩
    · exact (Option.some.inj hid).ge
    · exact le_trans (h.drawn_le hold hid) (Int.le_add_one le_rfl)
  · rcases (s.put_eq_some _ _).mp h₁ with ⟨rfl, rfl⟩ | ⟨-, hold₁⟩ <;>
      rcases (s.put_eq_some _ _).mp h₂ with ⟨rfl, rfl⟩ | ⟨-, hold₂⟩
    · rfl
    · exact absurd (Option.some.inj hid₁).symm (hother hold₂ hid₂)
    · exact absurd (Option.some.inj hid₂).symm (hother hold₁ hid₁)
    · exact h.drawn_inj hold₁ hold₂ hid₁ hid₂

/-- A row not yet committed was decided from readings that are still fresh. -/
theorem readings (h : Inv m s) {t : Nat} {r : Request} {row : OrderRow} {placed : Placed}
    {drawn : Option Int} (ht : s.placements t = some ⟨r, .inserted row placed, drawn⟩) :
    ∃ q cash held id now order, Readings m s.orders r q cash held ∧
      (newOrder r q cash held).fits = true ∧ row = (newOrder r q cash held).row id now ∧
      view row = .ok order ∧ placed = ⟨order, false⟩ :=
  h.fresh ht

/-- The commit of a row moves nothing for the placements that are under a lock. -/
theorem commitRow (h : Inv m s) {t : Nat} {r : Request} {row : OrderRow} {placed : Placed}
    {drawn : Option Int} (ht : s.placements t = some ⟨r, .inserted row placed, drawn⟩) :
    Inv m { s.put t ⟨r, .committed placed, drawn⟩ with orders := s.orders ++ [row] } := by
  have hput : Inv m (s.put t ⟨r, .committed placed, drawn⟩) :=
    h.put (fun ha => by cases ha) trivial (by simp) (fun _ hid => ⟨_, ht, hid⟩)
  refine hput.setOrders (fun {t' a'} ht' ha' => Unmoved.concat ?_ _)
    (fun {t' a' row' p'} ht' hrow' => ?_)
  · rcases (s.put_eq_some _ _).mp ht' with ⟨rfl, rfl⟩ | ⟨hne, hold⟩
    · cases ha'
    -- whoever reads under a lock is of another user: this one owns the lock of its own
    · obtain ⟨q, cash, held, id, now, order, -, -, rfl, -⟩ := h.readings ht
      exact fun huser => hne (h.exclusive hold ht ha' rfl (Option.some.inj huser).symm)
  · rcases (s.put_eq_some _ _).mp ht' with ⟨rfl, rfl⟩ | ⟨hne, hold⟩
    · cases hrow'
    · simp only [List.map_append, List.map_cons, List.map_nil, List.mem_append,
        List.mem_singleton, not_or]
      -- two rows that are not committed have ids of two draws
      refine ⟨(h.pending hold hrow').2, fun hid => hne ?_⟩
      exact h.drawn_inj hold ht (hid ▸ (h.pending hold hrow').1) (h.pending ht rfl).1

/-- **Every step keeps the invariant.** -/
theorem step (h : Inv m s) {e : Event} (hstep : (service m).step s e = some s') : Inv m s' := by
  cases took_of_step hstep with
  | begun ht => exact h.put (fun ha => by cases ha) trivial (by simp) (by simp)
  | @locked t r drawn ht hfree =>
    have hlock : Inv m { s with lock := Function.update s.lock r.order.userId (some t) } :=
      h.setLock fun {t' a'} ht' ha' => Function.update_of_ne
        (fun huser => by rw [← huser, h.owner ht' ha'] at hfree; cases hfree) _ _
    exact hlock.put (fun _ => Function.update_self ..) trivial (by simp)
      (fun _ hid => ⟨_, ht, hid⟩)
  | read ht heq =>
    have hread := read_of_eq heq
    have hlock := h.owner ht (Phase.holdsLock_of_read hread)
    exact h.put (fun _ => hlock) ((h.fresh ht).read hread) (Phase.read_ne_inserted hread)
      (fun _ hid => ⟨_, ht, hid⟩)
  | inserted ht => exact h.insertRow ht _
  | committed ht => exact h.commitRow ht
  | replayed ht =>
    exact h.put (fun ha => by cases ha) trivial (by simp) (fun _ hid => ⟨_, ht, hid⟩)
  | rolledBack ht =>
    exact h.put (fun ha => by cases ha) trivial (by simp) (fun _ hid => ⟨_, ht, hid⟩)
  | timedOut ht _ =>
    exact h.put (fun ha => by cases ha) trivial (by simp) (fun _ hid => ⟨_, ht, hid⟩)
  | @unlocked t a ht hphase hlock =>
    refine h.setLock fun {t' a'} ht' ha' => Function.update_of_ne (fun huser => ?_) _ _
    -- the lock is let go by its owner, who is over
    have hsame := h.owner ht' ha'
    rw [huser, hlock, Option.some.injEq] at hsame
    subst hsame
    cases ht.symm.trans ht'
    cases hp : a.phase <;> simp_all [Phase.finished, Phase.holdsLock]
  | @cancelled c id ht =>
    exact (h.putCancel c _).setOrders (fun _ _ => .cancel _ _ id)
      (fun ht' hrow' => by simpa using (h.pending ht' hrow').2)
  | refused ht => exact h.putCancel _ _

end Inv

/-- **The invariant holds in every state a run reaches.** -/
theorem inv_run {m : Market} {orders : Orders} {sequence : Int} {es : List Event} {s : State}
    (hrun : (service m).run (.initial orders sequence) es = some s) : Inv m s :=
  (service m).invariant_run (I := Inv m) (fun h hstep => h.step hstep)
    (inv_initial m orders sequence) hrun

end Cocos
