import Cocos.Freshness
import Cocos.Lib.Serialise
import Cocos.Undated

namespace Cocos

open Cocos.Lib

/-!
# Concurrent placement is serial placement

Whatever way the statements of the requests interleave, some order of the requests has them
run one at a time to the same table with the same answers.

* `serial` — the atomic service: a placement or a cancel at a time;
* `points` — where a request takes effect: a fresh placement at its commit, a replay at the
  lookup of its key, a refused one at the statement that threw, a cancel at its `UPDATE`;
* `SerialInv.point`, `SerialInv.cancel` — **a point does to the table what its step does**, by
  the freshness of the readings;
* `Explained`, `SerialInv` — the replies of the serial run are the answers of the concurrent
  one, and the points of a user's placements come in the order of its lock;
* `placements_serialise` — **every run has a serial order**, of the requests that were answered.
-/

/-! ### The atomic service -/

/-- A request, a placement with the id its insert draws and the clock it reads. -/
inductive Op
  | place (t : Nat) (r : Request) (id : Int) (now : Timestamp)
  | cancel (c : Nat) (id : Int)

namespace Op

/-- The number of the request. -/
def request : Op → Nat ⊕ Nat
  | .place t _ _ _ => .inl t
  | .cancel c _ => .inr c

/-- The number of the placement, if it is one of user `u`. -/
def placementOf (u : Int) : Op → Option Nat
  | .place t r _ _ => if r.order.userId = u then some t else none
  | .cancel _ _ => none

/-- The request at another clock. -/
def atClock (clock : Nat → Timestamp) : Op → Op
  | .place t r id _ => .place t r id (clock t)
  | .cancel c id => .cancel c id

end Op

/-- The placements of user `u` in a history, in its order. -/
def turns (u : Int) (H : List Op) : List Nat := H.filterMap (Op.placementOf u)

theorem turns_concat_place (u : Int) (H : List Op) (t : Nat) (r : Request) (id : Int)
    (now : Timestamp) : turns u (H ++ [.place t r id now]) =
      if r.order.userId = u then turns u H ++ [t] else turns u H := by
  by_cases h : r.order.userId = u <;> simp [turns, List.filterMap_append, Op.placementOf, h]

theorem turns_concat_cancel (u : Int) (H : List Op) (c : Nat) (id : Int) :
    turns u (H ++ [.cancel c id]) = turns u H := by
  simp [turns, List.filterMap_append, Op.placementOf]

/-- What a placement is answered with; a cancel's answer is not compared. -/
abbrev Reply := Option (Except Thrown Placed)

/-- The service, one request at a time. -/
def serial (m : Market) : AtomicObject Orders Op Reply where
  exec orders
    | .place _ r id now => ((place m r id now orders).2, some (place m r id now orders).1)
    | .cancel _ id => ((cancel id orders).2, none)

/-- A reply after which the table is as it was: an error, or a replay. -/
def Quiet : Reply → Prop
  | some (.error _) => True
  | some (.ok placed) => placed.replayed = true
  | none => False

theorem quiet_exec (m : Market) (orders : Orders) (op : Op)
    (h : Quiet ((serial m).exec orders op).2) : ((serial m).exec orders op).1 = orders := by
  cases op with
  | cancel c id => exact h.elim
  | place t r id now =>
    simp only [serial, place] at h ⊢
    cases hw : placeWithin m r id now orders with
    | error e => rfl
    | ok result =>
      obtain ⟨placed, orders'⟩ := result
      rw [hw] at h
      rcases placeWithin_eq_ok.mp hw with ⟨_, _, _, _, _, rfl⟩ | ⟨_, _, _, _, _, _, _, _, rfl, _⟩
      · rfl
      · cases h

theorem place_of_ok {m : Market} {r : Request} {id : Int} {now : Timestamp}
    {orders orders' : Orders} {placed : Placed}
    (h : placeWithin m r id now orders = .ok (placed, orders')) :
    place m r id now orders = (.ok placed, orders') := by
  simp [place, h]

theorem place_of_error {m : Market} {r : Request} {id : Int} {now : Timestamp} {orders : Orders}
    {thrown : Thrown} (h : placeWithin m r id now orders = .error thrown) :
    place m r id now orders = (.error (caught thrown), orders) := by
  simp [place, h]

/-! ### What a request takes effect with -/

section Points

variable {m : Market} {orders : Orders} {r : Request}

theorem placeWithin_of_replay {row : OrderRow} {order : OrderView}
    (hrow : byIdempotencyKey orders r.order.userId r.key = some row)
    (hview : view row = .ok order) (id : Int) (now : Timestamp) :
    placeWithin m r id now orders = .ok (⟨order, true⟩, orders) :=
  placeWithin_eq_ok.mpr (.inl ⟨row, order, hrow, hview, rfl, rfl⟩)

/-- A placement whose fresh readings lead to a throw throws the same when it is run at once. -/
theorem placeWithin_of_threw {phase : Phase} {thrown : Thrown} (h : phase.Fresh m orders r)
    (hread : Read m orders r phase (.threw thrown)) (id : Int) (now : Timestamp) :
    placeWithin m r id now orders = .error thrown := by
  unfold placeWithin
  cases hread with
  | replayThrew hrow hview => simp [hrow, hview, bind, Except.bind]
  | noUser huser =>
    rw [show byIdempotencyKey orders r.order.userId r.key = none from h]
    simp [huser, bind, Except.bind, throw, throwThe, MonadExceptOf.throw]
  | unpriced hsized =>
    obtain ⟨hkey, huser⟩ := h
    cases hclose : tradableClose m r.order.instrumentId with
    | error e =>
      rw [hclose] at hsized
      simpa [hkey, huser, hclose, bind, Except.bind] using hsized
    | ok close =>
      rw [hclose] at hsized
      simp only [Except.bind] at hsized
      simp [hkey, huser, hsized, bind, Except.bind]
  | cashThrew hcash =>
    obtain ⟨hkey, huser, hclose, hsized⟩ := h
    simp [hkey, huser, hclose, hsized, hcash, bind, Except.bind]
  | heldThrew hheld =>
    obtain ⟨hkey, huser, hclose, hsized, hcash⟩ := h
    simp [hkey, huser, hclose, hsized, hcash, hheld, bind, Except.bind]

/-- With fresh readings, what is left of a placement is its insert. -/
theorem placeWithin_of_readings {q : Sized} {cash held : Int} (h : Readings m orders r q cash held)
    (id : Int) (now : Timestamp) :
    placeWithin m r id now orders = (insert orders (newOrder r q cash held) id now).bind
      fun created => (view created).bind fun order =>
        .ok (⟨order, false⟩, orders ++ [created]) := by
  unfold placeWithin
  simp [h.key, h.user, h.close, h.sized, h.cash, h.held, bind, Except.bind, pure, Except.pure]

theorem placeWithin_of_inserting_threw {q : Sized} {cash held id : Int} {now : Timestamp}
    {thrown : Thrown} (h : Readings m orders r q cash held)
    (hthrew : inserting orders r q cash held id now = .threw thrown) :
    placeWithin m r id now orders = .error thrown := by
  rw [placeWithin_of_readings h]
  unfold inserting at hthrew
  cases hrow : insert orders (newOrder r q cash held) id now with
  | error e => simpa [hrow, bind, Except.bind, Phase.after] using hthrew
  | ok row =>
    cases hview : view row with
    | error e => simpa [hrow, hview, bind, Except.bind, Phase.after] using hthrew
    | ok order => simp [hrow, hview, bind, Except.bind, pure, Except.pure, Phase.after] at hthrew

end Points

/-- The operations that take effect in a step. -/
def points (m : Market) (s : State) : Event → List Op
  | .read t =>
    match s.placements t with
    | some a =>
      match a.phase.read m s.orders a.request with
      | some (.replaying _) | some (.threw _) => [.place t a.request (a.drawn.getD 0) 0]
      | _ => []
    | none => []
  | .insert t now =>
    match s.placements t with
    | some ⟨r, .measured q cash held, _⟩ =>
      match inserting s.orders r q cash held (s.sequence + 1) now with
      | .threw _ => [.place t r (s.sequence + 1) now]
      | _ => []
    | _ => []
  | .commit t =>
    match s.placements t with
    | some ⟨r, .inserted row _, _⟩ => [.place t r row.id (row.datetime.getD 0)]
    | _ => []
  | .cancel c id => [.cancel c id]
  | _ => []

/-- The placements of user `u` that take the lock in a step. -/
def grants (u : Int) (s : State) : Event → List Nat
  | .lockPlacements t =>
    match s.placements t with
    | some a => if a.user = u then [t] else []
    | none => []
  | _ => []

/-! ### The invariant of the simulation -/

/-- The serial reply of a placement is what its phase has come to. -/
def Phase.Replied : Phase → Reply → Prop
  | .replaying placed, reply => reply = some (.ok placed) ∧ placed.replayed = true
  | .committed placed, reply => reply = some (.ok placed)
  | .threw thrown, reply => reply = some (.error (caught thrown))
  | .rolledBack thrown, reply => reply = some (.error thrown)
  | .timedOut, reply => Quiet reply
  | _, _ => False

/-- The placement has taken effect, and may still be answered. -/
def Phase.decided : Phase → Bool
  | .replaying _ | .committed _ | .threw _ | .rolledBack _ => true
  | _ => false

/-- An operation of the serial run is a request of the concurrent one, with its reply. -/
def Explained (s : State) : Op → Reply → Prop
  | .place t r id _, reply => ∃ a, s.placements t = some a ∧ a.request = r ∧
      (∀ d, a.drawn = some d → id = d) ∧ a.phase.Replied reply
  | .cancel c id, _ => ∃ a, s.cancels c = some a ∧ a.id = id

/-- The history `H` and the lock orders `L` of the run that led to `s`. -/
structure SerialInv (m : Market) (start : Orders) (H : List Op) (L : Int → List Nat) (s : State) :
    Prop where
  final : (serial m).final start H = s.orders
  explained : ∀ p ∈ (serial m).replies start H, Explained s p.1 p.2
  /-- Whoever has taken effect is in the history, -/
  complete : ∀ {t a}, s.placements t = some a → a.phase.decided = true →
    .inl t ∈ H.map Op.request
  cancels : ∀ {c a}, s.cancels c = some a → .cancel c a.id ∈ H
  /-- once. -/
  nodup : (H.map Op.request).Nodup
  /-- A user's placements take effect in the order of its lock, -/
  free : ∀ {u}, s.lock u = none → (turns u H).Sublist (L u)
  /-- and whoever has the lock is the last to have taken it. -/
  held : ∀ {u t}, s.lock u = some t → ∃ earlier, L u = earlier ++ [t] ∧
    (turns u H).Sublist (earlier ++ [t]) ∧
    (.inl t ∉ H.map Op.request → (turns u H).Sublist earlier)

theorem serialInv_initial (m : Market) (start : Orders) (sequence : Int) :
    SerialInv m start [] (fun _ => []) (.initial start sequence) where
  final := rfl
  explained := by simp
  complete h := by cases h
  cancels h := by cases h
  nodup := .nil
  free _ := .slnil
  held h := by cases h

namespace SerialInv

variable {m : Market} {start : Orders} {H : List Op} {L : Int → List Nat} {s s' : State}

/-- A request in the history has its placement or its cancel in the state. -/
theorem explained_of_mem (h : SerialInv m start H L s) {op : Op} (hop : op ∈ H) :
    ∃ reply, (op, reply) ∈ (serial m).replies start H ∧ Explained s op reply := by
  rw [← (serial m).map_fst_replies start H] at hop
  obtain ⟨⟨op, reply⟩, hp, rfl⟩ := List.mem_map.mp hop
  exact ⟨reply, hp, h.explained _ hp⟩

/-- A placement that has not taken effect is not in the history. -/
theorem not_mem (h : SerialInv m start H L s) {t : Nat}
    (hphase : ∀ a, s.placements t = some a → ∀ reply, ¬a.phase.Replied reply) :
    .inl t ∉ H.map Op.request := by
  intro hmem
  obtain ⟨op, hop, hreq⟩ := List.mem_map.mp hmem
  obtain ⟨reply, -, hexp⟩ := h.explained_of_mem hop
  cases op with
  | cancel c id => cases hreq
  | place t' r id now =>
    cases hreq
    obtain ⟨a, ha, -, -, hreplied⟩ := hexp
    exact hphase a ha reply hreplied

/-- A user's placements take effect in the order of its lock. -/
theorem turns_sublist (h : SerialInv m start H L s) (u : Int) : (turns u H).Sublist (L u) := by
  cases hu : s.lock u with
  | none => exact h.free hu
  | some t =>
    obtain ⟨earlier, hL, hall, -⟩ := h.held hu
    exact hL ▸ hall

/-- A placement moves on without taking effect. -/
theorem move (h : SerialInv m start H L s) {t : Nat} {a : Attempt}
    (horders : s'.orders = s.orders) (hplace : s'.placements = (s.put t a).placements)
    (hcancels : s'.cancels = s.cancels) (hlock : s'.lock = s.lock)
    (hmove : ∀ b, s.placements t = some b → ∀ reply, b.phase.Replied reply →
      a.request = b.request ∧ a.drawn = b.drawn ∧ a.phase.Replied reply)
    (hdecided : a.phase.decided = true → ∃ b, s.placements t = some b ∧ b.phase.decided = true) :
    SerialInv m start H L s' where
  final := h.final.trans horders.symm
  explained := by
    rintro ⟨op, reply⟩ hp
    have hexp := h.explained _ hp
    cases op with
    | cancel c id => simpa only [Explained, hcancels] using hexp
    | place t' r id now =>
      obtain ⟨b, hb, hr, hid, hreplied⟩ := hexp
      simp only [Explained, hplace]
      by_cases ht : t' = t
      · subst ht
        obtain ⟨hreq, hdrawn, hreplied'⟩ := hmove b hb reply hreplied
        exact ⟨a, (s.put_eq_some t' a).mpr (.inl ⟨rfl, rfl⟩), hreq.trans hr, hdrawn ▸ hid,
          hreplied'⟩
      · exact ⟨b, (s.put_eq_some t a).mpr (.inr ⟨ht, hb⟩), hr, hid, hreplied⟩
  complete {t' a'} ht' ha' := by
    rw [hplace] at ht'
    rcases (s.put_eq_some t a).mp ht' with ⟨rfl, rfl⟩ | ⟨-, hold⟩
    · obtain ⟨b, hb, hd⟩ := hdecided ha'
      exact h.complete hb hd
    · exact h.complete hold ha'
  cancels hc := h.cancels (hcancels ▸ hc)
  nodup := h.nodup
  free hu := h.free (hlock ▸ hu)
  held hu := h.held (hlock ▸ hu)

/-- **A placement takes effect**: under its lock, as it would if it were run at once. -/
theorem point (h : SerialInv m start H L s) {t : Nat} {r : Request} {phase : Phase}
    {drawn : Option Int} {a : Attempt} {id : Int} {now : Timestamp} {answer : Except Thrown Placed}
    (ht : s.placements t = some ⟨r, phase, drawn⟩) (hturn : s.lock r.order.userId = some t)
    (hphase : ∀ reply, ¬phase.Replied reply)
    (hplace : s'.placements = (s.put t a).placements) (hcancels : s'.cancels = s.cancels)
    (hlock : s'.lock = s.lock) (hreq : a.request = r) (hid : ∀ d, a.drawn = some d → id = d)
    (hexec : place m r id now s.orders = (answer, s'.orders))
    (hreply : a.phase.Replied (some answer)) :
    SerialInv m start (H ++ [.place t r id now]) L s' := by
  -- a placement of the history has been replied to
  have hnew : .inl t ∉ H.map Op.request := h.not_mem fun b hb reply hreplied => by
    cases ht.symm.trans hb
    exact hphase reply hreplied
  -- no operation of the history is about the placement
  have hother : ∀ {op reply}, op ∈ H → Explained s op reply → Explained s' op reply := by
    intro op reply hop hexp
    cases op with
    | cancel c id => simpa only [Explained, hcancels] using hexp
    | place t' r' id' now' =>
      obtain ⟨b, hb, hrest⟩ := hexp
      have hne : t' ≠ t := by
        rintro rfl
        exact hnew (List.mem_map.mpr ⟨_, hop, rfl⟩)
      exact ⟨b, hplace ▸ (s.put_eq_some t a).mpr (.inr ⟨hne, hb⟩), hrest⟩
  refine ⟨?_, ?_, fun {t' a'} ht' ha' => ?_, fun {c b} hc => ?_, ?_, fun {u} hu => ?_,
    fun {u t'} hu => ?_⟩
  · rw [AtomicObject.final_append, h.final]
    simp [serial, hexec]
  · rintro ⟨op, reply⟩ hp
    rw [AtomicObject.replies_append, h.final, List.mem_append] at hp
    rcases hp with hp | hp
    · exact hother ((serial m).mem_of_mem_replies hp) (h.explained _ hp)
    · simp only [serial, hexec, AtomicObject.replies_cons, AtomicObject.replies_nil,
        List.mem_singleton, Prod.mk.injEq] at hp
      obtain ⟨rfl, rfl⟩ := hp
      exact ⟨a, hplace ▸ (s.put_eq_some t a).mpr (.inl ⟨rfl, rfl⟩), hreq, hid, hreply⟩
  · rw [List.map_append, List.mem_append]
    rw [hplace] at ht'
    rcases (s.put_eq_some t a).mp ht' with ⟨rfl, rfl⟩ | ⟨-, hold⟩
    · exact .inr (by simp [Op.request])
    · exact .inl (h.complete hold ha')
  · exact List.mem_append_left _ (h.cancels (hcancels ▸ hc))
  · rw [List.map_append, List.map_singleton, ← List.concat_eq_append]
    exact List.Nodup.concat hnew h.nodup
  · -- the lock of another user is none of the placement's
    rw [hlock] at hu
    have hne : r.order.userId ≠ u := by
      rintro rfl
      rw [hturn] at hu
      cases hu
    simpa [turns_concat_place, hne] using h.free hu
  · rw [hlock] at hu
    obtain ⟨earlier, hL, hall, hbefore⟩ := h.held hu
    refine ⟨earlier, hL, ?_, fun hnot => ?_⟩
    -- the placement is the last of its user to have taken the lock, so it comes last in turn
    · by_cases hne : r.order.userId = u
      · subst hne
        cases hturn.symm.trans hu
        simpa [turns_concat_place] using hbefore hnew
      · simpa [turns_concat_place, hne] using hall
    · simp only [List.map_append, List.mem_append, List.map_cons, List.map_nil,
        List.mem_singleton, not_or] at hnot
      have hne : r.order.userId ≠ u := by
        rintro rfl
        cases hturn.symm.trans hu
        exact hnot.2 rfl
      simpa [turns_concat_place, hne] using hbefore hnot.1

/-- A placement takes the lock of its user. -/
theorem takeLock (h : SerialInv m start H L s) {t : Nat} {r : Request} {drawn : Option Int}
    (ht : s.placements t = some ⟨r, .opened, drawn⟩) (hfree : s.lock r.order.userId = none) :
    SerialInv m start H (fun u => L u ++ if r.order.userId = u then [t] else [])
      { s.put t ⟨r, .locked, drawn⟩ with
        lock := Function.update s.lock r.order.userId (some t) } := by
  have hmoved : SerialInv m start H L (s.put t ⟨r, .locked, drawn⟩) := by
    refine h.move rfl rfl rfl rfl (fun b hb reply hreplied => ?_) (fun hd => by cases hd)
    cases ht.symm.trans hb
    exact hreplied.elim
  refine ⟨hmoved.final, hmoved.explained, hmoved.complete, hmoved.cancels, hmoved.nodup,
    fun {u} hu => ?_, fun {u t'} hu => ?_⟩
  · by_cases hur : u = r.order.userId
    · simp [hur] at hu
    · simp only [Function.update_of_ne hur] at hu
      simpa [Ne.symm hur] using hmoved.free hu
  · by_cases hur : u = r.order.userId
    · subst hur
      simp only [Function.update_self, Option.some.injEq] at hu
      subst hu
      -- nobody of the user is between lock and unlock, so all its turns are of earlier grants
      refine ⟨L r.order.userId, by simp, ?_, fun _ => h.free hfree⟩
      exact (h.free hfree).trans (List.sublist_append_left _ _)
    · simp only [Function.update_of_ne hur] at hu
      simpa [Ne.symm hur] using hmoved.held hu

/-- A placement that is over lets go of the lock. -/
theorem unlock (h : SerialInv m start H L s) {u : Int} {t : Nat} (ht : s.lock u = some t) :
    SerialInv m start H L { s with lock := Function.update s.lock u none } := by
  refine ⟨h.final, h.explained, h.complete, h.cancels, h.nodup, fun {v} hv => ?_,
    fun {v t'} hv => ?_⟩
  · by_cases hvu : v = u
    · obtain ⟨earlier, hL, hall, -⟩ := h.held ht
      rw [hvu, hL]
      exact hall
    · exact h.free (by simpa [Function.update_of_ne hvu] using hv)
  · by_cases hvu : v = u
    · simp [hvu] at hv
    · exact h.held (by simpa [Function.update_of_ne hvu] using hv)

/-- **A cancel takes effect** at its `UPDATE`. -/
theorem cancel (h : SerialInv m start H L s) {c : Nat} (hc : s.cancels c = none) (id : Int) :
    SerialInv m start (H ++ [.cancel c id]) L
      { s.putCancel c ⟨id, updated (cancelOrder s.orders id CANCELLABLE).1⟩ with
        orders := s.orders.map (OrderRow.afterCancel id) } := by
  have hnew : .inr c ∉ H.map Op.request := by
    intro hmem
    obtain ⟨op, hop, hreq⟩ := List.mem_map.mp hmem
    obtain ⟨reply, -, hexp⟩ := h.explained_of_mem hop
    cases op with
    | place t r id' now => cases hreq
    | cancel c' id' =>
      cases hreq
      obtain ⟨b, hb, -⟩ := hexp
      cases hc.symm.trans hb
  refine ⟨?_, ?_, fun ht hd => ?_, fun {c' b} hc' => ?_, ?_, fun hu => ?_, fun hu => ?_⟩
  · rw [AtomicObject.final_append, h.final]
    exact cancel_snd id s.orders
  · rintro ⟨op, reply⟩ hp
    rw [AtomicObject.replies_append, List.mem_append] at hp
    rcases hp with hp | hp
    · have hexp := h.explained _ hp
      have hop : op ∈ H := (serial m).mem_of_mem_replies hp
      cases op with
      | place t r id' now => exact hexp
      | cancel c' id' =>
        obtain ⟨b, hb, hid⟩ := hexp
        have hne : c' ≠ c := by
          rintro rfl
          exact hnew (List.mem_map.mpr ⟨_, hop, rfl⟩)
        exact ⟨b, (s.putCancel_eq_some _ _).mpr (.inr ⟨hne, hb⟩), hid⟩
    · simp only [AtomicObject.replies_cons, AtomicObject.replies_nil, List.mem_singleton,
        Prod.mk.injEq] at hp
      obtain ⟨rfl, -⟩ := hp
      exact ⟨_, (s.putCancel_eq_some _ _).mpr (.inl ⟨rfl, rfl⟩), rfl⟩
  · rw [List.map_append]
    exact List.mem_append_left _ (h.complete ht hd)
  · rcases (s.putCancel_eq_some _ _).mp hc' with ⟨rfl, rfl⟩ | ⟨-, hold⟩
    · exact List.mem_append_right _ (List.mem_singleton_self _)
    · exact List.mem_append_left _ (h.cancels hold)
  · rw [List.map_append, List.map_singleton, ← List.concat_eq_append]
    exact List.Nodup.concat hnew h.nodup
  · simpa [turns_concat_cancel] using h.free hu
  · obtain ⟨earlier, hL, hall, hbefore⟩ := h.held hu
    refine ⟨earlier, hL, by simpa [turns_concat_cancel] using hall,
      fun hnot => ?_⟩
    have hnot' : .inl _ ∉ H.map Op.request := fun hmem => hnot (by
      rw [List.map_append]
      exact List.mem_append_left _ hmem)
    simpa [turns_concat_cancel] using hbefore hnot'

/-- A cancel that matched nothing reads the status. -/
theorem refused (h : SerialInv m start H L s) {c : Nat} {id : Int} {thrown : Thrown}
    (hc : s.cancels c = some ⟨id, .missed⟩) :
    SerialInv m start H L (s.putCancel c ⟨id, .refused thrown⟩) where
  final := h.final
  explained := by
    rintro ⟨op, reply⟩ hp
    have hexp := h.explained _ hp
    cases op with
    | place t r id' now => exact hexp
    | cancel c' id' =>
      obtain ⟨b, hb, hid⟩ := hexp
      by_cases hcc : c' = c
      · subst hcc
        cases hc.symm.trans hb
        exact ⟨_, (s.putCancel_eq_some _ _).mpr (.inl ⟨rfl, rfl⟩), hid⟩
      · exact ⟨b, (s.putCancel_eq_some _ _).mpr (.inr ⟨hcc, hb⟩), hid⟩
  complete := h.complete
  cancels {c' b} hc' := by
    have hbefore := h.cancels hc
    rcases (s.putCancel_eq_some _ _).mp hc' with ⟨rfl, rfl⟩ | ⟨-, hold⟩
    · exact hbefore
    · exact h.cancels hold
  nodup := h.nodup
  free := h.free
  held := h.held

/-- A placement that has not been replied to moves on to a phase that is no decision. -/
theorem moveSilent (h : SerialInv m start H L s) {t : Nat} {a : Attempt}
    (horders : s'.orders = s.orders) (hplace : s'.placements = (s.put t a).placements)
    (hcancels : s'.cancels = s.cancels) (hlock : s'.lock = s.lock)
    (hbefore : ∀ b, s.placements t = some b → ∀ reply, ¬b.phase.Replied reply)
    (hafter : a.phase.decided = false) : SerialInv m start H L s' :=
  h.move horders hplace hcancels hlock (fun b hb reply hreplied => absurd hreplied (hbefore b hb _))
    (fun hd => absurd (hafter.symm.trans hd) (by simp))

/-- **Every step keeps the invariant**, with its points and its grants. -/
theorem step (h : SerialInv m start H L s) (hinv : Inv m s) {e : Event}
    (hstep : (service m).step s e = some s') :
    SerialInv m start (H ++ points m s e) (fun u => L u ++ grants u s e) s' := by
  -- most steps take effect for nobody and grant no lock
  have hquiet : SerialInv m start H L s' → points m s e = [] → (∀ u, grants u s e = []) →
      SerialInv m start (H ++ points m s e) (fun u => L u ++ grants u s e) s' := by
    intro h' hpoints hgrants
    simpa [hpoints, hgrants] using h'
  -- and the others for one request
  have hpoint : ∀ {op}, points m s e = [op] → (∀ u, grants u s e = []) →
      SerialInv m start (H ++ [op]) L s' →
      SerialInv m start (H ++ points m s e) (fun u => L u ++ grants u s e) s' := by
    intro op hpoints hgrants h'
    simpa [hpoints, hgrants] using h'
  cases took_of_step hstep with
  | begun ht =>
    exact hquiet (h.moveSilent rfl rfl rfl rfl (by simp [ht]) rfl) rfl fun _ => rfl
  | @locked t r drawn ht hfree =>
    have hgrants : ∀ u, grants u s (.lockPlacements t) =
        if r.order.userId = u then [t] else [] := fun u => by
      simp only [grants, ht]
      rfl
    simpa [points, hgrants] using h.takeLock ht hfree
  | @read t r phase drawn phase' ht heq =>
    have hread := read_of_eq heq
    have hturn : s.lock r.order.userId = some t :=
      hinv.owner ht (Phase.holdsLock_of_read hread)
    have hfresh : phase.Fresh m s.orders r := hinv.fresh ht
    have hopen : ∀ b, s.placements t = some b → ∀ reply, ¬b.phase.Replied reply := by
      intro b hb reply
      cases ht.symm.trans hb
      -- a read comes before every reply
      cases hread <;> exact id
    cases phase' with
    | replaying placed =>
      have hpoints : points m s (.read t) = [.place t r (drawn.getD 0) 0] := by
        simp [points, ht, heq]
      cases hread with
      | replay hrow hview =>
        have hexec := place_of_ok (placeWithin_of_replay (m := m) hrow hview (drawn.getD 0) 0)
        exact hpoint hpoints (fun _ => rfl) (h.point ht hturn (hopen _ ht) rfl rfl rfl rfl
          (fun d hd => by simp [show drawn = some d from hd]) hexec ⟨rfl, rfl⟩)
    | threw thrown =>
      have hpoints : points m s (.read t) = [.place t r (drawn.getD 0) 0] := by
        simp [points, ht, heq]
      have hexec := place_of_error (placeWithin_of_threw hfresh hread (drawn.getD 0) 0)
      exact hpoint hpoints (fun _ => rfl) (h.point ht hturn (hopen _ ht) rfl rfl rfl rfl
        (fun d hd => by simp [show drawn = some d from hd]) hexec rfl)
    | committed => cases hread
    | rolledBack => cases hread
    | _ =>
      -- the reads in between decide nothing
      exact hquiet (h.moveSilent rfl rfl rfl rfl hopen rfl) (by simp [points, ht, heq]) fun _ => rfl
  | @inserted t now r q cash held drawn ht =>
    have hopen : ∀ b, s.placements t = some b → ∀ reply, ¬b.phase.Replied reply := by
      intro b hb reply
      cases ht.symm.trans hb
      exact id
    have hread : Readings m s.orders r q cash held := hinv.fresh ht
    rcases inserting_cases s.orders r q cash held (s.sequence + 1) now with
      ⟨thrown, hthrew⟩ | ⟨order, -, -, hphase⟩
    · have hpoints : points m s (.insert t now) = [.place t r (s.sequence + 1) now] := by
        simp [points, ht, hthrew]
      have hexec := place_of_error (placeWithin_of_inserting_threw hread hthrew)
      refine hpoint hpoints (fun _ => rfl) (h.point ht (hinv.owner ht rfl) (hopen _ ht) rfl rfl rfl
        rfl (fun d hd => Option.some.inj hd) hexec ?_)
      show (inserting s.orders r q cash held (s.sequence + 1) now).Replied _
      rw [hthrew]
      rfl
    -- the row waits for the commit, which is where the placement takes effect
    · exact hquiet (h.moveSilent rfl rfl rfl rfl hopen (hphase ▸ rfl))
        (by simp [points, ht, hphase]) fun _ => rfl
  | @committed t r row placed drawn ht =>
    -- the row was decided from readings that a placement run at once would make
    have hpend := hinv.pending ht rfl
    obtain ⟨q, cash, held, id, now, order, hread, hfits, rfl, hview, rfl⟩ := hinv.readings ht
    have hpoints : points m s (.commit t) = [.place t r id now] := by
      simp [points, ht, NewOrder.row]
    have hinsert : insert s.orders (newOrder r q cash held) id now =
        .ok ((newOrder r q cash held).row id now) :=
      insert_eq_ok.mpr ⟨hfits, hpend.2, hread.key, rfl⟩
    have hexec := place_of_ok (placeWithin_eq_ok.mpr
      (.inr ⟨q, cash, held, _, order, hread, hinsert, hview, rfl, rfl⟩))
    exact hpoint hpoints (fun _ => rfl) (h.point ht (hinv.owner ht rfl) (fun _ h => h) rfl rfl rfl
      rfl (fun d hd => Option.some.inj (hpend.1.symm.trans hd)) hexec rfl)
  | @replayed t r placed drawn ht =>
    refine hquiet (h.move rfl rfl rfl rfl (fun b hb reply hreplied => ?_) fun _ =>
      ⟨_, ht, rfl⟩) (by simp [points, ht]) fun _ => rfl
    cases ht.symm.trans hb
    exact ⟨rfl, rfl, hreplied.1⟩
  | rolledBack ht =>
    refine hquiet (h.move rfl rfl rfl rfl (fun b hb reply hreplied => ?_) fun _ =>
      ⟨_, ht, rfl⟩) rfl fun _ => rfl
    cases ht.symm.trans hb
    exact ⟨rfl, rfl, hreplied⟩
  | @timedOut t r phase drawn ht hphase =>
    refine hquiet (h.move rfl rfl rfl rfl (fun b hb reply hreplied => ?_) fun hd => by cases hd)
      rfl fun _ => rfl
    cases ht.symm.trans hb
    refine ⟨rfl, rfl, ?_⟩
    cases phase with
    -- what has taken effect and is cut off was a replay or a throw, and changed nothing
    | replaying placed => exact hreplied.1 ▸ hreplied.2
    | threw thrown => exact hreplied ▸ trivial
    | timedOut => cases hphase
    | committed => cases hphase
    | rolledBack => cases hphase
    | _ => exact hreplied.elim
  | unlocked ht hphase hlock => exact hquiet (h.unlock hlock) rfl fun _ => rfl
  | cancelled hc => simpa [grants, points] using h.cancel hc _
  | refused hc => exact hquiet (h.refused hc) rfl fun _ => rfl

end SerialInv

/-- The invariant holds in every state a run reaches, of the points and grants of the run. -/
theorem serialInv_run {m : Market} {start : Orders} {sequence : Int} {es : List Event}
    {s : State} (hrun : (service m).run (.initial start sequence) es = some s) :
    SerialInv m start ((service m).collected (points m) (.initial start sequence) es)
      (fun u => (service m).collected (grants u) (.initial start sequence) es) s := by
  have key : Inv m s ∧ SerialInv m start
      ((service m).collected (points m) (.initial start sequence) es)
      (fun u => (service m).collected (grants u) (.initial start sequence) es) s := by
    refine (service m).run_induction (P := fun es s => Inv m s ∧ SerialInv m start
      ((service m).collected (points m) (.initial start sequence) es)
      (fun u => (service m).collected (grants u) (.initial start sequence) es) s)
      ⟨inv_initial m start sequence, serialInv_initial m start sequence⟩
      (fun es s e s' hrun ih hstep => ⟨ih.1.step hstep, ?_⟩) hrun
    simpa only [(service m).collected_concat _ hrun] using ih.2.step ih.1 hstep
  exact key.2

/-! ### The serial order -/

/-- What a placement was answered with. -/
def Phase.answer : Phase → Option (Except Thrown Placed)
  | .committed placed => some (.ok placed)
  | .rolledBack thrown => some (.error thrown)
  | _ => none

/-- The reply of a placement that was answered is its answer. -/
theorem Phase.eq_of_replied {phase : Phase} {reply : Reply} {answer : Except Thrown Placed}
    (h : phase.Replied reply) (hans : phase.answer = some answer) : reply = some answer := by
  cases phase with
  | committed placed => exact h.trans hans
  | rolledBack thrown => exact h.trans hans
  | _ => cases hans

/-- A placement that was answered took effect. -/
theorem Phase.decided_of_answer {phase : Phase} {answer : Except Thrown Placed}
    (hans : phase.answer = some answer) : phase.decided = true := by
  cases phase <;> first | rfl | cases hans

/-- The request was answered, if it is a placement. -/
def State.answered (s : State) : Op → Bool
  | .place t _ _ _ => ((s.placements t).bind fun a => a.phase.answer).isSome
  | .cancel _ _ => true

/-- The answer with its datetime set to zero. -/
def Reply.undated : Reply → Reply := Option.map (Except.map Placed.undated)

/-- `order` is a serial order of the run `es` from the rows `start` to the state `s`. -/
structure SerialOrder (m : Market) (start : Orders) (sequence : Int) (es : List Event) (s : State)
    (order : List Op) : Prop where
  /-- No request is in it twice. -/
  once : (order.map Op.request).Nodup
  /-- The placements in it are those that were answered, -/
  placements : ∀ t, .inl t ∈ order.map Op.request ↔
    ∃ a answer, s.placements t = some a ∧ a.phase.answer = some answer
  /-- each its own request, with the id its insert drew, -/
  requests : ∀ {t r id now}, .place t r id now ∈ order →
    ∃ a, s.placements t = some a ∧ a.request = r ∧ ∀ d, a.drawn = some d → id = d
  /-- and every cancel that was sent is in it. -/
  cancels : ∀ c id, .cancel c id ∈ order ↔ ∃ phase, s.cancels c = some ⟨id, phase⟩
  /-- A user's placements are in the order in which they took its lock. -/
  locks : ∀ u, (turns u order).Sublist
    ((service m).collected (grants u) (.initial start sequence) es)
  /-- At any clock, it leads to the same table up to the datetimes, -/
  table : ∀ clock, undated ((serial m).final start (order.map (Op.atClock clock))) =
    undated s.orders
  /-- with the same answers. -/
  answers : ∀ clock {t r id now reply},
    (.place t r id now, reply) ∈ (serial m).replies start (order.map (Op.atClock clock)) →
    ∃ a answer, s.placements t = some a ∧ a.phase.answer = some answer ∧
      Reply.undated reply = Reply.undated (some answer)

/-- The atomic service does not depend on the clock. -/
theorem serial_undated (m : Market) (orders : Orders) (op : Op) :
    (serial m).exec (undated orders) (op.atClock fun _ => 0) =
      (undated ((serial m).exec orders op).1, Reply.undated ((serial m).exec orders op).2) := by
  cases op with
  | place t r id now => simp [serial, Op.atClock, place_undated m r id now, Reply.undated]
  | cancel c id => simp [serial, Op.atClock, cancel_undated, Reply.undated]

theorem map_atClock_atClock (clock clock' : Nat → Timestamp) (order : List Op) :
    (order.map (Op.atClock clock)).map (Op.atClock clock') = order.map (Op.atClock clock') := by
  rw [List.map_map]
  refine List.map_congr_left fun op _ => ?_
  cases op <;> rfl

/-- A serial run leads to the same table up to the datetimes at any clock. -/
theorem final_atClock (m : Market) (start : Orders) (order : List Op) (clock : Nat → Timestamp) :
    undated ((serial m).final start (order.map (Op.atClock clock))) =
      undated ((serial m).final start order) := by
  rw [← AtomicObject.final_map (serial_undated m), map_atClock_atClock,
    AtomicObject.final_map (serial_undated m)]

/-- And its replies are the same up to the datetimes. -/
theorem exists_of_mem_replies_atClock {m : Market} {start : Orders} {order : List Op}
    {clock : Nat → Timestamp} {t : Nat} {r : Request} {id : Int} {now : Timestamp} {reply : Reply}
    (h : (.place t r id now, reply) ∈ (serial m).replies start (order.map (Op.atClock clock))) :
    ∃ now' reply', (.place t r id now', reply') ∈ (serial m).replies start order ∧
      Reply.undated reply = Reply.undated reply' := by
  have hmem := List.mem_map_of_mem
    (f := fun p : Op × Reply => (p.1.atClock fun _ => 0, Reply.undated p.2)) h
  rw [← AtomicObject.replies_map (serial_undated m), map_atClock_atClock,
    AtomicObject.replies_map (serial_undated m)] at hmem
  obtain ⟨⟨op, reply'⟩, hp, heq⟩ := List.mem_map.mp hmem
  rw [Prod.mk.injEq] at heq
  cases op with
  | cancel c id' => exact absurd heq.1 (by simp [Op.atClock])
  | place t' r' id' now' =>
    simp only [Op.atClock, Op.place.injEq, and_true] at heq
    obtain ⟨⟨rfl, rfl, rfl⟩, hreply⟩ := heq
    exact ⟨now', reply', hp, hreply.symm⟩

/-- **Every run has a serial order.**  Run one at a time in it, the requests that were answered
    lead to the table the run led to, each with the answer it had. -/
theorem placements_serialise {m : Market} {start : Orders} {sequence : Int} {es : List Event}
    {s : State} (hrun : (service m).run (.initial start sequence) es = some s) :
    ∃ order, SerialOrder m start sequence es s order := by
  have h := serialInv_run hrun
  generalize hH : (service m).collected (points m) (.initial start sequence) es = H at h
  -- whoever took effect without being answered left the table as it was
  have hdrop : ∀ p ∈ (serial m).replies start H, s.answered p.1 = false → Quiet p.2 := by
    rintro ⟨op, reply⟩ hp hnot
    have hexp := h.explained _ hp
    cases op with
    | cancel c id => cases hnot
    | place t r id now =>
      obtain ⟨a, ha, -, -, hreplied⟩ := hexp
      simp only [State.answered, ha, Option.bind_some] at hnot
      cases hphase : a.phase <;> rw [hphase] at hnot hreplied <;>
        simp_all [Phase.answer, Phase.Replied, Quiet]
  obtain ⟨hfinal, hreplies⟩ :=
    (serial m).final_replies_filter (quiet_exec m) hdrop
  have hsub : (H.filter s.answered).Sublist H := List.filter_sublist
  have hanswered : ∀ {t r id now reply},
      (.place t r id now, reply) ∈ (serial m).replies start (H.filter s.answered) →
      ∃ a answer, s.placements t = some a ∧ a.phase.answer = some answer ∧ reply = some answer := by
    intro t r id now reply hp
    rw [hreplies, List.mem_filter] at hp
    obtain ⟨a, ha, -, -, hreplied⟩ := h.explained _ hp.1
    have hsome := hp.2
    simp only [State.answered, ha, Option.bind_some] at hsome
    obtain ⟨answer, hans⟩ := Option.isSome_iff_exists.mp hsome
    exact ⟨a, answer, ha, hans, Phase.eq_of_replied hreplied hans⟩
  refine ⟨H.filter s.answered, ?_, fun t => ⟨fun hmem => ?_, fun ⟨a, answer, ha, hans⟩ => ?_⟩,
    fun {t r id now} hop => ?_, fun c id => ⟨fun hmem => ?_, fun ⟨phase, hc⟩ => ?_⟩, fun u => ?_,
    fun clock => ?_, fun clock {t r id now reply} hp => ?_⟩
  · exact h.nodup.sublist (hsub.map _)
  · obtain ⟨op, hop, hreq⟩ := List.mem_map.mp hmem
    cases op with
    | cancel c id => cases hreq
    | place t' r id now =>
      cases hreq
      have hsome := (List.mem_filter.mp hop).2
      obtain ⟨reply, -, a, ha, -⟩ := h.explained_of_mem (hsub.mem hop)
      simp only [State.answered, ha, Option.bind_some] at hsome
      obtain ⟨answer, hans⟩ := Option.isSome_iff_exists.mp hsome
      exact ⟨a, answer, ha, hans⟩
  · obtain ⟨op, hop, hreq⟩ := List.mem_map.mp (h.complete ha (Phase.decided_of_answer hans))
    cases op with
    | cancel c id => cases hreq
    | place t' r id now =>
      cases hreq
      exact List.mem_map.mpr ⟨_, List.mem_filter.mpr ⟨hop, by simp [State.answered, ha, hans]⟩, rfl⟩
  · obtain ⟨reply, -, a, ha, hreq, hid, -⟩ := h.explained_of_mem (hsub.mem hop)
    exact ⟨a, ha, hreq, hid⟩
  · obtain ⟨reply, -, ⟨id', phase⟩, ha, rfl⟩ := h.explained_of_mem (hsub.mem hmem)
    exact ⟨phase, ha⟩
  · exact List.mem_filter.mpr ⟨h.cancels hc, rfl⟩
  · exact (hsub.filterMap _).trans (h.turns_sublist u)
  · rw [final_atClock, hfinal, h.final]
  · obtain ⟨now', reply', hp', hreply⟩ := exists_of_mem_replies_atClock hp
    obtain ⟨a, answer, ha, hans, rfl⟩ := hanswered hp'
    exact ⟨a, answer, ha, hans, hreply⟩

/-- A buy commits after a cancel that came while it was under way, and a second buy under its
    key is answered with it. -/
def overlapping : List Event :=
  [.begin 0 (marketBuy 2 "a" (Eq.refl true)), .begin 1 (marketBuy 3 "a" (Eq.refl true)),
    .lockPlacements 0, .read 0, .read 0, .read 0, .read 0, .read 0, .insert 0 7, .cancel 0 2,
    .commit 0, .statusOf 0, .unlock 0, .lockPlacements 1, .read 1, .commit 1, .unlock 1]

/-- The overlapping requests have a serial order, with both placements in it. -/
theorem placements_serialise_overlapping : ∃ s order,
    (service (marketAt 100)).run (.initial [deposit 5] 1) overlapping = some s ∧
      SerialOrder (marketAt 100) [deposit 5] 1 overlapping s order ∧
      .inl 0 ∈ order.map Op.request ∧ .inl 1 ∈ order.map Op.request := by
  obtain ⟨order, h⟩ := placements_serialise
    (show (service (marketAt 100)).run (.initial [deposit 5] 1) overlapping = some _ from rfl)
  exact ⟨_, order, rfl, h, (h.placements 0).mpr ⟨_, _, rfl, rfl⟩,
    (h.placements 1).mpr ⟨_, _, rfl, rfl⟩⟩

end Cocos
