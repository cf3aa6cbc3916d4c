import Cocos.Freshness

namespace Cocos

open Cocos.Lib

/-!
# All of a placement, or nothing

A placement may throw at any of its statements, be given up at any moment, or be answered with
an order that was there.

* `Inert` — a statement of a placement leaves the table as it finds it;
* `Added` — the one commit of a placement that does not, the row it appends, and that all the
  other statements of the placement are inert;
* `AllOrNothing` — which of the two it is, by the answer; what that makes of the table when nothing
  else runs; and that a retry after a failure goes as a first request would;
* `placement_all_or_nothing` — **so it is of every placement of every run**.
-/

/-- The placement a statement is of. -/
def Event.placement : Event → Option Nat
  | .begin t _ | .lockPlacements t | .read t | .insert t _ | .commit t | .rollback t | .timeOut t
  | .unlock t => some t
  | .cancel _ _ | .statusOf _ => none

/-- The placement is answered with an error. -/
def Phase.failed : Phase → Bool
  | .rolledBack _ | .timedOut => true
  | _ => false

/-- The order a placement has created. -/
def Phase.created : Phase → Option OrderView
  | .committed ⟨order, false⟩ => some order
  | _ => none

/-- The order placement `t` has created. -/
def State.created (s : State) (t : Nat) : Option OrderView :=
  (s.placements t).bind fun a => a.phase.created

/-- If the statement is one of placement `t`, it leaves the table as it finds it. -/
def Inert (m : Market) (t : Nat) (s : State) (e : Event) : Prop :=
  e.placement = some t → ∀ s', (service m).step s e = some s' → s'.orders = s.orders

/-- One commit of placement `t` appended a row of the user and the key of `a`, answered as
    `order`, and all the other statements of the placement were inert. -/
def Added (m : Market) (s₀ : State) (es : List Event) (t : Nat) (a : Attempt)
    (order : OrderView) : Prop :=
  ∃ fs gs s₁ s₂ row, es = fs ++ .commit t :: gs ∧ (service m).run s₀ fs = some s₁ ∧
    (service m).step s₁ (.commit t) = some s₂ ∧ s₂.orders = s₁.orders ++ [row] ∧
    row.hasKey a.user a.request.key = true ∧ view row = .ok order ∧
    (service m).Along (Inert m t) s₀ fs ∧ (service m).Along (Inert m t) s₂ gs

/-! ### One statement -/

/-- Only the answer of a replay is being answered as one. -/
def Replaying (s : State) : Prop :=
  ∀ t r placed drawn, s.placements t = some ⟨r, .replaying placed, drawn⟩ → placed.replayed = true

theorem replaying_inserting (orders : Orders) (r : Request) (q : Sized) (cash held id : Int)
    (now : Timestamp) (placed : Placed) :
    inserting orders r q cash held id now ≠ .replaying placed := by
  rcases inserting_cases orders r q cash held id now with ⟨thrown, h⟩ | ⟨order, -, -, h⟩ <;>
    simp [h]

theorem Replaying.step {m : Market} {s s' : State} {e : Event} (h : Replaying s)
    (hstep : (service m).step s e = some s') : Replaying s' := by
  intro t' r' placed' drawn' ht'
  cases took_of_step hstep with
  | begun _ | locked _ _ | committed _ | replayed _ | rolledBack _ | timedOut _ _ =>
    rcases (State.put_eq_some _ _ _).mp ht' with ⟨-, ⟨⟩⟩ | ⟨-, hold⟩
    exact h _ _ _ _ hold
  | inserted _ =>
    rcases (State.put_eq_some _ _ _).mp ht' with ⟨-, heq⟩ | ⟨-, hold⟩
    · exact absurd (congrArg Attempt.phase heq).symm (replaying_inserting _ _ _ _ _ _ _ _)
    · exact h _ _ _ _ hold
  | read _ hread =>
    rcases (State.put_eq_some _ _ _).mp ht' with ⟨-, heq⟩ | ⟨-, hold⟩
    · cases heq
      cases read_of_eq hread with
      | replay _ _ => rfl
    · exact h _ _ _ _ hold
  | unlocked _ _ _ | cancelled _ | refused _ => exact h _ _ _ _ ht'

theorem created_eq {s : State} {t : Nat} {a : Attempt} (h : s.placements t = some a) :
    s.created t = a.phase.created := by
  rw [State.created, h, Option.bind_some]

/-- A placement that moves on with nothing created leaves every placement as it is, or with
    nothing created. -/
theorem created_put {s : State} {t' : Nat} {a' : Attempt} (hbefore : s.created t' = none)
    (hafter : a'.phase.created = none) (t : Nat) :
    (s.put t' a').placements t = s.placements t ∨
      s.created t = none ∧ (s.put t' a').created t = none := by
  by_cases ht : t = t'
  · subst ht
    refine .inr ⟨hbefore, ?_⟩
    rw [created_eq (a := a') (by simp), hafter]
  · exact .inl (by simp [Function.update_of_ne ht])

theorem created_inserting (orders : Orders) (r : Request) (q : Sized) (cash held id : Int)
    (now : Timestamp) : (inserting orders r q cash held id now).created = none := by
  rcases inserting_cases orders r q cash held id now with ⟨thrown, h⟩ | ⟨order, -, -, h⟩ <;>
    rw [h] <;> rfl

/-- What one statement is to placement `t`: it is inert, and the placement stays as it is or has
    created nothing before and after; or it is the commit of its row. -/
theorem inert_or_commit (t : Nat) {m : Market} {s s' : State} {e : Event} (hinv : Inv m s)
    (hreplaying : Replaying s) (hstep : (service m).step s e = some s') :
    (Inert m t s e ∧ (s'.placements t = s.placements t ∨
        s.created t = none ∧ s'.created t = none)) ∨
      (e = .commit t ∧ s.created t = none ∧ ∃ r row order drawn,
        s'.placements t = some ⟨r, .committed ⟨order, false⟩, drawn⟩ ∧
        s'.orders = s.orders ++ [row] ∧ row.hasKey r.order.userId r.key = true ∧
        view row = .ok order) := by
  -- a statement that leaves the table as it is is inert
  have hinert : s'.orders = s.orders → Inert m t s e := by
    intro horders _ s'' hs''
    rw [Option.some.inj (hs''.symm.trans hstep)]
    exact horders
  cases took_of_step hstep with
  | begun h =>
    exact .inl ⟨hinert rfl, created_put (by rw [State.created, h]; rfl) rfl t⟩
  | locked h _ => exact .inl ⟨hinert rfl, created_put (created_eq h) rfl t⟩
  | read h hread =>
    refine .inl ⟨hinert rfl, created_put ((created_eq h).trans ?_) ?_ t⟩
    · cases read_of_eq hread <;> rfl
    · cases read_of_eq hread <;> rfl
  | inserted h =>
    exact .inl ⟨hinert rfl, created_put (created_eq h) (created_inserting _ _ _ _ _ _ _) t⟩
  | @committed t' r row placed drawn h =>
    by_cases ht : t' = t
    · subst ht
      obtain ⟨q, cash, held, id, now, order, -, -, rfl, hview, rfl⟩ := hinv.readings h
      refine .inr ⟨rfl, created_eq h, r, _, order, drawn, ?_, rfl, ?_, hview⟩
      · simp
      · simp [OrderRow.hasKey, NewOrder.row, newOrder]
    · -- it is another placement that commits
      refine .inl ⟨fun hplacement => absurd (Option.some.inj hplacement) ht, .inl ?_⟩
      simp [Function.update_of_ne (Ne.symm ht)]
  | @replayed t' r placed drawn h =>
    obtain ⟨order, replayed⟩ := placed
    obtain rfl : replayed = true := hreplaying _ _ _ _ h
    exact .inl ⟨hinert rfl, created_put (created_eq h) rfl t⟩
  | rolledBack h => exact .inl ⟨hinert rfl, created_put (created_eq h) rfl t⟩
  | @timedOut t' r phase drawn h hphase =>
    refine .inl ⟨hinert rfl, created_put ((created_eq h).trans ?_) rfl t⟩
    cases phase <;> first | rfl | cases hphase
  | unlocked _ _ _ => exact .inl ⟨hinert rfl, .inl rfl⟩
  | cancelled _ => exact .inl ⟨fun h => (by cases h), .inl rfl⟩
  | refused _ => exact .inl ⟨hinert rfl, .inl rfl⟩

/-! ### All statements of a run -/

/-- The books on placement `t`: nothing created and all inert, or its one row. -/
def Booked (m : Market) (s₀ : State) (t : Nat) (es : List Event) (s : State) : Prop :=
  (s.created t = none → (service m).Along (Inert m t) s₀ es) ∧
    ∀ a order, s.placements t = some a → a.phase.created = some order → Added m s₀ es t a order

/-- One more statement keeps the books. -/
theorem Booked.step {m : Market} {s₀ s s' : State} {t : Nat} {es : List Event} {e : Event}
    (h : Booked m s₀ t es s) (hinv : Inv m s) (hreplaying : Replaying s)
    (hrun : (service m).run s₀ es = some s) (hstep : (service m).step s e = some s') :
    Booked m s₀ t (es ++ [e]) s' := by
  rcases inert_or_commit t hinv hreplaying hstep with
    ⟨hinert, hplacement⟩ | ⟨rfl, hnone, r, row, order, drawn, ht, horders, hkey, hview⟩
  · refine ⟨fun hnone' => ?_, fun a order ha horder => ?_⟩
    · have hnone : s.created t = none := by
        rcases hplacement with hsame | ⟨hnone, -⟩
        · rw [← hnone', State.created, State.created, hsame]
        · exact hnone
      exact (service m).along_concat hrun (h.1 hnone) hinert
    · rcases hplacement with hsame | ⟨-, hnone'⟩
      · -- the row was committed before, and this statement comes after it
        obtain ⟨fs, gs, s₁, s₂, row, rfl, hfs, hcommit, horders, hkey, hview, hbefore, hafter⟩ :=
          h.2 a order (hsame ▸ ha) horder
        have hgs := (service m).run_rest hrun hfs hcommit
        exact ⟨fs, gs ++ [e], s₁, s₂, row, by simp, hfs, hcommit, horders, hkey, hview, hbefore,
          (service m).along_concat hgs hafter hinert⟩
      · rw [created_eq ha, horder] at hnone'
        cases hnone'
  · refine ⟨fun hnone' => ?_, fun a order' ha horder => ?_⟩
    · rw [created_eq ht] at hnone'
      cases hnone'
    · obtain rfl := Option.some.inj (ha.symm.trans ht)
      obtain rfl : order = order' := Option.some.inj horder
      exact ⟨es, [], s, s', row, rfl, hrun, hstep, horders, hkey, hview, h.1 hnone, trivial⟩

theorem booked_run {m : Market} {orders : Orders} {sequence : Int} {es : List Event} {s : State}
    (hrun : (service m).run (.initial orders sequence) es = some s) (t : Nat) :
    Booked m (.initial orders sequence) t es s := by
  have key : Inv m s ∧ Replaying s ∧ Booked m (.initial orders sequence) t es s := by
    refine (service m).run_induction (P := fun es s => Inv m s ∧ Replaying s ∧
      Booked m (.initial orders sequence) t es s) ⟨inv_initial m orders sequence, ?_, ?_⟩
      (fun es s e s' hes h hstep => ⟨h.1.step hstep, h.2.1.step hstep,
        h.2.2.step h.1 h.2.1 hes hstep⟩) hrun
    · rintro t r placed drawn ⟨⟩
    · exact ⟨fun _ => trivial, by rintro a order ⟨⟩⟩
  exact key.2.2

/-- Inert statements that nothing else runs between leave the table as it was. -/
theorem orders_of_inert {m : Market} {s s' : State} {t : Nat} {es : List Event}
    (hinert : (service m).Along (Inert m t) s es) (hown : ∀ e ∈ es, e.placement = some t)
    (hrun : (service m).run s es = some s') : s'.orders = s.orders := by
  refine (service m).invariant_along (I := fun s' => s'.orders = s.orders) ?_ rfl
    ((service m).along_and hinert ((service m).along_of_forall hown)) hrun
  intro s₁ e s₂ h hP hstep
  exact (hP.1 hP.2 s₂ hstep).trans h

/-! ### A retry -/

/-- All of a state that the statements of placement `t` read or write. -/
def State.seenBy (t : Nat) (s : State) : Orders × Int × (Int → Option Nat) × Option Attempt :=
  (s.orders, s.sequence, s.lock, s.placements t)

/-- A statement of placement `t` goes alike on states that are alike to it. -/
theorem step_seenBy {m : Market} {s s' : State} {t : Nat} {e : Event}
    (he : e.placement = some t) (h : s.seenBy t = s'.seenBy t) :
    ((service m).step s e).map (State.seenBy t) = ((service m).step s' e).map (State.seenBy t) := by
  obtain ⟨orders, sequence, lock, placements, cancels⟩ := s
  obtain ⟨orders', sequence', lock', placements', cancels'⟩ := s'
  simp only [State.seenBy, Prod.mk.injEq] at h
  obtain ⟨rfl, rfl, rfl, ht⟩ := h
  cases e with
  | cancel c id => cases he
  | statusOf c => cases he
  | _ =>
    obtain rfl := Option.some.inj he
    -- both sides match on the same placement
    simp only [service, step, ht]
    repeat' split
    all_goals simp [State.seenBy, State.put, Attempt.user, Function.comp_def, ht]

/-- So does a run of its statements. -/
theorem run_seenBy {m : Market} {t : Nat} {es : List Event}
    (hes : ∀ e ∈ es, e.placement = some t) {s s' : State} (h : s.seenBy t = s'.seenBy t) :
    ((service m).run s es).map (State.seenBy t) = ((service m).run s' es).map (State.seenBy t) := by
  induction es generalizing s s' with
  | nil => simp [h]
  | cons e es ih =>
    obtain ⟨he, hrest⟩ := List.forall_mem_cons.mp hes
    have hstep := step_seenBy (m := m) he h
    rw [Machine.run_cons, Machine.run_cons]
    cases hs : (service m).step s e with
    | none =>
      rw [hs, Option.map_none, eq_comm, Option.map_eq_none_iff] at hstep
      rw [hstep]
    | some s₁ =>
      rw [hs, Option.map_some, eq_comm, Option.map_eq_some_iff] at hstep
      obtain ⟨s₁', hs', heq⟩ := hstep
      rw [hs', Option.bind_some, Option.bind_some]
      exact ih hrest heq.symm

/-- The statements of one placement leave the others as they are. -/
theorem placements_of_own {m : Market} {s s' : State} {t t' : Nat} {es : List Event}
    (hown : ∀ e ∈ es, e.placement = some t) (hne : t' ≠ t)
    (hrun : (service m).run s es = some s') : s'.placements t' = s.placements t' := by
  refine (service m).invariant_along (I := fun s' => s'.placements t' = s.placements t') ?_ rfl
    ((service m).along_of_forall hown) hrun
  intro s₁ e s₂ h he hstep
  rw [← h]
  cases took_of_step hstep with
  | unlocked _ _ _ => rfl
  | cancelled _ => cases he
  | refused _ => cases he
  | _ =>
    obtain rfl := Option.some.inj he
    simp [Function.update_of_ne hne]

/-! ### All or nothing -/

/-- What comes of placement `t`, which has got as far as `a` when the run `es` from the table
    `orders` has led to `s`. -/
structure AllOrNothing (m : Market) (orders : Orders) (sequence : Int) (es : List Event) (s : State)
    (t : Nat) (a : Attempt) : Prop where
  /-- An error leaves nothing behind, at whichever statement it arose, -/
  failed : a.phase.failed = true → (service m).Along (Inert m t) (.initial orders sequence) es
  /-- nor does the answer of a replay, -/
  replayed : ∀ order, a.phase = .committed ⟨order, true⟩ →
    (service m).Along (Inert m t) (.initial orders sequence) es
  /-- and that of a new order leaves its one row. -/
  created : ∀ order, a.phase = .committed ⟨order, false⟩ →
    Added m (.initial orders sequence) es t a order
  /-- Where nothing else runs, the table is as it was, -/
  unchanged : (∀ e ∈ es, e.placement = some t) →
    (a.phase.failed = true ∨ ∃ order, a.phase = .committed ⟨order, true⟩) → s.orders = orders
  /-- or has gained that row, -/
  gained : (∀ e ∈ es, e.placement = some t) → ∀ order, a.phase = .committed ⟨order, false⟩ →
    ∃ row, s.orders = orders ++ [row] ∧ row.hasKey a.user a.request.key = true ∧
      view row = .ok order
  /-- and a retry after an error goes, statement by statement, as it would have at first. -/
  retry : (∀ e ∈ es, e.placement = some t) → a.phase.failed = true → (∀ u, s.lock u = none) →
    ∀ t' ≠ t, ∀ es' : List Event, (∀ e ∈ es', e.placement = some t') →
      ((service m).run s es').map (State.seenBy t') =
        ((service m).run (.initial orders s.sequence) es').map (State.seenBy t')

/-- **A placement is all or nothing.** -/
theorem placement_all_or_nothing {m : Market} {orders : Orders} {sequence : Int}
    {es : List Event} {s : State} (hrun : (service m).run (.initial orders sequence) es = some s)
    {t : Nat} {a : Attempt} (ha : s.placements t = some a) :
    AllOrNothing m orders sequence es s t a := by
  obtain ⟨hinert, hadded⟩ := booked_run hrun t
  have hfailed : a.phase.failed = true →
      (service m).Along (Inert m t) (.initial orders sequence) es := by
    intro hphase
    apply hinert
    rw [created_eq ha]
    cases h : a.phase <;> rw [h] at hphase <;> first | rfl | cases hphase
  have hreplayed : ∀ order, a.phase = .committed ⟨order, true⟩ →
      (service m).Along (Inert m t) (.initial orders sequence) es := by
    intro order hphase
    apply hinert
    rw [created_eq ha, hphase]
    rfl
  have hcreated : ∀ order, a.phase = .committed ⟨order, false⟩ →
      Added m (.initial orders sequence) es t a order := by
    intro order hphase
    apply hadded a order ha
    rw [hphase]
    rfl
  have hunchanged : (∀ e ∈ es, e.placement = some t) →
      (a.phase.failed = true ∨ ∃ order, a.phase = .committed ⟨order, true⟩) →
        s.orders = orders := by
    rintro hown (hphase | ⟨order, hphase⟩)
    · exact orders_of_inert (hfailed hphase) hown hrun
    · exact orders_of_inert (hreplayed order hphase) hown hrun
  refine ⟨hfailed, hreplayed, hcreated, hunchanged, ?_, ?_⟩
  · intro hown order hphase
    obtain ⟨fs, gs, s₁, s₂, row, rfl, hfs, hcommit, horders, hkey, hview, hbefore, hafter⟩ :=
      hcreated order hphase
    have hgs := (service m).run_rest hrun hfs hcommit
    have hfirst := orders_of_inert hbefore (fun e he => hown e (by simp [he])) hfs
    have hlast := orders_of_inert hafter (fun e he => hown e (by simp [he])) hgs
    exact ⟨row, by rw [hlast, horders, hfirst]; rfl, hkey, hview⟩
  · intro hown hphase hlock t' hne es' hes'
    apply run_seenBy hes'
    simp only [State.seenBy, State.initial, Prod.mk.injEq, true_and]
    exact ⟨hunchanged hown (.inl hphase), funext hlock, placements_of_own hown hne hrun⟩

/-- A placement that is given up between its insert and its commit. -/
def givenUpLate : List Event :=
  [.begin 0 (limitBuy 2 "a" (Eq.refl true)), .lockPlacements 0, .read 0, .read 0, .read 0, .read 0,
    .read 0, .insert 0 7, .timeOut 0, .unlock 0]

/-- Its row is gone with it. -/
theorem placement_all_or_nothing_givenUpLate : ∃ s a,
    (service (marketAt 100)).run (.initial [deposit 5] 1) givenUpLate = some s ∧
      s.placements 0 = some a ∧ a.phase.failed = true ∧ a.drawn = some 2 ∧
      s.orders = [deposit 5] := by
  have h := placement_all_or_nothing (t := 0)
    (show (service (marketAt 100)).run (.initial [deposit 5] 1) givenUpLate = some _ from rfl) rfl
  exact ⟨_, _, rfl, rfl, rfl, rfl,
    h.unchanged (by simp [givenUpLate, Event.placement]) (.inl rfl)⟩

end Cocos
