import Cocos.AppendOnly
import Cocos.Idempotency

namespace Cocos

open Cocos.Lib

/-!
# What a refused cancel says of the order

A cancel is two statements: the conditional `UPDATE`, and, where that matched no row, a read of
the status to explain why.  Anything may commit between them.

* `Truthful` — a refusal names a status that admits no cancel, or an order that was not there;
* `CommitsNew` — the step that makes the explanation wrong: the order commits, as NEW, after
  the `UPDATE` looked for it;
* `refusal_truthful_iff` — **a refusal is truthful exactly when no such step is left standing
  between the two statements**.
-/

/-! ### What a refusal says -/

/-- What the refusal of a cancel of `id` says is so: the status a conflict names admits no
    cancel, and an order not found was not among the `orders` of the `UPDATE`. -/
def Truthful (id : Int) (orders : Orders) (thrown : Thrown) : Prop :=
  (∀ status : OrderStatus,
      thrown = .conflict s!"Order {id} is {status.text} and cannot be cancelled" →
        canTransition status .CANCELLED = false) ∧
    ∀ message, thrown = .notFound message → ∀ row ∈ orders, row.id ≠ id

/-- A conflict names one status. -/
theorem conflict_injective (id : Int) {a b : String}
    (h : s!"Order {id} is {a} and cannot be cancelled" =
      s!"Order {id} is {b} and cannot be cancelled") : a = b := by
  have hchars := congrArg String.toList h
  simp only [String.toList_append, List.append_cancel_left_eq, List.append_cancel_right_eq]
    at hchars
  exact String.toList_injective hchars

/-- NEW is the one status an order can be cancelled from. -/
theorem canTransition_cancelled (status : OrderStatus) :
    canTransition status .CANCELLED = false ↔ status ≠ .NEW := by
  cases status <;> decide

/-- A refusal is truthful unless it read NEW, or missed an order that was there. -/
theorem truthful_refusal_iff {id : Int} {orders : Orders} {read : Option (Option String)} :
    Truthful id orders (refusal id read) ↔
      read ≠ some (some OrderStatus.NEW.text) ∧ (read = none → ∀ row ∈ orders, row.id ≠ id) := by
  unfold Truthful
  cases read with
  | none => simp [refusal, Thrown.notFound, Thrown.conflict]
  | some stored =>
    -- a conflict is no 404, so only what it names is left to compare
    have hother : ∀ message, refusal id (some stored) ≠ .notFound message := by
      simp [refusal, Thrown.notFound, Thrown.conflict]
    simp only [hother, false_imp_iff, implies_true, and_true, reduceCtorEq, ne_eq,
      Option.some.injEq]
    constructor
    · rintro h rfl
      exact absurd (h .NEW rfl) (by decide)
    · intro hnew status hconflict
      have hmessage := (Thrown.httpException.inj hconflict).2
      rw [canTransition_cancelled]
      rintro rfl
      -- the text `null` of a status that is not there is no text of a status
      cases stored with
      | none => exact absurd (conflict_injective id hmessage) (by decide)
      | some text => exact hnew (congrArg some (conflict_injective id hmessage))

/-! ### Between the two statements -/

/-- An order of this id rests in the table. -/
def Rests (id : Int) (s : State) : Prop :=
  ∃ row ∈ s.orders, row.id = id ∧ row.status = some OrderStatus.NEW.text

/-- The step commits the order `id`, as NEW. -/
def CommitsNew (id : Int) (s : State) (e : Event) : Prop :=
  ∃ t r row placed drawn, e = .commit t ∧ s.placements t = some ⟨r, .inserted row placed, drawn⟩ ∧
    row.id = id ∧ row.status = some OrderStatus.NEW.text

/-- The event is the `UPDATE` of a cancel of the order `id`. -/
def Cancels (id : Int) (e : Event) : Prop := ∃ c, e = .cancel c id

/-- **An order rests after a step** if the step commits it so, or it rested and the step is no
    cancel of it. -/
theorem rests_step {m : Market} {s s' : State} {e : Event} (id : Int)
    (hstep : (service m).step s e = some s') :
    Rests id s' ↔ CommitsNew id s e ∨ Rests id s ∧ ¬Cancels id e := by
  cases took_of_step hstep with
  | @committed t r row placed drawn ht =>
    have hcommits : CommitsNew id s (.commit t) ↔
        row.id = id ∧ row.status = some OrderStatus.NEW.text := by
      constructor
      · rintro ⟨_, _, _, _, _, he, ht', h⟩
        cases he
        cases ht.symm.trans ht'
        exact h
      · exact fun h => ⟨t, r, row, placed, drawn, rfl, ht, h⟩
    rw [hcommits]
    simp [Rests, Cancels, or_and_right, exists_or, or_comm]
  | @cancelled c i hc =>
    have hcommits : ¬CommitsNew id s (.cancel c i) := by
      rintro ⟨_, _, _, _, _, he, -⟩
      cases he
    have hcancels : Cancels id (.cancel c i) ↔ i = id := by simp [Cancels]
    simp only [hcommits, hcancels, false_or]
    constructor
    · rintro ⟨_, hmem, hid, hnew⟩
      obtain ⟨row, hrow, rfl⟩ := List.mem_map.mp hmem
      have hne : i ≠ id := by
        rintro rfl
        exact afterCancel_not_new i hid hnew
      rcases afterCancel_eq_or i row with hsame | ⟨hi, -, -⟩
      · rw [hsame] at hid hnew
        exact ⟨⟨row, hrow, hid, hnew⟩, hne⟩
      · rw [afterCancel_id] at hid
        exact absurd (hi.symm.trans hid) hne
    · rintro ⟨⟨row, hrow, hid, hnew⟩, hne⟩
      -- the cancel of another order leaves this one alone
      have hsame : row.afterCancel i = row :=
        if_neg fun h => hne ((cancellable_iff.mp h).1.symm.trans hid)
      exact ⟨row, List.mem_map.mpr ⟨row, hrow, hsame⟩, hid, hnew⟩
  | @replayed t r placed drawn ht =>
    have hcommits : ¬CommitsNew id s (.commit t) := by
      rintro ⟨_, _, _, _, _, he, ht', -⟩
      cases he
      cases ht.symm.trans ht'
    simp [Rests, Cancels, hcommits]
  | _ => simp [Rests, Cancels, CommitsNew]

/-- **An order that did not rest does so after a run** exactly if the run committed it and left it
    standing. -/
theorem rests_run {m : Market} {s s' : State} {fs : List Event} {id : Int} (hdown : ¬Rests id s)
    (hrun : (service m).run s fs = some s') :
    Rests id s' ↔ (service m).Since (CommitsNew id) (Cancels id) s fs := by
  have hflag : ∀ {s e s'}, True → (service m).step s e = some s' →
      (Rests id s' ↔ CommitsNew id s e ∨ Rests id s ∧ ¬Cancels id e) :=
    fun _ hstep => rests_step id hstep
  exact (service m).since_iff (fun _ _ => trivial) hflag trivial hdown hrun

/-- The read of the status finds NEW exactly when an order of this id rests. -/
theorem statusOf_eq_new_iff {s : State} (hkey : (s.orders.map (·.id)).Nodup) (id : Int) :
    statusOf s.orders id = some (some OrderStatus.NEW.text) ↔ Rests id s := by
  unfold statusOf Rests
  rw [Option.map_eq_some_iff]
  constructor
  · rintro ⟨row, hfind, hstatus⟩
    exact ⟨row, List.mem_of_find?_eq_some hfind, by simpa using List.find?_some hfind, hstatus⟩
  · rintro ⟨row, hrow, hid, hnew⟩
    -- the primary key leaves it no other row to find
    have hfind := find?_key hkey hrow
    rw [hid] at hfind
    exact ⟨row, hfind, hnew⟩

/-! ### The cancel that reads a status -/

/-- A cancel moves on from `missed` only. -/
theorem cancels_step {m : Market} {s s' : State} {e : Event}
    (hstep : (service m).step s e = some s') {c : Nat} {a : CancelAttempt}
    (hc : s.cancels c = some a) :
    ∃ phase, s'.cancels c = some ⟨a.id, phase⟩ ∧ (phase = a.phase ∨ a.phase = .missed) := by
  cases took_of_step hstep with
  | @cancelled c' i hnone =>
    have hne : c ≠ c' := by
      rintro rfl
      cases hc.symm.trans hnone
    exact ⟨a.phase, (s.putCancel_eq_some _ _).mpr (.inr ⟨hne, hc⟩), .inl rfl⟩
  | @refused c' i hmissed =>
    by_cases hcc : c = c'
    · subst hcc
      cases hc.symm.trans hmissed
      exact ⟨_, (s.putCancel_eq_some _ _).mpr (.inl ⟨rfl, rfl⟩), .inr rfl⟩
    · exact ⟨a.phase, (s.putCancel_eq_some _ _).mpr (.inr ⟨hcc, hc⟩), .inl rfl⟩
  | _ => exact ⟨a.phase, hc, .inl rfl⟩

/-- A cancel that has missed had missed from its `UPDATE` on. -/
theorem missed_of_run {m : Market} {s s' : State} {fs : List Event}
    (hrun : (service m).run s fs = some s') {c : Nat} {a : CancelAttempt} {id : Int}
    (hc : s.cancels c = some a) (hmissed : s'.cancels c = some ⟨id, .missed⟩) :
    a = ⟨id, .missed⟩ := by
  obtain ⟨phase, hphase, h⟩ := (service m).related_run (I := fun _ => True)
    (R := fun s s' => ∀ a, s.cancels c = some a →
      ∃ phase, s'.cancels c = some ⟨a.id, phase⟩ ∧ (phase = a.phase ∨ a.phase = .missed))
    (fun _ _ => trivial) (fun s a hc => ⟨a.phase, hc, .inl rfl⟩)
    (fun {x y z} hxy hyz a ha => by
      obtain ⟨phase, hy, h⟩ := hxy a ha
      obtain ⟨phase', hz, h'⟩ := hyz _ hy
      refine ⟨phase', hz, ?_⟩
      rcases h with rfl | h
      · exact h'
      · exact .inr h)
    (fun _ hstep a hc => cancels_step hstep hc) trivial hrun a hc
  obtain ⟨i, p⟩ := a
  cases hmissed.symm.trans hphase
  rcases h with rfl | rfl <;> rfl

/-- **A refusal is truthful exactly when nothing came between.**  On every run, whatever ran
    before the `UPDATE` of a cancel and between it and the read of the status: the cancel is
    refused, and what the refusal says is so, unless the order was committed as NEW in between
    and no other cancel took it before the read. -/
theorem refusal_truthful_iff {m : Market} {table : OrdersTable} {sequence : Int}
    {es fs : List Event} {s s₁ s₂ s₃ : State} {c : Nat} {id : Int}
    (hbefore : (service m).run (.initial table.rows sequence) es = some s)
    (hupdate : (service m).step s (.cancel c id) = some s₁)
    (hbetween : (service m).run s₁ fs = some s₂)
    (hread : (service m).step s₂ (.statusOf c) = some s₃) :
    ∃ thrown, s₃.cancels c = some ⟨id, .refused thrown⟩ ∧
      (Truthful id s.orders thrown ↔ ¬(service m).Since (CommitsNew id) (Cancels id) s₁ fs) := by
  -- the run up to the read, for the invariants of its states
  have hrun : (service m).run (.initial table.rows sequence) (es ++ .cancel c id :: fs) =
      some s₂ :=
    (service m).run_split.mpr ⟨_, _, hbefore, hupdate, hbetween⟩
  have hkey := (cancelInv_run hrun).primaryKey
  have hinv := inv_run hbefore
  cases took_of_step hread with
  | @refused c' i hmissed =>
    cases took_of_step hupdate with
    | cancelled hnone =>
      have hat := missed_of_run hbetween (Function.update_self ..) hmissed
      rw [CancelAttempt.mk.injEq] at hat
      obtain ⟨rfl, hupdated⟩ := hat
      refine ⟨_, Function.update_self .., ?_⟩
      -- nothing rested when the `UPDATE` had run
      have hdown : ¬Rests id
          { s.putCancel c ⟨id, updated (cancelOrder s.orders id CANCELLABLE).1⟩ with
            orders := s.orders.map (OrderRow.afterCancel id) } := by
        rintro ⟨_, hmem, hid, hnew⟩
        obtain ⟨row, -, rfl⟩ := List.mem_map.mp hmem
        exact afterCancel_not_new id hid hnew
      rw [truthful_refusal_iff, Ne, statusOf_eq_new_iff hkey, rests_run hdown hbetween]
      refine and_iff_left_of_imp fun _ hnone row hrow hid => ?_
      -- what was there at the `UPDATE` is there at the read
      have hgrown : AppendOnly s.orders s₂.orders :=
        (appendOnly_step hinv hupdate).trans (appendOnly_run (hinv.step hupdate) hbetween)
      obtain ⟨row', hrow', hid'⟩ :=
        List.mem_map.mp (ids_appendOnly hgrown (List.mem_map.mpr ⟨row, hrow, hid⟩))
      simp only [statusOf, Option.map_eq_none_iff, List.find?_eq_none, decide_eq_true_eq] at hnone
      exact hnone row' hrow' hid'

/-! ### A cancel during a placement -/

/-- An order that will rest, as far as its insert: it draws the id 2. -/
def restingSoon : List Event :=
  [.begin 0 (limitBuy 1 "a" (Eq.refl true)), .lockPlacements 0, .read 0, .read 0, .read 0, .read 0,
    .read 0, .insert 0 7]

/-- An order that is cancelled twice: the second cancel misses, and says why. -/
theorem refusal_truthful_twice : ∃ s s₁ s₂ s₃ thrown,
    (service (marketAt 100)).run (.initial oneDeposit.rows 1)
        (restingSoon ++ [.commit 0, .cancel 0 2]) = some s ∧
      (service (marketAt 100)).step s (.cancel 1 2) = some s₁ ∧
      (service (marketAt 100)).run s₁ [] = some s₂ ∧
      (service (marketAt 100)).step s₂ (.statusOf 1) = some s₃ ∧
      s₃.cancels 1 = some ⟨2, .refused thrown⟩ ∧
      (Truthful 2 s.orders thrown ↔
        ¬(service (marketAt 100)).Since (CommitsNew 2) (Cancels 2) s₁ []) := by
  obtain ⟨thrown, h⟩ := @refusal_truthful_iff (marketAt 100) oneDeposit 1
    (restingSoon ++ [.commit 0, .cancel 0 2]) [] _ _ _ _ 1 2 rfl rfl rfl rfl
  exact ⟨_, _, _, _, thrown, rfl, rfl, rfl, rfl, h⟩

/-- **A 409 that says NEW.**  The `UPDATE` of the cancel runs before the order commits and the
    read of its status after. -/
theorem refusal_says_new : ∃ s s₁ s₂ s₃ thrown,
    (service (marketAt 100)).run (.initial oneDeposit.rows 1) restingSoon = some s ∧
      (service (marketAt 100)).step s (.cancel 0 2) = some s₁ ∧
      (service (marketAt 100)).run s₁ [.commit 0] = some s₂ ∧
      (service (marketAt 100)).step s₂ (.statusOf 0) = some s₃ ∧
      s₃.cancels 0 = some ⟨2, .refused thrown⟩ ∧
      thrown = .conflict "Order 2 is NEW and cannot be cancelled" ∧ ¬Truthful 2 s.orders thrown := by
  refine ⟨_, _, _, _, _, rfl, rfl, rfl, rfl, rfl, rfl, fun h => ?_⟩
  exact absurd (h.1 .NEW rfl) (by decide)

end Cocos
