import Cocos.AppendOnly
import Cocos.Overspend

namespace Cocos

open Cocos.Lib

/-!
# Ids and commits

An order draws its id at the insert and is seen at the commit, so the ids of the whole table
come out of order.  Those of one user do not: the next order of a user is inserted under the
lock that the last one held until it was over.  So to fold a user's rows up to an id is to stop
at a moment of the run.

* `upTo` — the rows up to an id;
* `IdOrder` — the order of the ids, and the accounts they cut off;
* `IdOrder.step`, `idOrder_run` — **up to any id, every account is that of the rows the run
  started from, or no lower than zero or than where it started.**
-/

/-! ### The rows up to an id -/

/-- The rows up to an id: `WHERE id <= k`. -/
def upTo (orders : Orders) (k : Int) : Orders := orders.filter fun row => row.id ≤ k

/-- The account of a user is that of its rows up to a bound on their ids. -/
theorem account_upTo_of_le {orders : Orders} {u k : Int}
    (h : ∀ row ∈ orders, row.userId = some u → row.id ≤ k) :
    account (upTo orders k) u = account orders u := by
  funext ρ
  rw [account, upTo, sum_filter, account]
  refine congrArg List.sum (List.map_congr_left fun row hrow => ?_)
  by_cases hid : row.id ≤ k
  · simp [hid]
  -- what is above the bound is another user's
  · have hu : row.userId ≠ some u := fun hu => hid (h row hrow hu)
    have hother : row.filledFor u = false := by simp [OrderRow.filledFor, hu]
    simp [hid, OrderRow.delta_of_not_filledFor hother]

/-- A cancel is no row of an account, up to any id. -/
theorem account_upTo_cancel (orders : Orders) (id u k : Int) :
    account (upTo (orders.map (OrderRow.afterCancel id)) k) u = account (upTo orders k) u := by
  have hmap : upTo (orders.map (OrderRow.afterCancel id)) k =
      (upTo orders k).map (OrderRow.afterCancel id) := by
    rw [upTo, upTo, List.filter_map]
    refine congrArg _ (List.filter_congr fun row _ => ?_)
    simp
  rw [hmap]
  exact account_eq_of_filledRows (filledRows_cancel _ id u)

/-- A new row is past the ids below its own, and no row of another user. -/
theorem account_upTo_concat {orders : Orders} {row : OrderRow} {u k : Int}
    (h : row.userId = some u → k < row.id) :
    account (upTo (orders ++ [row]) k) u = account (upTo orders k) u := by
  by_cases hid : row.id ≤ k
  · have hu : row.userId ≠ some u := fun hu => absurd (h hu) (by omega)
    have hother : row.filledFor u = false := by simp [OrderRow.filledFor, hu]
    have hupTo : upTo (orders ++ [row]) k = upTo orders k ++ [row] := by simp [upTo, hid]
    rw [hupTo]
    exact account_eq_of_filledRows (filledRows_concat hother)
  · simp [upTo, hid]

/-! ### The invariant -/

/-- **The ids of a run**, from the rows at its `start` and the `sequence` they were drawn from. -/
structure IdOrder (start : Orders) (sequence : Int) (s : State) : Prop where
  /-- The sequence is past every row, and past where it was. -/
  past : sequence ≤ s.sequence ∧ ∀ row ∈ s.orders, row.id ≤ s.sequence
  /-- A row not yet committed comes after the start, and after every row its user has. -/
  after : ∀ {t a row placed}, s.placements t = some a → a.phase = .inserted row placed →
    sequence < row.id ∧ ∀ other ∈ s.orders, other.userId = row.userId → other.id < row.id
  /-- Up to any id an account is as at the start, or has gone down no further than it may. -/
  accounts : ∀ u ρ k, account (upTo s.orders k) u ρ = account (upTo start k) u ρ ∨
    sequence < k ∧ min 0 (account start u ρ) ≤ account (upTo s.orders k) u ρ

theorem idOrder_initial {start : Orders} {sequence : Int}
    (h : ∀ row ∈ start, row.id ≤ sequence) : IdOrder start sequence (.initial start sequence) where
  past := ⟨le_rfl, h⟩
  after ht := by cases ht
  accounts _ _ _ := .inl rfl

namespace IdOrder

variable {m : Market} {start : Orders} {sequence : Int} {s s' : State}

/-- No account has gone down further than it may. -/
theorem floor (h : IdOrder start sequence s) (hstart : ∀ row ∈ start, row.id ≤ sequence)
    (u : Int) (ρ : Resource) : min 0 (account start u ρ) ≤ account s.orders u ρ := by
  have hall : account (upTo s.orders s.sequence) u = account s.orders u :=
    account_upTo_of_le fun row hrow _ => h.past.2 row hrow
  have hold : account (upTo start s.sequence) u = account start u :=
    account_upTo_of_le fun row hrow _ => (hstart row hrow).trans h.past.1
  rcases h.accounts u ρ s.sequence with hsame | ⟨-, hfloor⟩
  · rw [hall, hold] at hsame
    rw [hsame]
    exact min_le_right _ _
  · rwa [hall] at hfloor

/-- A placement moves on and has no row in its hands. -/
theorem put (h : IdOrder start sequence s) {t : Nat} {a : Attempt}
    (hphase : ∀ row placed, a.phase ≠ .inserted row placed) :
    IdOrder start sequence (s.put t a) where
  past := h.past
  after {t' a' row placed} ht' hrow := by
    rcases (s.put_eq_some t a).mp ht' with ⟨rfl, rfl⟩ | ⟨-, hold⟩
    · exact absurd hrow (hphase row placed)
    · exact h.after hold hrow
  accounts := h.accounts

/-- The id that an insert draws is past every other. -/
theorem insertRow (h : IdOrder start sequence s) {t : Nat} {r : Request} {phase : Phase}
    (hphase : ∀ row placed, phase = .inserted row placed → row.id = s.sequence + 1) :
    IdOrder start sequence { s.put t ⟨r, phase, some (s.sequence + 1)⟩ with
      sequence := s.sequence + 1 } where
  past := ⟨h.past.1.trans (Int.le_add_one le_rfl),
    fun row hrow => (h.past.2 row hrow).trans (Int.le_add_one le_rfl)⟩
  after {t' a' row placed} ht' hrow := by
    rcases (s.put_eq_some t _).mp ht' with ⟨rfl, rfl⟩ | ⟨-, hold⟩
    · have hid := hphase row placed hrow
      refine ⟨?_, fun other hother _ => ?_⟩
      · have := h.past.1
        omega
      · have := h.past.2 other hother
        omega
    · exact h.after hold hrow
  accounts := h.accounts

/-- A commit adds the last row of its user: below it nothing changes, and from it on the fold is
    that of all the rows of the user. -/
theorem commitRow (h : IdOrder start sequence s) (hstart : ∀ row ∈ start, row.id ≤ sequence)
    (hm : m.ClosesNonneg) (hinv : Inv m s) {t : Nat} {r : Request} {row : OrderRow}
    {placed : Placed} {drawn : Option Int}
    (ht : s.placements t = some ⟨r, .inserted row placed, drawn⟩) :
    IdOrder start sequence
      { s.put t ⟨r, .committed placed, drawn⟩ with orders := s.orders ++ [row] } where
  past := by
    refine ⟨h.past.1, fun other hother => ?_⟩
    rcases List.mem_append.mp hother with hother | hother
    · exact h.past.2 other hother
    · rw [List.mem_singleton.mp hother]
      exact hinv.drawn_le ht (hinv.pending ht rfl).1
  after {t' a' row' placed'} ht' hrow' := by
    rcases (s.put_eq_some t _).mp ht' with ⟨rfl, rfl⟩ | ⟨hne, hold⟩
    · cases hrow'
    · obtain ⟨hnew, habove⟩ := h.after hold hrow'
      refine ⟨hnew, fun other hother huser => ?_⟩
      rcases List.mem_append.mp hother with hother | hother
      · exact habove other hother huser
      -- no other placement of the user was under its lock
      · rw [List.mem_singleton.mp hother] at huser
        obtain ⟨r', phase', drawn'⟩ := a'
        obtain rfl : phase' = .inserted row' placed' := hrow'
        obtain ⟨q, cash, held, id, now, order, -, -, rfl, -⟩ := hinv.readings ht
        obtain ⟨q', cash', held', id', now', order', -, -, rfl, -⟩ := hinv.readings hold
        exact absurd (hinv.exclusive hold ht rfl rfl (Option.some.inj huser).symm) hne
  accounts u ρ k := by
    obtain ⟨hnew, habove⟩ := h.after ht rfl
    by_cases hlast : row.userId = some u ∧ row.id ≤ k
    · obtain ⟨hu, hk⟩ := hlast
      have hall : account (upTo (s.orders ++ [row]) k) u = account (s.orders ++ [row]) u := by
        apply account_upTo_of_le
        intro other hother huser
        rcases List.mem_append.mp hother with hother | hother
        · exact (habove other hother (huser.trans hu.symm)).le.trans hk
        · exact List.mem_singleton.mp hother ▸ hk
      refine .inr ⟨by omega, ?_⟩
      rw [hall]
      have hfloor := h.floor hstart u ρ
      have hcommit := floor_commit hinv hm ht u ρ
      omega
    · have hsame : account (upTo (s.orders ++ [row]) k) u = account (upTo s.orders k) u := by
        apply account_upTo_concat
        intro hu
        by_contra hk
        exact hlast ⟨hu, by omega⟩
      rw [hsame]
      exact h.accounts u ρ k

/-- **One step keeps the ids in order.** -/
theorem step (h : IdOrder start sequence s) (hstart : ∀ row ∈ start, row.id ≤ sequence)
    (hm : m.ClosesNonneg) (hinv : Inv m s) {e : Event}
    (hstep : (service m).step s e = some s') : IdOrder start sequence s' := by
  cases took_of_step hstep with
  | @inserted t now r q cash held drawn ht =>
    refine h.insertRow fun row placed hrow => ?_
    rcases inserting_cases s.orders r q cash held (s.sequence + 1) now with
      ⟨thrown, hthrew⟩ | ⟨order, -, -, hinserted⟩
    · cases hthrew.symm.trans hrow
    · cases hinserted.symm.trans hrow
      rfl
  | committed ht => exact h.commitRow hstart hm hinv ht
  | @cancelled c id hc =>
    refine ⟨⟨h.past.1, ?_⟩, fun ht' hrow' => ⟨(h.after ht' hrow').1, ?_⟩, fun u ρ k => ?_⟩
    · intro _ hmem
      obtain ⟨row, hrow, rfl⟩ := List.mem_map.mp hmem
      rw [afterCancel_id]
      exact h.past.2 row hrow
    · intro _ hmem huser
      obtain ⟨row, hrow, rfl⟩ := List.mem_map.mp hmem
      obtain ⟨status, hstatus⟩ := exists_status_afterCancel id row
      rw [hstatus] at huser ⊢
      exact (h.after ht' hrow').2 row hrow huser
    · show account (upTo (s.orders.map (OrderRow.afterCancel id)) k) u ρ = _ ∨ _ ∧ _
      rw [account_upTo_cancel]
      exact h.accounts u ρ k
  | begun | replayed | rolledBack | timedOut => exact h.put (by simp)
  | @locked t r drawn =>
    have hput : IdOrder start sequence (s.put t ⟨r, .locked, drawn⟩) := h.put (by simp)
    exact ⟨hput.past, hput.after, hput.accounts⟩
  | read ht heq => exact h.put (Phase.read_ne_inserted (read_of_eq heq))
  | unlocked | refused => exact ⟨h.past, h.after, h.accounts⟩

end IdOrder

/-- **Every run keeps the ids in order.** -/
theorem idOrder_run {m : Market} (hm : m.ClosesNonneg) {start : Orders} {sequence : Int}
    (hstart : ∀ row ∈ start, row.id ≤ sequence) {es : List Event} {s : State}
    (hrun : (service m).run (.initial start sequence) es = some s) : IdOrder start sequence s := by
  have key : Inv m s ∧ IdOrder start sequence s :=
    (service m).invariant_run (I := fun s => Inv m s ∧ IdOrder start sequence s)
      (fun h hstep => ⟨h.1.step hstep, h.2.step hstart hm h.1 hstep⟩)
      ⟨inv_initial m start sequence, idOrder_initial hstart⟩ hrun
  exact key.2

end Cocos
