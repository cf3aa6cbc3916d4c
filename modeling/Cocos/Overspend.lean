import Cocos.Freshness

namespace Cocos

open Cocos.Lib

/-!
# Nobody spends what they do not have

Placements read the cash and the shares in one statement and insert in another, with any other
placements and cancels in between.  No balance goes below zero for it, or further below than
where it started:

* `account_commit` — what the commit of a row does to every account: a covered trade of its
  user's, or nothing;
* `floor_step` — **one step** takes no resource below zero, nor below where it was;
* `no_overspend` — the same of whole runs, and what holds right after a fill commits.
-/

section Commit

variable {m : Market} {s : State} {t : Nat} {r : Request} {row : OrderRow} {placed : Placed}
  {drawn : Option Int}

/-- **A commit is a covered trade**, at a price and a size that are not negative, if its row is
    FILLED; any other commit changes no account. -/
theorem account_commit (h : Inv m s) (hm : m.ClosesNonneg)
    (ht : s.placements t = some ⟨r, .inserted row placed, drawn⟩) :
    (row.status ≠ some OrderStatus.FILLED.text ∧
        account (s.orders ++ [row]) = account s.orders) ∨
      ∃ trade : Trade, row.status = some OrderStatus.FILLED.text ∧
        row.side = some trade.side.text ∧ trade.instrumentId = r.order.instrumentId ∧
        0 ≤ trade.price ∧ 0 ≤ trade.size ∧
        trade.Covered (account s.orders r.order.userId) ∧
        ∀ u, account (s.orders ++ [row]) u =
          if u = r.order.userId then trade.fill (account s.orders u) else account s.orders u := by
  obtain ⟨q, cash, held, id, now, order, hread, -, rfl, -⟩ := h.readings ht
  have haccount := account_newOrder r q cash held id now s.orders
  by_cases hfilled : (placement r.order q cash held).decide.status = .FILLED
  · refine .inr ⟨fillOf r q cash held, congrArg (some ∘ OrderStatus.text) hfilled, rfl, rfl,
      hread.price_nonneg hm hfilled, hread.size_nonneg, hread.covered hfilled, fun u => ?_⟩
    rw [haccount]
    simp only [hfilled, and_true]
  · refine .inl ⟨fun hst => hfilled (OrderStatus.text_injective (Option.some.inj hst)), ?_⟩
    funext u
    rw [haccount, if_neg fun h => hfilled h.2]

/-- The resource a fill was covered in is at or above zero right after its commit. -/
theorem resource_commit (h : Inv m s) (hm : m.ClosesNonneg)
    (ht : s.placements t = some ⟨r, .inserted row placed, drawn⟩)
    (hfilled : row.status = some OrderStatus.FILLED.text) {side : Side}
    (hside : row.side = some side.text) :
    0 ≤ account (s.orders ++ [row]) r.order.userId
      (match side with
        | .BUY => .cash
        | .SELL => .shares r.order.instrumentId) := by
  rcases account_commit h hm ht with ⟨hnot, -⟩ | ⟨trade, -, hts, hti, -, -, hcov, hacc⟩
  · exact absurd hfilled hnot
  · have hresource : trade.resource =
        (match side with
          | .BUY => .cash
          | .SELL => .shares r.order.instrumentId) := by
      have hsides : trade.side = side := by
        rw [hts, Option.some.injEq] at hside
        cases hs : trade.side <;> cases side <;> simp_all [Side.text]
      cases side <;> simp [Trade.resource, hsides, hti]
    rw [hacc, if_pos rfl, ← hresource]
    exact Trade.fill_resource_nonneg hcov

/-- A commit takes no resource below zero, nor below where it was. -/
theorem floor_commit (h : Inv m s) (hm : m.ClosesNonneg)
    (ht : s.placements t = some ⟨r, .inserted row placed, drawn⟩) (u : Int) (ρ : Resource) :
    min 0 (account s.orders u ρ) ≤ account (s.orders ++ [row]) u ρ := by
  rcases account_commit h hm ht with ⟨-, hsame⟩ | ⟨trade, -, -, -, hprice, hsize, hcov, hacc⟩
  · rw [hsame]
    exact min_le_right _ _
  · rw [hacc]
    split
    · rename_i hu
      by_cases hρ : ρ = trade.resource
      -- what the trade draws on was checked to cover it
      · rw [hρ, hu]
        exact le_trans (min_le_left _ _) (Trade.fill_resource_nonneg hcov)
      -- and of everything else a trade only brings
      · exact le_trans (min_le_right _ _) (Trade.le_fill hprice hsize hρ)
    · exact min_le_right _ _

end Commit

/-- **One step** takes no resource below zero, nor below where it was. -/
theorem floor_step {m : Market} (hm : m.ClosesNonneg) {s s' : State} {e : Event} (h : Inv m s)
    (hstep : (service m).step s e = some s') (u : Int) (ρ : Resource) :
    min 0 (account s.orders u ρ) ≤ account s'.orders u ρ := by
  cases took_of_step hstep with
  | committed ht => exact floor_commit h hm ht u ρ
  -- a cancel touches no FILLED row, and the accounts are of nothing else
  | @cancelled c id ht =>
    rw [account_eq_of_filledRows (filledRows_cancel s.orders id u).symm]
    exact min_le_right _ _
  | _ => exact min_le_right _ _

/-- A whole run takes no resource below zero, nor below where it started. -/
theorem floor_run {m : Market} (hm : m.ClosesNonneg) {orders : Orders} {sequence : Int}
    {es : List Event} {s : State}
    (hrun : (service m).run (.initial orders sequence) es = some s) (u : Int) (ρ : Resource) :
    min 0 (account orders u ρ) ≤ account s.orders u ρ := by
  refine (service m).related_run (I := Inv m)
    (R := fun a b => min 0 (account a.orders u ρ) ≤ account b.orders u ρ)
    (fun h hstep => h.step hstep) (fun _ => min_le_right _ _) (fun hab hbc => ?_)
    (fun h hstep => floor_step hm h hstep u ρ) (inv_initial m orders sequence) hrun
  omega

/-- **Nobody overspends or oversells.**  Wherever a run of any placements and cancels has got,
    no cash and no position is below zero or where it started, whichever is lower; and the
    commit of a FILLED BUY leaves the cash, of a FILLED SELL the position, at or above zero. -/
theorem no_overspend {m : Market} (hm : m.ClosesNonneg) {orders : Orders} {sequence : Int}
    {es : List Event} {s : State}
    (hrun : (service m).run (.initial orders sequence) es = some s) :
    (∀ u, min 0 (cashFold orders u) ≤ cashFold s.orders u) ∧
      (∀ u i, min 0 (netShares orders u i) ≤ netShares s.orders u i) ∧
      ∀ t r row placed drawn s', s.placements t = some ⟨r, .inserted row placed, drawn⟩ →
        (service m).step s (.commit t) = some s' →
        row.status = some OrderStatus.FILLED.text →
        (row.side = some Side.BUY.text → 0 ≤ cashFold s'.orders r.order.userId) ∧
          (row.side = some Side.SELL.text →
            0 ≤ netShares s'.orders r.order.userId r.order.instrumentId) := by
  have hinv := inv_run hrun
  refine ⟨fun u => ?_, fun u i => ?_, fun t r row placed drawn s' ht hstep hfilled => ?_⟩
  · simpa only [cashFold_eq] using floor_run hm hrun u .cash
  · simpa only [netShares_eq] using floor_run hm hrun u (.shares i)
  · have horders : s'.orders = s.orders ++ [row] := by
      cases took_of_step hstep with
      | committed h => cases ht.symm.trans h; rfl
      | replayed h => cases ht.symm.trans h
    rw [horders, cashFold_eq, netShares_eq]
    exact ⟨resource_commit hinv hm ht hfilled, resource_commit hinv hm ht hfilled⟩

/-! ### Two orders over one balance -/

/-- Two buys of the whole balance, the first as far as its insert. -/
def twoBuys : List Event :=
  [.begin 0 (marketBuy 5 "a" (Eq.refl true)), .begin 1 (marketBuy 5 "b" (Eq.refl true)),
    .lockPlacements 0, .read 0, .read 0, .read 0, .read 0, .read 0, .insert 0 7]

/-- The first of two buys of the whole balance leaves the cash at zero, not below. -/
theorem no_overspend_twoBuys : ∃ s s',
    (service (marketAt 100)).run (.initial [deposit 5] 1) twoBuys = some s ∧
      (service (marketAt 100)).step s (.commit 0) = some s' ∧ 0 ≤ cashFold s'.orders 1 := by
  have hfirst := no_overspend (marketAt_closesNonneg (show (0 : Int) ≤ 100 by decide))
    (show (service (marketAt 100)).run (.initial [deposit 5] 1) twoBuys = some _ from rfl)
  exact ⟨_, _, rfl, rfl, (hfirst.2.2 0 _ _ _ _ _ rfl rfl rfl).1 rfl⟩

end Cocos
