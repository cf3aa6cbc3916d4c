import Cocos.PortfolioLedger

namespace Cocos

open Cocos.Lib

/-!
# Value over whole runs

A fill is at the latest close, and a portfolio is reckoned at it.  So what an account is worth
stays the same however placements and cancels interleave, and with it the total of the portfolios
that are read meanwhile, each of which takes several statements itself.

* `Worth` — how two tables of a run compare: what was traded goes on to be, and an account is
  worth what it was;
* `worth_step`, `worth_run` — **no step changes what an account is worth**, so no run does;
* `totals_agree` — **all portfolios of a user that are read during a run state one total**.
-/

/-- Instruments that were traded go on to be, and the account of `u` is worth what it was. -/
structure Worth (m : Market) (u : Int) (a b : Orders) : Prop where
  traded : traded a u ⊆ traded b u
  value : ∀ S, Cocos.traded b u ⊆ S →
    (account b u).value m.weight S = (account a u).value m.weight S

namespace Worth

variable {m : Market} {u : Int} {a b c : Orders}

theorem refl (m : Market) (u : Int) (a : Orders) : Worth m u a a :=
  ⟨Finset.Subset.refl _, fun _ _ => rfl⟩

theorem trans (hab : Worth m u a b) (hbc : Worth m u b c) : Worth m u a c where
  traded := hab.traded.trans hbc.traded
  value S hS := (hbc.value S hS).trans (hab.value S (hbc.traded.trans hS))

/-- Only the FILLED rows of the user count. -/
theorem of_filledRows (h : filledRows b u = filledRows a u) : Worth m u a b := by
  have htraded : Cocos.traded b u = Cocos.traded a u := by
    unfold Cocos.traded groups
    rw [h]
  refine ⟨htraded.symm.subset, fun S _ => ?_⟩
  rw [account_eq_of_filledRows h]

end Worth

theorem traded_concat (orders : Orders) (row : OrderRow) (u : Int) :
    traded orders u ⊆ traded (orders ++ [row]) u := by
  intro i hi
  obtain ⟨row', hrow, htrade⟩ := mem_traded.mp hi
  obtain ⟨hmem, hfilled⟩ := List.mem_filter.mp hrow
  exact mem_traded.mpr ⟨row', List.mem_filter.mpr ⟨List.mem_append_left _ hmem, hfilled⟩, htrade⟩

/-- A row that is decided at the latest close changes the worth of no account. -/
theorem worth_newOrder {m : Market} {orders : Orders} {r : Request} {q : Sized} {cash held : Int}
    (hread : Readings m orders r q cash held) (id : Int) (now : Timestamp) (u : Int) :
    Worth m u orders (orders ++ [(newOrder r q cash held).row id now]) := by
  refine ⟨traded_concat .., fun S hS => ?_⟩
  rw [account_newOrder]
  split
  · rename_i hfilled
    have htrade : ((newOrder r q cash held).row id now).isTrade = true := by
      cases hside : r.order.side <;>
        simp [OrderRow.isTrade, NewOrder.row, newOrder, hside, Side.text]
    have hrow : (newOrder r q cash held).row id now ∈
        filledRows (orders ++ [(newOrder r q cash held).row id now]) u :=
      List.mem_filter.mpr ⟨List.mem_append_right _ (List.mem_singleton_self _),
        (newOrder_filledFor r q cash held id now u).mpr hfilled⟩
    have hmem : r.order.instrumentId ∈ S := hS (mem_traded.mpr ⟨_, hrow, htrade, rfl⟩)
    -- the fill is at the close the account is reckoned at
    have hprice : m.weight r.order.instrumentId = (fillOf r q cash held).price := by
      rw [weight_of_tradableClose hread.close, fillOf_price r q cash held hfilled.2]
    exact Trade.value_fill _ hmem hprice
  · rfl

/-- **No step changes what an account is worth.** -/
theorem worth_step {m : Market} {s s' : State} {e : Event} (hinv : Inv m s)
    (hstep : (service m).step s e = some s') (u : Int) : Worth m u s.orders s'.orders := by
  cases took_of_step hstep with
  | committed ht =>
    obtain ⟨q, cash, held, id, now, order, hread, -, rfl, -⟩ := hinv.readings ht
    exact worth_newOrder hread id now u
  -- a cancel touches no FILLED row
  | @cancelled c id ht => exact Worth.of_filledRows (filledRows_cancel s.orders id u)
  | _ => exact Worth.refl m u _

theorem worth_run {m : Market} {orders : Orders} {sequence : Int} {es : List Event} {s : State}
    (hrun : (service m).run (.initial orders sequence) es = some s) (u : Int) :
    Worth m u orders s.orders :=
  (service m).related_run (I := Inv m) (R := fun a b => Worth m u a.orders b.orders)
    (fun h hstep => h.step hstep) (fun s => Worth.refl m u s.orders) Worth.trans
    (fun h hstep => worth_step h hstep u) (inv_initial m orders sequence) hrun

/-- **All portfolios of a user that are read during a run state one total**, whatever placements
    and cancels run before them, between them, and between the two reads of each. -/
theorem totals_agree {srv : Server} {m : Market} {orders : Orders} {sequence : Int}
    {es : List DeskEvent} {d : Desk}
    (hrun : (desk srv m).run (.initial orders sequence) es = some d) {k k' : Nat} {u : Int}
    {p p' : Portfolio} (hk : d.inquiries k = some ⟨u, .answered (.ok p)⟩)
    (hk' : d.inquiries k' = some ⟨u, .answered (.ok p')⟩) : p.totalValue = p'.totalValue := by
  obtain ⟨_, ⟨fs, gs, s, -, hfs, rfl⟩, hanswer⟩ := desk_run hrun k _ hk
  obtain ⟨_, ⟨fs', gs', s', -, hfs', rfl⟩, hanswer'⟩ := desk_run hrun k' _ hk'
  -- both are reckoned over the instruments that either table has traded
  have hvalue := (worth_run hfs u).value (traded s.orders u ∪ traded s'.orders u)
    Finset.subset_union_left
  have hvalue' := (worth_run hfs' u).value (traded s.orders u ∪ traded s'.orders u)
    Finset.subset_union_right
  rw [forUser_totalValue hanswer.symm Finset.subset_union_left,
    forUser_totalValue hanswer'.symm Finset.subset_union_right, hvalue, hvalue']

/-- A portfolio is read while a buy of three shares commits, and another one after it. -/
def askedAgain : List DeskEvent :=
  askedDuringBuy ++ [.ask 1 1, .userExists 1, .availableCash 1, .holdings 1]

/-- The row of the buy. -/
def threeBought : OrderRow :=
  (newOrder (marketBuy 3 "a" (Eq.refl true)) ⟨100, none, 3⟩ 500 0).row 2 7

/-- The cash of the one went into the shares of the other. -/
theorem totals_agree_askedAgain : ∃ d p p',
    (desk exactServer (marketAt 100)).run (.initial [deposit 5] 1) askedAgain = some d ∧
      d.inquiries 0 = some ⟨1, .answered (.ok p)⟩ ∧
      d.inquiries 1 = some ⟨1, .answered (.ok p')⟩ ∧
      p.availableCash = "5.00" ∧ p'.availableCash = "2.00" ∧ p.totalValue = p'.totalValue := by
  have hbefore : (holdings exactServer (marketAt 100) [deposit 5] 1).bind
      (report (.ofHundredths 500)) = .ok ⟨"5.00", "5.00", []⟩ := by decide +kernel
  have hafter : (holdings exactServer (marketAt 100) [deposit 5, threeBought] 1).bind
      (report (.ofHundredths 200)) = .ok ⟨"5.00", "2.00",
        [⟨1, some "PAMP", some "Pampa Holding S.A.", 3, "3.00", some "1.00", some "0.00"⟩]⟩ := by
    decide +kernel
  have hfirst := congrArg (fun answer => some (Inquiry.mk 1 (.answered answer))) hbefore
  have hsecond := congrArg (fun answer => some (Inquiry.mk 1 (.answered answer))) hafter
  have hrun : (desk exactServer (marketAt 100)).run (.initial [deposit 5] 1) askedAgain =
    some _ := rfl
  exact ⟨_, _, _, hrun, hfirst, hsecond, rfl, rfl,
    @totals_agree _ _ _ _ _ _ hrun 0 1 1 _ _ hfirst hsecond⟩

end Cocos
