import Mathlib.Algebra.BigOperators.Group.List.Basic
import Mathlib.Algebra.Group.Pi.Basic
import Mathlib.Tactic.Abel
import Cocos.OrderRules
import Cocos.Tools.LoopTimer

namespace Cocos.Tools

open Cocos.Lib

/-!
# The counters of a window

A start opens a window in the history, and what closes it reports what the loop has counted since:
the difference of a lifetime tally, which a reset clears.  A placement is counted a while after its
row was recorded, and longer after where its answer was dropped and is asked for again.

* `SimulationCounters`, `countOf` — the counters, and what one placement adds to them;
* `CountedLoop` — the loop, its counters and its placements, with the rows recorded since the window
  was opened;
* `WindowEffect`, `effect` — what a call does to the window;
* `Countable` — every window reported the placements that were recorded in it;
* `CountsInTheClear` — a window is opened and closed with no placement between its row and its
  count, and not reset once something was counted in it;
* `countable_iff` — **the reports are right, whatever happens next in the clear, just where
  everything before did**.
-/

/-! ### Counting -/

inductive Counter
  | sent
  | filled
  | rejected
  | failed
deriving DecidableEq, Repr

/-- The counters of the loop. -/
abbrev SimulationCounters := Counter → Int

instance : DecidableEq SimulationCounters := fun a b =>
  decidable_of_iff (a .sent = b .sent ∧ a .filled = b .filled ∧ a .rejected = b .rejected ∧
      a .failed = b .failed)
    ⟨fun ⟨hsent, hfilled, hrejected, hfailed⟩ => funext fun counter => by
      cases counter <;> assumption, fun h => h ▸ ⟨rfl, rfl, rfl, rfl⟩⟩

/-- What a placement adds to the counters, by the status of the order it came to. -/
def countOf (outcome : Option OrderStatus) : SimulationCounters
  | .sent => 1
  | .filled => if outcome = some .FILLED then 1 else 0
  | .rejected => if outcome = some .REJECTED then 1 else 0
  | .failed => if outcome = none then 1 else 0

/-- What some placements add. -/
def tallyOf (outcomes : List (Option OrderStatus)) : SimulationCounters :=
  (outcomes.map countOf).sum

/-- The placements of each kind. -/
structure SimulationCounters.Counts (tally : SimulationCounters)
    (outcomes : List (Option OrderStatus)) : Prop where
  sent : tally .sent = outcomes.length
  filled : tally .filled = outcomes.count (some .FILLED)
  rejected : tally .rejected = outcomes.count (some .REJECTED)
  failed : tally .failed = outcomes.count none

@[simp] theorem tallyOf_nil : tallyOf [] = 0 := rfl

theorem tallyOf_append (outcomes outcomes' : List (Option OrderStatus)) :
    tallyOf (outcomes ++ outcomes') = tallyOf outcomes + tallyOf outcomes' := by
  rw [tallyOf, List.map_append, List.sum_append]
  rfl

theorem tallyOf_perm {outcomes outcomes' : List (Option OrderStatus)}
    (h : outcomes.Perm outcomes') : tallyOf outcomes = tallyOf outcomes' := (h.map countOf).sum_eq

theorem tallyOf_cons (outcome : Option OrderStatus) (outcomes : List (Option OrderStatus)) :
    tallyOf (outcome :: outcomes) = countOf outcome + tallyOf outcomes := List.sum_cons

theorem ite_add_count {α : Type*} [BEq α] [LawfulBEq α] [DecidableEq α] (a b : α) (l : List α) :
    (if b = a then 1 else 0) + (l.count a : Int) = ((b :: l).count a : Nat) := by
  by_cases h : b = a
  · rw [if_pos h, h, List.count_cons_self]
    omega
  · rw [if_neg h, List.count_cons_of_ne h]
    omega

/-- **The tally of some placements counts them.** -/
theorem counts_tallyOf (outcomes : List (Option OrderStatus)) :
    (tallyOf outcomes).Counts outcomes := by
  induction outcomes with
  | nil => exact ⟨rfl, rfl, rfl, rfl⟩
  | cons outcome outcomes ih =>
    obtain ⟨hsent, hfilled, hrejected, hfailed⟩ := ih
    constructor
    · rw [tallyOf_cons, Pi.add_apply, hsent, List.length_cons]
      exact (add_comm _ _).trans (Nat.cast_succ _).symm
    · rw [tallyOf_cons, Pi.add_apply, hfilled]
      exact ite_add_count (some .FILLED) outcome outcomes
    · rw [tallyOf_cons, Pi.add_apply, hrejected]
      exact ite_add_count (some .REJECTED) outcome outcomes
    · rw [tallyOf_cons, Pi.add_apply, hfailed]
      exact ite_add_count none outcome outcomes

theorem counts_iff {tally : SimulationCounters} {outcomes : List (Option OrderStatus)} :
    tally.Counts outcomes ↔ tally = tallyOf outcomes := by
  have h := counts_tallyOf outcomes
  constructor
  · intro h'
    funext counter
    cases counter with
    | sent => exact h'.sent.trans h.sent.symm
    | filled => exact h'.filled.trans h.filled.symm
    | rejected => exact h'.rejected.trans h.rejected.symm
    | failed => exact h'.failed.trans h.failed.symm
  · rintro rfl
    exact h

/-! ### The loop and its window -/

/-- A placement whose row is recorded and that is not counted yet; where it was lost it may wait for
    the answer to its retry. -/
structure LandedTick where
  outcome : Option OrderStatus
  probing : Bool

/-- The outcomes of the placements that are recorded and not counted. -/
def outcomesOf (landed : List LandedTick) : List (Option OrderStatus) := landed.map (·.outcome)

/-- What a window reported when it was closed, and, read by nobody, the placements that were recorded
    since it was opened. -/
structure Report where
  runId : Nat
  counters : SimulationCounters
  rows : List (Option OrderStatus)

/-- The loop, its counters and the open window, if there is one; the ticks that wait for an answer,
    and those that landed.  The rows are those of the loop since the last window was opened. -/
structure CountedLoop where
  loop : Loop
  counters : SimulationCounters
  opened : SimulationCounters
  runId : Option Nat
  runs : Nat
  waiting : Nat
  landed : List LandedTick
  rows : List (Option OrderStatus)
  reports : List Report

/-- A tick sends an order, its answer is recorded, its retry is answered, or it is counted; or a call
    of the service goes on. -/
inductive CountedEvent
  | tick
  | record (outcome : Option OrderStatus) (probing : Bool)
  | probed (j : Nat)
  | count (j : Nat)
  | loop (e : LoopEvent)

/-- What a call does to the window. -/
inductive WindowEffect
  | none
  | reopen
  | close
  | clear
deriving DecidableEq, Repr

/-- A start that is accepted closes the window and opens another, and closes that where no portfolio
    could be read; a stop closes it, and a reset clears the counters. -/
def Loop.effect (s : Loop) : LoopEvent → WindowEffect
  | .start _ overrides =>
    let config := overrides.over s.config false
    if config.sizeMin > config.sizeMax then .none else .reopen
  | .stop => .close
  | .reset _ => .clear
  | .resume c =>
    match s.calls c with
    | some ⟨.start _, .seeding _ _ 0⟩ => .close
    | _ => .none
  | .configure .. | .prepare .. | .answer .. => .none

namespace CountedLoop

/-- The service as it is constructed. -/
def initial : CountedLoop := ⟨.initial, 0, 0, none, 0, 0, [], [], []⟩

/-- Reports the counters of the window, if one is open. -/
def closeWindow (s : CountedLoop) : CountedLoop :=
  match s.runId with
  | none => s
  | some runId => { s with
      reports := s.reports ++ [⟨runId, s.counters - s.opened, s.rows⟩]
      runId := none }

/-- Opens a window where the tally stands. -/
def openWindow (s : CountedLoop) : CountedLoop :=
  { s with runId := some s.runs, runs := s.runs + 1, opened := s.counters, rows := [] }

/-- What a call does to the window. -/
def window (s : CountedLoop) : WindowEffect → CountedLoop
  | .none => s
  | .reopen => s.closeWindow.openWindow
  | .close => s.closeWindow
  | .clear => { s with counters := 0, opened := 0 }

/-- One step; a tick is sent by an interval that is live. -/
def step (s : CountedLoop) : CountedEvent → Option CountedLoop
  | .tick => if s.loop.live = [] then none else some { s with waiting := s.waiting + 1 }
  | .record outcome probing =>
    -- only a placement that was lost is asked for again
    if s.waiting = 0 ∨ (probing ∧ outcome ≠ none) then none
    else some { s with
      waiting := s.waiting - 1
      landed := s.landed ++ [⟨outcome, probing⟩]
      rows := s.rows ++ [outcome] }
  | .probed j =>
    match s.landed[j]? with
    | some ⟨outcome, true⟩ => some { s with landed := s.landed.set j ⟨outcome, false⟩ }
    | _ => none
  | .count j =>
    match s.landed[j]? with
    | some ⟨outcome, false⟩ => some { s with
        landed := s.landed.eraseIdx j
        counters := s.counters + countOf outcome }
    | _ => none
  | .loop e => (s.loop.step e).map fun loop => { s.window (s.loop.effect e) with loop := loop }

end CountedLoop

/-- The machine of the loop and its counters. -/
def countedLoop : Machine CountedLoop CountedEvent := ⟨CountedLoop.step⟩

namespace CountedLoop

variable {s s' : CountedLoop} {e : CountedEvent}

/-- **What every closed window reported counts the placements recorded in it.** -/
def Countable (s : CountedLoop) : Prop := ∀ report ∈ s.reports, report.counters.Counts report.rows

/-- What is done to the window is done in the clear. -/
def ClearFor (s : CountedLoop) : WindowEffect → Prop
  | .none => True
  | .reopen => s.landed = []
  | .close => s.runId.isSome → s.landed = []
  | .clear => s.runId.isSome → s.counters = s.opened

/-- A window is opened and closed with every placement that was recorded counted, and is not cleared
    once something was counted in it. -/
def CountsInTheClear (s : CountedLoop) : CountedEvent → Prop
  | .loop e => s.ClearFor (s.loop.effect e)
  | _ => True

instance (s : CountedLoop) : DecidablePred s.ClearFor
  | .none => isTrue trivial
  | .reopen => inferInstanceAs (Decidable (s.landed = []))
  | .close => inferInstanceAs (Decidable (_ → s.landed = []))
  | .clear => inferInstanceAs (Decidable (_ → s.counters = s.opened))

instance (s : CountedLoop) : ∀ e, Decidable (s.CountsInTheClear e)
  | .loop e => inferInstanceAs (Decidable (s.ClearFor (s.loop.effect e)))
  | .tick | .record _ _ | .probed _ | .count _ => isTrue trivial

/-- The reports are right, and the rows of an open window are counted or are going to be. -/
structure Inv (s : CountedLoop) : Prop where
  countable : s.Countable
  rows : s.runId.isSome → tallyOf s.rows = s.counters - s.opened + tallyOf (outcomesOf s.landed)

theorem inv_initial : Inv initial where
  countable := by simp [Countable, initial]
  rows h := by cases h

/-- A window that is closed with nothing uncounted reports its rows. -/
theorem Inv.closeWindow (h : Inv s) (hclear : s.runId.isSome → s.landed = []) :
    Inv s.closeWindow := by
  unfold CountedLoop.closeWindow
  split
  · exact h
  · rename_i runId hopen
    have hsome : s.runId.isSome := by rw [hopen]; rfl
    have hrows := h.rows hsome
    rw [hclear hsome, outcomesOf, List.map_nil, tallyOf_nil, add_zero] at hrows
    refine ⟨fun report hreport => ?_, nofun⟩
    rcases List.mem_append.mp hreport with hold | hnew
    · exact h.countable report hold
    · obtain rfl := List.mem_singleton.mp hnew
      exact counts_iff.mpr hrows.symm

theorem closeWindow_landed (s : CountedLoop) : s.closeWindow.landed = s.landed := by
  unfold closeWindow
  split <;> rfl

/-- A window that is opened with nothing uncounted has no rows, and nothing counted. -/
theorem Inv.openWindow (h : Inv s) (hclear : s.landed = []) : Inv s.openWindow where
  countable := h.countable
  rows _ := by
    show tallyOf [] = s.counters - s.counters + tallyOf (outcomesOf s.landed)
    rw [hclear, sub_self, zero_add]
    rfl

/-- The retry of a lost placement is answered. -/
theorem probed_spec {j : Nat} (hstep : countedLoop.step s (.probed j) = some s') :
    ∃ outcome, s.landed[j]? = some ⟨outcome, true⟩ ∧
      s' = { s with landed := s.landed.set j ⟨outcome, false⟩ } := by
  simp only [countedLoop, CountedLoop.step] at hstep
  split at hstep <;> cases hstep
  exact ⟨_, ‹_›, rfl⟩

/-- A placement is counted. -/
theorem count_spec {j : Nat} (hstep : countedLoop.step s (.count j) = some s') :
    ∃ outcome, s.landed[j]? = some ⟨outcome, false⟩ ∧
      s' = { s with landed := s.landed.eraseIdx j, counters := s.counters + countOf outcome } := by
  simp only [countedLoop, CountedLoop.step] at hstep
  split at hstep <;> cases hstep
  exact ⟨_, ‹_›, rfl⟩

theorem outcomesOf_probed {landed : List LandedTick} {j : Nat} {outcome : Option OrderStatus}
    (hj : landed[j]? = some ⟨outcome, true⟩) :
    outcomesOf (landed.set j ⟨outcome, false⟩) = outcomesOf landed := by
  apply List.ext_getElem?
  intro i
  rw [outcomesOf, outcomesOf, List.getElem?_map, List.getElem?_map]
  by_cases heq : j = i
  · subst heq
    obtain ⟨hlt, -⟩ := List.getElem?_eq_some_iff.mp hj
    rw [List.getElem?_set_self hlt, hj]
    rfl
  · rw [List.getElem?_set_ne heq]

theorem tallyOf_outcomesOf {landed : List LandedTick} {j : Nat} {tick : LandedTick}
    (hj : landed[j]? = some tick) : tallyOf (outcomesOf landed) =
      countOf tick.outcome + tallyOf (outcomesOf (landed.eraseIdx j)) := by
  obtain ⟨hlt, rfl⟩ := List.getElem?_eq_some_iff.mp hj
  have hperm := List.getElem_cons_eraseIdx_perm hlt
  rw [outcomesOf, ← tallyOf_perm (hperm.map _), List.map_cons, tallyOf_cons]
  rfl

/-- **One step keeps it so**, in the clear. -/
theorem Inv.step (h : Inv s) (hclear : s.CountsInTheClear e)
    (hstep : countedLoop.step s e = some s') : Inv s' := by
  cases e with
  | tick =>
    simp only [countedLoop, CountedLoop.step] at hstep
    split at hstep <;> cases hstep
    exact ⟨h.countable, h.rows⟩
  | record outcome probing =>
    simp only [countedLoop, CountedLoop.step] at hstep
    split at hstep <;> cases hstep
    refine ⟨h.countable, fun hopen => ?_⟩
    show tallyOf (s.rows ++ [outcome]) =
      s.counters - s.opened + tallyOf (outcomesOf (s.landed ++ [⟨outcome, probing⟩]))
    rw [outcomesOf, List.map_append, tallyOf_append, tallyOf_append, h.rows hopen, add_assoc]
    rfl
  | probed j =>
    obtain ⟨outcome, hj, rfl⟩ := probed_spec hstep
    refine ⟨h.countable, fun hopen => ?_⟩
    show tallyOf s.rows = s.counters - s.opened + tallyOf (outcomesOf (s.landed.set j _))
    rw [outcomesOf_probed hj]
    exact h.rows hopen
  | count j =>
    obtain ⟨outcome, hj, rfl⟩ := count_spec hstep
    refine ⟨h.countable, fun hopen => (h.rows hopen).trans ?_⟩
    rw [tallyOf_outcomesOf hj]
    show s.counters - s.opened + (countOf outcome + _) =
      s.counters + countOf outcome - s.opened + _
    abel
  | loop e =>
    obtain ⟨loop, -, rfl⟩ := Option.map_eq_some_iff.mp hstep
    have hwindow : Inv (s.window (s.loop.effect e)) := by
      change s.ClearFor (s.loop.effect e) at hclear
      cases heffect : s.loop.effect e with
      | none => exact h
      | reopen =>
        rw [heffect] at hclear
        exact (h.closeWindow fun _ => hclear).openWindow ((closeWindow_landed s).trans hclear)
      | close =>
        rw [heffect] at hclear
        exact h.closeWindow hclear
      | clear =>
        rw [heffect] at hclear
        refine ⟨h.countable, fun hopen => ?_⟩
        have hrows := h.rows hopen
        rw [hclear hopen, sub_self] at hrows
        refine hrows.trans ?_
        show 0 + _ = (0 : SimulationCounters) - 0 + tallyOf (outcomesOf s.landed)
        rw [sub_self]
    exact ⟨hwindow.countable, hwindow.rows⟩

/-! ### Where a report is wrong -/

theorem eq_nil_of_tallyOf {landed : List LandedTick} (h : tallyOf (outcomesOf landed) = 0) :
    landed = [] := by
  have hsent := (counts_tallyOf (outcomesOf landed)).sent
  rw [h, outcomesOf, List.length_map] at hsent
  exact List.length_eq_zero_iff.mp (Nat.cast_eq_zero.mp hsent.symm)

/-- Every placement that is recorded is counted, one after the other. -/
theorem exists_counted (s : CountedLoop) : ∃ gs, countedLoop.Along CountsInTheClear s gs ∧
    countedLoop.run s gs = some { s with
      landed := []
      counters := s.counters + tallyOf (outcomesOf s.landed) } := by
  obtain ⟨loop, counters, opened, runId, runs, waiting, landed, rows, reports⟩ := s
  induction landed generalizing counters with
  | nil => exact ⟨[], trivial, by simp [outcomesOf]⟩
  | cons tick landed ih =>
    obtain ⟨outcome, probing⟩ := tick
    obtain ⟨gs, halong, hrun⟩ := ih (counters + countOf outcome)
    have hsum : counters + tallyOf (outcomesOf (⟨outcome, probing⟩ :: landed)) =
        counters + countOf outcome + tallyOf (outcomesOf landed) := by
      rw [add_assoc]
      rfl
    rw [hsum]
    have hcount : countedLoop.step ⟨loop, counters, opened, runId, runs, waiting,
        ⟨outcome, false⟩ :: landed, rows, reports⟩ (.count 0) =
        some ⟨loop, counters + countOf outcome, opened, runId, runs, waiting, landed, rows,
          reports⟩ := rfl
    cases probing with
    | false =>
      refine ⟨.count 0 :: gs, countedLoop.along_cons trivial hcount halong, ?_⟩
      rw [Machine.run_cons, hcount]
      exact hrun
    | true =>
      have hprobed : countedLoop.step ⟨loop, counters, opened, runId, runs, waiting,
          ⟨outcome, true⟩ :: landed, rows, reports⟩ (.probed 0) =
          some ⟨loop, counters, opened, runId, runs, waiting, ⟨outcome, false⟩ :: landed, rows,
            reports⟩ := rfl
      refine ⟨.probed 0 :: .count 0 :: gs, countedLoop.along_cons trivial hprobed
        (countedLoop.along_cons trivial hcount halong), ?_⟩
      rw [Machine.run_cons, hprobed, Option.bind_some, Machine.run_cons, hcount]
      exact hrun

/-- Everything is counted and the loop stopped: what the open window reports. -/
theorem exists_stopped {runId : Nat} (hopen : s.runId = some runId) : ∃ gs s',
    countedLoop.Along CountsInTheClear s gs ∧ countedLoop.run s gs = some s' ∧
    ⟨runId, s.counters + tallyOf (outcomesOf s.landed) - s.opened, s.rows⟩ ∈ s'.reports := by
  obtain ⟨gs, halong, hrun⟩ := exists_counted s
  let counted : CountedLoop :=
    { s with landed := [], counters := s.counters + tallyOf (outcomesOf s.landed) }
  have hstop : countedLoop.step counted (.loop .stop) =
      some { counted.closeWindow with loop := s.loop.stop } := rfl
  have hclear : counted.CountsInTheClear (.loop .stop) := fun _ => rfl
  refine ⟨gs ++ [.loop .stop], _, countedLoop.along_concat hrun halong hclear,
    (countedLoop.run_concat).mpr ⟨counted, hrun, hstop⟩, ?_⟩
  have hreports : counted.closeWindow.reports = s.reports ++
      [⟨runId, s.counters + tallyOf (outcomesOf s.landed) - s.opened, s.rows⟩] := by
    rw [closeWindow, show counted.runId = some runId from hopen]
  show _ ∈ counted.closeWindow.reports
  rw [hreports]
  exact List.mem_append_right _ (List.mem_singleton_self _)

/-- A window that is closed with something uncounted reports too little. -/
theorem Inv.closes_wrong (h : Inv s) {runId : Nat} (hopen : s.runId = some runId)
    (hlanded : s.landed ≠ []) : ¬s.closeWindow.Countable := by
  intro hcountable
  have hreport : ⟨runId, s.counters - s.opened, s.rows⟩ ∈ s.closeWindow.reports := by
    rw [CountedLoop.closeWindow, hopen]
    exact List.mem_append_right _ (List.mem_singleton_self _)
  have hrows := h.rows (by rw [hopen]; rfl)
  rw [← counts_iff.mp (hcountable _ hreport), left_eq_add] at hrows
  exact hlanded (eq_nil_of_tallyOf hrows)

/-- **What is done to a window otherwise** leaves a report wrong, or has one made wrong. -/
theorem Inv.breaks (h : Inv s) (hbad : ¬s.CountsInTheClear e)
    (hstep : countedLoop.step s e = some s') :
    ∃ gs s'', countedLoop.Along CountsInTheClear s' gs ∧ countedLoop.run s' gs = some s'' ∧
      ¬s''.Countable := by
  cases e with
  | tick | record | probed | count => exact absurd trivial hbad
  | loop e =>
    obtain ⟨loop, -, rfl⟩ := Option.map_eq_some_iff.mp hstep
    change ¬s.ClearFor (s.loop.effect e) at hbad
    cases heffect : s.loop.effect e with
    | none =>
      rw [heffect] at hbad
      exact absurd trivial hbad
    | reopen =>
      rw [heffect] at hbad
      cases hopen : s.runId with
      | some runId => exact ⟨[], _, trivial, rfl, h.closes_wrong hopen hbad⟩
      -- the new window counts placements that were recorded before it
      | none =>
        obtain ⟨gs, s'', halong, hrun, hreport⟩ := exists_stopped
          (s := { s.closeWindow.openWindow with loop := loop }) rfl
        refine ⟨gs, s'', halong, hrun, fun hcountable => hbad ?_⟩
        have hrows : s.closeWindow.counters + tallyOf (outcomesOf s.closeWindow.landed) -
            s.closeWindow.counters = 0 := counts_iff.mp (hcountable _ hreport)
        rw [closeWindow_landed, add_sub_cancel_left] at hrows
        exact eq_nil_of_tallyOf hrows
    | close =>
      rw [heffect] at hbad
      obtain ⟨hopen, hlanded⟩ := Classical.not_imp.mp hbad
      obtain ⟨runId, hopen⟩ := Option.isSome_iff_exists.mp hopen
      exact ⟨[], _, trivial, rfl, h.closes_wrong hopen hlanded⟩
    -- what was counted in the window is forgotten
    | clear =>
      rw [heffect] at hbad
      obtain ⟨hopen, hne⟩ := Classical.not_imp.mp hbad
      obtain ⟨runId, hrunId⟩ := Option.isSome_iff_exists.mp hopen
      obtain ⟨gs, s'', halong, hrun, hreport⟩ := exists_stopped
        (s := { s.window .clear with loop := loop }) hrunId
      refine ⟨gs, s'', halong, hrun, fun hcountable => hne ?_⟩
      have hrows : 0 + tallyOf (outcomesOf s.landed) - 0 = tallyOf s.rows :=
        counts_iff.mp (hcountable _ hreport)
      rw [zero_add, sub_zero, h.rows hopen, right_eq_add] at hrows
      exact sub_eq_zero.mp hrows

/-- **The reports of closed windows are right**, in every state a run comes to and every state that
    is reached from there in the clear, just where every step of the run was in the clear. -/
theorem countable_iff {es : List CountedEvent} (hrun : countedLoop.run initial es = some s) :
    countedLoop.Along CountsInTheClear initial es ↔
      ∀ fs gs s₁ s', fs <+: es → countedLoop.run initial fs = some s₁ →
        countedLoop.Along CountsInTheClear s₁ gs → countedLoop.run s₁ gs = some s' →
        s'.Countable :=
  countedLoop.along_iff inv_initial Inv.step Inv.countable Inv.breaks hrun

/-- A start whose one portfolio is read, and a placement whose answer is dropped and asked for
    again. -/
def oneDropped : List CountedEvent :=
  [.loop (.start 0 ⟨none, some [1], none, none, none⟩), .loop (.answer 0 1 true),
    .loop (.resume 0), .tick, .record none true]

/-- The retry is answered and the placement counted before the stop. -/
def oneCounted : List CountedEvent := oneDropped ++ [.probed 0, .count 0, .loop .stop]

/-- The window reports it. -/
theorem countable_oneCounted : ∃ s,
    countedLoop.run initial oneCounted = some s ∧ s.Countable := by
  obtain ⟨s, hs, -⟩ := countedLoop.exists_run initial oneCounted (P := fun _ => True) (by decide)
  have hclear : countedLoop.Along CountsInTheClear initial oneCounted := by decide
  exact ⟨s, hs, (countable_iff hs).mp hclear _ [] s s (List.prefix_refl _) hs trivial rfl⟩

/-- **Stopped while the retry is out**: the window has a row and reports nothing sent. -/
theorem uncountable_oneDropped :
    ¬∀ es s, countedLoop.run initial es = some s → s.Countable := by
  intro h
  obtain ⟨s, hs, report, hreport, hne⟩ := countedLoop.exists_run initial
    (oneDropped ++ [.loop .stop])
    (P := fun s => ∃ report ∈ s.reports, report.counters .sent ≠ report.rows.length) (by decide)
  exact hne (h _ s hs report hreport).sent

end CountedLoop

end Cocos.Tools
