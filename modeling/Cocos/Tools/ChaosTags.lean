import Cocos.Tools.Anomalies
import Cocos.Tools.DbPause

namespace Cocos.Tools

open Cocos.Lib

/-!
# Findings under a pause

A finding is stamped with the modes that are on or were until half a minute ago.  A pause goes on
whatever its toggle says: an operator may have put it off long before the database is back, and
where docker does not bring it back the cycle puts it off all the same.

* `UnderPause`, `Tagged` — the database is paused or was a moment ago, and then a finding says so;
* `SwitchesOff`, `OffInTheClear` — a step puts the pause off, and does so when nothing is left of it;
* `tagged_iff` — **findings are tagged, whatever happens next, just where every step that puts the
  pause off does so in the clear**.
-/

namespace ChaosService

variable {s : ChaosService} {mode mode' : ChaosMode} {toggle : ChaosToggle} {now : Int}

/-- A mode is named while it is on, and for the window after that. -/
theorem mem_active (hmode : mode ∈ CHAOS_MODES) : mode ∈ s.active now ↔
    (s.modes mode).enabled ∨ now - CHAOS_WINDOW_MS ≤ (s.stoppedAt mode).getD 0 := by
  rw [active, List.mem_filter, Bool.or_eq_true, decide_eq_true_iff]
  exact and_iff_right hmode

theorem switch_stoppedAt : (s.switch mode toggle now).stoppedAt mode =
    if (s.modes mode).enabled && !toggle.enabled then some now else s.stoppedAt mode := by
  show (if _ then Function.update s.stoppedAt mode (some now) else s.stoppedAt) mode = _
  split
  · exact Function.update_self ..
  · rfl

theorem switch_stoppedAt_of_ne (h : mode ≠ mode') :
    (s.switch mode' toggle now).stoppedAt mode = s.stoppedAt mode := by
  show (if _ then Function.update s.stoppedAt mode' (some now) else s.stoppedAt) mode = _
  split
  · exact Function.update_of_ne h ..
  · rfl

/-- What the end of a cycle does to the moment the pause went off. -/
theorem finish_stoppedAt (s : ChaosService) (seconds : ℚ) (down : Bool) (now : Int) :
    (s.finish seconds down now).stoppedAt .db_pause =
      if (s.modes .db_pause).enabled && true then some now else s.stoppedAt .db_pause :=
  switch_stoppedAt

end ChaosService

namespace PauseWorld

variable {s s' : PauseWorld} {e : PauseEvent}

/-- The toggle of the pause. -/
def on (s : PauseWorld) : Bool := (s.service.modes .db_pause).enabled

/-- The database is paused, or was unpaused within the window. -/
def UnderPause (s : PauseWorld) : Prop := s.down ∨ ∃ u ∈ s.upAt, s.clock ≤ u + CHAOS_WINDOW_MS

instance : DecidablePred UnderPause := fun _ => inferInstanceAs (Decidable (_ ∨ _))

/-- A finding that is recorded now, and names no modes of its own, is stamped with the pause. -/
def Stamped (s : PauseWorld) : Prop :=
  ∀ (store : AnomaliesStore) (finding : Finding),
    "chaosActive" ∉ finding.context.map Prod.fst →
    ∃ modes, (store.record finding (s.service.active s.clock) s.clock).1.context.get?
      "chaosActive" = some (.modes modes) ∧ .db_pause ∈ modes

/-- While the database is paused, or was a moment ago, the pause is active and findings say so. -/
def Tagged (s : PauseWorld) : Prop :=
  s.UnderPause → .db_pause ∈ s.service.active s.clock ∧ s.Stamped

/-- A step puts the pause off, if it is on: a client does, or a cycle ends. -/
def SwitchesOff (s : PauseWorld) : PauseEvent → Prop
  | .configure patch => patch.mode = .db_pause ∧ patch.enabled = some false ∧
    (ChaosService.check patch.mode (s.service.toggled patch).intensity).isOk
  | .answer k failure => ∃ c ∈ s.cycles[k]?, ¬(c.phase = .pausing true ∧ failure = none)
  | _ => False

/-- The database is up, and the clock is not behind a moment it was unpaused at. -/
def Clear (s : PauseWorld) : Prop := s.down = false ∧ ∀ u ∈ s.upAt, u ≤ s.clock

/-- The pause is put off in the clear: the database is up, and docker is not about to pause it. -/
def OffInTheClear (s : PauseWorld) (e : PauseEvent) : Prop :=
  s.on → s.SwitchesOff e → s.Clear ∧
    match e with
    | .configure _ => ∀ c ∈ s.cycles, c.phase ≠ .pausing false
    | _ => True

instance (s : PauseWorld) : ∀ e, Decidable (s.SwitchesOff e)
  | .configure _ => inferInstanceAs (Decidable (_ ∧ _ ∧ _))
  | .answer _ _ => inferInstanceAs (Decidable (∃ c ∈ _, _))
  | .tick _ | .land _ | .wake _ => isFalse id

instance (s : PauseWorld) : Decidable s.Clear := inferInstanceAs (Decidable (_ ∧ _))

instance (s : PauseWorld) : ∀ e, Decidable (s.OffInTheClear e)
  | .configure _ => inferInstanceAs (Decidable (_ → _ → _ ∧ ∀ c ∈ s.cycles, _))
  | .tick _ | .land _ | .answer _ _ | .wake _ => inferInstanceAs (Decidable (_ → _ → _ ∧ True))

/-- What happens with no part of the harness in it: time passes, and docker does what it was told. -/
def Outside : PauseEvent → Prop
  | .tick _ | .land _ => True
  | _ => False

theorem Outside.inTheClear (s : PauseWorld) {e : PauseEvent} (h : Outside e) :
    s.OffInTheClear e := by
  intro _ hoff
  cases e with
  | tick | land => exact hoff.elim
  | configure | answer | wake => exact h.elim

/-- Where the pause is off nothing is left of it that its last moment on does not cover. -/
structure Covered (s : PauseWorld) : Prop extends Marked s where
  up : s.on = false → s.down = false
  none : s.on = false → ∀ c ∈ s.cycles, c.phase ≠ .pausing false
  covers : s.on = false → ∀ u ∈ s.upAt, ∃ t, s.service.stoppedAt .db_pause = some t ∧ u ≤ t

theorem covered_initial (now : Int) : Covered (initial now) where
  toMarked := marked_initial now
  up _ := rfl
  none _ := by simp [initial]
  covers _ := by simp [initial]

/-- **What is covered is tagged.** -/
theorem Covered.tagged (h : Covered s) : s.Tagged := by
  intro hunder
  have hactive : .db_pause ∈ s.service.active s.clock := by
    rw [ChaosService.mem_active (by decide)]
    cases hon : s.on with
    | true => exact .inl hon
    | false =>
      rcases hunder with hdown | ⟨u, hu, hwindow⟩
      · rw [h.up hon] at hdown
        cases hdown
      · obtain ⟨t, hstopped, hle⟩ := h.covers hon u hu
        rw [hstopped]
        exact .inr (show s.clock - CHAOS_WINDOW_MS ≤ t by omega)
  exact ⟨hactive, fun store finding hown => ⟨_, Finding.get?_noted hown _, hactive⟩⟩

/-! ### What a step does to the toggle -/

/-- A patch notes the moment just where it puts the pause off. -/
theorem configured_stoppedAt {patch : ChaosConfigDto} {service : ChaosService}
    {cycle : Option PauseCycle} (hs : s.service.Configured patch s.clock service cycle) :
    service.stoppedAt .db_pause =
      if s.on && !(service.modes .db_pause).enabled then some s.clock
      else s.service.stoppedAt .db_pause := by
  rw [hs.stoppedAt, hs.modes, on]
  by_cases hmode : patch.mode = .db_pause
  · rw [hmode, Function.update_self]
    exact ChaosService.switch_stoppedAt
  · rw [Function.update_of_ne (Ne.symm hmode), Bool.and_not_self]
    exact ChaosService.switch_stoppedAt_of_ne (Ne.symm hmode)

/-- **The moment is noted just where a step puts the pause off.** -/
theorem Marked.step_stoppedAt (h : Marked s) (hstep : dbPause.step s e = some s') :
    s'.service.stoppedAt .db_pause =
      if s.on && !s'.on then some s.clock else s.service.stoppedAt .db_pause := by
  have hkept : s'.service.modes = s.service.modes → s'.service.stoppedAt = s.service.stoppedAt →
      s'.service.stoppedAt .db_pause =
        if s.on && !s'.on then some s.clock else s.service.stoppedAt .db_pause := by
    intro hmodes hstopped
    rw [hstopped, show s'.on = s.on from congrArg (fun modes => (modes .db_pause).enabled) hmodes,
      Bool.and_not_self]
    rfl
  cases took_of_step h.one hstep with
  | ticked | refused | pauseLanded | unpauseLanded | paused | woken => exact hkept rfl rfl
  | configured hs => exact configured_stoppedAt hs
  | unpaused | pauseFailed | unpauseFailed => exact ChaosService.finish_stoppedAt ..

/-- The cycles after a step that puts the pause off: a cycle that puts it off has ended. -/
def cyclesAfter (s : PauseWorld) : PauseEvent → List PauseCycle
  | .configure _ => s.cycles
  | _ => []

/-- What a patch leaves the toggle of the pause at. -/
theorem configured_on {patch : ChaosConfigDto} {service : ChaosService}
    {cycle : Option PauseCycle} (hs : s.service.Configured patch s.clock service cycle) :
    (service.modes .db_pause).enabled =
      if patch.mode = .db_pause then patch.enabled.getD s.on else s.on := by
  rw [hs.modes]
  split
  · rename_i hmode
    rw [hmode, Function.update_self, ChaosService.toggled, hmode]
    rfl
  · rename_i hmode
    rw [Function.update_of_ne (Ne.symm hmode)]
    rfl

/-- **A step that puts the pause off** leaves the rest of what it covers as it is. -/
theorem Marked.turned_off (h : Marked s) (hon : s.on = true) (hoff : s'.on = false)
    (hstep : dbPause.step s e = some s') :
    s.SwitchesOff e ∧ s'.clock = s.clock ∧ s'.down = s.down ∧ s'.upAt = s.upAt ∧
      s'.cycles = s.cyclesAfter e := by
  cases took_of_step h.one hstep with
  | ticked | refused | pauseLanded | unpauseLanded | paused | woken => cases hon.symm.trans hoff
  | @configured patch service cycle hs =>
    have hservice : (service.modes .db_pause).enabled = false := hoff
    rcases h.begun hs with ⟨hsame, -⟩ | ⟨c, -, -, -, -, -, hstarted⟩
    · rw [configured_on hs, hon] at hservice
      refine ⟨?_, rfl, rfl, rfl, hsame⟩
      split at hservice
      · rename_i hmode
        refine ⟨hmode, ?_, hs.checked⟩
        cases henabled : patch.enabled with
        | none => rw [henabled] at hservice; cases hservice
        | some enabled => rw [henabled] at hservice; exact congrArg some hservice
      · cases hservice
    · rw [hservice] at hstarted
      cases hstarted
  | unpaused hk hc hphase =>
    exact ⟨⟨_, hk, fun h => by rw [hphase] at h; cases h.1⟩, rfl, rfl, rfl, rfl⟩
  | pauseFailed hk | unpauseFailed hk =>
    exact ⟨⟨_, hk, fun h => by cases h.2⟩, rfl, rfl, rfl, rfl⟩

/-- A step that puts the pause off puts it off. -/
theorem Marked.off_of_switchesOff (h : Marked s) (hsw : s.SwitchesOff e)
    (hstep : dbPause.step s e = some s') : s'.on = false := by
  cases took_of_step h.one hstep with
  | ticked | pauseLanded | unpauseLanded | woken => exact hsw.elim
  | refused hrefused =>
    have hok := hsw.2.2
    rw [ChaosService.isOk_of_error hrefused] at hok
    cases hok
  | configured hs =>
    refine (configured_on hs).trans ?_
    rw [if_pos hsw.1, hsw.2.1]
    rfl
  | paused hk hc hphase =>
    obtain ⟨c, hc', hends⟩ := hsw
    obtain rfl := Option.some.inj (hk.symm.trans hc')
    exact absurd ⟨hphase, rfl⟩ hends
  | unpaused | pauseFailed | unpauseFailed => rfl

/-- **One step keeps it so**, where the pause is put off in the clear. -/
theorem Covered.step (h : Covered s) (hclear : s.OffInTheClear e)
    (hstep : dbPause.step s e = some s') : Covered s' := by
  have hmarked := h.toMarked.step hstep
  cases hoff : s'.on with
  | true =>
    have hvac : s'.on ≠ false := by rw [hoff]; nofun
    exact ⟨hmarked, fun h => absurd h hvac, fun h => absurd h hvac, fun h => absurd h hvac⟩
  | false =>
    have hstopped := h.step_stoppedAt hstep
    cases hon : s.on with
    | true =>
      obtain ⟨hsw, hclock, hdown, hup, hcycles⟩ := h.turned_off hon hoff hstep
      obtain ⟨⟨hdown', hup'⟩, hnone⟩ := hclear hon hsw
      rw [hon, hoff] at hstopped
      refine ⟨hmarked, fun _ => hdown.trans hdown', fun _ c hc => ?_, fun _ u hu => ?_⟩
      · rw [hcycles] at hc
        cases e with
        | configure => exact hnone c hc
        | tick | land | answer | wake => cases hc
      · exact ⟨s.clock, hstopped, hup' u (hup ▸ hu)⟩
    | false =>
      rw [hon] at hstopped
      have hup : s.down ≠ true := by rw [h.up hon]; nofun
      have hmem : ∀ {c}, s.cycles = [c] → c ∈ s.cycles := fun hc => hc ▸ List.mem_singleton_self _
      cases took_of_step h.one hstep with
      | ticked | refused => exact ⟨hmarked, h.up, h.none, h.covers⟩
      | configured hs =>
        rcases h.begun hs with ⟨hsame, -⟩ | ⟨c, -, -, -, -, -, hstarted⟩
        · refine ⟨hmarked, fun _ => h.up hon, fun _ c hc => h.none hon c (hsame ▸ hc), fun _ => ?_⟩
          rw [hstopped]
          exact h.covers hon
        · cases hstarted.symm.trans hoff
      -- a cycle that has yet to unpause the database has it down, or is about to
      | pauseLanded hc hphase => exact absurd hphase (h.none hon _ (hmem hc))
      | unpauseLanded hc hphase => exact absurd (h.down _ (hmem hc) (hphase ▸ rfl)) hup
      | paused _ hc hphase => exact absurd (h.down _ (hmem hc) (hphase ▸ rfl)) hup
      | woken hc hphase => exact absurd (h.down _ (hmem hc) (hphase ▸ rfl)) hup
      | unpaused | pauseFailed | unpauseFailed =>
        refine ⟨hmarked, fun _ => h.up hon, fun _ => nofun, fun _ => ?_⟩
        rw [hstopped]
        exact h.covers hon

/-! ### Where findings go untagged -/

/-- The pause went off just now with some of it left: half a minute on it is not named. -/
theorem untagged_later (hoff : s.on = false)
    (hstopped : s.service.stoppedAt .db_pause = some s.clock)
    (hleft : s.down ∨ ∃ u ∈ s.upAt, s.clock < u) :
    ¬Tagged { s with clock := s.clock + CHAOS_WINDOW_MS + 1 } := by
  intro htagged
  have hunder : UnderPause { s with clock := s.clock + CHAOS_WINDOW_MS + 1 } := by
    rcases hleft with hdown | ⟨u, hu, hlt⟩
    · exact .inl hdown
    · exact .inr ⟨u, hu, show s.clock + CHAOS_WINDOW_MS + 1 ≤ u + CHAOS_WINDOW_MS by omega⟩
  have hactive := (htagged hunder).1
  rw [ChaosService.mem_active (by decide), hstopped] at hactive
  rcases hactive with hon | hwindow
  · cases hoff.symm.trans hon
  · have hle : s.clock + CHAOS_WINDOW_MS + 1 - CHAOS_WINDOW_MS ≤ s.clock := hwindow
    omega

/-- **A step that puts the pause off otherwise** is followed by an untagged finding, whatever the
    harness does. -/
theorem Marked.breaks (h : Marked s) (hbad : ¬s.OffInTheClear e)
    (hstep : dbPause.step s e = some s') :
    ∃ gs s'', (∀ g ∈ gs, Outside g) ∧ dbPause.run s' gs = some s'' ∧ ¬s''.Tagged := by
  obtain ⟨hon, hbad⟩ := Classical.not_imp.mp hbad
  obtain ⟨hsw, hbad⟩ := Classical.not_imp.mp hbad
  have hoff := h.off_of_switchesOff hsw hstep
  obtain ⟨-, hclock, hdown, hup, hcycles⟩ := h.turned_off hon hoff hstep
  have hstopped : s'.service.stoppedAt .db_pause = some s'.clock := by
    rw [h.step_stoppedAt hstep, hon, hoff, hclock]
    rfl
  by_cases hleft : s'.down ∨ ∃ u ∈ s'.upAt, s'.clock < u
  · exact ⟨[.tick (s'.clock + CHAOS_WINDOW_MS + 1)], _, by simp [Outside], rfl,
      untagged_later hoff hstopped hleft⟩
  -- docker is about to pause the database
  · have hclear : s.Clear := by
      rw [hdown, hup, hclock] at hleft
      obtain ⟨hdown', hup'⟩ := not_or.mp hleft
      exact ⟨Bool.eq_false_iff.mpr hdown', fun u hu => le_of_not_gt fun hlt => hup' ⟨u, hu, hlt⟩⟩
    cases e with
    | configure patch =>
      obtain ⟨c, hc, hphase⟩ : ∃ c ∈ s.cycles, c.phase = .pausing false := by
        by_contra hnone
        exact hbad ⟨hclear, fun c hc hphase => hnone ⟨c, hc, hphase⟩⟩
      obtain ⟨k, hk⟩ := List.mem_iff_getElem?.mp (show c ∈ s'.cycles from hcycles ▸ hc)
      have hland : dbPause.step s' (.land k) =
          some { s'.setPhase k c (.pausing true) with down := true } := by
        show s'.cycles[k]?.bind (s'.land k) = _
        rw [hk, Option.bind_some, land, hphase]
      refine ⟨[.land k, .tick (s'.clock + CHAOS_WINDOW_MS + 1)], _, by simp [Outside], ?_,
        untagged_later (s := { s'.setPhase k c (.pausing true) with down := true }) hoff hstopped
          (.inl rfl)⟩
      rw [Machine.run_cons, hland]
      rfl
    | tick | land | answer | wake => exact absurd ⟨hclear, trivial⟩ hbad

/-- **Findings under a pause are tagged**, at the end of every run and whatever happens outside the
    harness after any part of it, just where every step of the run that puts the pause off does so
    in the clear. -/
theorem tagged_iff {now : Int} {es : List PauseEvent}
    (hrun : dbPause.run (initial now) es = some s) :
    dbPause.Along OffInTheClear (initial now) es ↔
      ∀ fs gs s', fs <+: es → (∀ g ∈ gs, Outside g) →
        dbPause.run (initial now) (fs ++ gs) = some s' → s'.Tagged :=
  dbPause.along_iff_of_forall (covered_initial now) Covered.step Covered.tagged
    (fun s _ h => Outside.inTheClear s h) (fun h => h.toMarked.breaks) hrun

/-- A pause of a second, left alone. -/
def leftAlone : List PauseEvent :=
  [.configure ⟨.db_pause, some true, some 1⟩, .land 0, .answer 0 none, .tick 1001000, .wake 0,
    .land 0, .answer 0 none]

/-- Findings are tagged for half a minute after it. -/
theorem tagged_leftAlone : ∃ s, dbPause.run (initial 1000000) leftAlone = some s ∧
    ∀ gs s', (∀ g ∈ gs, Outside g) →
      dbPause.run (initial 1000000) (leftAlone ++ gs) = some s' → s'.Tagged := by
  obtain ⟨s, hs, -⟩ := dbPause.exists_run (initial 1000000) leftAlone (P := fun _ => True)
    (by decide)
  exact ⟨s, hs, fun gs s' => (tagged_iff hs).mp (by decide) leftAlone gs s' (List.prefix_refl _)⟩

/-- A pause of thirty seconds that an operator puts off after one. -/
def putOff : List PauseEvent :=
  [.configure ⟨.db_pause, some true, some 30⟩, .land 0, .answer 0 none, .tick 1001000,
    .configure ⟨.db_pause, some false, none⟩, .tick 1030000, .wake 0, .land 0, .answer 0 none,
    .tick 1031001]

/-- **A finding goes untagged** a second after the database is back. -/
theorem untagged_putOff :
    ¬∀ now es s, dbPause.run (initial now) es = some s → s.Tagged := by
  intro h
  obtain ⟨s, hs, hunder, hinactive⟩ := dbPause.exists_run (initial 1000000) putOff
    (P := fun s => s.UnderPause ∧ .db_pause ∉ s.service.active s.clock) (by decide)
  exact hinactive (h _ _ s hs hunder).1

end PauseWorld

end Cocos.Tools
