import Cocos.Tools.GatewayBooks

namespace Cocos.Tools

open Cocos.Lib

/-!
# What chaos may do

* `Restrained`, `restrained_run` — **no mode ever goes past its ceiling**: no call is held back for
  more than five seconds, and no pause is set for more than thirty;
* `Calm`, `Transparent`, `calm_gateway_transparent` — **where no mode is switched on the gateway is
  transparent**: a row for a call, saying what the target answered, and the caller is given it.
-/

/-! ### Ceilings -/

namespace ChaosService

variable {s s' : ChaosService} {patch : ChaosConfigDto} {now : Int} {cycle : Option PauseCycle}

/-- An intensity that passes its check is between zero and the ceiling of its mode. -/
theorem within_of_check {mode : ChaosMode} {intensity : ℚ} (h : (check mode intensity).isOk) :
    0 ≤ intensity ∧ intensity ≤ ceiling mode := by
  unfold check at h
  split at h
  · cases h
  · rename_i hcond
    rw [not_or, not_lt, not_lt] at hcond
    exact hcond

/-- A cycle that is begun is to last as long as the pause was set to. -/
theorem seconds_of_configure (h : s.configure patch now = .ok (s', cycle)) :
    ∀ c ∈ cycle, patch.mode = .db_pause ∧ c.seconds = (s.toggled patch).intensity := by
  unfold configure at h
  dsimp only at h
  cases hcheck : check patch.mode (patch.intensity.getD (s.modes patch.mode).intensity) with
  | error message =>
    rw [hcheck] at h
    cases h
  | ok _ =>
    rw [hcheck] at h
    replace h := Except.ok.inj h
    split at h
    · rename_i hon
      unfold pauseDb at h
      split at h <;> cases h
      · simp
      · rintro c ⟨⟩
        exact ⟨hon.1, rfl⟩
    · cases h
      simp

end ChaosService

/-- No mode is set past its ceiling, and no pause is set for longer than it may be. -/
structure PauseWorld.Within (s : PauseWorld) : Prop where
  intensity : ∀ mode, 0 ≤ (s.service.modes mode).intensity ∧
    (s.service.modes mode).intensity ≤ ceiling mode
  pauses : ∀ c ∈ s.cycles, 0 ≤ c.seconds ∧ c.seconds ≤ 30

namespace PauseWorld

variable {s s' : PauseWorld} {e : PauseEvent}

theorem within_initial (now : Int) : Within (initial now) where
  intensity := by
    have h : ∀ mode, 0 ≤ (initialModes mode).intensity ∧
        (initialModes mode).intensity ≤ ceiling mode := by
      intro mode
      cases mode
      case response_drop =>
        have hle := toDouble_le (x := 1 / 5) (n := 1) (by norm_num) (by norm_num)
        exact ⟨toDouble_zero ▸ toDouble_mono le_rfl (by norm_num), by exact_mod_cast hle⟩
      all_goals norm_num [initialModes, ceiling]
    exact h
  pauses := by simp [initial]

theorem Within.congr (h : Within s) (hmodes : s'.service.modes = s.service.modes)
    (hcycles : s'.cycles = s.cycles) : Within s' :=
  ⟨hmodes ▸ h.intensity, hcycles ▸ h.pauses⟩

/-- A mode is set to something within its ceiling. -/
theorem Within.update (h : Within s) {mode : ChaosMode} {toggle : ChaosToggle}
    (htoggle : 0 ≤ toggle.intensity ∧ toggle.intensity ≤ ceiling mode) (mode' : ChaosMode) :
    0 ≤ (Function.update s.service.modes mode toggle mode').intensity ∧
      (Function.update s.service.modes mode toggle mode').intensity ≤ ceiling mode' := by
  by_cases hmode : mode' = mode
  · rw [hmode, Function.update_self]
    exact htoggle
  · rw [Function.update_of_ne hmode]
    exact h.intensity mode'

/-- A cycle keeps its length whatever it does. -/
theorem Within.only (h : Within s) {c : PauseCycle} (hc : s.cycles = [c]) (phase : PausePhase) :
    ∀ c' ∈ [{ c with phase := phase }], 0 ≤ c'.seconds ∧ c'.seconds ≤ 30 := by
  rw [List.forall_mem_singleton]
  exact h.pauses c (hc ▸ List.mem_singleton_self c)

/-- **One step keeps within the ceilings.** -/
theorem Within.step (h : Within s) (hmarked : Marked s) (hstep : dbPause.step s e = some s') :
    Within s' := by
  have hseconds : ∀ {c}, s.cycles = [c] → 0 ≤ c.seconds ∧ c.seconds ≤ ceiling .db_pause :=
    fun hc => h.pauses _ (hc ▸ List.mem_singleton_self _)
  cases e with
  | configure patch =>
    simp only [dbPause, PauseWorld.step] at hstep
    split at hstep
    · cases hstep
      exact h
    · rename_i service cycle hok
      cases hstep
      have hset := ChaosService.configured hok
      have hwithin := ChaosService.within_of_check hset.checked
      refine ⟨fun mode => ?_, fun c hc => ?_⟩
      · show 0 ≤ (service.modes mode).intensity ∧ (service.modes mode).intensity ≤ ceiling mode
        rw [hset.modes]
        exact h.update hwithin mode
      · rcases List.mem_append.mp hc with hold | hnew
        · exact h.pauses c hold
        · obtain ⟨hmode, heq⟩ := ChaosService.seconds_of_configure hok c (by simpa using hnew)
          rw [heq]
          rw [hmode] at hwithin
          exact hwithin
  | tick now =>
    cases took_of_step hmarked.one hstep
    exact ⟨h.intensity, h.pauses⟩
  | land k =>
    cases took_of_step hmarked.one hstep with
    | pauseLanded hc | unpauseLanded hc => exact ⟨h.intensity, h.only hc _⟩
  | wake k =>
    cases took_of_step hmarked.one hstep with
    | woken hc => exact ⟨h.intensity, h.only hc _⟩
  | answer k failure =>
    cases took_of_step hmarked.one hstep with
    | paused hk hc => exact ⟨h.intensity, h.only hc _⟩
    | unpaused hk hc | pauseFailed hk hc | unpauseFailed hk hc =>
      exact ⟨h.update (hseconds hc), by simp⟩

end PauseWorld

/-- No mode goes past its ceiling, and no call is held back for longer than it may. -/
structure Restrained (s : GatewayWorld) : Prop where
  within : s.pause.Within
  delays : ∀ c ∈ s.calls, 0 ≤ c.delayedMs ∧ c.delayedMs ≤ 5000

/-- A delay is no longer than the ceiling of its mode. -/
theorem delay_le {modes : ChaosConfig} (h : 0 ≤ (modes .latency_injection).intensity ∧
    (modes .latency_injection).intensity ≤ ceiling .latency_injection) (r : Roll) :
    0 ≤ modes.delay r ∧ modes.delay r ≤ 5000 := by
  obtain ⟨hlow, hhigh⟩ := h
  have hceiling : (modes .latency_injection).intensity ≤ 5000 := hhigh
  unfold ChaosConfig.delay
  dsimp only
  split
  · have hbound : toDouble ((modes .latency_injection).intensity + 1) ≤ (5001 : ℕ) :=
      toDouble_le (by push_cast; linarith) (by norm_num)
    have hnonneg : 0 ≤ toDouble ((modes .latency_injection).intensity + 1) :=
      toDouble_zero ▸ toDouble_mono le_rfl (by linarith)
    refine ⟨r.below_nonneg hnonneg, Int.lt_add_one_iff.mp (Int.floor_lt.mpr ?_)⟩
    -- the product is not rounded up to the bound
    calc toDouble (r.value * toDouble ((modes .latency_injection).intensity + 1))
        ≤ toDouble (r.value * (5001 : ℕ)) :=
          toDouble_mono (mul_nonneg r.nonneg hnonneg) (mul_le_mul_of_nonneg_left hbound r.nonneg)
      _ < (5001 : ℕ) := toDouble_mul_lt r.nonneg r.value_le (by norm_num)
          (toDouble_eq_self (k := 0) (n := 5001) (by norm_num) (by norm_num))
      _ = ((5000 + 1 : Int) : ℚ) := by norm_num
  · exact ⟨le_rfl, by decide⟩

section Gateway

variable {json : EventBody → Body} {s s' : GatewayWorld}

/-- What a call records leaves the settings and the cycles alone. -/
theorem recorded_pause (s : GatewayWorld) (c : Send) (sentAt : Int) (came : Came) (drop : Roll) :
    (s.recorded c sentAt came drop).1.pause.service.modes = s.pause.service.modes ∧
      (s.recorded c sentAt came drop).1.pause.cycles = s.pause.cycles ∧
      (s.recorded c sentAt came drop).1.calls = s.calls := by
  unfold GatewayWorld.recorded
  dsimp only
  split <;> exact ⟨rfl, rfl, rfl⟩

/-- The calls are what they were once the engine has recorded its rows. -/
theorem calls_engine (json : EventBody → Body) (s : GatewayWorld) (pause : PauseWorld) :
    (s.engine json pause).calls = s.calls := by
  have hall : ∀ (rows : List Attempt) (t : GatewayWorld),
      (rows.foldl GatewayWorld.record t).calls = t.calls := by
    intro rows
    induction rows with
    | nil => exact fun _ => rfl
    | cons row rows ih => exact fun t => ih (t.record row)
  exact hall _ _

/-- A call that moves on is held back no longer. -/
theorem Restrained.setCall (h : Restrained s) {j : Nat} {c c' : Send} (hj : s.calls[j]? = some c)
    (hdelay : c'.delayedMs = c.delayedMs) :
    ∀ b ∈ s.calls.set j c', 0 ≤ b.delayedMs ∧ b.delayedMs ≤ 5000 :=
  forall_mem_set h.delays (hdelay ▸ h.delays c (List.mem_of_getElem? hj)) j

/-- The ceilings hold after a step. -/
theorem Restrained.step (h : Restrained s) (horder : InOrder s) {e : GatewayEvent}
    (hstep : (gatewayMachine json).step s e = some s') : Restrained s' := by
  cases GatewayWorld.took_of_step hstep with
  | @begun method path sent key delay hkey =>
    have hdelay := delay_le (h.within.intensity .latency_injection) delay
    unfold GatewayWorld.begun
    dsimp only
    split
    · exact ⟨⟨h.within.intensity, h.within.pauses⟩, forall_mem_concat h.delays hdelay⟩
    · exact ⟨h.within, forall_mem_concat h.delays hdelay⟩
  | posted hj hstage => exact ⟨h.within, h.setCall hj rfl⟩
  | @answered j c sentAt came drop retry hj hstage =>
    obtain ⟨hmodes, hcycles, hcalls⟩ := recorded_pause s c sentAt came drop
    refine ⟨h.within.congr hmodes hcycles, ?_⟩
    show ∀ b ∈ (s.recorded c sentAt came drop).1.calls.set j _, _
    rw [hcalls]
    exact h.setCall hj rfl
  | probed hj hstage => exact ⟨⟨h.within.intensity, h.within.pauses⟩, h.setCall hj rfl⟩
  | @moved e pause hpause =>
    refine ⟨?_, ?_⟩
    · rw [pause_engine]
      exact h.within.step horder.marked hpause
    · rw [calls_engine]
      exact h.delays
  | annotated hj hstage hdetails => exact ⟨h.within, h.delays⟩

/-- **No mode ever goes past its ceiling**, whatever clients configure and whatever docker does. -/
theorem restrained_run {now : Int} {es : List GatewayEvent}
    (hrun : (gatewayMachine json).run (.initial now) es = some s) : Restrained s := by
  have key : InOrder s ∧ Restrained s :=
    (gatewayMachine json).invariant_run (I := fun s => InOrder s ∧ Restrained s)
      (fun h hstep => ⟨h.1.step hstep, h.2.step h.1 hstep⟩)
      ⟨⟨books_initial now, PauseWorld.marked_initial now⟩,
        ⟨PauseWorld.within_initial now, by simp [GatewayWorld.initial]⟩⟩ hrun
  exact key.2

/-- The delay of a run that is set as high as it may be. -/
theorem restrained_run_highest : ∃ s, (gatewayMachine fun _ => DROPPED).run (.initial 0)
    [.engine (.configure ⟨.latency_injection, some true, some 5000⟩),
      .send "GET" "/portfolio/1" none "k" lowest] = some s ∧ Restrained s := by
  obtain ⟨s, hs, -⟩ := (gatewayMachine fun _ => DROPPED).exists_run (.initial 0)
    [.engine (.configure ⟨.latency_injection, some true, some 5000⟩),
      .send "GET" "/portfolio/1" none "k" lowest] (P := fun _ => True) (by decide)
  exact ⟨s, hs, restrained_run hs⟩

end Gateway

/-! ### Nothing switched on -/

/-- Nothing is switched on by it. -/
def PauseEvent.Calm : PauseEvent → Prop
  | .configure patch => patch.enabled ≠ some true
  | _ => True

def GatewayEvent.Calm : GatewayEvent → Prop
  | .engine e => e.Calm
  | _ => True

/-- Every mode is off. -/
def ChaosService.Off (s : ChaosService) : Prop := ∀ mode, (s.modes mode).enabled = false

namespace ChaosService.Off

variable {s : ChaosService}

/-- A mode is set to off. -/
theorem update (h : s.Off) {mode : ChaosMode} {toggle : ChaosToggle}
    (htoggle : toggle.enabled = false) (mode' : ChaosMode) :
    (Function.update s.modes mode toggle mode').enabled = false := by
  by_cases hmode : mode' = mode
  · rw [hmode, Function.update_self]
    exact htoggle
  · rw [Function.update_of_ne hmode]
    exact h mode'

theorem rolls (h : s.Off) (mode : ChaosMode) (r : Roll) : (s.modes mode).rolls r = false := by
  rw [ChaosToggle.rolls, h mode, Bool.false_and]

theorem delay (h : s.Off) (r : Roll) : s.modes.delay r = 0 := by
  show (if (s.modes .latency_injection).enabled then _ else 0) = 0
  rw [h .latency_injection]
  rfl

/-- A step that switches nothing on leaves everything off. -/
theorem step {s s' : PauseWorld} {e : PauseEvent} (h : s.service.Off) (hmarked : s.Marked)
    (hcalm : e.Calm) (hstep : dbPause.step s e = some s') : s'.service.Off := by
  cases PauseWorld.took_of_step hmarked.one hstep with
  | ticked | refused | pauseLanded | unpauseLanded | paused | woken => exact h
  | @configured patch service cycle hset =>
    have htoggled : (s.service.toggled patch).enabled = false := by
      have hcalm : patch.enabled ≠ some true := hcalm
      unfold ChaosService.toggled
      cases henabled : patch.enabled with
      | none => exact h patch.mode
      | some enabled =>
        cases enabled with
        | false => rfl
        | true => exact absurd henabled hcalm
    intro mode
    show (service.modes mode).enabled = false
    rw [hset.modes]
    exact h.update htoggled mode
  | unpaused | pauseFailed | unpauseFailed => exact h.update rfl

end ChaosService.Off

/-- A call that returned gives its caller what came. -/
def Send.Relays (c : Send) : Prop := ∀ result, c.stage = .returned result →
  ∃ came, c.came = some came ∧ result.answer = came.answer ∧ result.placed = came.placed

/-- Chaos has done nothing and is doing nothing. -/
structure Idle (s : GatewayWorld) : Prop where
  off : s.pause.service.Off
  delays : s.counters.delays = 0
  drops : s.counters.drops = 0
  retries : s.counters.retries = 0
  calls : ∀ c ∈ s.calls, c.delayedMs = 0 ∧
    (∀ lost mark sentAt, c.stage ≠ .retrying lost mark sentAt) ∧ c.Relays
  rows : ∀ row ∈ s.log, row.chaos = none

/-- What the gateway records where chaos does nothing. -/
structure Transparent (s : GatewayWorld) : Prop where
  /-- A row for a call, and one for what the engine says of itself. -/
  length : (s.log.length : Int) = s.pause.service.events.length + tally Send.onRecord s.calls
  /-- No row is marked. -/
  rows : ∀ row ∈ s.log, row.chaos = none ∧ row.droppedStatus = none ∧ row.retryOf = none ∧
    row.retriedBy = none
  /-- The caller is given what the target answered, and so says the row. -/
  calls : ∀ c ∈ s.calls, ∀ result, c.stage.result = some result → c.stage = .returned result ∧
    ∃ came, c.came = some came ∧ result.answer = came.answer ∧ result.placed = came.placed ∧
      ∃ row ∈ s.log, FirstRow c result came row ∧ row.status = came.answer.status ∧
        row.body = came.answer.body ∧ row.ok = came.answer.ok ∧ row.delayedMs = none ∧
        row.chaos = none

section Calm

variable {json : EventBody → Body} {s s' : GatewayWorld}

/-- A call that is under way has nothing to give its caller. -/
theorem Send.relays_of_not_returned {c : Send} (h : ∀ result, c.stage ≠ .returned result) :
    c.Relays := fun result hres => absurd hres (h result)

/-- The rows the engine adds are not marked. -/
theorem chaos_engine (json : EventBody → Body) (pause : PauseWorld)
    (h : ∀ row ∈ s.log, row.chaos = none) :
    ∀ row ∈ (s.engine json pause).log, row.chaos = none := by
  have hall : ∀ (rows : List Attempt) (t : GatewayWorld), (∀ row ∈ t.log, row.chaos = none) →
      (∀ row ∈ rows, row.chaos = none) →
      ∀ row ∈ (rows.foldl GatewayWorld.record t).log, row.chaos = none := by
    intro rows
    induction rows with
    | nil => exact fun _ ht _ => ht
    | cons row rows ih =>
      intro t ht hrows
      rw [List.forall_mem_cons] at hrows
      exact ih _ (forall_mem_concat ht hrows.1) hrows.2
  refine hall _ _ h fun row hrow => ?_
  obtain ⟨event, -, rfl⟩ := List.mem_map.mp hrow
  rfl

/-- Nor does a client that annotates its row mark it. -/
theorem chaos_annotate {id : Nat} {details : Details} (hdetails : details.chaos = none)
    (h : ∀ row ∈ s.log, row.chaos = none) :
    ∀ row ∈ (s.annotate id details.write).log, row.chaos = none := by
  intro row hrow
  obtain ⟨old, hold, rfl⟩ := List.mem_map.mp hrow
  split
  · show details.chaos.or old.chaos = none
    rw [hdetails, h old hold]
    rfl
  · exact h old hold

/-- A calm step leaves chaos idle. -/
theorem Idle.step (h : Idle s) (horder : InOrder s) {e : GatewayEvent} (hcalm : e.Calm)
    (hstep : (gatewayMachine json).step s e = some s') : Idle s' := by
  cases GatewayWorld.took_of_step hstep with
  | @begun method path sent key delay hkey =>
    have hdelay : s.modes.delay delay = 0 := h.off.delay delay
    unfold GatewayWorld.begun
    rw [hdelay]
    exact ⟨h.off, h.delays, h.drops, h.retries, forall_mem_concat h.calls
      ⟨rfl, fun _ _ _ hretrying => (by cases hretrying),
        Send.relays_of_not_returned fun _ hres => by cases hres⟩, h.rows⟩
  | @posted j c hj hstage =>
    exact ⟨h.off, h.delays, h.drops, h.retries, forall_mem_set
      (b := { c with stage := .out s.pause.clock }) h.calls
      ⟨(h.calls c (List.mem_of_getElem? hj)).1, fun _ _ _ hretrying => (by cases hretrying),
        Send.relays_of_not_returned fun _ hres => by cases hres⟩ j, h.rows⟩
  | @answered j c sentAt came drop retry hj hstage =>
    have hdrop : ¬s.Drops c came drop := fun hdrop => by
      have hroll : (s.modes .response_drop).rolls drop = true := hdrop.2.2
      rw [show (s.modes .response_drop).rolls drop = false from h.off.rolls _ _] at hroll
      cases hroll
    have hretry : ¬(s.modes .client_retry).rolls retry = true := by
      rw [show (s.modes .client_retry).rolls retry = false from h.off.rolls _ _]
      exact Bool.false_ne_true
    have hdelay := (h.calls c (List.mem_of_getElem? hj)).1
    -- a call that was not held back leaves no mark
    have hmark : c.mark = ⟨none, none, none, none⟩ := by
      rw [Send.mark, hdelay]
      rfl
    unfold GatewayWorld.answered GatewayWorld.recorded
    dsimp only
    rw [if_neg hdrop, if_neg fun hcond => hretry hcond.2.2, hmark]
    exact ⟨h.off, h.delays, h.drops, h.retries, forall_mem_set
      (b := { c with
        stage := .returned ⟨s.store.nextId, came.answer, came.placed⟩, came := some came }) h.calls
      ⟨hdelay, fun _ _ _ hretrying => (by cases hretrying), fun result hres => by
        cases hres
        exact ⟨came, rfl, rfl, rfl⟩⟩ j, forall_mem_concat h.rows rfl⟩
  | probed hj hstage => exact absurd hstage ((h.calls _ (List.mem_of_getElem? hj)).2.1 _ _ _)
  | @moved e pause hpause =>
    have hlogged := PauseWorld.logged_step horder.marked.one hpause
    have hoff := h.off.step horder.marked hcalm hpause
    refine ⟨?_, ?_, ?_, ?_, ?_, chaos_engine json pause h.rows⟩
    · rw [pause_engine]
      exact hoff
    · rw [GatewayWorld.counters, pause_engine]
      exact hlogged.delays.trans h.delays
    · rw [GatewayWorld.counters, pause_engine]
      exact hlogged.drops.trans h.drops
    · rw [GatewayWorld.counters, pause_engine]
      exact hlogged.retries.trans h.retries
    · rw [calls_engine]
      exact h.calls
  | annotated hj hstage hdetails =>
    exact ⟨h.off, h.delays, h.drops, h.retries, h.calls, chaos_annotate hdetails h.rows⟩

/-- Where chaos has done nothing the books say what the target answered. -/
theorem Idle.transparent (h : Idle s) (hbooks : Books s) : Transparent s := by
  have hnone : ∀ row ∈ s.log, row.chaos = none ∧ row.droppedStatus = none ∧ row.retryOf = none ∧
      row.retriedBy = none := fun row hrow => by
    simp [Attempt.droppedStatus, Attempt.retryOf, Attempt.retriedBy, h.rows row hrow]
  refine ⟨?_, hnone, fun c hc result hres => ?_⟩
  · have hlength := hbooks.length
    rw [h.drops, h.retries] at hlength
    omega
  · obtain ⟨hdelay, hstage, hrelays⟩ := h.calls c hc
    have hreturned : c.stage = .returned result := by
      cases hcase : c.stage with
      | held | out =>
        rw [hcase] at hres
        cases hres
      | retrying => exact absurd hcase (hstage _ _ _)
      | returned result' =>
        rw [hcase] at hres
        exact congrArg _ (Option.some.inj hres)
    obtain ⟨came, hcame, hanswer, hplaced⟩ := hrelays result hreturned
    obtain ⟨came', hcame', row, hrow, hfirst⟩ := (hbooks.calls.filed c hc).first result hres
    obtain rfl := Option.some.inj (hcame.symm.trans hcame')
    obtain ⟨hchaos, hdropped, -⟩ := hnone row hrow
    obtain ⟨hbody, hok⟩ := hfirst.answer hdropped
    have hdelayed : row.delayedMs = none := by
      rw [hfirst.delayedMs, Send.mark, hdelay]
      rfl
    exact ⟨hreturned, came, hcame, hanswer, hplaced, row, hrow, hfirst,
      hfirst.told.trans (congrArg _ hanswer), hbody, hok, hdelayed, hchaos⟩

/-- **Where nothing is switched on the gateway is transparent**, in every state such a run
    reaches. -/
theorem calm_gateway_transparent {now : Int} {es : List GatewayEvent} (hcalm : ∀ e ∈ es, e.Calm)
    (hrun : (gatewayMachine json).run (.initial now) es = some s) : Transparent s := by
  have key : InOrder s ∧ Idle s :=
    (gatewayMachine json).invariant_along (I := fun s => InOrder s ∧ Idle s)
      (P := fun _ e => e.Calm)
      (fun h hcalm hstep => ⟨h.1.step hstep, h.2.step h.1 hcalm hstep⟩)
      ⟨⟨books_initial now, PauseWorld.marked_initial now⟩,
        ⟨fun mode => by cases mode <;> rfl, rfl, rfl, rfl, by simp [GatewayWorld.initial],
          by simp [GatewayWorld.initial]⟩⟩
      ((gatewayMachine json).along_of_forall hcalm) hrun
  exact key.2.transparent key.1.toBooks

/-- A placement that is filled, and a mode that is patched but stays off. -/
def undisturbed : List GatewayEvent :=
  [.engine (.configure ⟨.response_drop, none, some 1⟩), .send "POST" "/orders" none "k" lowest,
    .post 0, .answer 0 (.response CREATED none (some 1) (some ⟨1, "FILLED", 5, "10.00"⟩))
      lowest lowest]

/-- Nothing was done to it, and the caller has its order. -/
theorem calm_gateway_transparent_undisturbed : ∃ s,
    (gatewayMachine fun _ => DROPPED).run (.initial 0) undisturbed = some s ∧
      (s.calls.map fun c => c.stage.result.bind (·.placed)) = [some ⟨1, "FILLED", 5, "10.00"⟩] ∧
      Transparent s := by
  obtain ⟨s, hs, hplaced⟩ := (gatewayMachine fun _ => DROPPED).exists_run (.initial 0) undisturbed
    (P := fun s => (s.calls.map fun c => c.stage.result.bind (·.placed)) =
      [some ⟨1, "FILLED", 5, "10.00"⟩]) (by decide)
  exact ⟨s, hs, hplaced, calm_gateway_transparent (by simp [undisturbed, GatewayEvent.Calm,
    PauseEvent.Calm]) hs⟩

end Calm

end Cocos.Tools
