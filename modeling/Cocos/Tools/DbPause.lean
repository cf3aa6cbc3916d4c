import Cocos.Lib.Machine
import Cocos.Tools.Chaos

namespace Cocos.Tools

open Cocos.Lib

/-!
# Pausing the database

`tools/src/chaos/chaos.service.ts`: the toggles, and the cycle of `pauseDb`, which pauses the
database with docker, sleeps, and unpauses it.  Calls to docker take their time, and may fail.

* `ChaosService.configure`, `pauseDb`, `finish`, `onModuleDestroy` — the engine, between two awaits;
* `PauseCycle`, `PausePhase` — a cycle on its way;
* `PauseWorld`, `dbPause` — the engine, its cycles and the database;
* `FailsCleanly` — a docker call that fails has had no effect;
* `never_forgets` — **the harness never forgets a paused database**.
-/

/-! ### The engine -/

def CHAOS_MODES : List ChaosMode := [.latency_injection, .response_drop, .client_retry, .db_pause]

/-- How long after a mode stops it can still be named, in milliseconds. -/
def CHAOS_WINDOW_MS : Int := 30000

structure ChaosCounters where
  delays : Nat
  drops : Nat
  retries : Nat
  pauses : Nat

/-- What a row of the engine says of itself. -/
inductive EventBody
  | toggle (enabled : Bool) (intensity : ℚ)
  | phase (seconds : ℚ) (phase : String)
  | failed (seconds : ℚ) (message : String)

/-- A row the engine records. -/
structure ChaosEvent where
  mode : ChaosMode
  ok : Bool
  body : EventBody
  recordedAt : Int
  latencyMs : Int

/-- The engine, with the rows it has recorded. -/
structure ChaosService where
  modes : ChaosConfig
  counters : ChaosCounters
  stoppedAt : ChaosMode → Option Int
  pausedUntil : Option ℚ
  lastError : Option String
  events : List ChaosEvent

/-- One mode per call, patched onto what is already set. -/
structure ChaosConfigDto where
  mode : ChaosMode
  enabled : Option Bool
  intensity : Option ℚ

/-- Where a cycle stands: docker is pausing or unpausing the database, and may have done so
    already, or the cycle sleeps. -/
inductive PausePhase
  | pausing (landed : Bool)
  | sleeping
  | unpausing (landed : Bool)
deriving DecidableEq, Repr

/-- A cycle of `pauseDb` after its first await. -/
structure PauseCycle where
  seconds : ℚ
  startedAt : Int
  phase : PausePhase

inductive ComposeAction
  | pause
  | unpause
deriving DecidableEq, Repr

/-- The call to docker a cycle waits for. -/
def PausePhase.inFlight : PausePhase → Option ComposeAction
  | .pausing _ => some .pause
  | .sleeping => none
  | .unpausing _ => some .unpause

/-- The database is paused, as far as docker has done what it was told. -/
def PausePhase.down : PausePhase → Bool
  | .pausing landed => landed
  | .sleeping => true
  | .unpausing landed => !landed

theorem PausePhase.down_of_inFlight {phase : PausePhase} (h : phase.inFlight = none) :
    phase.down := by
  cases phase with
  | sleeping => rfl
  | pausing | unpausing => cases h

namespace ChaosService

/-- Everything off. -/
def initial : ChaosService := ⟨initialModes, ⟨0, 0, 0, 0⟩, fun _ => none, none, none, []⟩

/-- The modes that are on, or were within the window. -/
def active (s : ChaosService) (now : Int) : List ChaosMode :=
  CHAOS_MODES.filter fun mode =>
    (s.modes mode).enabled || decide (now - CHAOS_WINDOW_MS ≤ (s.stoppedAt mode).getD 0)

def event (s : ChaosService) (event : ChaosEvent) : ChaosService :=
  { s with events := s.events ++ [event] }

/-- Sets a mode, and notes the moment if that puts it off. -/
def switch (s : ChaosService) (mode : ChaosMode) (toggle : ChaosToggle) (now : Int) :
    ChaosService :=
  { s with
    stoppedAt := if (s.modes mode).enabled && !toggle.enabled then
      Function.update s.stoppedAt mode (some now) else s.stoppedAt
    modes := Function.update s.modes mode toggle }

/-- Each mode holds its own intensity to its own ceiling. -/
def check (mode : ChaosMode) (intensity : ℚ) : Except String Unit :=
  if intensity < 0 ∨ ceiling mode < intensity then
    throw (mode.text ++ " takes an intensity between 0 and " ++ toString (ceiling mode))
  else pure ()

/-- `pauseDb`, up to its first await; a second cycle is not begun beside the first. -/
def pauseDb (s : ChaosService) (seconds : ℚ) (now : Int) : ChaosService × Option PauseCycle :=
  if s.pausedUntil.isSome then (s, none)
  else ({ s with
    pausedUntil := some (now + seconds * 1000)
    counters := { s.counters with pauses := s.counters.pauses + 1 } },
    some ⟨seconds, now, .pausing false⟩)

/-- Patches a mode; switching the pause on runs one. -/
def configure (s : ChaosService) (patch : ChaosConfigDto) (now : Int) :
    Except String (ChaosService × Option PauseCycle) := do
  let current := s.modes patch.mode
  let intensity := patch.intensity.getD current.intensity
  let enabled := patch.enabled.getD current.enabled
  check patch.mode intensity
  let s := (s.switch patch.mode ⟨enabled, intensity⟩ now).event
    ⟨patch.mode, true, .toggle enabled intensity, now, 0⟩
  return if patch.mode = .db_pause ∧ enabled then s.pauseDb intensity now else (s, none)

/-- The `finally` of `pauseDb`: the mark stays where the database is still down. -/
def finish (s : ChaosService) (seconds : ℚ) (down : Bool) (now : Int) : ChaosService :=
  { s with pausedUntil := if down then s.pausedUntil else none }.switch .db_pause
    ⟨false, seconds⟩ now

/-- `pauseDb` once docker has paused the database. -/
def paused (s : ChaosService) (seconds : ℚ) (now : Int) : ChaosService :=
  s.event ⟨.db_pause, true, .phase seconds "paused", now, 0⟩

/-- `pauseDb` once docker has unpaused the database. -/
def unpaused (s : ChaosService) (seconds : ℚ) (startedAt now : Int) : ChaosService :=
  (s.event ⟨.db_pause, true, .phase seconds "unpaused", now, now - startedAt⟩).finish seconds
    false now

/-- `pauseDb` once docker has failed. -/
def failed (s : ChaosService) (seconds : ℚ) (down : Bool) (message : String) (now : Int) :
    ChaosService :=
  ({ s with lastError := some message }.event
    ⟨.db_pause, false, .failed seconds message, now, 0⟩).finish seconds down now

/-- The last thing the engine does is to undo a pause. -/
def onModuleDestroy (s : ChaosService) : Option ComposeAction :=
  if s.pausedUntil.isSome then some .unpause else none

variable {s s' : ChaosService} {patch : ChaosConfigDto} {now : Int} {cycle : Option PauseCycle}

/-- What a patch sets its mode to. -/
def toggled (s : ChaosService) (patch : ChaosConfigDto) : ChaosToggle :=
  ⟨patch.enabled.getD (s.modes patch.mode).enabled,
    patch.intensity.getD (s.modes patch.mode).intensity⟩

/-- What `configure` does where it does not refuse: the mode is switched, and a cycle is begun only
    where no mark stands, and leaves one. -/
structure Configured (s : ChaosService) (patch : ChaosConfigDto) (now : Int) (s' : ChaosService)
    (cycle : Option PauseCycle) : Prop where
  checked : (check patch.mode (s.toggled patch).intensity).isOk
  modes : s'.modes = Function.update s.modes patch.mode (s.toggled patch)
  stoppedAt : s'.stoppedAt = (s.switch patch.mode (s.toggled patch) now).stoppedAt
  unmarked : cycle = none → s'.pausedUntil = s.pausedUntil
  begun : ∀ c, cycle = some c → s.pausedUntil = none ∧ s'.pausedUntil.isSome ∧
    c.phase = .pausing false ∧ (s'.modes .db_pause).enabled

/-- What is refused is refused by the check. -/
theorem isOk_of_error {message : String} (h : s.configure patch now = .error message) :
    (check patch.mode (s.toggled patch).intensity).isOk = false := by
  unfold configure at h
  dsimp only at h
  cases hcheck : check patch.mode (patch.intensity.getD (s.modes patch.mode).intensity) with
  | error message => exact congrArg Except.isOk hcheck
  | ok _ =>
    rw [hcheck] at h
    cases h

theorem configured (h : s.configure patch now = .ok (s', cycle)) :
    s.Configured patch now s' cycle := by
  unfold configure at h
  dsimp only at h
  cases hcheck : check patch.mode (patch.intensity.getD (s.modes patch.mode).intensity) with
  | error message =>
    rw [hcheck] at h
    cases h
  | ok _ =>
    rw [hcheck] at h
    have hchecked : (check patch.mode (s.toggled patch).intensity).isOk :=
      congrArg Except.isOk hcheck
    replace h := Except.ok.inj h
    split at h
    · rename_i hon
      unfold pauseDb at h
      split at h
      · cases h
        exact ⟨hchecked, rfl, rfl, fun _ => rfl, nofun⟩
      · rename_i hmark
        cases h
        refine ⟨hchecked, rfl, rfl, nofun, fun c hc => ?_⟩
        cases hc
        refine ⟨Option.not_isSome_iff_eq_none.mp hmark, rfl, rfl, ?_⟩
        show (Function.update s.modes patch.mode (s.toggled patch) .db_pause).enabled = true
        rw [← hon.1, Function.update_self]
        exact hon.2
    · cases h
      exact ⟨hchecked, rfl, rfl, fun _ => rfl, nofun⟩

end ChaosService

/-! ### The engine and the database -/

/-- The engine, its cycles and the clock; whether the harness has paused the database, and, read by
    nobody, the moments at which it was unpaused. -/
structure PauseWorld where
  service : ChaosService
  cycles : List PauseCycle
  clock : Int
  down : Bool
  upAt : List Int

/-- The clock shows something else, a client configures a mode, docker carries out the call of a
    cycle, docker answers it, with a message where it failed, or a cycle wakes. -/
inductive PauseEvent
  | tick (now : Int)
  | configure (patch : ChaosConfigDto)
  | land (k : Nat)
  | answer (k : Nat) (failure : Option String)
  | wake (k : Nat)

namespace PauseWorld

/-- A harness just started, at some moment. -/
def initial (now : Int) : PauseWorld := ⟨.initial, [], now, false, []⟩

/-- A cycle moves on. -/
def setPhase (s : PauseWorld) (k : Nat) (c : PauseCycle) (phase : PausePhase) : PauseWorld :=
  { s with cycles := s.cycles.set k { c with phase := phase } }

/-- Docker carries out the call of a cycle. -/
def land (s : PauseWorld) (k : Nat) (c : PauseCycle) : Option PauseWorld :=
  match c.phase with
  | .pausing false => some { s.setPhase k c (.pausing true) with down := true }
  | .unpausing false => some { s.setPhase k c (.unpausing true) with
      down := false
      upAt := s.clock :: s.upAt }
  | _ => none

/-- Docker answers the call of a cycle; an answer that it is done comes after it is. -/
def answer (s : PauseWorld) (k : Nat) (c : PauseCycle) : Option String → Option PauseWorld
  | none =>
    match c.phase with
    | .pausing true => some { s.setPhase k c .sleeping with
        service := s.service.paused c.seconds s.clock }
    | .unpausing true => some { s with
        service := s.service.unpaused c.seconds c.startedAt s.clock
        cycles := s.cycles.eraseIdx k }
    | _ => none
  | some message =>
    match c.phase with
    | .pausing _ => some { s with
        service := s.service.failed c.seconds false message s.clock
        cycles := s.cycles.eraseIdx k }
    | .unpausing _ => some { s with
        service := s.service.failed c.seconds true message s.clock
        cycles := s.cycles.eraseIdx k }
    | .sleeping => none

/-- A cycle has slept, and has docker unpause the database. -/
def wake (s : PauseWorld) (k : Nat) (c : PauseCycle) : Option PauseWorld :=
  match c.phase with
  | .sleeping => some (s.setPhase k c (.unpausing false))
  | _ => none

/-- One step, `none` where the cycle is not there or does not wait for this. -/
def step (s : PauseWorld) : PauseEvent → Option PauseWorld
  | .tick now => some { s with clock := now }
  | .configure patch =>
    match s.service.configure patch s.clock with
    | .error _ => some s
    | .ok (service, cycle) => some { s with
        service := service
        cycles := s.cycles ++ cycle.toList }
  | .land k => s.cycles[k]?.bind (s.land k)
  | .answer k failure => s.cycles[k]?.bind (s.answer k · failure)
  | .wake k => s.cycles[k]?.bind (s.wake k)

end PauseWorld

/-- The machine of the engine and the database. -/
def dbPause : Machine PauseWorld PauseEvent := ⟨PauseWorld.step⟩

namespace PauseWorld

variable {s s' : PauseWorld} {e : PauseEvent}

/-- All a step can do, where there is one cycle at most. -/
inductive Took (s : PauseWorld) : PauseEvent → PauseWorld → Prop
  | ticked {now} : Took s (.tick now) { s with clock := now }
  | refused {patch message} (h : s.service.configure patch s.clock = .error message) :
      Took s (.configure patch) s
  | configured {patch service cycle} (h : s.service.Configured patch s.clock service cycle) :
      Took s (.configure patch) { s with service := service, cycles := s.cycles ++ cycle.toList }
  | pauseLanded {k c} (hc : s.cycles = [c]) (hphase : c.phase = .pausing false) :
      Took s (.land k) { s with cycles := [{ c with phase := .pausing true }], down := true }
  | unpauseLanded {k c} (hc : s.cycles = [c]) (hphase : c.phase = .unpausing false) :
      Took s (.land k) { s with
        cycles := [{ c with phase := .unpausing true }], down := false, upAt := s.clock :: s.upAt }
  | paused {k c} (hk : s.cycles[k]? = some c) (hc : s.cycles = [c])
      (hphase : c.phase = .pausing true) :
      Took s (.answer k none) { s with
        service := s.service.paused c.seconds s.clock, cycles := [{ c with phase := .sleeping }] }
  | woken {k c} (hc : s.cycles = [c]) (hphase : c.phase = .sleeping) :
      Took s (.wake k) { s with cycles := [{ c with phase := .unpausing false }] }
  | unpaused {k c} (hk : s.cycles[k]? = some c) (hc : s.cycles = [c])
      (hphase : c.phase = .unpausing true) :
      Took s (.answer k none) { s with
        service := s.service.unpaused c.seconds c.startedAt s.clock, cycles := [] }
  | pauseFailed {k c landed message} (hk : s.cycles[k]? = some c) (hc : s.cycles = [c])
      (hphase : c.phase = .pausing landed) :
      Took s (.answer k (some message)) { s with
        service := s.service.failed c.seconds false message s.clock, cycles := [] }
  | unpauseFailed {k c landed message} (hk : s.cycles[k]? = some c) (hc : s.cycles = [c])
      (hphase : c.phase = .unpausing landed) :
      Took s (.answer k (some message)) { s with
        service := s.service.failed c.seconds true message s.clock, cycles := [] }

/-- The one cycle there is. -/
theorem cycle_eq {cycles : List PauseCycle} (hone : cycles.length ≤ 1) {k : Nat} {c : PauseCycle}
    (hk : cycles[k]? = some c) : k = 0 ∧ cycles = [c] := by
  obtain ⟨hlt, hget⟩ := List.getElem?_eq_some_iff.mp hk
  obtain rfl : k = 0 := by omega
  obtain ⟨a, rfl⟩ := List.length_eq_one_iff.mp (show cycles.length = 1 by omega)
  exact ⟨rfl, congrArg (fun c => [c]) hget⟩

/-- **All a step can do.** -/
theorem took_of_step (hone : s.cycles.length ≤ 1) (h : dbPause.step s e = some s') :
    Took s e s' := by
  cases e with
  | tick now =>
    cases h
    exact .ticked
  | configure patch =>
    simp only [dbPause, step] at h
    split at h
    · rename_i hrefused
      cases h
      exact .refused hrefused
    · rename_i hok
      cases h
      exact .configured (ChaosService.configured hok)
  | land k =>
    obtain ⟨c, hk, h⟩ := Option.bind_eq_some_iff.mp h
    obtain ⟨rfl, hc⟩ := cycle_eq hone hk
    unfold land setPhase at h
    rw [hc] at h
    split at h <;> cases h
    · exact .pauseLanded hc ‹_›
    · exact .unpauseLanded hc ‹_›
  | answer k failure =>
    obtain ⟨c, hk, h⟩ := Option.bind_eq_some_iff.mp h
    obtain ⟨rfl, hc⟩ := cycle_eq hone hk
    unfold answer setPhase at h
    rw [hc] at h
    cases failure with
    | none =>
      dsimp only at h
      split at h <;> cases h
      · exact .paused hk hc ‹_›
      · exact .unpaused hk hc ‹_›
    | some message =>
      dsimp only at h
      split at h <;> cases h
      · exact .pauseFailed hk hc ‹_›
      · exact .unpauseFailed hk hc ‹_›
  | wake k =>
    obtain ⟨c, hk, h⟩ := Option.bind_eq_some_iff.mp h
    obtain ⟨rfl, hc⟩ := cycle_eq hone hk
    unfold wake setPhase at h
    rw [hc] at h
    split at h <;> cases h
    exact .woken hc ‹_›

/-- There is one cycle at most, and a mark while there is; and where the cycle has the database
    down, it is. -/
structure Marked (s : PauseWorld) : Prop where
  one : s.cycles.length ≤ 1
  marked : ∀ c ∈ s.cycles, s.service.pausedUntil.isSome
  down : ∀ c ∈ s.cycles, c.phase.down → s.down

theorem marked_initial (now : Int) : Marked (initial now) where
  one := Nat.zero_le 1
  marked := by simp [initial]
  down := by simp [initial]

/-- A state whose only cycle is `c`. -/
theorem Marked.only {c : PauseCycle} (hcycles : s.cycles = [c])
    (hmark : s.service.pausedUntil.isSome) (hdown : c.phase.down → s.down) : Marked s where
  one := by rw [hcycles, List.length_singleton]
  marked _ _ := hmark
  down c' hc' := by
    rw [hcycles, List.mem_singleton] at hc'
    exact hc' ▸ hdown

theorem Marked.none (hcycles : s.cycles = []) : Marked s where
  one := by rw [hcycles]; exact Nat.zero_le 1
  marked c hc := by rw [hcycles] at hc; cases hc
  down c hc := by rw [hcycles] at hc; cases hc

/-- No cycle is begun beside another. -/
theorem Marked.begun (h : Marked s) {patch : ChaosConfigDto} {service : ChaosService}
    {cycle : Option PauseCycle} (hs : s.service.Configured patch s.clock service cycle) :
    s.cycles ++ cycle.toList = s.cycles ∧ service.pausedUntil = s.service.pausedUntil ∨
      ∃ c, s.cycles = [] ∧ s.cycles ++ cycle.toList = [c] ∧ c.phase = .pausing false ∧
        s.service.pausedUntil = .none ∧ service.pausedUntil.isSome ∧
        (service.modes .db_pause).enabled := by
  cases cycle with
  | none => exact .inl ⟨List.append_nil _, hs.unmarked rfl⟩
  | some c =>
    obtain ⟨hclear, hmark, hphase, hon⟩ := hs.begun c rfl
    have hnil : s.cycles = [] := List.eq_nil_iff_forall_not_mem.mpr fun c' hc' => by
      have hmarked := h.marked c' hc'
      rw [hclear] at hmarked
      cases hmarked
    exact .inr ⟨c, hnil, by rw [hnil]; rfl, hphase, hclear, hmark, hon⟩

/-- **One step keeps it so.** -/
theorem Marked.step (h : Marked s) (hstep : dbPause.step s e = some s') : Marked s' := by
  cases took_of_step h.one hstep with
  | ticked => exact ⟨h.one, h.marked, h.down⟩
  | refused => exact h
  | configured hs =>
    rcases h.begun hs with ⟨hsame, hmark⟩ | ⟨c, -, hcycles, hphase, -, hmark, -⟩
    · constructor
      · exact hsame.symm ▸ h.one
      · exact fun c hc => hmark.symm ▸ h.marked c (hsame ▸ hc)
      · exact fun c hc => h.down c (hsame ▸ hc)
    · refine .only hcycles hmark fun hdown => ?_
      rw [hphase] at hdown
      cases hdown
  | pauseLanded hc _ => exact .only rfl (h.marked _ (hc ▸ List.mem_singleton_self _)) fun _ => rfl
  | unpauseLanded hc _ => exact .only rfl (h.marked _ (hc ▸ List.mem_singleton_self _)) nofun
  | paused _ hc hphase =>
    have hmem := hc ▸ List.mem_singleton_self _
    exact .only rfl (h.marked _ hmem) fun _ => h.down _ hmem (hphase ▸ rfl)
  | woken hc hphase =>
    have hmem := hc ▸ List.mem_singleton_self _
    exact .only rfl (h.marked _ hmem) fun _ => h.down _ hmem (hphase ▸ rfl)
  | unpaused | pauseFailed | unpauseFailed => exact .none rfl

end PauseWorld

/-- A docker call that fails has had no effect. -/
def FailsCleanly (s : PauseWorld) : PauseEvent → Prop
  | .answer k (some _) =>
    ∀ c ∈ s.cycles[k]?, c.phase ≠ .pausing true ∧ c.phase ≠ .unpausing true
  | _ => True

instance (s : PauseWorld) : ∀ e, Decidable (FailsCleanly s e)
  | .answer _ (some _) => inferInstanceAs (Decidable (∀ c ∈ _, _))
  | .answer _ none | .tick _ | .configure _ | .land _ | .wake _ => isTrue trivial

namespace PauseWorld

variable {s s' : PauseWorld} {e : PauseEvent}

/-- The mark says what the database is doing, between the calls to docker. -/
structure Known (s : PauseWorld) : Prop extends Marked s where
  up : ∀ c ∈ s.cycles, c.phase.down = false → s.down = false
  quiet : s.cycles = [] → (s.service.pausedUntil.isSome ↔ s.down)

theorem known_initial (now : Int) : Known (initial now) where
  toMarked := marked_initial now
  up := by simp [initial]
  quiet _ := by simp [initial, ChaosService.initial]

theorem Known.phase (h : Known s) {c : PauseCycle} (hc : s.cycles = [c]) :
    s.down = c.phase.down := by
  have hmem : c ∈ s.cycles := hc ▸ List.mem_singleton_self _
  cases hphase : c.phase.down with
  | false => exact h.up c hmem hphase
  | true => exact h.down c hmem hphase

theorem Known.only {c : PauseCycle} (hcycles : s.cycles = [c])
    (hmark : s.service.pausedUntil.isSome) (hphase : s.down = c.phase.down) : Known s where
  toMarked := .only hcycles hmark hphase.trans
  up c' hc' := by
    rw [hcycles, List.mem_singleton] at hc'
    exact hc' ▸ hphase.trans
  quiet hnil := by
    rw [hcycles] at hnil
    cases hnil

theorem Known.none (hcycles : s.cycles = []) (hquiet : s.service.pausedUntil.isSome ↔ s.down) :
    Known s where
  toMarked := .none hcycles
  up c hc := by rw [hcycles] at hc; cases hc
  quiet _ := hquiet

/-- **One step keeps it so**, where docker fails cleanly. -/
theorem Known.step (h : Known s) (hclean : FailsCleanly s e) (hstep : dbPause.step s e = some s') :
    Known s' := by
  have hmarked := h.toMarked.step hstep
  cases took_of_step h.one hstep with
  | ticked => exact ⟨hmarked, h.up, h.quiet⟩
  | refused => exact h
  | configured hs =>
    rcases h.begun hs with ⟨hsame, hmark⟩ | ⟨c, hnil, hcycles, hphase, hclear, hmark, -⟩
    · refine ⟨hmarked, fun c hc => h.up c (hsame ▸ hc), fun hnil => ?_⟩
      rw [show Option.isSome _ = _ from congrArg Option.isSome hmark]
      exact h.quiet (hsame ▸ hnil)
    -- the database is up when a cycle begins
    · refine .only hcycles hmark ?_
      rw [hphase]
      show s.down = false
      have hquiet := h.quiet hnil
      rw [hclear] at hquiet
      exact Bool.eq_false_iff.mpr fun hdown => by cases hquiet.mpr hdown
  | pauseLanded hc hphase => exact .only rfl (h.marked _ (hc ▸ List.mem_singleton_self _)) rfl
  | unpauseLanded hc hphase => exact .only rfl (h.marked _ (hc ▸ List.mem_singleton_self _)) rfl
  | paused _ hc hphase =>
    exact .only rfl (h.marked _ (hc ▸ List.mem_singleton_self _))
      ((h.phase hc).trans (hphase ▸ rfl))
  | woken hc hphase =>
    exact .only rfl (h.marked _ (hc ▸ List.mem_singleton_self _))
      ((h.phase hc).trans (hphase ▸ rfl))
  | unpaused _ hc hphase =>
    have hup : s.down = false := (h.phase hc).trans (hphase ▸ rfl)
    exact .none rfl (iff_of_false nofun (Bool.eq_false_iff.mp hup))
  | pauseFailed hk hc hphase =>
    have hlanded := (hclean _ hk).1
    rw [hphase, ne_eq, PausePhase.pausing.injEq, Bool.not_eq_true] at hlanded
    have hup : s.down = false := (h.phase hc).trans (hphase ▸ hlanded)
    exact .none rfl (iff_of_false nofun (Bool.eq_false_iff.mp hup))
  | unpauseFailed hk hc hphase =>
    have hlanded := (hclean _ hk).2
    rw [hphase, ne_eq, PausePhase.unpausing.injEq, Bool.not_eq_true] at hlanded
    have hdown : s.down = true := (h.phase hc).trans (by rw [hphase, hlanded]; rfl)
    exact .none rfl (iff_of_true (h.marked _ (hc ▸ List.mem_singleton_self _)) hdown)

/-- No call to docker is in flight. -/
def Quiet (s : PauseWorld) : Prop := ∀ c ∈ s.cycles, c.phase.inFlight = none

/-- **The harness never forgets a paused database.**  Where a docker call that fails has had no
    effect, there is never more than one cycle in progress; while the database is paused the mark
    stands; and while no call is in flight the mark stands just when the database is paused, so
    that a shutdown unpauses it just when it is. -/
theorem never_forgets {now : Int} {es : List PauseEvent}
    (hrun : dbPause.run (initial now) es = some s)
    (hclean : dbPause.Along FailsCleanly (initial now) es) :
    s.cycles.length ≤ 1 ∧ (s.down → s.service.pausedUntil.isSome) ∧
      (s.Quiet → ((s.service.pausedUntil.isSome ↔ s.down) ∧
        (s.service.onModuleDestroy = some .unpause ↔ s.down))) := by
  have h : Known s := dbPause.invariant_along Known.step (known_initial now) hclean hrun
  have hshutdown : s.service.onModuleDestroy = some .unpause ↔ s.service.pausedUntil.isSome := by
    unfold ChaosService.onModuleDestroy
    split
    · exact iff_of_true rfl ‹_›
    · exact iff_of_false nofun ‹_›
  rcases List.eq_nil_or_concat' s.cycles with hnil | ⟨rest, c, hcons⟩
  · have hquiet := h.quiet hnil
    exact ⟨h.one, hquiet.mpr, fun _ => ⟨hquiet, hshutdown.trans hquiet⟩⟩
  · have hmem : c ∈ s.cycles := hcons ▸ List.mem_concat_self
    have hmark := h.marked c hmem
    refine ⟨h.one, fun _ => hmark, fun hquiet => ?_⟩
    -- the cycle sleeps
    have hdown := h.down c hmem (PausePhase.down_of_inFlight (hquiet c hmem))
    exact ⟨iff_of_true hmark hdown, iff_of_true (hshutdown.mpr hmark) hdown⟩

/-- A pause that docker does not undo. -/
def stuck : List PauseEvent :=
  [.configure ⟨.db_pause, some true, some 0⟩, .land 0, .answer 0 none, .wake 0,
    .answer 0 (some "unpause refused")]

/-- The database is still paused, and a shutdown tries again. -/
theorem never_forgets_stuck : ∃ s, dbPause.run (initial 0) stuck = some s ∧ s.down ∧
    s.service.onModuleDestroy = some .unpause := by
  obtain ⟨s, hs, hdown, hnone⟩ := dbPause.exists_run (initial 0) stuck
    (P := fun s => s.down ∧ s.cycles.length = 0) (by decide)
  have hquiet : s.Quiet := fun c hc => by
    rw [List.length_eq_zero_iff.mp hnone] at hc
    cases hc
  have h := never_forgets hs (by decide)
  exact ⟨s, hs, hdown, (h.2.2 hquiet).2.mpr hdown⟩

end PauseWorld

end Cocos.Tools
