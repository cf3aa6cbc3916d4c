import Mathlib.Data.Rat.Defs
import Mathlib.Data.List.Basic
import Mathlib.Logic.Function.Basic
import Cocos.Lib.Double
import Cocos.Lib.Machine
import Cocos.Thrown

namespace Cocos.Tools

open Cocos.Lib

/-!
# The timer of the order loop

`SimulationService` has one slot for the interval that sends its orders, and four calls that take
the loop down, wait for portfolios to be read, and put it up again.

* `Loop` — the slot, the intervals that are live, the configuration and the calls under way;
* `start`, `stop`, `configure`, `reset`, `prepare` — the calls up to where they wait, and
  `resume` — what each does when its reads are in;
* `OneLoop` — one interval at most, none once the loop is down or stopped;
* `Loop.Undisturbed` — a call that puts the loop up again finds the slot empty and the loop not
  taken down meanwhile;
* `one_loop` — **while every call is undisturbed there is one loop**, and the first that is not
  leaves two, or one that outlives its stop.

The window a start opens in the history and the counters of the loop are not part of this: no
call decides anything by them.
-/

/-! ### The state -/

/-- What the loop sends, and whether it is up. -/
structure SimulationConfig where
  ratePerSec : ℚ
  users : List Int
  buyRatio : ℚ
  sizeMin : Int
  sizeMax : Int
  running : Bool

/-- The knobs a call may override. -/
structure StartSimulationDto where
  ratePerSec : Option ℚ
  users : Option (List Int)
  buyRatio : Option ℚ
  sizeMin : Option Int
  sizeMax : Option Int

/-- The configuration with the knobs overridden. -/
def StartSimulationDto.over (overrides : StartSimulationDto) (config : SimulationConfig)
    (running : Bool) : SimulationConfig where
  ratePerSec := overrides.ratePerSec.getD config.ratePerSec
  users := overrides.users.getD config.users
  buyRatio := overrides.buyRatio.getD config.buyRatio
  sizeMin := overrides.sizeMin.getD config.sizeMin
  sizeMax := overrides.sizeMax.getD config.sizeMax
  running := running

/-- The calls that wait for portfolios, with the configuration some of them keep meanwhile. -/
inductive Op
  | start (config : SimulationConfig)
  | configure (config : SimulationConfig)
  | reset
  | prepare

/-- How far a call has got. -/
inductive CallPhase
  /-- The portfolios of these users are not read yet; `seeded` have been installed. -/
  | seeding (generation : Nat) (awaiting : List Int) (seeded : Nat)
  | returned
  | threw (thrown : Thrown)

structure Call where
  op : Op
  phase : CallPhase

/-- The service: its configuration and its slot, the handles of the intervals that are live, how
    many were made, the generation of the shadow, and the calls by number. -/
structure Loop where
  config : SimulationConfig
  timer : Option Nat
  live : List Nat
  made : Nat
  generation : Nat
  calls : Nat → Option Call
  /-- A stop was called, and no start was accepted since.  No call reads it: it is here for what
      is said of a stop. -/
  stopped : Bool

namespace Loop

/-- The service with call `c` as given. -/
def put (s : Loop) (c : Nat) (call : Call) : Loop :=
  { s with calls := Function.update s.calls c (some call) }

/-- `setInterval`, into the slot. -/
def run (s : Loop) : Loop :=
  { s with timer := some s.made, live := s.made :: s.live, made := s.made + 1 }

/-- `clearInterval`, of what is in the slot. -/
def clearTimer (s : Loop) : Loop :=
  match s.timer with
  | some timer => { s with timer := none, live := s.live.erase timer }
  | none => s

/-- A new generation of the shadow, and a portfolio asked for each user. -/
def seedUsers (s : Loop) (c : Nat) (op : Op) (users : List Int) : Loop :=
  { s with generation := s.generation + 1 }.put c ⟨op, .seeding (s.generation + 1) users 0⟩

/-- What a call of inverted sizes throws. -/
def invertedSizes : Thrown := .badRequest "sizeMin must not exceed sizeMax"

/-- `start`, up to its wait. -/
def start (s : Loop) (c : Nat) (overrides : StartSimulationDto) : Loop :=
  let config := overrides.over s.config false
  if config.sizeMin > config.sizeMax then s.put c ⟨.start config, .threw invertedSizes⟩
  else { s.clearTimer with config := config, stopped := false }.seedUsers c (.start config)
    config.users

/-- `stop`, which does not wait. -/
def stop (s : Loop) : Loop :=
  { s.clearTimer with config := { s.config with running := false }, stopped := true }

/-- `configure`, up to its wait; it does not wait where the users are the same. -/
def configure (s : Loop) (c : Nat) (overrides : StartSimulationDto) : Loop :=
  let config := overrides.over s.config s.config.running
  if config.sizeMin > config.sizeMax then s.put c ⟨.configure config, .threw invertedSizes⟩
  else
    let down := { s.clearTimer with config := config }
    if config.users = s.config.users then
      (if config.running then down.run else down).put c ⟨.configure config, .returned⟩
    else down.seedUsers c (.configure config) config.users

/-- `reset`, up to its wait. -/
def reset (s : Loop) (c : Nat) : Loop := s.clearTimer.seedUsers c .reset s.config.users

/-- `prepare`, up to its wait. -/
def prepare (s : Loop) (c : Nat) (userIds : List Int) : Loop :=
  s.clearTimer.seedUsers c .prepare (s.config.users ++ userIds).eraseDups

/-- What a start throws that no portfolio came to. -/
def noShadow (config : SimulationConfig) : Thrown :=
  let users := ", ".intercalate (config.users.map toString)
  .httpException 502 s!"The simulation cannot run without a shadow: no portfolio could be read for any of users {users}"

/-- The rest of a call whose portfolios have all been answered. -/
def resume (s : Loop) (c : Nat) (op : Op) (seeded : Nat) : Loop :=
  match op with
  | .start config =>
    if seeded = 0 then s.put c ⟨op, .threw (noShadow config)⟩
    else { s with config := { config with running := true } }.run.put c ⟨op, .returned⟩
  -- by the configuration the call kept, not the one there is now
  | .configure config => (if config.running then s.run else s).put c ⟨op, .returned⟩
  | .reset | .prepare => (if s.config.running then s.run else s).put c ⟨op, .returned⟩

/-- A portfolio is answered: it is installed if it could be read and is still wanted. -/
def answer (s : Loop) (c : Nat) (op : Op) (generation : Nat) (awaiting : List Int) (seeded : Nat)
    (userId : Int) (readable : Bool) : Loop :=
  let installed := if readable ∧ generation = s.generation then 1 else 0
  s.put c ⟨op, .seeding generation (awaiting.erase userId) (seeded + installed)⟩

end Loop

/-! ### The steps -/

/-- A call is made, a portfolio is answered, or a call goes on. -/
inductive LoopEvent
  | start (c : Nat) (overrides : StartSimulationDto)
  | stop
  | configure (c : Nat) (overrides : StartSimulationDto)
  | reset (c : Nat)
  | prepare (c : Nat) (userIds : List Int)
  | answer (c : Nat) (userId : Int) (readable : Bool)
  | resume (c : Nat)

/-- One step, `none` where the call has been made already or has nothing to wait for. -/
def Loop.step (s : Loop) : LoopEvent → Option Loop
  | .start c overrides => if (s.calls c).isSome then none else some (s.start c overrides)
  | .stop => some s.stop
  | .configure c overrides => if (s.calls c).isSome then none else some (s.configure c overrides)
  | .reset c => if (s.calls c).isSome then none else some (s.reset c)
  | .prepare c userIds => if (s.calls c).isSome then none else some (s.prepare c userIds)
  | .answer c userId readable =>
    match s.calls c with
    | some ⟨op, .seeding generation awaiting seeded⟩ =>
      if userId ∈ awaiting then
        some (s.answer c op generation awaiting seeded userId readable)
      else none
    | _ => none
  | .resume c =>
    match s.calls c with
    | some ⟨op, .seeding _ [] seeded⟩ => some (s.resume c op seeded)
    | _ => none

/-- The machine of the loop. -/
def orderLoop : Machine Loop LoopEvent := ⟨Loop.step⟩

/-- The service as it is constructed. -/
def Loop.initial : Loop where
  config := ⟨1, [1, 2, 3, 4], toDouble (6 / 10), 1, 50, false⟩
  timer := none
  live := []
  made := 0
  generation := 0
  calls _ := none
  stopped := false

/-! ### One loop -/

/-- Call `c` is waiting for portfolios. -/
def Loop.InProgress (s : Loop) (c : Nat) : Prop :=
  ∃ op generation awaiting seeded, s.calls c = some ⟨op, .seeding generation awaiting seeded⟩

/-- **One loop at most, and none after a stop.** -/
structure OneLoop (s : Loop) : Prop where
  atMostOne : s.live.length ≤ 1
  down : s.config.running = false → (∀ c, ¬s.InProgress c) → s.live = []
  ended : s.stopped = true → (∀ c, ¬s.InProgress c) → s.live = []

/-- A call that puts the loop up finds nothing in the slot; a `configure` finds the loop
    configured to run as it was, and a `start` no stop called after it. -/
def Loop.Undisturbed (s : Loop) : LoopEvent → Prop
  | .resume c => ∀ op generation seeded, s.calls c = some ⟨op, .seeding generation [] seeded⟩ →
    match op with
    | .start _ => seeded ≠ 0 → s.timer = none ∧ s.stopped = false
    | .configure config => config.running = true → s.timer = none ∧ s.config.running = true
    | .reset | .prepare => s.config.running = true → s.timer = none
  | _ => True

/-- What is live is what is in the slot, and it is there while the loop is to run. -/
structure Loop.Inv (s : Loop) : Prop where
  slot : s.live = s.timer.toList
  up : s.timer.isSome = true → s.config.running = true
  stopped : s.stopped = true → s.config.running = false

namespace Loop

variable {s s' : Loop}

/-- All a step can do. -/
inductive Took (s : Loop) : LoopEvent → Loop → Prop
  | started {c overrides} (hnew : s.calls c = none) :
      Took s (.start c overrides) (s.start c overrides)
  | stopped : Took s .stop s.stop
  | configured {c overrides} (hnew : s.calls c = none) :
      Took s (.configure c overrides) (s.configure c overrides)
  | reset {c} (hnew : s.calls c = none) : Took s (.reset c) (s.reset c)
  | prepared {c userIds} (hnew : s.calls c = none) : Took s (.prepare c userIds) (s.prepare c userIds)
  | answered {c userId readable op generation awaiting seeded}
      (hc : s.calls c = some ⟨op, .seeding generation awaiting seeded⟩)
      (hawaited : userId ∈ awaiting) :
      Took s (.answer c userId readable)
        (s.answer c op generation awaiting seeded userId readable)
  | resumed {c op generation seeded} (hc : s.calls c = some ⟨op, .seeding generation [] seeded⟩) :
      Took s (.resume c) (s.resume c op seeded)

/-- **All a step can do.** -/
theorem took_of_step {e : LoopEvent} (h : orderLoop.step s e = some s') : Took s e s' := by
  cases e with
  | start c overrides =>
    simp only [orderLoop, Loop.step] at h
    split at h <;> cases h
    exact .started (Option.not_isSome_iff_eq_none.mp ‹_›)
  | stop =>
    cases h
    exact .stopped
  | configure c overrides =>
    simp only [orderLoop, Loop.step] at h
    split at h <;> cases h
    exact .configured (Option.not_isSome_iff_eq_none.mp ‹_›)
  | reset c =>
    simp only [orderLoop, Loop.step] at h
    split at h <;> cases h
    exact .reset (Option.not_isSome_iff_eq_none.mp ‹_›)
  | prepare c userIds =>
    simp only [orderLoop, Loop.step] at h
    split at h <;> cases h
    exact .prepared (Option.not_isSome_iff_eq_none.mp ‹_›)
  | answer c userId readable =>
    simp only [orderLoop, Loop.step] at h
    split at h
    · split at h <;> cases h
      exact .answered ‹_› ‹_›
    · cases h
  | resume c =>
    simp only [orderLoop, Loop.step] at h
    split at h <;> cases h
    exact .resumed ‹_›

@[simp] theorem clearTimer_config (s : Loop) : s.clearTimer.config = s.config := by
  unfold clearTimer
  split <;> rfl

@[simp] theorem clearTimer_stopped (s : Loop) : s.clearTimer.stopped = s.stopped := by
  unfold clearTimer
  split <;> rfl

@[simp] theorem clearTimer_timer (s : Loop) : s.clearTimer.timer = none := by
  unfold clearTimer
  split
  · rfl
  · assumption

/-- Clearing the slot ends all there is. -/
theorem Inv.clearTimer_live (h : Inv s) : s.clearTimer.live = [] := by
  have hslot := h.slot
  unfold clearTimer
  split
  · rename_i timer htimer
    rw [htimer] at hslot
    show s.live.erase timer = []
    rw [hslot]
    simp
  · rename_i htimer
    rw [htimer] at hslot
    exact hslot

/-- With nothing live, all that has to be right is what a stop left. -/
theorem inv_of_down (htimer : s.timer = none) (hlive : s.live = [])
    (hstopped : s.stopped = true → s.config.running = false) : Inv s where
  slot := by rw [hlive, htimer]; rfl
  up h := by rw [htimer] at h; cases h
  stopped := hstopped

/-- An interval goes up where none is live. -/
theorem inv_run (hlive : s.live = []) (hup : s.config.running = true)
    (hstopped : s.stopped = false) : Inv s.run where
  slot := by
    show s.made :: s.live = [s.made]
    rw [hlive]
  up _ := hup
  stopped h := absurd (hstopped.symm.trans h) (by decide)

/-- Nothing of this is about the calls. -/
theorem Inv.put (h : Inv s) (c : Nat) (call : Call) : Inv (s.put c call) :=
  ⟨h.slot, h.up, h.stopped⟩

theorem Inv.seedUsers (h : Inv s) (c : Nat) (op : Op) (users : List Int) :
    Inv (s.seedUsers c op users) :=
  ⟨h.slot, h.up, h.stopped⟩

/-- A loop that is up was not stopped. -/
theorem Inv.not_stopped (h : Inv s) (hup : s.config.running = true) : s.stopped = false := by
  cases hs : s.stopped with
  | false => rfl
  | true => exact absurd ((h.stopped hs).symm.trans hup) (by decide)

/-- An empty slot means that nothing is live. -/
theorem Inv.live_eq_nil (h : Inv s) (htimer : s.timer = none) : s.live = [] := by
  rw [h.slot, htimer]
  rfl

/-- **An undisturbed step keeps the loop one.** -/
theorem Inv.step (h : Inv s) {e : LoopEvent} (hsafe : s.Undisturbed e)
    (hstep : orderLoop.step s e = some s') : Inv s' := by
  have hdown := h.clearTimer_live
  cases took_of_step hstep with
  | started =>
    simp only [start]
    split
    · exact h.put ..
    · apply Inv.seedUsers
      exact inv_of_down (clearTimer_timer s) hdown (fun hs => by cases hs)
  | stopped => exact inv_of_down (clearTimer_timer s) hdown fun _ => rfl
  | configured =>
    simp only [configure]
    split
    · exact h.put ..
    · split
      -- the users are the same, so the loop goes up again at once
      · apply Inv.put
        split
        · rename_i hup
          exact inv_run hdown hup ((clearTimer_stopped s).trans (h.not_stopped hup))
        · exact inv_of_down (clearTimer_timer s) hdown
            (fun hs => h.stopped ((clearTimer_stopped s).symm.trans hs))
      · apply Inv.seedUsers
        exact inv_of_down (clearTimer_timer s) hdown
          (fun hs => h.stopped ((clearTimer_stopped s).symm.trans hs))
  | reset | prepared =>
    exact (inv_of_down (clearTimer_timer s) hdown (by simpa using h.stopped)).seedUsers ..
  | answered => exact h.put ..
  | @resumed c op generation seeded hc =>
    have hop := hsafe op generation seeded hc
    unfold resume
    cases op with
    | start config =>
      by_cases hzero : seeded = 0
      · simp only [hzero, if_true]
        exact h.put ..
      · simp only [hzero, if_false]
        obtain ⟨htimer, hstopped⟩ := hop hzero
        refine (inv_run (s := { s with config := { config with running := true } }) ?_ rfl
          hstopped).put ..
        exact h.live_eq_nil htimer
    | configure config =>
      apply Inv.put
      split
      · rename_i hup
        obtain ⟨htimer, hnow⟩ := hop hup
        exact inv_run (h.live_eq_nil htimer) hnow (h.not_stopped hnow)
      · exact h
    | reset | prepare =>
      apply Inv.put
      split
      · rename_i hup
        exact inv_run (h.live_eq_nil (hop hup)) hup (h.not_stopped hup)
      · exact h

theorem inv_initial : Inv .initial := inv_of_down rfl rfl fun _ => rfl

theorem Inv.oneLoop (h : Inv s) : OneLoop s where
  atMostOne := by
    rw [h.slot]
    cases s.timer <;> simp
  down hdown _ := by
    apply h.live_eq_nil
    rw [← Option.not_isSome_iff_eq_none]
    exact fun hset => absurd (hdown.symm.trans (h.up hset)) (by decide)
  ended hstopped _ := by
    apply h.live_eq_nil
    rw [← Option.not_isSome_iff_eq_none]
    exact fun hset => absurd ((h.stopped hstopped).symm.trans (h.up hset)) (by decide)

theorem resume_stopped (s : Loop) (c : Nat) (op : Op) (seeded : Nat) :
    (s.resume c op seeded).stopped = s.stopped := by
  cases op <;> simp only [resume] <;> split <;> rfl

/-- Nothing but a start takes a stop back. -/
theorem stopped_step {e : LoopEvent} (hstart : ∀ c overrides, e ≠ .start c overrides)
    (h : s.stopped = true) (hstep : orderLoop.step s e = some s') : s'.stopped = true := by
  have hdown := (clearTimer_stopped s).trans h
  cases took_of_step hstep with
  | started => exact absurd rfl (hstart _ _)
  | stopped => rfl
  | configured =>
    simp only [configure]
    split
    · exact h
    · split
      · split <;> exact hdown
      · exact hdown
  | reset | prepared => exact hdown
  | answered => exact h
  | resumed => exact (resume_stopped ..).trans h

/-- **A disturbed call leaves two loops**, or one that is not to run or was stopped. -/
theorem Inv.disturbed (h : Inv s) {e : LoopEvent} (hstep : orderLoop.step s e = some s')
    (hbreaks : ¬s.Undisturbed e) :
    1 < s'.live.length ∨ s'.live ≠ [] ∧ (s'.config.running = false ∨ s'.stopped = true) := by
  cases took_of_step hstep with
  | @resumed c op generation seeded hc =>
    -- a second interval over the one in the slot
    have htwo : s.timer ≠ none → 1 < (s.made :: s.live).length := by
      intro htimer
      obtain ⟨timer, hset⟩ := Option.ne_none_iff_exists'.mp htimer
      rw [h.slot, hset]
      simp
    simp only [Undisturbed, hc, Option.some.injEq, Call.mk.injEq, CallPhase.seeding.injEq,
      true_and, not_forall] at hbreaks
    obtain ⟨_, _, _, ⟨rfl, rfl, rfl⟩, hbreaks⟩ := hbreaks
    cases op with
    | start config =>
      obtain ⟨hzero, hbreaks⟩ := Classical.not_imp.mp hbreaks
      simp only [resume, if_neg hzero]
      by_cases htimer : s.timer = none
      · refine .inr ⟨List.cons_ne_nil _ _, .inr ?_⟩
        exact eq_true_of_ne_false fun hstopped => hbreaks ⟨htimer, hstopped⟩
      · exact .inl (htwo htimer)
    | configure config =>
      obtain ⟨hup, hbreaks⟩ := Classical.not_imp.mp hbreaks
      simp only [resume, if_pos hup]
      by_cases htimer : s.timer = none
      · refine .inr ⟨List.cons_ne_nil _ _, .inl ?_⟩
        exact eq_false_of_ne_true fun hnow => hbreaks ⟨htimer, hnow⟩
      · exact .inl (htwo htimer)
    | reset | prepare =>
      obtain ⟨hup, htimer⟩ := Classical.not_imp.mp hbreaks
      simp only [resume, if_pos hup]
      exact .inl (htwo htimer)
  | started | stopped | configured | reset | prepared | answered => exact absurd trivial hbreaks

end Loop

/-- **While every call is undisturbed there is one loop.**  In every state such a run reaches
    there is one interval at most, and none where the loop is not to run, or was stopped, and no
    call is under way; so after a stop that no start follows there is none.  And the condition is
    on the steps that need it: the first that breaks it leaves two intervals, or one that is live
    though the loop is not to run or was stopped. -/
theorem one_loop {es : List LoopEvent} {s : Loop} (hrun : orderLoop.run .initial es = some s)
    (hsafe : orderLoop.Along Loop.Undisturbed .initial es) :
    OneLoop s ∧
      (∀ fs gs, es = fs ++ .stop :: gs → (∀ c overrides, .start c overrides ∉ gs) →
        (∀ c, ¬s.InProgress c) → s.live = []) ∧
      ∀ e s', orderLoop.step s e = some s' → ¬s.Undisturbed e →
        1 < s'.live.length ∨ s'.live ≠ [] ∧ (s'.config.running = false ∨ s'.stopped = true) := by
  have hinv : s.Inv := orderLoop.invariant_along
    (fun h hsafe hstep => h.step hsafe hstep) Loop.inv_initial hsafe hrun
  refine ⟨hinv.oneLoop, fun fs gs hes hstart hidle => ?_, fun e s' hstep => hinv.disturbed hstep⟩
  -- what the stop set is still set
  subst hes
  obtain ⟨s₁, s₂, -, hstop, hgs⟩ := orderLoop.run_split.mp hrun
  have hset : s₂.stopped = true := by
    cases hstop
    rfl
  have hnone : ∀ e ∈ gs, ∀ c overrides, e ≠ .start c overrides := by
    rintro e he c overrides rfl
    exact hstart c overrides he
  have hstill : s.stopped = true := orderLoop.invariant_along
    (I := fun s => s.stopped = true)
    (fun h hevent hstep => Loop.stopped_step hevent h hstep) hset
    (orderLoop.along_of_forall hnone) hgs
  exact hinv.oneLoop.ended hstill hidle

/-! ### Calls that overlap -/

/-- No knob overridden but the users. -/
def usersOnly (users : List Int) : StartSimulationDto := ⟨none, some users, none, none, none⟩

/-- The loop is started on user 1 and stopped. -/
def startedAndStopped : List LoopEvent :=
  [.start 0 (usersOnly [1]), .answer 0 1 true, .resume 0, .stop]

/-- A loop that is started and stopped is no more. -/
theorem one_loop_startedAndStopped : ∃ s, orderLoop.run .initial startedAndStopped = some s ∧
    OneLoop s := by
  have hsafe : orderLoop.Along Loop.Undisturbed .initial startedAndStopped := by
    refine orderLoop.along_cons trivial rfl (orderLoop.along_cons trivial rfl
      (orderLoop.along_cons ?_ rfl (orderLoop.along_cons trivial rfl trivial)))
    rintro op generation seeded hc
    cases hc
    exact fun _ => ⟨rfl, rfl⟩
  have h := one_loop (show orderLoop.run .initial startedAndStopped = some _ from rfl) hsafe
  exact ⟨_, rfl, h.1⟩

/-- The loop runs on user 1; its users are changed, and it is stopped before the shadow of the
    new ones is read. -/
def stoppedMeanwhile : List LoopEvent :=
  [.start 0 (usersOnly [1]), .answer 0 1 true, .resume 0, .configure 1 (usersOnly [2]), .stop,
    .answer 1 2 true, .resume 1]

/-- **A loop that outlives its stop.**  The `configure` goes on by the configuration it kept. -/
theorem loop_outlives_stop : ∃ s, orderLoop.run .initial stoppedMeanwhile = some s ∧
    s.config.running = false ∧ (∀ c, ¬s.InProgress c) ∧ s.live ≠ [] ∧ ¬OneLoop s := by
  have hidle : ∀ s, orderLoop.run .initial stoppedMeanwhile = some s → ∀ c, ¬s.InProgress c := by
    rintro s hrun c ⟨op, generation, awaiting, seeded, hc⟩
    cases hrun
    match c with
    | 0 => cases hc
    | 1 => cases hc
    | c + 2 => cases hc
  refine ⟨_, rfl, rfl, hidle _ rfl, List.cons_ne_nil _ _, fun h => ?_⟩
  exact absurd (h.down rfl (hidle _ rfl)) (List.cons_ne_nil _ _)

/-- The loop is started twice, and the second start comes between the portfolios of the first. -/
def startedTwice : List LoopEvent :=
  [.start 0 (usersOnly [1, 2]), .answer 0 1 true, .start 1 (usersOnly [1]), .answer 0 2 true,
    .resume 0, .answer 1 1 true, .resume 1]

/-- **Two loops at once.**  Neither start finds the other's interval in the slot it cleared. -/
theorem two_loops : ∃ s, orderLoop.run .initial startedTwice = some s ∧ s.live = [1, 0] ∧
    ¬OneLoop s :=
  ⟨_, rfl, rfl, fun h => absurd h.atMostOne (by decide)⟩

end Cocos.Tools
