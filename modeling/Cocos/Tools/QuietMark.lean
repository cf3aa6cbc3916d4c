import Cocos.Lib.Machine
import Cocos.Tools.Backoffice
import Cocos.Tools.LoopTimer

namespace Cocos.Tools

open Cocos.Lib

/-!
# The quiet mark

The back-office marks when it last saw the harness driving nothing, and finds fault with a 503 to
a call sent since.  It looks at the edges of a load run and at every sweep, and not at the edges
of the simulation; and what it looks at there is the flag of the configuration, which can be down
while an interval that outlived a stop still sends.

* `Watch` — the back-office, the recorder, the order loop, and the calls on their way;
* `Loop.simulating`, `Watch.busy`, `driving`, `driven` — the loop is to run or an interval is live,
  that or a load run is, the moments of it, and the rows of calls that were sent meanwhile;
* `Watch.NeverEarly` — the mark of a scan is later than all those moments;
* `Observed` — the back-office has looked at the simulation before it ends, and a mark is set, or
  kept, with nothing live and in a later millisecond than the harness was driving in;
* `quiet_mark` — **while that is so the mark is never early, and no shedding of a driven call is
  reported**; the first step for which it is not makes the mark of the next sweep early.
-/

/-- A call on its way, and whether the harness was driving the target when it was sent. -/
structure Sent where
  sentAt : Int
  driven : Bool

/-- The simulation is to run, or has an interval that still sends. -/
def Loop.simulating (loop : Loop) : Bool := loop.config.running || !loop.live.isEmpty

/-- The back-office and what it watches.  The last two fields are read by nobody: they are here
    for what is said of the mark. -/
structure Watch where
  backoffice : Backoffice
  store : AttemptsStore
  loop : Loop
  calls : Nat → Option Sent
  /-- The moments at which the harness was driving the target. -/
  driving : List Int
  /-- The rows of the calls that were sent while it was. -/
  driven : List Nat

namespace Watch

/-- Nothing sent yet. -/
def initial : Watch := ⟨.initial, .empty, .initial, fun _ => none, [], []⟩

/-- What the back-office reads of the simulation. -/
def simulationRunning (s : Watch) : Bool := s.loop.config.running

/-- A load run or the simulation is running. -/
def busy (s : Watch) : Bool := s.backoffice.loadRunning || s.loop.simulating

/-- The moment, if the harness is driving the target at it. -/
def clocked (s : Watch) (now : Int) : Watch :=
  { s with driving := if s.busy then now :: s.driving else s.driving }

end Watch

/-- A load run begins or ends, the order loop takes a step, a call is sent, its row is recorded, a
    chaos event is, or the back-office sweeps.  Each reads the clock it is labelled with; a sweep
    reads it twice. -/
inductive WatchEvent
  | setLoadRunning (running : Bool) (now : Int)
  | loop (e : LoopEvent) (now : Int)
  | send (k : Nat) (now : Int)
  | record (k : Nat) (answer : Attempt)
  | chaos (event : Attempt)
  | sweep (now now' : Int)

/-- One step, `none` where the loop cannot take it, or the call has been sent already or is not on
    its way. -/
def Watch.step (s : Watch) : WatchEvent → Option Watch
  | .setLoadRunning running now => some <| Watch.clocked { s with
      backoffice := s.backoffice.setLoadRunning running s.simulationRunning now } now
  | .loop e now => (orderLoop.step s.loop e).map fun loop =>
      Watch.clocked { s with loop := loop } now
  | .send k now =>
    match s.calls k with
    | none => some <| Watch.clocked { s with
        calls := Function.update s.calls k (some ⟨now, s.busy⟩) } now
    | some _ => none
  | .record k answer =>
    match s.calls k with
    | some call => some { s with
        store := s.store.record { answer with sentAt := call.sentAt }
        calls := Function.update s.calls k none
        driven := if call.driven then s.store.nextId :: s.driven else s.driven }
    | none => none
  | .chaos event =>
    if isChaosEvent event then some { s with store := s.store.record event } else none
  | .sweep now now' => some <| Watch.clocked { s with
      backoffice := (s.backoffice.markQuiet s.simulationRunning now).scan s.store now' } now

/-- The machine of the watch. -/
def watch : Machine Watch WatchEvent := ⟨Watch.step⟩

/-- The mark is later than every moment at which the harness was driving the target. -/
def Watch.NeverEarly (s : Watch) : Prop :=
  ∀ quietSince, s.backoffice.quietSince = some quietSince → ∀ m ∈ s.driving, m < quietSince

/-- The simulation ends with no mark set, as an observation of it leaves it; and where a mark is
    set or kept nothing is live, and one that is set is later than all the driving. -/
def Observed (s : Watch) : WatchEvent → Prop
  | .loop e _ => ∀ loop, orderLoop.step s.loop e = some loop → s.loop.simulating = true →
    loop.simulating = false → s.backoffice.quietSince = none
  | .setLoadRunning false now => s.simulationRunning = false → s.loop.simulating = false ∧
    (s.backoffice.quietSince = none → ∀ m ∈ s.driving, m < now)
  | .sweep now _ => s.backoffice.loadRunning = false → s.simulationRunning = false →
    s.loop.simulating = false ∧ (s.backoffice.quietSince = none → ∀ m ∈ s.driving, m < now)
  | _ => True

/-- The clock does not show, when the loop takes a step, a moment before the mark. -/
def Forward (s : Watch) : WatchEvent → Prop
  | .loop _ now => ∀ quietSince, s.backoffice.quietSince = some quietSince → quietSince ≤ now
  | _ => True

/-- What the mark and the rows say, while every step is observed. -/
structure Watch.Inv (s : Watch) : Prop where
  holds : ∃ rows, s.store.Holds rows ∧
    ∀ row ∈ rows, row.id ∈ s.driven → row.sentAt ∈ s.driving
  /-- A call sent while the harness was driving was sent at one of the moments it was. -/
  sent : ∀ k call, s.calls k = some call → call.driven = true → call.sentAt ∈ s.driving
  /-- The rows of driven calls are among those recorded. -/
  fresh : ∀ id ∈ s.driven, id < s.store.nextId
  /-- No mark stands through a load run. -/
  unmarked : s.backoffice.loadRunning = true → s.backoffice.quietSince = none
  onTime : s.loop.simulating = false → s.NeverEarly
  reported : ∀ id f, (id, f) ∈ s.backoffice.anomalies → f.rule = "unexpected_shedding" →
    id ∉ s.driven ∧ id < s.store.nextId

theorem Watch.inv_initial : Watch.initial.Inv where
  holds := ⟨[], AttemptsStore.holds_empty, by simp⟩
  sent k call h := by cases h
  fresh := by simp [initial]
  unmarked h := by cases h
  onTime _ quietSince h := by cases h
  reported id f h := by cases h

namespace Watch

variable {s s' : Watch}

/-- Moments are only added. -/
theorem mem_clocked {m : Int} (now : Int) (h : m ∈ s.driving) : m ∈ (s.clocked now).driving := by
  unfold clocked
  dsimp only
  split
  · exact List.mem_cons_of_mem _ h
  · exact h

/-- A moment of a simulation that is up is one of driving. -/
theorem now_mem_clocked (now : Int) (h : s.loop.simulating = true) :
    now ∈ (s.clocked now).driving := by
  show now ∈ (if (s.backoffice.loadRunning || s.loop.simulating) then now :: s.driving
    else s.driving)
  rw [h, Bool.or_true]
  exact List.mem_cons_self

/-- A moment of driving does not make a mark early that a load run or the simulation keeps from
    being set. -/
theorem neverEarly_clocked (now : Int) (h : s.NeverEarly)
    (hbusy : s.busy = true → s.backoffice.quietSince = none) : (s.clocked now).NeverEarly := by
  intro quietSince hquiet m hm
  unfold clocked at hm
  dsimp only at hm
  split at hm
  · rename_i hb
    exact absurd ((hbusy hb).symm.trans hquiet) (by simp)
  · exact h quietSince hquiet m hm

/-- While a load run or the simulation is to run, an observation leaves no mark. -/
theorem idle_of_markQuiet {b : Backoffice} {running : Bool} {now q : Int}
    (h : (b.markQuiet running now).quietSince = some q) :
    b.loadRunning = false ∧ running = false := by
  unfold Backoffice.markQuiet at h
  dsimp only at h
  split at h
  · cases h
  · rename_i hidle
    rwa [not_or, Bool.not_eq_true, Bool.not_eq_true] at hidle

/-- A mark that an observation leaves stood before, or there was none and it is of now. -/
theorem quietSince_of_markQuiet {b : Backoffice} {running : Bool} {now q : Int}
    (h : (b.markQuiet running now).quietSince = some q) :
    b.quietSince = some q ∨ b.quietSince = none ∧ q = now := by
  unfold Backoffice.markQuiet at h
  dsimp only at h
  split at h
  · cases h
  · cases hmark : b.quietSince with
    | none =>
      rw [hmark] at h
      exact .inr ⟨rfl, (Option.some.inj h).symm⟩
    | some q' =>
      rw [hmark] at h
      exact .inl h

/-- A row is recorded; it is that of a driven call, or it is not. -/
theorem Inv.record (h : Inv s) (answer : Attempt) (calls : Nat → Option Sent)
    (hcalls : ∀ k call, calls k = some call → s.calls k = some call) (driven : Bool)
    (hdriven : driven = true → answer.sentAt ∈ s.driving) :
    Inv { s with
      store := s.store.record answer
      calls := calls
      driven := if driven then s.store.nextId :: s.driven else s.driven } := by
  obtain ⟨rows, hholds, hrows⟩ := h.holds
  have hmem : ∀ {id}, id ∈ (if driven then s.store.nextId :: s.driven else s.driven) →
      (id = s.store.nextId ∧ driven = true) ∨ id ∈ s.driven := by
    intro id hid
    split at hid
    · rename_i hd
      rcases List.mem_cons.mp hid with hid | hid
      · exact .inl ⟨hid, hd⟩
      · exact .inr hid
    · exact .inr hid
  refine ⟨⟨_, hholds.record answer, fun row hrow hid => ?_⟩, fun k call hk => h.sent k call
    (hcalls k call hk), fun id hid => ?_, h.unmarked, h.onTime, fun id f hf hrule => ?_⟩
  · rcases List.mem_append.mp hrow with hrow | hrow
    · rcases hmem hid with ⟨hnew, -⟩ | hold
      -- the rows there were have earlier ids
      · obtain ⟨i, hi, hget⟩ := List.getElem_of_mem hrow
        have hrid := hholds.ids i row (by rw [List.getElem?_eq_getElem hi, hget])
        have := hholds.nextId
        omega
      · exact hrows row hrow hold
    · rw [List.mem_singleton.mp hrow] at hid ⊢
      rcases hmem hid with ⟨-, hd⟩ | hold
      · exact hdriven hd
      · exact absurd (h.fresh _ hold) (lt_irrefl _)
  · show id < s.store.nextId + 1
    rcases hmem hid with ⟨hnew, -⟩ | hold
    · omega
    · have := h.fresh id hold
      omega
  · obtain ⟨hnot, hlt⟩ := h.reported id f hf hrule
    refine ⟨fun hid => ?_, Nat.lt_succ_of_lt hlt⟩
    rcases hmem hid with ⟨hnew, -⟩ | hold
    · omega
    · exact hnot hold

/-- With nothing live the loop is not to run. -/
theorem simulationRunning_of_not_simulating (h : s.loop.simulating = false) :
    s.simulationRunning = false :=
  (Bool.or_eq_false_iff.mp h).1

/-- The back-office observes: nothing of its findings changes, and the mark is on time. -/
theorem Inv.observe (h : Inv s) (running : Bool) (now : Int)
    (hnew : running = false → s.simulationRunning = false → s.loop.simulating = false ∧
      (s.backoffice.quietSince = none → ∀ m ∈ s.driving, m < now)) :
    Inv { s with backoffice := s.backoffice.setLoadRunning running s.simulationRunning now } ∧
      Watch.NeverEarly
        { s with backoffice := s.backoffice.setLoadRunning running s.simulationRunning now } := by
  have hidle : ∀ q, (s.backoffice.setLoadRunning running s.simulationRunning now).quietSince =
      some q → running = false ∧ s.simulationRunning = false := fun q hq => idle_of_markQuiet hq
  have hnever : Watch.NeverEarly
      { s with backoffice := s.backoffice.setLoadRunning running s.simulationRunning now } := by
    intro q hq
    obtain ⟨hload, hflag⟩ := hidle q hq
    obtain ⟨hsim, hlate⟩ := hnew hload hflag
    rcases quietSince_of_markQuiet hq with hstood | ⟨hnone, rfl⟩
    · exact h.onTime hsim q hstood
    · exact hlate hnone
  refine ⟨⟨h.holds, h.sent, h.fresh, fun hload => ?_, fun _ => hnever, h.reported⟩, hnever⟩
  by_contra hsome
  obtain ⟨q, hq⟩ := Option.ne_none_iff_exists'.mp hsome
  exact absurd ((hidle q hq).1.symm.trans hload) (by decide)

/-- A scan under a mark that is on time finds no fault with a driven call. -/
theorem Inv.scan (h : Inv s) (hmark : s.NeverEarly) (now : Int) :
    Inv { s with backoffice := s.backoffice.scan s.store now } := by
  obtain ⟨rows, hholds, hrows⟩ := h.holds
  have hframe := Backoffice.scanRows_frame (now - Backoffice.SETTLE_MS) s.backoffice
    (s.store.recent ATTEMPTS_CAPACITY).reverse
  have hquiet : (s.backoffice.scan s.store now).quietSince = s.backoffice.quietSince :=
    congrArg DetectorContext.quietSince hframe.1
  refine ⟨h.holds, h.sent, h.fresh, fun hload => ?_, fun hsim q hq => ?_, fun id f hf hrule => ?_⟩
  · exact hquiet.trans (h.unmarked (hframe.2.symm.trans hload))
  · exact h.onTime hsim q (hquiet.symm.trans hq)
  · rcases Backoffice.mem_anomalies_scan hf with hold | ⟨attempt, hmem, rfl, hfound⟩
    · exact h.reported id f hold hrule
    · have hrow := hholds.mem_of_recent hmem
      obtain ⟨q, hq, -, hsince⟩ := shedding_findings_iff.mp ⟨f, hfound, hrule⟩
      constructor
      · intro hdriven
        have hearlier := hmark q hq _ (hrows attempt hrow hdriven)
        omega
      · obtain ⟨i, hi, hget⟩ := List.getElem_of_mem hrow
        have hid := hholds.ids i attempt (by rw [List.getElem?_eq_getElem hi, hget])
        have := hholds.nextId
        show attempt.id < s.store.nextId
        omega

/-- Time passes while the harness is driving. -/
theorem Inv.clocked (h : Inv s) (now : Int)
    (hbusy : s.busy = true → s.loop.simulating = false → s.backoffice.quietSince = none) :
    Inv (s.clocked now) := by
  obtain ⟨rows, hholds, hrows⟩ := h.holds
  refine ⟨⟨rows, hholds, fun row hrow hid => mem_clocked now (hrows row hrow hid)⟩,
    fun k call hk hd => mem_clocked now (h.sent k call hk hd), h.fresh, h.unmarked,
    fun hsim => neverEarly_clocked now (h.onTime hsim) fun hb => hbusy hb hsim, h.reported⟩

/-- With the simulation down, the harness drives the target in load runs, and no mark stands
    through those. -/
theorem Inv.unmarked_of_busy (h : Inv s) (hbusy : s.busy = true)
    (hsim : s.loop.simulating = false) : s.backoffice.quietSince = none := by
  apply h.unmarked
  simpa [busy, hsim] using hbusy

/-- **An observed step keeps the mark on time.** -/
theorem Inv.step (h : Inv s) {e : WatchEvent} (hseen : Observed s e)
    (hstep : watch.step s e = some s') : Inv s' := by
  cases e with
  | setLoadRunning running now =>
    cases hstep
    obtain ⟨hobserved, -⟩ := h.observe running now fun hload hsim => by
      subst hload
      exact hseen hsim
    exact hobserved.clocked now hobserved.unmarked_of_busy
  | loop e now =>
    obtain ⟨loop, hloop, rfl⟩ := Option.map_eq_some_iff.mp hstep
    have hset : Inv { s with loop := loop } := by
      refine ⟨h.holds, h.sent, h.fresh, h.unmarked, fun hsim => ?_, h.reported⟩
      cases hwas : s.loop.simulating with
      | true =>
        intro q hq
        exact absurd ((hseen loop hloop hwas hsim).symm.trans hq) (by simp)
      | false => exact h.onTime hwas
    exact hset.clocked now hset.unmarked_of_busy
  | send k now =>
    simp only [watch, Watch.step] at hstep
    split at hstep <;> cases hstep
    obtain ⟨rows, hholds, hrows⟩ := h.holds
    refine ⟨⟨rows, hholds, fun row hrow hid => mem_clocked now (hrows row hrow hid)⟩,
      fun k' call hk hd => ?_, h.fresh, h.unmarked,
      fun hsim => neverEarly_clocked now (h.onTime hsim) fun hb => h.unmarked_of_busy hb hsim,
      h.reported⟩
    change Function.update s.calls k (some ⟨now, s.busy⟩) k' = some call at hk
    rw [Function.update_apply] at hk
    split at hk
    · cases hk
      show now ∈ (if s.busy then now :: s.driving else s.driving)
      rw [if_pos hd]
      exact List.mem_cons_self
    · exact mem_clocked now (h.sent k' call hk hd)
  | record k answer =>
    simp only [watch, Watch.step] at hstep
    split at hstep
    · rename_i call hcall
      cases hstep
      refine h.record { answer with sentAt := call.sentAt } _ (fun k' call' hk => ?_) call.driven
        (h.sent k call hcall)
      rw [Function.update_apply] at hk
      split at hk
      · cases hk
      · exact hk
    · cases hstep
  | chaos event =>
    simp only [watch, Watch.step] at hstep
    split at hstep <;> cases hstep
    exact h.record event s.calls (fun _ _ hk => hk) false (fun hd => by cases hd)
  | sweep now now' =>
    cases hstep
    -- a sweep observes as the edge of a load run does, and leaves that as it is
    obtain ⟨hobserved, hmark⟩ := h.observe s.backoffice.loadRunning now hseen
    have hscanned := hobserved.scan hmark now'
    exact hscanned.clocked now hscanned.unmarked_of_busy

/-- What a sweep leaves of the mark. -/
theorem quietSince_sweep {now now' : Int} (hstep : watch.step s (.sweep now now') = some s') :
    s'.backoffice.quietSince = (s.backoffice.markQuiet s.simulationRunning now).quietSince ∧
      s'.backoffice.loadRunning = s.backoffice.loadRunning ∧ s'.loop = s.loop ∧
      (∀ m ∈ s.driving, m ∈ s'.driving) ∧
      (s.loop.simulating = true → now ∈ s'.driving) := by
  cases hstep
  have hframe := Backoffice.scanRows_frame (now' - Backoffice.SETTLE_MS)
    (s.backoffice.markQuiet s.simulationRunning now) (s.store.recent ATTEMPTS_CAPACITY).reverse
  exact ⟨congrArg DetectorContext.quietSince hframe.1, hframe.2, rfl,
    fun m hm => mem_clocked now hm, fun hsim => now_mem_clocked now hsim⟩

/-- An early mark that no driving takes away is there at the next sweep. -/
theorem early_sweep {q m now now' : Int} (hload : s.backoffice.loadRunning = false)
    (hsim : s.simulationRunning = false) (hquiet : s.backoffice.quietSince = some q)
    (hm : m ∈ s.driving) (hearly : q ≤ m) (hstep : watch.step s (.sweep now now') = some s') :
    ¬s'.NeverEarly := by
  obtain ⟨hmark, -, -, hdriving, -⟩ := quietSince_sweep hstep
  have hstays : s'.backoffice.quietSince = some q := by
    rw [hmark]
    simp [Backoffice.markQuiet, hload, hsim, hquiet]
  intro hnever
  have hlate := hnever q hstays m (hdriving m hm)
  omega

/-- A mark that stands while the simulation is up is not later than all its driving. -/
def Marked (s : Watch) : Prop :=
  s.loop.simulating = true → ∀ q, s.backoffice.quietSince = some q → ∃ m ∈ s.driving, q ≤ m

theorem Marked.clocked (h : s.Marked) (now : Int) : (s.clocked now).Marked := by
  intro hsim q hq
  obtain ⟨m, hm, hle⟩ := h hsim q hq
  exact ⟨m, mem_clocked now hm, hle⟩

/-- **Every step keeps it so**, if the clock does not run back. -/
theorem Marked.step (h : s.Marked) {e : WatchEvent} (hforward : Forward s e)
    (hstep : watch.step s e = some s') : s'.Marked := by
  cases e with
  | setLoadRunning running now =>
    cases hstep
    intro hsim q hq
    rcases quietSince_of_markQuiet hq with hstood | ⟨-, rfl⟩
    · obtain ⟨m, hm, hle⟩ := h hsim q hstood
      exact ⟨m, mem_clocked (s := { s with
        backoffice := s.backoffice.setLoadRunning running s.simulationRunning now }) now hm, hle⟩
    · exact ⟨q, now_mem_clocked q hsim, le_rfl⟩
  | loop e now =>
    obtain ⟨loop, -, rfl⟩ := Option.map_eq_some_iff.mp hstep
    exact fun hsim q hq => ⟨now, now_mem_clocked now hsim, hforward q hq⟩
  | send k now =>
    simp only [watch, Watch.step] at hstep
    split at hstep <;> cases hstep
    apply Marked.clocked
    exact h
  | record k answer =>
    simp only [watch, Watch.step] at hstep
    split at hstep <;> cases hstep
    exact h
  | chaos event =>
    simp only [watch, Watch.step] at hstep
    split at hstep <;> cases hstep
    exact h
  | sweep now now' =>
    obtain ⟨hmark, -, hloop, hdriving, hnow⟩ := quietSince_sweep hstep
    intro hsim q hq
    rw [hloop] at hsim
    rw [hmark] at hq
    rcases quietSince_of_markQuiet hq with hstood | ⟨-, rfl⟩
    · obtain ⟨m, hm, hle⟩ := h hsim q hstood
      exact ⟨m, hdriving m hm, hle⟩
    · exact ⟨q, hnow hsim, le_rfl⟩

/-- A mark that an observation sets or keeps against the condition is early. -/
theorem Marked.early (h : s.Marked) {now : Int} {driving : List Int}
    (hdriving : ∀ m ∈ s.driving, m ∈ driving) (hnow : s.loop.simulating = true → now ∈ driving)
    (hunseen : ¬(s.loop.simulating = false ∧
      (s.backoffice.quietSince = none → ∀ m ∈ s.driving, m < now))) :
    ∃ m ∈ driving, s.backoffice.quietSince.getD now ≤ m := by
  cases hsim : s.loop.simulating with
  | true =>
    cases hmark : s.backoffice.quietSince with
    | none => exact ⟨now, hnow hsim, le_rfl⟩
    | some q =>
      obtain ⟨m, hm, hle⟩ := h hsim q hmark
      exact ⟨m, hdriving m hm, hle⟩
  | false =>
    simp only [hsim, true_and, not_forall, not_lt] at hunseen
    obtain ⟨hnone, m, hm, hle⟩ := hunseen
    rw [hnone]
    exact ⟨m, hdriving m hm, hle⟩

/-- **A step that is not observed makes the mark of the next sweep early.** -/
theorem Inv.unobserved (h : Inv s) (hmarked : s.Marked) {e : WatchEvent} (hunseen : ¬Observed s e)
    (hstep : watch.step s e = some s') {now now' : Int} {s'' : Watch}
    (hsweep : watch.step s' (.sweep now now') = some s'') : ¬s''.NeverEarly := by
  cases e with
  | loop e at' =>
    obtain ⟨loop, hloop, rfl⟩ := Option.map_eq_some_iff.mp hstep
    simp only [Observed, not_forall] at hunseen
    obtain ⟨loop', hloop', hwas, hsim, hmark⟩ := hunseen
    obtain rfl := Option.some.inj (hloop.symm.trans hloop')
    obtain ⟨q, hquiet⟩ := Option.ne_none_iff_exists'.mp hmark
    obtain ⟨m, hm, hearly⟩ := hmarked hwas q hquiet
    have hload : s.backoffice.loadRunning = false := by
      rw [← Bool.not_eq_true]
      exact fun hload => absurd ((h.unmarked hload).symm.trans hquiet) (by simp)
    let ended : Watch := { s with loop := loop }
    exact early_sweep (s := ended.clocked at') hload
      (simulationRunning_of_not_simulating (s := ended) hsim) hquiet
      (mem_clocked (s := ended) at' hm) hearly hsweep
  | setLoadRunning running at' =>
    cases running with
    | true => exact absurd trivial hunseen
    | false =>
      cases hstep
      obtain ⟨hsim, hunseen⟩ := Classical.not_imp.mp hunseen
      let stopped : Watch :=
        { s with backoffice := s.backoffice.setLoadRunning false s.simulationRunning at' }
      have hkept : ∀ m ∈ s.driving, m ∈ (stopped.clocked at').driving := fun _ hm =>
        mem_clocked (s := stopped) at' hm
      obtain ⟨m, hm, hearly⟩ := hmarked.early hkept
        (fun hup => now_mem_clocked (s := stopped) at' hup) hunseen
      refine early_sweep (s := stopped.clocked at') rfl hsim ?_ hm hearly hsweep
      show (if _ then none else some (s.backoffice.quietSince.getD at')) = some _
      rw [if_neg (by simp [hsim])]
  | sweep at' at'' =>
    obtain ⟨hload, hunseen⟩ := Classical.not_imp.mp hunseen
    obtain ⟨hsim, hunseen⟩ := Classical.not_imp.mp hunseen
    obtain ⟨hmark, hload', hloop, hdriving, hnow⟩ := quietSince_sweep hstep
    obtain ⟨m, hm, hearly⟩ := hmarked.early hdriving hnow hunseen
    refine early_sweep (hload'.trans hload) ?_ ?_ hm hearly hsweep
    · rw [simulationRunning, hloop]
      exact hsim
    · rw [hmark]
      simp [Backoffice.markQuiet, hload, hsim]
  | _ => exact absurd trivial hunseen

end Watch

/-- **While every step is observed the quiet mark is never early.**  No call that was sent while
    a load run or the simulation was running is reported as shed unexpectedly, and the mark of
    every scan is later than every moment at which one was.  And the condition is on the steps
    that need it: with a clock that does not run back, the first that is not observed makes the
    mark of the next sweep early. -/
theorem quiet_mark {es : List WatchEvent} {s : Watch} (hrun : watch.run .initial es = some s)
    (hseen : watch.Along Observed .initial es) :
    (∀ id f, (id, f) ∈ s.backoffice.anomalies → f.rule = "unexpected_shedding" →
        id ∉ s.driven) ∧
      (∀ fs now now', es = fs ++ [.sweep now now'] → s.NeverEarly) ∧
      (watch.Along Forward .initial es → ∀ e s' now now' s'', ¬Observed s e →
        watch.step s e = some s' → watch.step s' (.sweep now now') = some s'' →
        ¬s''.NeverEarly) := by
  have hinv : s.Inv := watch.invariant_along
    (fun h hseen hstep => h.step hseen hstep) Watch.inv_initial hseen hrun
  refine ⟨fun id f hf hrule => (hinv.reported id f hf hrule).1, fun fs now now' hes => ?_,
    fun hforward e s' now now' s'' hunseen hstep hsweep => ?_⟩
  · subst hes
    obtain ⟨s₁, hfs, hsweep⟩ := watch.run_concat.mp hrun
    obtain ⟨hmark, -, hloop, -, -⟩ := Watch.quietSince_sweep hsweep
    cases hsim : s.loop.simulating with
    | false => exact hinv.onTime hsim
    | true =>
      -- the sweep saw that the harness was driving
      rw [hloop] at hsim
      intro q hq
      rw [hmark] at hq
      have hidle := watch.along_last hfs hseen
      obtain ⟨hload, hflag⟩ := Watch.idle_of_markQuiet hq
      exact absurd ((hidle hload hflag).1.symm.trans hsim) (by decide)
  · have hmarked : s.Marked := watch.invariant_along
      (fun h hforward hstep => h.step hforward hstep) (fun h => by cases h) hforward hrun
    exact hinv.unobserved hmarked hunseen hstep hsweep

/-! ### A simulation between two sweeps -/

/-- A placement that was shed. -/
def shedPlacement : Attempt :=
  ⟨0, 0, "POST", "/orders", 10, 503, false, none, none, none, none, none, none, none⟩

/-- A call is shed during a load run, and a sweep sees the simulation that follows. -/
def shedInLoadRun : List WatchEvent :=
  [.sweep 0 0, .setLoadRunning true 1000, .send 0 2000, .record 0 shedPlacement,
    .setLoadRunning false 3000, .loop (.start 0 (usersOnly [1])) 3100,
    .loop (.answer 0 1 true) 3200, .loop (.resume 0) 3300, .sweep 3400 3400, .loop .stop 3500,
    .sweep 4000 4000]

/-- The shedding of a load run is not reported. -/
theorem quiet_mark_shedInLoadRun : ∃ s, watch.run .initial shedInLoadRun = some s ∧
    s.driven = [1] ∧ s.backoffice.quietSince = some 4000 ∧ s.NeverEarly := by
  have hseen : watch.Along Observed .initial shedInLoadRun := by
    refine watch.along_cons ?_ rfl (watch.along_cons trivial rfl (watch.along_cons trivial rfl
      (watch.along_cons trivial rfl (watch.along_cons ?_ rfl (watch.along_cons ?_ rfl
        (watch.along_cons ?_ rfl (watch.along_cons ?_ rfl (watch.along_cons ?_ rfl
          (watch.along_cons ?_ rfl (watch.along_cons ?_ rfl trivial))))))))))
    · exact fun _ _ => ⟨rfl, fun _ => by decide⟩
    · exact fun _ => ⟨rfl, fun _ => by decide⟩
    -- the simulation goes up, is seen, and ends with no mark set
    · exact fun _ _ hwas _ => absurd hwas (by decide)
    · exact fun _ _ hwas _ => absurd hwas (by decide)
    · exact fun _ _ hwas _ => absurd hwas (by decide)
    · exact fun _ hflag => absurd hflag (by decide)
    · exact fun _ _ _ _ => rfl
    · exact fun _ _ => ⟨rfl, fun _ => by decide⟩
  have h := quiet_mark (show watch.run .initial shedInLoadRun = some _ from rfl) hseen
  exact ⟨_, rfl, rfl, rfl, h.2.1 shedInLoadRun.dropLast 4000 4000 rfl⟩

/-- The simulation runs between two sweeps, and a call of it is shed. -/
def shedUnseen : List WatchEvent :=
  [.sweep 0 0, .loop (.start 0 (usersOnly [1])) 1000, .loop (.answer 0 1 true) 1000,
    .loop (.resume 0) 1000, .send 0 2000, .record 0 shedPlacement, .loop .stop 3000,
    .sweep 4000 4000]

/-- **A run's own shedding reported.**  Nobody looked while the simulation was running, so the
    mark of before it still stands. -/
theorem shedding_reported : ∃ s, watch.run .initial shedUnseen = some s ∧ s.driven = [1] ∧
    s.backoffice.quietSince = some 0 ∧
    (∃ f, (1, f) ∈ s.backoffice.anomalies ∧ f.rule = "unexpected_shedding") ∧ ¬s.NeverEarly := by
  refine ⟨_, rfl, rfl, rfl, ⟨_, List.mem_cons_self, rfl⟩, fun h => ?_⟩
  exact absurd (h 0 rfl 2000 List.mem_cons_self) (by decide)

end Cocos.Tools
