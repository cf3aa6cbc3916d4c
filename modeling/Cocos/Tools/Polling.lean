import Cocos.Lib.Lists
import Cocos.Lib.Machine

namespace Cocos.Tools

open Cocos.Lib

/-!
# The polls of the web app

`tools/web/src/api.ts`, `usePoll`: one request, a pause, and the next, for as long as a component
shows a path.  The effect that polls is started a little after the render that asked for it, and
stopped as late; an answer may come at any time, and a path may change at any time.

* `PollLoop`, `Poll` — an effect of the hook, and all the hook keeps;
* `PollEvent`, `polling` — renders, effects, answers, timers and reloads, in any order;
* `Polls`, `polls_step` — what every step keeps;
* `one_poll_at_a_time` — **no poll stacks up behind another, none stalls, and no answer is shown
  over a newer one**;
* `Poll.InTime`, `shows_own_path_iff` — **what is shown is the answer of the path shown, just where
  no answer comes between a change of path and its effect**.
-/

/-! ### The hook -/

/-- Where the loop of an effect is: a request is out, a timer is set, or it is over. -/
inductive PollStage
  | fetching (request : Nat)
  | waiting
  | ended
deriving DecidableEq

/-- The loop of an effect, which asks for one path until it is told that it is not live any more. -/
structure PollLoop where
  path : String
  live : Bool
  stage : PollStage
deriving DecidableEq

/-- The clean-up of an effect: no timer is left, and a request that is out will find nobody. -/
def PollLoop.stop (loop : PollLoop) : PollLoop where
  path := loop.path
  live := false
  stage := if loop.stage = .waiting then .ended else loop.stage

/-- A value that is shown, and the request it came of. -/
structure Shown (β : Type*) where
  value : β
  path : String
  request : Nat

/-- What a component of the app holds of one `usePoll`.  The effect that ran last did so for the
    path and the nonce in `ran`; the loops of all effects are kept, the newest last. -/
structure Poll (α : Type*) where
  path : Option String
  held : Option String
  data : Option (Shown α)
  error : Option (Shown String)
  nonce : Nat
  ran : Option (Option String × Nat)
  loops : List PollLoop
  /-- How many requests went out. -/
  requests : Nat
  mounted : Bool

/-- The component is rendered with a path, or asked to reload, its effect runs, a loop is answered
    or its timer fires, or the component goes away. -/
inductive PollEvent (α : Type*)
  | render (path : Option String)
  | reload
  | flush
  | answered (loop : Nat) (answer : Except String α)
  | fired (loop : Nat)
  | unmount

namespace Poll

variable {α : Type*}

/-- The first render; its effect is still to run. -/
def first (path : Option String) : Poll α where
  path := path
  held := path
  data := none
  error := none
  nonce := 0
  ran := none
  loops := []
  requests := 0
  mounted := true

/-- The effect of the last render runs, unless nothing it depends on has changed: the one before is
    cleaned up, and a loop starts where there is a path. -/
def flush (s : Poll α) : Poll α :=
  if s.ran = some (s.path, s.nonce) then s
  else { s with
    ran := some (s.path, s.nonce)
    loops := s.loops.map (·.stop) ++ (s.path.map (⟨·, true, .fetching s.requests⟩)).toList
    requests := s.requests + s.path.toList.length }

/-- A render with a path; what is held of another path is dropped in the same render.  An effect
    that is due runs before any render does. -/
def render (s : Poll α) (path : Option String) : Poll α :=
  let s := s.flush
  { s with
    path := path
    held := path
    data := if s.held = path then s.data else none
    error := if s.held = path then s.error else none }

/-- What came of a request is shown; an error leaves the data before it. -/
def setState (s : Poll α) (path : String) (request : Nat) : Except String α → Poll α
  | .ok data => { s with data := some ⟨data, path, request⟩, error := none }
  | .error message => { s with error := some ⟨message, path, request⟩ }

/-- The answer of a loop is shown, as long as the loop is live, and a timer is set. -/
def answered (s : Poll α) (i : Nat) (answer : Except String α) : Option (Poll α) :=
  match s.loops[i]? with
  | some ⟨path, true, .fetching request⟩ =>
    some ({ s with loops := s.loops.set i ⟨path, true, .waiting⟩ }.setState path request answer)
  | some ⟨path, false, .fetching _⟩ => some { s with loops := s.loops.set i ⟨path, false, .ended⟩ }
  | _ => none

/-- The timer of a loop fires, and its next request goes out. -/
def fired (s : Poll α) (i : Nat) : Option (Poll α) :=
  match s.loops[i]? with
  | some ⟨path, live, .waiting⟩ => some { s with
      loops := s.loops.set i ⟨path, live, .fetching s.requests⟩
      requests := s.requests + 1 }
  | _ => none

/-- One step; nothing is rendered once the component is gone. -/
def step (s : Poll α) : PollEvent α → Option (Poll α)
  | .render path => if s.mounted then some (s.render path) else none
  | .reload =>
    if s.mounted then
      let s := s.flush
      some { s with nonce := s.nonce + 1 }
    else none
  | .flush => if s.mounted then some s.flush else none
  | .answered i answer => s.answered i answer
  | .fired i => s.fired i
  | .unmount =>
    if s.mounted then some { s with mounted := false, loops := s.loops.map (·.stop) } else none

end Poll

/-- The machine of one `usePoll`. -/
def polling (α : Type*) : Machine (Poll α) (PollEvent α) := ⟨Poll.step⟩

/-! ### What is kept -/

/-- A loop that was stopped has no timer. -/
def PollLoop.Stopped (loop : PollLoop) : Prop := loop.live = false ∧ loop.stage ≠ .waiting

theorem PollLoop.stopped_stop (loop : PollLoop) : loop.stop.Stopped := by
  refine ⟨rfl, ?_⟩
  show (if loop.stage = .waiting then PollStage.ended else loop.stage) ≠ .waiting
  split
  · nofun
  · assumption

namespace Poll

variable {α : Type*} {s s' : Poll α} {e : PollEvent α}

/-- All loops but the newest were stopped.  That one goes on, for the path its effect ran for, and
    is ahead of what is shown. -/
structure Polls (s : Poll α) (stopped : List PollLoop) (current : Option PollLoop) : Prop where
  held : s.held = s.path
  loops : s.loops = stopped ++ current.toList
  ended : ∀ loop ∈ stopped, loop.Stopped
  live : ∀ loop, current = some loop → loop.live = true ∧ loop.stage ≠ .ended
  ran : ∀ path nonce, s.ran = some (path, nonce) → s.mounted = true →
    current.map (·.path) = path
  gone : s.ran = none ∨ s.mounted = false → current = none
  ahead : ∀ loop request, current = some loop → loop.stage = .fetching request →
    request < s.requests ∧ (∀ d, s.data = some d → d.request < request) ∧
      ∀ d, s.error = some d → d.request < request
  shown : (∀ d, s.data = some d → d.request < s.requests) ∧
    ∀ d, s.error = some d → d.request < s.requests
  /-- An error came after the data it stands beside. -/
  order : ∀ d d', s.data = some d → s.error = some d' → d.request < d'.request

theorem polls_first (path : Option String) : Polls (first path : Poll α) [] none where
  held := rfl
  loops := rfl
  ended := nofun
  live := nofun
  ran := nofun
  gone _ := rfl
  ahead := nofun
  shown := ⟨nofun, nofun⟩
  order := nofun

variable {stopped : List PollLoop} {current : Option PollLoop} {path : Option String} {i : Nat}

/-- An effect runs. -/
theorem Polls.flush (h : Polls s stopped current) (hmounted : s.mounted = true) :
    ∃ stopped' current', Polls s.flush stopped' current' ∧
      s.flush.ran = some (s.path, s.nonce) := by
  by_cases hran : s.ran = some (s.path, s.nonce)
  · rw [Poll.flush, if_pos hran]
    exact ⟨stopped, current, h, hran⟩
  · rw [Poll.flush, if_neg hran]
    refine ⟨s.loops.map (·.stop), s.path.map (⟨·, true, .fetching s.requests⟩), ?_, rfl⟩
    have hle : s.requests ≤ s.requests + s.path.toList.length := Nat.le_add_right ..
    refine ⟨h.held, rfl, ?_, ?_, ?_, ?_, ?_, ⟨?_, ?_⟩, h.order⟩
    · exact List.forall_mem_map.mpr fun loop _ => loop.stopped_stop
    · intro loop hloop
      obtain ⟨path, -, rfl⟩ := Option.map_eq_some_iff.mp hloop
      exact ⟨rfl, nofun⟩
    · intro path nonce heq _
      cases heq
      rw [Option.map_map]
      exact Option.map_id' ..
    · rintro (hnone | hgone)
      · cases hnone
      · exact absurd (hmounted.symm.trans hgone) nofun
    · intro loop request hloop hstage
      obtain ⟨path, hpath, rfl⟩ := Option.map_eq_some_iff.mp hloop
      cases hstage
      refine ⟨?_, h.shown.1, h.shown.2⟩
      rw [hpath]
      exact Nat.lt_succ_self _
    · exact fun d hd => Nat.lt_of_lt_of_le (h.shown.1 d hd) hle
    · exact fun d hd => Nat.lt_of_lt_of_le (h.shown.2 d hd) hle

/-- A render keeps what is shown, or drops it. -/
theorem Polls.render (h : Polls s stopped current) (hmounted : s.mounted = true) :
    ∃ stopped' current', Polls (s.render path) stopped' current' := by
  obtain ⟨stopped', current', h', -⟩ := h.flush hmounted
  refine ⟨stopped', current', rfl, h'.loops, h'.ended, h'.live, h'.ran, h'.gone, ?_, ⟨?_, ?_⟩,
    ?_⟩
  · intro loop request hloop hstage
    obtain ⟨hsent, hdata, herror⟩ := h'.ahead loop request hloop hstage
    exact ⟨hsent, fun d hd => hdata d (Option.ite_none_right_eq_some.mp hd).2,
      fun d hd => herror d (Option.ite_none_right_eq_some.mp hd).2⟩
  · exact fun d hd => h'.shown.1 d (Option.ite_none_right_eq_some.mp hd).2
  · exact fun d hd => h'.shown.2 d (Option.ite_none_right_eq_some.mp hd).2
  · exact fun d d' hd hd' => h'.order d d' (Option.ite_none_right_eq_some.mp hd).2
      (Option.ite_none_right_eq_some.mp hd').2

/-- What an answer does: that of a live loop is shown, and any other is for nobody. -/
theorem answered_spec {answer : Except String α} (hstep : s.answered i answer = some s') :
    ∃ loopPath live request, s.loops[i]? = some ⟨loopPath, live, .fetching request⟩ ∧
      (live = true ∧ s' = { s with
          loops := s.loops.set i ⟨loopPath, true, .waiting⟩ }.setState loopPath request answer ∨
        live = false ∧ s' = { s with loops := s.loops.set i ⟨loopPath, false, .ended⟩ }) := by
  unfold Poll.answered at hstep
  split at hstep
  · rename_i loopPath request hloop
    cases hstep
    exact ⟨loopPath, true, request, hloop, .inl ⟨rfl, rfl⟩⟩
  · rename_i loopPath request hloop
    cases hstep
    exact ⟨loopPath, false, request, hloop, .inr ⟨rfl, rfl⟩⟩
  · cases hstep

theorem fired_spec (hstep : s.fired i = some s') : ∃ loopPath live,
    s.loops[i]? = some ⟨loopPath, live, .waiting⟩ ∧ s' = { s with
      loops := s.loops.set i ⟨loopPath, live, .fetching s.requests⟩
      requests := s.requests + 1 } := by
  unfold Poll.fired at hstep
  split at hstep
  · rename_i loopPath live hloop
    cases hstep
    exact ⟨loopPath, live, hloop, rfl⟩
  · cases hstep

/-- A loop is one of those that were stopped, or the newest. -/
theorem Polls.loop_at (h : Polls s stopped current) {loop : PollLoop}
    (hloop : s.loops[i]? = some loop) :
    (loop.Stopped ∧ ∀ loop', s.loops.set i loop' = stopped.set i loop' ++ current.toList) ∨
      current = some loop ∧ ∀ loop', s.loops.set i loop' = stopped ++ [loop'] := by
  rw [h.loops] at hloop ⊢
  rcases Nat.lt_or_ge i stopped.length with hlt | hge
  · rw [List.getElem?_append_left hlt] at hloop
    exact .inl ⟨h.ended _ (List.mem_of_getElem? hloop), fun loop' => List.set_append_left _ _ hlt⟩
  · rw [List.getElem?_append_right hge] at hloop
    cases current with
    | none => cases hloop
    | some newest =>
      obtain ⟨hzero, hnewest⟩ : i - stopped.length = 0 ∧ newest = loop := by
        simpa [List.getElem?_singleton] using hloop
      refine .inr ⟨congrArg some hnewest, fun loop' => ?_⟩
      rw [List.set_append_right _ _ hge, hzero]
      rfl

/-- The newest loop goes on: it is answered, or sends its next request. -/
theorem Polls.goes_on (h : Polls s stopped current) {loop next : PollLoop}
    (hcurrent : current = some loop) (hpath : next.path = loop.path) (hlive : next.live = true)
    (hstage : next.stage ≠ .ended) (hheld : s'.held = s'.path)
    (hran : s'.ran = s.ran ∧ s'.mounted = s.mounted) (hloops : s'.loops = stopped ++ [next])
    (hahead : ∀ request, next.stage = .fetching request → request < s'.requests ∧
      (∀ d, s'.data = some d → d.request < request) ∧ ∀ d, s'.error = some d → d.request < request)
    (hshown : (∀ d, s'.data = some d → d.request < s'.requests) ∧
      ∀ d, s'.error = some d → d.request < s'.requests)
    (horder : ∀ d d', s'.data = some d → s'.error = some d' → d.request < d'.request) :
    Polls s' stopped (some next) where
  held := hheld
  loops := hloops
  ended := h.ended
  live := by
    rintro _ ⟨⟩
    exact ⟨hlive, hstage⟩
  ran path nonce heq hmounted := by
    rw [hran.1] at heq
    rw [hran.2] at hmounted
    rw [← h.ran path nonce heq hmounted, hcurrent, Option.map_some, Option.map_some, hpath]
  gone hgone := by
    rw [hran.1, hran.2] at hgone
    exact absurd (hcurrent.symm.trans (h.gone hgone)) nofun
  ahead := by
    rintro _ request ⟨⟩ hfetching
    exact hahead request hfetching
  shown := hshown
  order := horder

/-- A stopped loop comes to its end, and changes nothing else. -/
theorem Polls.ends (h : Polls s stopped current) {loop : PollLoop} (hover : loop.Stopped)
    (hset : s.loops.set i loop = stopped.set i loop ++ current.toList) :
    Polls { s with loops := s.loops.set i loop } (stopped.set i loop) current :=
  ⟨h.held, hset, forall_mem_set h.ended hover i, h.live, h.ran, h.gone, h.ahead, h.shown,
    h.order⟩

/-- **One step keeps it so.** -/
theorem polls_step (h : Polls s stopped current) (hstep : (polling α).step s e = some s') :
    ∃ stopped' current', Polls s' stopped' current' := by
  cases e with
  | render path =>
    obtain ⟨hmounted, hstep⟩ := Option.ite_none_right_eq_some.mp hstep
    cases hstep
    exact h.render hmounted
  | reload =>
    obtain ⟨hmounted, hstep⟩ := Option.ite_none_right_eq_some.mp hstep
    cases hstep
    obtain ⟨stopped', current', h', -⟩ := h.flush hmounted
    exact ⟨stopped', current', h'.held, h'.loops, h'.ended, h'.live, h'.ran, h'.gone, h'.ahead,
      h'.shown, h'.order⟩
  | flush =>
    obtain ⟨hmounted, hstep⟩ := Option.ite_none_right_eq_some.mp hstep
    cases hstep
    obtain ⟨stopped', current', h', -⟩ := h.flush hmounted
    exact ⟨stopped', current', h'⟩
  | answered i answer =>
    obtain ⟨loopPath, live, request, hloop, hnext⟩ := answered_spec hstep
    rcases hnext with ⟨rfl, rfl⟩ | ⟨rfl, rfl⟩
    · rcases h.loop_at hloop with ⟨⟨hlive, -⟩, -⟩ | ⟨hcurrent, hset⟩
      · cases hlive
      · obtain ⟨hsent, hdata, -⟩ := h.ahead _ request hcurrent rfl
        cases answer with
        | ok value =>
          refine ⟨stopped, some ⟨loopPath, true, .waiting⟩,
            h.goes_on hcurrent rfl rfl nofun h.held ⟨rfl, rfl⟩ (hset _) nofun
              ⟨?_, nofun⟩ fun _ _ _ => nofun⟩
          rintro _ ⟨⟩
          exact hsent
        | error message =>
          refine ⟨stopped, some ⟨loopPath, true, .waiting⟩,
            h.goes_on hcurrent rfl rfl nofun h.held ⟨rfl, rfl⟩ (hset _) nofun
              ⟨h.shown.1, ?_⟩ ?_⟩
          · rintro _ ⟨⟩
            exact hsent
          · rintro d _ hd ⟨⟩
            exact hdata d hd
    · rcases h.loop_at hloop with ⟨-, hset⟩ | ⟨hcurrent, -⟩
      · exact ⟨_, current, h.ends ⟨rfl, nofun⟩ (hset _)⟩
      · exact absurd (h.live _ hcurrent).1 nofun
  | fired i =>
    obtain ⟨loopPath, live, hloop, rfl⟩ := fired_spec hstep
    rcases h.loop_at hloop with ⟨⟨-, hstage⟩, -⟩ | ⟨hcurrent, hset⟩
    · exact absurd rfl hstage
    · refine ⟨stopped, some ⟨loopPath, live, .fetching s.requests⟩, h.goes_on hcurrent rfl
        (h.live _ hcurrent).1 nofun h.held ⟨rfl, rfl⟩ (hset _) ?_ ?_ h.order⟩
      · rintro request ⟨⟩
        exact ⟨Nat.lt_succ_self _, h.shown⟩
      · exact ⟨fun d hd => Nat.lt_succ_of_lt (h.shown.1 d hd),
          fun d hd => Nat.lt_succ_of_lt (h.shown.2 d hd)⟩
  | unmount =>
    obtain ⟨hmounted, hstep⟩ := Option.ite_none_right_eq_some.mp hstep
    cases hstep
    refine ⟨s.loops.map (·.stop), none, h.held, (List.append_nil _).symm, ?_, nofun, ?_,
      fun _ => rfl, nofun, h.shown, h.order⟩
    · exact List.forall_mem_map.mpr fun loop _ => loop.stopped_stop
    · exact fun _ _ _ hmounted => nomatch hmounted

/-- So it is in every state. -/
theorem polls_run {path : Option String} {es : List (PollEvent α)}
    (hrun : (polling α).run (first path) es = some s) : ∃ stopped current, Polls s stopped current :=
  (polling α).invariant_run (I := fun s => ∃ stopped current, Polls s stopped current)
    (fun ⟨_, _, h⟩ hstep => polls_step h hstep) ⟨[], none, polls_first path⟩ hrun

/-! ### One poll at a time -/

/-- Every request that is still listened to was sent after a given one, and so was all that is
    shown, if it was not sent with it or is the data that are kept. -/
structure Past (request : Nat) (kept : Option (Shown α)) (s : Poll α) : Prop where
  sent : request < s.requests
  data : ∀ d, s.data = some d → kept = some d ∨ request ≤ d.request
  error : ∀ d, s.error = some d → request ≤ d.request
  loops : ∀ loop ∈ s.loops, loop.live = true → ∀ r, loop.stage = .fetching r → request < r

variable {request : Nat} {kept : Option (Shown α)}

theorem Past.flush (h : Past request kept s) : Past request kept s.flush := by
  by_cases hran : s.ran = some (s.path, s.nonce)
  · rwa [Poll.flush, if_pos hran]
  · rw [Poll.flush, if_neg hran]
    refine ⟨Nat.lt_of_lt_of_le h.sent (Nat.le_add_right ..), h.data, h.error, ?_⟩
    refine List.forall_mem_append.mpr ⟨List.forall_mem_map.mpr fun loop _ => nofun, ?_⟩
    intro loop hloop _ r hr
    obtain ⟨path, -, rfl⟩ := Option.map_eq_some_iff.mp (Option.mem_toList.mp hloop)
    cases hr
    exact h.sent

/-- **What is shown later was asked for later.** -/
theorem Past.step (h : Past request kept s) (hstep : (polling α).step s e = some s') :
    Past request kept s' := by
  cases e with
  | render path =>
    obtain ⟨-, hstep⟩ := Option.ite_none_right_eq_some.mp hstep
    cases hstep
    obtain ⟨hsent, hdata, herror, hloops⟩ := h.flush
    exact ⟨hsent, fun d hd => hdata d (Option.ite_none_right_eq_some.mp hd).2,
      fun d hd => herror d (Option.ite_none_right_eq_some.mp hd).2, hloops⟩
  | reload =>
    obtain ⟨-, hstep⟩ := Option.ite_none_right_eq_some.mp hstep
    cases hstep
    obtain ⟨hsent, hdata, herror, hloops⟩ := h.flush
    exact ⟨hsent, hdata, herror, hloops⟩
  | flush =>
    obtain ⟨-, hstep⟩ := Option.ite_none_right_eq_some.mp hstep
    cases hstep
    exact h.flush
  | answered i answer =>
    obtain ⟨loopPath, live, r, hloop, hnext⟩ := answered_spec hstep
    have hmem := List.mem_of_getElem? hloop
    rcases hnext with ⟨rfl, rfl⟩ | ⟨rfl, rfl⟩
    · have hloops : ∀ loop ∈ s.loops.set i ⟨loopPath, true, .waiting⟩, loop.live = true →
          ∀ r, loop.stage = .fetching r → request < r := forall_mem_set h.loops (by rintro - _ ⟨⟩) i
      have hlate : request ≤ r := Nat.le_of_lt (h.loops _ hmem rfl r rfl)
      cases answer with
      | ok value =>
        refine ⟨h.sent, ?_, nofun, hloops⟩
        rintro _ ⟨⟩
        exact .inr hlate
      | error message =>
        refine ⟨h.sent, h.data, ?_, hloops⟩
        rintro _ ⟨⟩
        exact hlate
    · exact ⟨h.sent, h.data, h.error, forall_mem_set h.loops (by rintro - _ ⟨⟩) i⟩
  | fired i =>
    obtain ⟨loopPath, live, -, rfl⟩ := fired_spec hstep
    refine ⟨Nat.lt_succ_of_lt h.sent, h.data, h.error, forall_mem_set h.loops ?_ i⟩
    rintro - _ ⟨⟩
    exact h.sent
  | unmount =>
    obtain ⟨-, hstep⟩ := Option.ite_none_right_eq_some.mp hstep
    cases hstep
    exact ⟨h.sent, h.data, h.error, List.forall_mem_map.mpr fun loop _ => nofun⟩

/-- What is shown was asked for before all that is still listened to. -/
theorem Polls.past (h : Polls s stopped current) (hsent : request < s.requests)
    (hdata : ∀ d, s.data = some d → kept = some d ∨ request ≤ d.request)
    (herror : ∀ d, s.error = some d → request ≤ d.request)
    (hahead : ∀ loop r, current = some loop → loop.stage = .fetching r → request < r) :
    Past request kept s where
  sent := hsent
  data := hdata
  error := herror
  loops := by
    rw [h.loops]
    refine List.forall_mem_append.mpr ⟨fun loop hloop hlive => ?_, fun loop hloop _ r hr => ?_⟩
    · exact absurd ((h.ended loop hloop).1.symm.trans hlive) nofun
    · exact hahead loop r (Option.mem_toList.mp hloop) hr

/-- What is shown later is no older than what was shown. -/
structure NoOlder (s s' : Poll α) : Prop where
  data : ∀ d d', s.data = some d → s'.data = some d' → d.request ≤ d'.request
  error : ∀ d d', s.error = some d → s'.error = some d' → d.request ≤ d'.request
  errorOverData : ∀ d d', s.data = some d → s'.error = some d' → d.request ≤ d'.request
  /-- The data that an error stands beside may be older. -/
  dataOverError : ∀ d d', s.error = some d → s'.data = some d' →
    s.data = some d' ∨ d.request ≤ d'.request

theorem Polls.noOlder (h : Polls s stopped current) {fs : List (PollEvent α)}
    (hfs : (polling α).run s fs = some s') : NoOlder s s' := by
  have hlater : ∀ {request kept}, Past request kept s → Past request kept s' := fun hpast =>
    (polling α).invariant_run (I := Past _ _) Past.step hpast hfs
  have hdata : ∀ d, s.data = some d → Past d.request none s' := fun d hd =>
    hlater (h.past (h.shown.1 d hd)
      (fun d₁ hd₁ => .inr (by rw [Option.some.inj (hd.symm.trans hd₁)]))
      (fun d₁ hd₁ => (h.order d d₁ hd hd₁).le) fun loop r hloop hr =>
        (h.ahead loop r hloop hr).2.1 d hd)
  have herror : ∀ d, s.error = some d → Past d.request s.data s' := fun d hd =>
    hlater (h.past (h.shown.2 d hd) (fun _ => .inl)
      (fun d₁ hd₁ => by rw [Option.some.inj (hd.symm.trans hd₁)]) fun loop r hloop hr =>
        (h.ahead loop r hloop hr).2.2 d hd)
  refine ⟨fun d d' hd hd' => ?_, fun d d' hd => (herror d hd).error d', fun d d' hd =>
    (hdata d hd).error d', fun d d' hd => (herror d hd).data d'⟩
  exact ((hdata d hd).data d' hd').resolve_left nofun

/-- **One poll at a time**, however renders, reloads, effects, timers and answers interleave.  At
    most one loop is live, and no other has a timer, so that no poll stacks up behind another; as
    soon as the effects have run, a component that shows a path has a loop for it that is fetching
    or waiting to; one that is gone has none; and no answer is shown over one that was asked for
    after it. -/
theorem one_poll_at_a_time {path : Option String} {es : List (PollEvent α)}
    (hrun : (polling α).run (first path) es = some s) :
    s.loops.countP (·.live) ≤ 1 ∧ (∀ loop ∈ s.loops, loop.stage = .waiting → loop.live = true) ∧
    (s.mounted = true → s.ran = some (s.path, s.nonce) → ∀ path, s.path = some path →
      ∃ loop ∈ s.loops, loop.live = true ∧ loop.path = path ∧ loop.stage ≠ .ended) ∧
    (s.mounted = false → ∀ loop ∈ s.loops, loop.live = false) ∧
    ∀ fs s', (polling α).run s fs = some s' → NoOlder s s' := by
  obtain ⟨stopped, current, h⟩ := polls_run hrun
  have hnone : stopped.countP (·.live) = 0 :=
    List.countP_eq_zero.mpr fun loop hloop => Bool.eq_false_iff.mp (h.ended loop hloop).1
  refine ⟨?_, ?_, fun hmounted hran path hpath => ?_, fun hgone => ?_, ?_⟩
  · rw [h.loops, List.countP_append, hnone, Nat.zero_add]
    exact Nat.le_trans List.countP_le_length Option.length_toList_le
  · rw [h.loops]
    refine List.forall_mem_append.mpr ⟨fun loop hloop hstage => ?_, fun loop hloop _ => ?_⟩
    · exact absurd hstage (h.ended loop hloop).2
    · exact (h.live loop (Option.mem_toList.mp hloop)).1
  · have hcurrent := h.ran _ _ hran hmounted
    rw [hpath] at hcurrent
    obtain ⟨loop, hloop, hsame⟩ := Option.map_eq_some_iff.mp hcurrent
    obtain ⟨hlive, hstage⟩ := h.live loop hloop
    refine ⟨loop, ?_, hlive, hsame, hstage⟩
    rw [h.loops]
    exact List.mem_append_right _ (Option.mem_toList.mpr hloop)
  · rw [h.loops, h.gone (.inr hgone)]
    exact List.forall_mem_append.mpr ⟨fun loop hloop => (h.ended loop hloop).1, nofun⟩
  · exact fun fs s' hfs => h.noOlder hfs

/-! ### Whose answer is shown -/

/-- All that is shown came of a request for the path that is shown. -/
def ShowsOwnPath (s : Poll α) : Prop :=
  (∀ d, s.data = some d → s.path = some d.path) ∧ ∀ d, s.error = some d → s.path = some d.path

/-- No answer comes for a path that is not shown any more, while its loop is still live: between a
    render that changed the path and the effect of that render. -/
def InTime (s : Poll α) : PollEvent α → Prop
  | .answered i _ => ∀ loop, s.loops[i]? = some loop → loop.live = true → s.path = some loop.path
  | _ => True

instance (s : Poll α) : ∀ e, Decidable (s.InTime e)
  | .answered i _ =>
    match h : s.loops[i]? with
    | none => isTrue fun _ hloop => absurd (h.symm.trans hloop) nofun
    | some loop => decidable_of_iff (loop.live = true → s.path = some loop.path)
        ⟨fun hloop _ heq => Option.some.inj (h.symm.trans heq) ▸ hloop, fun hall => hall loop h⟩
  | .render _ | .reload | .flush | .fired _ | .unmount => isTrue trivial

/-- Once the effects have run every answer is in time. -/
theorem Polls.inTime (h : Polls s stopped current) (hran : s.ran = some (s.path, s.nonce))
    (e : PollEvent α) : s.InTime e := by
  cases e with
  | answered i answer =>
    intro loop hloop hlive
    rcases h.loop_at hloop with ⟨⟨hstopped, -⟩, -⟩ | ⟨hcurrent, -⟩
    · exact absurd (hstopped.symm.trans hlive) nofun
    · by_cases hmounted : s.mounted = true
      · rw [← h.ran _ _ hran hmounted, hcurrent]
        rfl
      · cases (h.gone (.inr (Bool.eq_false_iff.mpr hmounted))).symm.trans hcurrent
  | render | reload | flush | fired | unmount => exact trivial

theorem showsOwnPath_flush (h : s.ShowsOwnPath) : s.flush.ShowsOwnPath := by
  unfold Poll.flush
  split
  · exact h
  · exact h

theorem ShowsOwnPath.step (h : Polls s stopped current) (hown : s.ShowsOwnPath)
    (hintime : s.InTime e) (hstep : (polling α).step s e = some s') : s'.ShowsOwnPath := by
  cases e with
  | render path =>
    obtain ⟨hmounted, hstep⟩ := Option.ite_none_right_eq_some.mp hstep
    cases hstep
    obtain ⟨stopped', current', h', -⟩ := h.flush hmounted
    have hflush := showsOwnPath_flush hown
    refine ⟨fun d hd => ?_, fun d hd => ?_⟩
    · obtain ⟨hheld, hd⟩ := Option.ite_none_right_eq_some.mp hd
      exact (hheld.symm.trans h'.held).trans (hflush.1 d hd)
    · obtain ⟨hheld, hd⟩ := Option.ite_none_right_eq_some.mp hd
      exact (hheld.symm.trans h'.held).trans (hflush.2 d hd)
  | reload =>
    obtain ⟨-, hstep⟩ := Option.ite_none_right_eq_some.mp hstep
    cases hstep
    exact showsOwnPath_flush hown
  | flush =>
    obtain ⟨-, hstep⟩ := Option.ite_none_right_eq_some.mp hstep
    cases hstep
    exact showsOwnPath_flush hown
  | answered i answer =>
    obtain ⟨loopPath, live, r, hloop, hnext⟩ := answered_spec hstep
    rcases hnext with ⟨rfl, rfl⟩ | ⟨rfl, rfl⟩
    · have hpath : s.path = some loopPath := hintime _ hloop rfl
      cases answer with
      | ok value =>
        refine ⟨?_, nofun⟩
        rintro _ ⟨⟩
        exact hpath
      | error message =>
        refine ⟨hown.1, ?_⟩
        rintro _ ⟨⟩
        exact hpath
    · exact hown
  | fired i =>
    obtain ⟨loopPath, live, -, rfl⟩ := fired_spec hstep
    exact hown
  | unmount =>
    obtain ⟨-, hstep⟩ := Option.ite_none_right_eq_some.mp hstep
    cases hstep
    exact hown

/-- An answer that is not in time is shown over the path that is. -/
theorem not_showsOwnPath_of_late (hlate : ¬s.InTime e)
    (hstep : (polling α).step s e = some s') : ¬s'.ShowsOwnPath := by
  cases e with
  | render | reload | flush | fired | unmount => exact absurd trivial hlate
  | answered i answer =>
    obtain ⟨loopPath, live, r, hloop, hnext⟩ := answered_spec hstep
    obtain ⟨loop, hloop', hlive, hpath⟩ : ∃ loop, s.loops[i]? = some loop ∧ loop.live = true ∧
        s.path ≠ some loop.path := by
      simpa [InTime] using hlate
    obtain rfl := Option.some.inj (hloop.symm.trans hloop')
    rcases hnext with ⟨rfl, rfl⟩ | ⟨rfl, -⟩
    · cases answer with
      | ok value => exact fun hown => hpath (hown.1 _ rfl)
      | error message => exact fun hown => hpath (hown.2 _ rfl)
    · cases hlive

/-- **What is shown is of the path that is shown**, in every state of a run, just where every answer
    is in time: none comes for a path between the render that left it and the effect of that render,
    as where the effects run with the render. -/
theorem shows_own_path_iff {path : Option String} {es : List (PollEvent α)}
    (hrun : (polling α).run (first path) es = some s) :
    (polling α).Along InTime (first path) es ↔
      ∀ fs s', fs <+: es → (polling α).run (first path) fs = some s' → s'.ShowsOwnPath := by
  have hfirst : (∃ stopped current, Polls (first path : Poll α) stopped current) ∧
      (first path : Poll α).ShowsOwnPath := ⟨⟨[], none, polls_first path⟩, nofun, nofun⟩
  have hkeeps : ∀ {s e s'}, (∃ stopped current, Polls s stopped current) ∧ s.ShowsOwnPath →
      s.InTime e → (polling α).step s e = some s' →
      (∃ stopped current, Polls s' stopped current) ∧ s'.ShowsOwnPath :=
    fun ⟨⟨_, _, h⟩, hown⟩ hintime hstep => ⟨polls_step h hstep, hown.step h hintime hstep⟩
  constructor
  · intro halong fs s' hfs hrun'
    exact ((polling α).invariant_along hkeeps hfirst
      (Machine.along_of_prefix (polling α) halong hfs) hrun').2
  · intro hall
    refine (polling α).along_of_no_break hfirst hkeeps hrun fun fs s₁ e s₂ hfs hs₂ _ hlate he => ?_
    exact not_showsOwnPath_of_late hlate he (hall fs s₂ hfs hs₂)

/-- Two accounts are looked at, and the answer for the first comes after the effect of the second. -/
def switching : List (PollEvent String) :=
  [.flush, .answered 0 (.ok "user 1"), .fired 0, .render (some "/api/users/2/portfolio"), .flush,
    .answered 0 (.ok "user 1"), .answered 1 (.ok "user 2"), .reload, .fired 1, .flush,
    .answered 2 (.error "The request failed with status 503."), .fired 2,
    .answered 2 (.ok "user 2")]

/-- What is shown was asked for in this order, by one loop at a time. -/
theorem one_poll_at_a_time_switching : ∃ s,
    (polling String).run (first (some "/api/users/1/portfolio")) switching = some s ∧
    s.loops.length = 3 ∧ s.loops.countP (·.live) ≤ 1 := by
  obtain ⟨s, hs, hlength⟩ := (polling String).exists_run
    (first (some "/api/users/1/portfolio")) switching (P := fun s => s.loops.length = 3) (by decide)
  exact ⟨s, hs, hlength, (one_poll_at_a_time hs).1⟩

/-- It is of the account that is looked at. -/
theorem shows_own_path_iff_switching : ∃ s,
    (polling String).run (first (some "/api/users/1/portfolio")) switching = some s ∧
    s.path = some "/api/users/2/portfolio" ∧ s.ShowsOwnPath := by
  obtain ⟨s, hs, hpath⟩ := (polling String).exists_run
    (first (some "/api/users/1/portfolio")) switching
    (P := fun s => s.path = some "/api/users/2/portfolio") (by decide)
  exact ⟨s, hs, hpath, (shows_own_path_iff hs).mp (by decide) switching s (List.prefix_refl _) hs⟩

end Poll

end Cocos.Tools
