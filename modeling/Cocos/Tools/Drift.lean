import Cocos.Tools.Detectors
import Cocos.Tools.Reseeding

namespace Cocos.Tools

open Cocos.Lib
open Numbers

/-!
# Balances that drift

`BackofficeService.checkDrift` of `tools/src/backoffice/backoffice.service.ts`: the shadows are
looked at, the API is asked for the balance of every user whose shadow is evidence, and when all
have come the shadows are looked at again.  Meanwhile orders are sent, decided and settled.

* `DriftCheck`, `Drifting` — the check that is under way, beside the simulation and its target;
* `Exact` — a trusted shadow with nothing outstanding has the target's balance;
* `drawnBetween` — what the orders of a user drew that were filled between two moments;
* `balance_drift_iff` — **with exact shadows the check finds fault exactly where the balance, as it
  is written, is not what the orders left of it that were filled between the first look and the
  API's answer**: where they drew something, as long as it is written to the centavo.
-/

/-- A balance the API was asked for, `none` where it did not come, and the moment it was taken. -/
structure DriftReading where
  userId : Int
  cash : Option String
  moment : Nat

/-- A check under way: what the shadows said, and when, and the balances that have come. -/
structure DriftCheck where
  before : List ShadowUserSnapshot
  moment : Nat
  readings : List DriftReading

namespace DriftCheck

/-- The users the API is asked about. -/
def readable (c : DriftCheck) : List ShadowUserSnapshot := c.before.filter (·.settled)

/-- The balances that came. -/
def apiCash (c : DriftCheck) : JsMap Int String :=
  .ofEntries (c.readings.filterMap fun r => r.cash.map fun cash => (r.userId, cash))

/-- Every balance that was asked for has come or failed. -/
def read (c : DriftCheck) : Bool :=
  c.readable.all fun user => c.readings.any fun r => r.userId = user.userId

end DriftCheck

/-- The simulation with its target, the check under way, and what was found. -/
structure Drifting where
  world : World
  check : Option DriftCheck
  findings : List Finding

namespace Drifting

def initial (books : Int → Book) : Drifting := ⟨.initial books, none, []⟩

end Drifting

/-- A step of the simulation or of its target; or the check begins, has a balance taken by the
    target (it may not come), or ends. -/
inductive DriftEvent
  | simulate (e : Event)
  | begin
  | serve (userId : Int) (answered : Bool)
  | finish

section Steps

variable [N : Numbers]

/-- One step, `none` where it cannot be taken.  A check begins at any moment. -/
def Drifting.step (closes : Nat → Int → Int) (s : Drifting) : DriftEvent → Option Drifting
  | .simulate e => (Tools.step closes s.world e).map fun world => { s with world := world }
  | .begin =>
    let c : DriftCheck := ⟨s.world.ledger.snapshot, s.world.clock, []⟩
    if s.check.isNone ∧ c.readable ≠ [] then some { s with
      check := some c
      world := { s.world with clock := s.world.clock + 1 } }
    else none
  | .serve userId answered =>
    match s.check with
    | some c =>
      if (∃ user ∈ c.readable, user.userId = userId) ∧ ∀ r ∈ c.readings, r.userId ≠ userId then
        let cash := if answered then some (apiString (s.world.books userId).cash) else none
        some { s with
          check := some { c with readings := c.readings ++ [⟨userId, cash, s.world.clock⟩] }
          world := { s.world with clock := s.world.clock + 1 } }
      else none
    | none => none
  | .finish =>
    match s.check with
    | some c =>
      if c.read then some { s with
        check := none
        findings := s.findings ++
          (driftFindings c.before s.world.ledger.snapshot c.apiCash).2 }
      else none
    | none => none

/-- The machine of the check, against a target with these closes. -/
def drifting (closes : Nat → Int → Int) : Machine Drifting DriftEvent := ⟨Drifting.step closes⟩

end Steps

/-- A shadow that is trusted and has nothing outstanding has the target's balance. -/
def Exact (w : World) : Prop :=
  ∀ e ∈ w.ledger.users.entries, e.2.seeded = true → e.2.uncertain = false →
    e.2.outstanding = 0 → e.2.cash = (w.books e.1).cash

instance (w : World) : Decidable (Exact w) := inferInstanceAs (Decidable (∀ _ ∈ _, _))

/-! ### What was drawn between two moments -/

/-- What an order of user `u` drew that was filled after `from` and not after `to`. -/
def Flight.drawnBetween (start stop : Nat) (u : Int) (ρ : Resource) (x : Flight) : Int :=
  if x.order.userId = u ∧ x.filledAfter start ∧ ¬x.filledAfter stop then x.drawn ρ else 0

/-- What was drawn since a moment was drawn up to a later one, or since that. -/
theorem Flight.drawnSince_eq_add {start stop : Nat} (h : start ≤ stop) (u : Int) (ρ : Resource)
    (x : Flight) :
    x.drawnSince start u ρ = x.drawnBetween start stop u ρ + x.drawnSince stop u ρ := by
  have hlater : x.filledAfter stop = true → x.filledAfter start = true := by
    unfold Flight.filledAfter
    split
    · rw [decide_eq_true_eq, decide_eq_true_eq]
      exact h.trans_lt
    · exact id
  by_cases hu : x.order.userId = u
  · cases hstart : x.filledAfter start with
    | false =>
      cases hstop : x.filledAfter stop with
      | false => simp [drawnSince, drawnBetween, hstart, hstop]
      | true => exact absurd (hlater hstop) (by simp [hstart])
    | true =>
      cases hstop : x.filledAfter stop with
      | false => simp [drawnSince, drawnBetween, hstart, hstop]
      | true => simp [drawnSince, drawnBetween, hstart, hstop]
  · simp [drawnSince, drawnBetween, hu]

/-- The balance of a user at an earlier moment: what it is now, and what was drawn since. -/
def World.cashAt (w : World) (moment : Nat) (u : Int) : Int :=
  (w.books u).cash + tally (Flight.drawnSince moment u .cash) w.flights

theorem World.cashAt_sub (w : World) {start stop : Nat} (h : start ≤ stop) (u : Int) :
    w.cashAt start u - w.cashAt stop u =
      tally (Flight.drawnBetween start stop u .cash) w.flights := by
  have hsplit : tally (Flight.drawnSince start u .cash) w.flights =
      tally (Flight.drawnBetween start stop u .cash) w.flights +
        tally (Flight.drawnSince stop u .cash) w.flights := by
    rw [← tally_add]
    exact tally_congr fun x _ => x.drawnSince_eq_add h u .cash
  rw [cashAt, cashAt, hsplit]
  omega

/-- At the moment itself nothing has been drawn since. -/
theorem World.cashAt_now {w : World} (h : ∀ x ∈ w.flights, x.DecidedBefore w.clock) (u : Int) :
    w.cashAt w.clock u = (w.books u).cash := by
  have hzero : tally (Flight.drawnSince w.clock u .cash) w.flights = 0 :=
    tally_eq_zero fun x hx => (h x hx).drawnSince le_rfl u .cash
  rw [cashAt, hzero, add_zero]

/-! ### What a check knows -/

/-- What a check has read is what there was at the moments it was read, as either side writes it. -/
structure DriftCheck.Sound [N : Numbers] (c : DriftCheck) (w : World) : Prop where
  moment : c.moment < w.clock
  users : (c.before.map (·.userId)).Nodup
  before : ∀ user ∈ c.before, user.settled = true →
    user.cash = toMoney (w.cashAt c.moment user.userId)
  readers : (c.readings.map (·.userId)).Nodup
  readings : ∀ r ∈ c.readings, c.moment ≤ r.moment ∧ r.moment < w.clock ∧
    ∀ cash, r.cash = some cash → cash = apiString (w.cashAt r.moment r.userId)

structure Drifting.Inv [N : Numbers] (s : Drifting) : Prop where
  decided : ∀ x ∈ s.world.flights, x.DecidedBefore s.world.clock
  sound : ∀ c, s.check = some c → c.Sound s.world

section Sound

variable [N : Numbers]

theorem Drifting.inv_initial (books : Int → Book) : (Drifting.initial books).Inv where
  decided x hx := by cases hx
  sound c hc := by cases hc

/-- A check stays sound while no balance of the past changes and time goes on. -/
theorem DriftCheck.Sound.later {c : DriftCheck} {w w' : World} (h : c.Sound w)
    (hcash : ∀ moment < w.clock, ∀ u, w'.cashAt moment u = w.cashAt moment u)
    (hclock : w.clock ≤ w'.clock) : c.Sound w' where
  moment := h.moment.trans_le hclock
  users := h.users
  before user huser hsettled := by
    rw [hcash c.moment h.moment]
    exact h.before user huser hsettled
  readers := h.readers
  readings r hr := by
    obtain ⟨hmoment, hlt, hread⟩ := h.readings r hr
    refine ⟨hmoment, hlt.trans_le hclock, fun cash hsome => ?_⟩
    rw [hcash r.moment hlt]
    exact hread cash hsome

/-- Exact shadows, at the moment the check begins. -/
theorem DriftCheck.sound_begin {w : World} (hdecided : ∀ x ∈ w.flights, x.DecidedBefore w.clock)
    (hexact : Exact w) : DriftCheck.Sound ⟨w.ledger.snapshot, w.clock, []⟩
      { w with clock := w.clock + 1 } where
  moment := Nat.lt_succ_self _
  users := by
    rw [ShadowLedger.userIds_snapshot]
    exact w.ledger.users.nodup
  before user huser hsettled := by
    obtain ⟨⟨u, shadow⟩, hmem, rfl⟩ := List.mem_map.mp huser
    simp only [ShadowUserSnapshot.settled, Bool.and_eq_true, Bool.not_eq_true',
      decide_eq_true_eq] at hsettled
    have hcash := hexact _ hmem hsettled.1.1 hsettled.1.2 hsettled.2
    have hnow := World.cashAt_now hdecided u
    show toMoney shadow.cash = toMoney (w.cashAt w.clock u)
    rw [hnow, ← hcash]
  readers := List.nodup_nil
  readings r hr := by cases hr

/-- A balance that is taken by the target, of a user that has not been read. -/
theorem DriftCheck.Sound.serve {c : DriftCheck} {w : World} (h : c.Sound w)
    (hdecided : ∀ x ∈ w.flights, x.DecidedBefore w.clock) {userId : Int}
    (hnew : ∀ r ∈ c.readings, r.userId ≠ userId) (answered : Bool) :
    DriftCheck.Sound { c with readings := c.readings ++
      [⟨userId, if answered then some (apiString (w.books userId).cash) else none, w.clock⟩] }
      { w with clock := w.clock + 1 } := by
  have hlater : c.Sound { w with clock := w.clock + 1 } :=
    h.later (fun _ _ _ => rfl) (Nat.le_succ _)
  refine ⟨hlater.moment, hlater.users, hlater.before, ?_, fun r hr => ?_⟩
  · rw [List.map_append, List.map_singleton, ← List.concat_eq_append]
    refine List.Nodup.concat (fun hmem => ?_) h.readers
    obtain ⟨r, hr, heq⟩ := List.mem_map.mp hmem
    exact hnew r hr heq
  · rcases List.mem_append.mp hr with hr | hr
    · exact hlater.readings r hr
    · rw [List.mem_singleton] at hr
      subst hr
      refine ⟨h.moment.le, Nat.lt_succ_self _, fun cash hsome => ?_⟩
      change (if answered then some (apiString (w.books userId).cash) else none) =
        some cash at hsome
      split at hsome <;> cases hsome
      show _ = apiString (w.cashAt w.clock userId)
      rw [World.cashAt_now hdecided]

/-- **A step keeps a check sound**, if it begins with exact shadows. -/
theorem Drifting.Inv.step {closes : Nat → Int → Int} {s s' : Drifting} {e : DriftEvent}
    (h : s.Inv) (hexact : Exact s.world) (hstep : (drifting closes).step s e = some s') :
    s'.Inv := by
  -- time that passes while nothing is decided
  have hdecided : ∀ x ∈ s.world.flights, x.DecidedBefore (s.world.clock + 1) :=
    fun x hx execution clock hout => Nat.lt_succ_of_lt (h.decided x hx execution clock hout)
  cases e with
  | simulate e =>
    simp only [drifting, Drifting.step, Option.map_eq_some_iff] at hstep
    obtain ⟨world, htook, rfl⟩ := hstep
    have htook : Took closes s.world e world := took_of_step htook
    have hclock : s.world.clock ≤ world.clock := by
      cases htook <;> simp [World.place, World.execute, World.shed, World.seedUsers, World.take,
        World.finish, World.deliver]
    refine ⟨decided_step h.decided htook, fun c hc => (h.sound c hc).later (fun moment hlt u => ?_)
      hclock⟩
    exact drawn_step htook hlt u .cash
  | begin =>
    simp only [drifting, Drifting.step] at hstep
    split at hstep
    · cases hstep
      refine ⟨hdecided, fun c hc => ?_⟩
      cases hc
      exact DriftCheck.sound_begin h.decided hexact
    · cases hstep
  | serve userId answered =>
    simp only [drifting, Drifting.step] at hstep
    split at hstep
    · rename_i c hc
      split at hstep
      · rename_i hcond
        cases hstep
        refine ⟨hdecided, fun c' hc' => ?_⟩
        cases hc'
        exact (h.sound c hc).serve h.decided hcond.2 answered
      · cases hstep
    · cases hstep
  | finish =>
    simp only [drifting, Drifting.step] at hstep
    split at hstep
    · split at hstep
      · cases hstep
        exact ⟨h.decided, fun c hc => by cases hc⟩
      · cases hstep
    · cases hstep

end Sound

/-! ### What a check finds -/

/-- The two looks at a user show trusted shadows of the same balance, with nothing outstanding. -/
def DriftCheck.Compared (c : DriftCheck) (after : List ShadowUserSnapshot)
    (user : ShadowUserSnapshot) : Prop :=
  user ∈ c.before ∧ user.settled = true ∧
    ∃ later ∈ after, later.userId = user.userId ∧ later.settled = true ∧ later.cash = user.cash

/-- A user is found fault with where the two looks agree and the API says something else. -/
theorem drift_eq_some_some {later : JsMap Int ShadowUserSnapshot} {apiCash : JsMap Int String}
    {user : ShadowUserSnapshot} :
    (∃ f, drift later apiCash user = some (some f)) ↔
      user.settled = true ∧ (∃ after, later.get? user.userId = some after ∧
        after.settled = true ∧ after.cash = user.cash) ∧
      ∃ api, apiCash.get? user.userId = some api ∧ api ≠ user.cash := by
  unfold drift
  cases hlater : later.get? user.userId with
  | none => simp
  | some after =>
    cases hapi : apiCash.get? user.userId with
    | none => simp
    | some api =>
      dsimp only
      split
      · rename_i hunfit
        refine iff_of_false (by simp) ?_
        rintro ⟨hsettled, ⟨after', hafter', hlater, hcash⟩, -⟩
        cases hafter'
        simp [hsettled, hlater, hcash] at hunfit
      · rename_i hfit
        simp only [not_or, not_not] at hfit
        obtain ⟨hsettled, hafter, hcash⟩ := hfit
        split
        · rename_i heq
          refine iff_of_false (by simp) ?_
          rintro ⟨-, -, api', hapi', hne⟩
          cases hapi'
          exact hne heq.symm
        · rename_i hne
          exact iff_of_true ⟨_, rfl⟩ ⟨hsettled, ⟨after, rfl, hafter, hcash.symm⟩,
            api, rfl, Ne.symm hne⟩

/-- The check finds nothing where no user is found fault with. -/
theorem driftFindings_eq_nil {before after : List ShadowUserSnapshot}
    {apiCash : JsMap Int String} : (driftFindings before after apiCash).2 = [] ↔
      ∀ user ∈ before, ¬∃ f, drift (.ofEntries (after.map fun user => (user.userId, user)))
        apiCash user = some (some f) := by
  show List.filterMap id _ = [] ↔ _
  rw [List.filterMap_eq_nil_iff]
  constructor
  · rintro h user huser ⟨f, hf⟩
    exact absurd (h _ (List.mem_filterMap.mpr ⟨user, huser, hf⟩)) (by simp)
  · intro h found hfound
    obtain ⟨user, huser, hdrift⟩ := List.mem_filterMap.mp hfound
    cases found with
    | none => rfl
    | some f => exact absurd ⟨f, hdrift⟩ (h user huser)

section Findings

variable [N : Numbers]

/-- A balance that came is the shadow's exactly if that, as it is written, is what was not drawn
    between the two. -/
theorem DriftCheck.Sound.drawn {c : DriftCheck} {w : World} (h : c.Sound w)
    {user : ShadowUserSnapshot} (huser : user ∈ c.before) (hsettled : user.settled = true)
    {r : DriftReading} (hr : r ∈ c.readings) (hu : r.userId = user.userId) {api : String}
    (hcash : r.cash = some api) : api = user.cash ↔
      toMoney (w.cashAt c.moment user.userId) = apiString (w.cashAt c.moment user.userId -
        tally (Flight.drawnBetween c.moment r.moment user.userId .cash) w.flights) := by
  obtain ⟨hmoment, -, hread⟩ := h.readings r hr
  rw [hread api hcash, h.before user huser hsettled, hu, ← w.cashAt_sub hmoment user.userId,
    Int.sub_sub_self, eq_comm]

/-- Of a balance that is written to the centavo that is all of it. -/
theorem Numbers.Shows.eq_iff {cash drawn : Int} (h : Shows cash) :
    toMoney cash = apiString (cash - drawn) ↔ drawn = 0 := by
  rw [show toMoney cash = apiString cash from h]
  constructor
  · intro heq
    have := apiString_injective heq
    omega
  · rintro rfl
    rw [Int.sub_zero]

/-- A check that is sound finds no fault where each balance that came of a user it compares is the
    shadow's. -/
theorem DriftCheck.Sound.quiet_iff {c : DriftCheck} {w : World} (h : c.Sound w)
    {after : List ShadowUserSnapshot} (hafter : (after.map (·.userId)).Nodup) :
    (driftFindings c.before after c.apiCash).2 = [] ↔
      ∀ user, c.Compared after user → ∀ r ∈ c.readings, r.userId = user.userId → r.cash ≠ none →
        toMoney (w.cashAt c.moment user.userId) = apiString (w.cashAt c.moment user.userId -
          tally (Flight.drawnBetween c.moment r.moment user.userId .cash) w.flights) := by
  have hapi : ∀ u api, c.apiCash.get? u = some api ↔
      ∃ r ∈ c.readings, r.userId = u ∧ r.cash = some api := fun u api =>
    JsMap.get?_ofEntries_filterMap h.readers
  -- a user is compared where the two looks agree
  have hcompared : ∀ user ∈ c.before, (user.settled = true ∧ ∃ later,
      (JsMap.ofEntries (after.map fun user => (user.userId, user))).get? user.userId =
        some later ∧ later.settled = true ∧ later.cash = user.cash) ↔ c.Compared after user := by
    intro user huser
    simp only [DriftCheck.Compared, JsMap.get?_ofEntries_key hafter, huser, true_and, and_assoc]
  rw [driftFindings_eq_nil]
  constructor
  · intro hnone user huser r hr hu hcash
    obtain ⟨api, hsome⟩ := Option.ne_none_iff_exists'.mp hcash
    rw [← h.drawn huser.1 huser.2.1 hr hu hsome]
    by_contra hne
    obtain ⟨hsettled, hagree⟩ := (hcompared user huser.1).mpr huser
    exact hnone user huser.1 (drift_eq_some_some.mpr ⟨hsettled, hagree, api,
      (hapi _ _).mpr ⟨r, hr, hu, hsome⟩, hne⟩)
  · intro hall user huser hfound
    obtain ⟨hsettled, hagree, api, hread, hne⟩ := drift_eq_some_some.mp hfound
    obtain ⟨r, hr, hu, hcash⟩ := (hapi _ _).mp hread
    have hcompare := (hcompared user huser).mp ⟨hsettled, hagree⟩
    exact hne ((h.drawn huser hsettled hr hu hcash).mpr
      (hall user hcompare r hr hu (by simp [hcash])))

/-- **Exact shadows drift exactly where something was drawn before the API was asked.**  In a run
    in which every trusted shadow with nothing outstanding has the target's balance, a check finds
    no fault exactly if, for every user it compares, the balance, as the shadow writes it, is what
    the orders of the user left of it that were filled between the first look and the API's answer.
    As long as it is written to the centavo that is to say that they drew nothing in all. -/
theorem balance_drift_iff {closes : Nat → Int → Int} {books : Int → Book}
    {es : List DriftEvent} {s s' : Drifting} {c : DriftCheck}
    (hexact : (drifting closes).Along (fun s _ => Exact s.world) (.initial books) es)
    (hrun : (drifting closes).run (.initial books) es = some s) (hc : s.check = some c)
    (hstep : (drifting closes).step s .finish = some s') :
    s'.findings = s.findings ++ (driftFindings c.before s.world.ledger.snapshot c.apiCash).2 ∧
      ((driftFindings c.before s.world.ledger.snapshot c.apiCash).2 = [] ↔
        ∀ user, c.Compared s.world.ledger.snapshot user → ∀ r ∈ c.readings,
          r.userId = user.userId → r.cash ≠ none →
          toMoney (s.world.cashAt c.moment user.userId) =
            apiString (s.world.cashAt c.moment user.userId -
              tally (Flight.drawnBetween c.moment r.moment user.userId .cash) s.world.flights)) ∧
      ((∀ user, c.Compared s.world.ledger.snapshot user →
          Shows (s.world.cashAt c.moment user.userId)) →
        ((driftFindings c.before s.world.ledger.snapshot c.apiCash).2 = [] ↔
          ∀ user, c.Compared s.world.ledger.snapshot user → ∀ r ∈ c.readings,
            r.userId = user.userId → r.cash ≠ none →
            tally (Flight.drawnBetween c.moment r.moment user.userId .cash)
              s.world.flights = 0)) := by
  have hinv : s.Inv := (drifting closes).invariant_along
    (fun h hexact hstep => h.step hexact hstep) (Drifting.inv_initial books) hexact hrun
  have hafter : (s.world.ledger.snapshot.map (·.userId)).Nodup := by
    rw [ShadowLedger.userIds_snapshot]
    exact s.world.ledger.users.nodup
  have hquiet := (hinv.sound c hc).quiet_iff hafter
  refine ⟨?_, hquiet, fun hshown => ?_⟩
  · simp only [drifting, Drifting.step, hc] at hstep
    split at hstep
    · cases hstep
      rfl
    · cases hstep
  · rw [hquiet]
    exact forall₂_congr fun user huser => forall₂_congr fun r _ => forall₂_congr fun _ _ =>
      (hshown user huser).eq_iff

end Findings

/-! ### A buy and a sell -/

/-- User 1 sells one share of instrument 1. -/
def sellOne : SimOrder := ⟨1, 1, .SELL, 1, .MARKET, Int.one_pos⟩

/-- An order is sent, filled and settled before the check begins. -/
def boughtBefore : List DriftEvent :=
  [.simulate (.seedUsers [1]), .simulate (.take 0), .simulate (.deliver 0),
    .simulate (.place buyOne), .simulate (.execute 0), .simulate (.answer 0), .begin, .serve 1 true]

section Doubles

attribute [local instance] Numbers.double

theorem balance_drift_boughtBefore : ∃ s c s',
    (drifting onePeso).run (.initial tenPesos) boughtBefore = some s ∧ s.check = some c ∧
      (drifting onePeso).step s .finish = some s' ∧ s'.findings = [] := by
  have hexact : (drifting onePeso).Along (fun s _ => Exact s.world) (.initial tenPesos)
      boughtBefore := by decide +kernel
  -- the only order was filled before the first look
  obtain ⟨s, hrun, hnone, hsome, hquiet⟩ := (drifting onePeso).exists_run (.initial tenPesos)
    boughtBefore (P := fun s => s.findings = [] ∧ s.check.isSome ∧ ∀ c ∈ s.check, c.read = true ∧
      ∀ user ∈ c.before, Shows (s.world.cashAt c.moment user.userId) ∧ ∀ r ∈ c.readings,
        tally (Flight.drawnBetween c.moment r.moment user.userId .cash) s.world.flights = 0)
    (by decide +kernel)
  obtain ⟨c, hc⟩ := Option.isSome_iff_exists.mp hsome
  obtain ⟨hread, hdrawn⟩ := hquiet c hc
  obtain ⟨s', hstep⟩ : ∃ s', (drifting onePeso).step s .finish = some s' := by
    simp [drifting, Drifting.step, hc, hread]
  obtain ⟨hfindings, -, hiff⟩ := balance_drift_iff hexact hrun hc hstep
  refine ⟨s, c, s', hrun, hc, hstep, ?_⟩
  rw [hfindings, hnone, (hiff fun user huser => (hdrawn user huser.1).1).mpr
    fun user huser r hr _ _ => (hdrawn user huser.1).2 r hr]
  rfl

/-- An order is filled before the API is asked, and another that gives its cash back after; both
    are settled when the shadows are looked at again. -/
def boughtAndSold : List DriftEvent :=
  [.simulate (.seedUsers [1]), .simulate (.take 0), .simulate (.deliver 0), .begin,
    .simulate (.place buyOne), .simulate (.execute 0), .serve 1 true, .simulate (.answer 0),
    .simulate (.place sellOne), .simulate (.execute 1), .simulate (.answer 1)]

/-- **A balance that drifted nowhere.** -/
theorem drift_found :
    (drifting onePeso).Along (fun s _ => Exact s.world) (.initial tenPesos)
      (boughtAndSold ++ [.finish]) ∧
    ∃ s s', (drifting onePeso).run (.initial tenPesos) boughtAndSold = some s ∧
      Exact s.world ∧ (drifting onePeso).step s .finish = some s' ∧
      s'.findings.map (fun f => (f.rule, f.message)) = [("balance_drift",
        "User 1 cash drifted: the shadow says 10.00, the API says 9.00")] := by
  have hexact : (drifting onePeso).Along (fun s _ => Exact s.world) (.initial tenPesos)
      (boughtAndSold ++ [.finish]) := by decide +kernel
  obtain ⟨s', hrun, hfound⟩ := (drifting onePeso).exists_run (.initial tenPesos)
    (boughtAndSold ++ [.finish]) (P := fun s' => s'.findings.map (fun f => (f.rule, f.message)) =
      [("balance_drift", "User 1 cash drifted: the shadow says 10.00, the API says 9.00")])
    (by decide +kernel)
  obtain ⟨s, hs, hstep⟩ := (drifting onePeso).run_concat.mp hrun
  exact ⟨hexact, s, s', hs, (drifting onePeso).along_last hs hexact, hstep, hfound⟩

end Doubles

end Cocos.Tools
