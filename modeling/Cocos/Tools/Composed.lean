import Cocos.Body
import Cocos.Lib.Draws
import Cocos.Tools.LoopTimer
import Cocos.Tools.Profiles

namespace Cocos.Tools

open Cocos.Lib

/-!
# The orders of the harness

`SimulationService.nextOrder` composes an order of the knobs and four draws, a plan is made of the
knobs of a profile, and `SimulationService.body` is what is sent of either.  The knobs may be set
at any time, by `start-simulation.dto.ts` within bounds that are not those of the API.

* `SimulationConfig.Sound`, `sound_run` — **the knobs of the loop stay sound**, through any calls;
* `nextOrder` — the order of one tick;
* `SimulationConfig.Allows`, `nextOrder_iff` — **the orders it composes are those the knobs allow**,
  each of them and no other;
* `order_body` — the API reads the order that was composed;
* `planned_pass_iff` — no plan has an order that the validators of the API turn away, but for a
  user past their column;
* `composed_pass_iff` — **they pass whatever the loop composes exactly while its knobs fit the
  columns**.
-/

/-! ### The knobs -/

/-- The knobs a request passes the pipe with.  An array holds fewer than `2 ^ 32` users. -/
structure StartSimulationDto.Admitted (overrides : StartSimulationDto) : Prop where
  ratePerSec : ∀ rate ∈ overrides.ratePerSec, 1 / 10 ≤ rate ∧ rate ≤ 50
  buyRatio : ∀ ratio ∈ overrides.buyRatio, 0 ≤ ratio ∧ ratio ≤ 1
  users : ∀ users ∈ overrides.users, users ≠ [] ∧ users.length < 2 ^ 32 ∧ ∀ u ∈ users, 1 ≤ u
  sizeMin : ∀ size ∈ overrides.sizeMin, 1 ≤ size
  sizeMax : ∀ size ∈ overrides.sizeMax, 1 ≤ size

def LoopEvent.Admitted : LoopEvent → Prop
  | .start _ overrides | .configure _ overrides => overrides.Admitted
  | _ => True

/-- What `nextOrder` needs of the knobs. -/
structure SimulationConfig.Sound (config : SimulationConfig) : Prop where
  users_ne : config.users ≠ []
  users_length : config.users.length < 2 ^ 32
  users_pos : ∀ u ∈ config.users, 1 ≤ u
  sizeMin_pos : 1 ≤ config.sizeMin
  ordered : config.sizeMin ≤ config.sizeMax

theorem sound_initial : Loop.initial.config.Sound :=
  ⟨by decide, by decide, by decide, by decide, by decide⟩

namespace SimulationConfig.Sound

variable {config : SimulationConfig}

theorem running (h : config.Sound) (running : Bool) : { config with running := running }.Sound :=
  ⟨h.users_ne, h.users_length, h.users_pos, h.sizeMin_pos, h.ordered⟩

/-- Knobs that were admitted leave it sound, if the sizes are not inverted. -/
theorem overridden (h : config.Sound) {overrides : StartSimulationDto} (hadmitted : overrides.Admitted)
    {running : Bool} (hsizes : ¬(overrides.over config running).sizeMin >
      (overrides.over config running).sizeMax) : (overrides.over config running).Sound := by
  have husers : ∀ users ∈ overrides.users,
      users ≠ [] ∧ users.length < 2 ^ 32 ∧ ∀ u ∈ users, 1 ≤ u := hadmitted.users
  have hsize := hadmitted.sizeMin
  refine ⟨?_, ?_, ?_, ?_, not_lt.mp hsizes⟩
  · show overrides.users.getD config.users ≠ []
    cases h' : overrides.users with
    | none => exact h.users_ne
    | some users => exact (husers users h').1
  · show (overrides.users.getD config.users).length < 2 ^ 32
    cases h' : overrides.users with
    | none => exact h.users_length
    | some users => exact (husers users h').2.1
  · show ∀ u ∈ overrides.users.getD config.users, 1 ≤ u
    cases h' : overrides.users with
    | none => exact h.users_pos
    | some users => exact (husers users h').2.2
  · show 1 ≤ overrides.sizeMin.getD config.sizeMin
    cases h' : overrides.sizeMin with
    | none => exact h.sizeMin_pos
    | some size => exact hsize size h'

end SimulationConfig.Sound

/-- The knobs of the loop are sound, and so are those a start goes on with. -/
structure Loop.Sound (s : Loop) : Prop where
  config : s.config.Sound
  started : ∀ c config generation awaiting seeded,
    s.calls c = some ⟨.start config, .seeding generation awaiting seeded⟩ → config.Sound

namespace Loop

variable {s s' : Loop}

@[simp] theorem clearTimer_calls (s : Loop) : s.clearTimer.calls = s.calls := by
  unfold clearTimer
  split <;> rfl

/-- A step that writes one call keeps what is said of the others. -/
theorem Sound.of_calls (h : s.Sound) {c : Nat} {call : Call}
    (hcalls : s'.calls = Function.update s.calls c (some call)) (hconfig : s'.config.Sound)
    (hcall : ∀ config generation awaiting seeded,
      call = ⟨.start config, .seeding generation awaiting seeded⟩ → config.Sound) : s'.Sound where
  config := hconfig
  started c' config generation awaiting seeded hc := by
    rw [hcalls] at hc
    rcases eq_or_ne c' c with rfl | hne
    · rw [Function.update_self, Option.some.injEq] at hc
      exact hcall _ _ _ _ hc
    · rw [Function.update_of_ne hne] at hc
      exact h.started _ _ _ _ _ hc

/-- **Every step keeps the knobs sound.** -/
theorem Sound.step (h : s.Sound) {e : LoopEvent} (hadmitted : e.Admitted)
    (hstep : orderLoop.step s e = some s') : s'.Sound := by
  have hcleared : s.clearTimer.config.Sound := by
    rw [clearTimer_config]
    exact h.config
  have hcalls : ∀ c call, Function.update s.clearTimer.calls c (some call) =
      Function.update s.calls c (some call) := fun c call => by rw [clearTimer_calls]
  cases took_of_step hstep with
  | @started c overrides hnew =>
    unfold start
    dsimp only
    split_ifs with hsizes
    · exact h.of_calls rfl h.config fun _ _ _ _ hcall => by cases hcall
    · have hsound := h.config.overridden hadmitted hsizes
      refine h.of_calls (hcalls _ _) hsound ?_
      rintro config generation awaiting seeded hcall
      cases hcall
      exact hsound
  | stopped =>
    refine ⟨?_, fun c config generation awaiting seeded hc => ?_⟩
    · unfold stop
      exact h.config.running false
    · replace hc : s.clearTimer.calls c = _ := hc
      rw [clearTimer_calls] at hc
      exact h.started c _ _ _ _ hc
  | @configured c overrides hnew =>
    unfold configure
    dsimp only
    split_ifs with hsizes husers hrunning
    · exact h.of_calls rfl h.config fun _ _ _ _ hcall => by cases hcall
    all_goals
      exact h.of_calls (hcalls _ _) (h.config.overridden hadmitted hsizes)
        fun _ _ _ _ hcall => by cases hcall
  | reset hnew => exact h.of_calls (hcalls _ _) hcleared fun _ _ _ _ hcall => by cases hcall
  | prepared hnew => exact h.of_calls (hcalls _ _) hcleared fun _ _ _ _ hcall => by cases hcall
  | @answered c userId readable op generation awaiting seeded hc hawaited =>
    refine h.of_calls rfl h.config fun _ _ _ _ hcall => ?_
    cases hcall
    exact h.started _ _ _ _ _ hc
  | @resumed c op generation seeded hc =>
    cases op with
    | start config =>
      unfold resume
      dsimp only
      split_ifs with hnone
      · exact h.of_calls rfl h.config fun _ _ _ _ hcall => by cases hcall
      · exact h.of_calls rfl ((h.started _ _ _ _ _ hc).running true)
          fun _ _ _ _ hcall => by cases hcall
    -- the rest of the calls write no knobs any more
    | _ =>
      unfold resume
      dsimp only
      split_ifs with hrunning <;>
        exact h.of_calls rfl h.config fun _ _ _ _ hcall => by cases hcall

end Loop

/-- **The knobs of the loop stay sound.** -/
theorem sound_run {es : List LoopEvent} {s : Loop} (hes : ∀ e ∈ es, e.Admitted)
    (hrun : orderLoop.run .initial es = some s) : s.config.Sound :=
  (orderLoop.invariant_along (I := Loop.Sound)
    (fun h hadmitted hstep => h.step hadmitted hstep)
    ⟨sound_initial, fun _ _ _ _ _ hc => by cases hc⟩
    (orderLoop.along_of_forall hes) hrun).config

/-! ### Composing an order -/

section Pick

variable {α : Type} {values : List α} (hne : values ≠ []) (hlength : values.length < 2 ^ 32)

/-- `pick`, which reads no place past the end. -/
def pick (d : Draw) : α :=
  values.get ⟨(d.below values.length).toNat,
    d.toNat_below_lt (List.length_pos_iff.mpr hne) (hlength.trans (by decide))⟩

theorem pick_mem (d : Draw) : pick hne hlength d ∈ values := List.get_mem ..

/-- **Every value is picked.** -/
theorem exists_pick_eq {a : α} (ha : a ∈ values) : ∃ d, pick hne hlength d = a := by
  obtain ⟨i, rfl⟩ := List.get_of_mem ha
  obtain ⟨d, hd⟩ := Draw.exists_below_eq i.2 (hlength.le.trans (by decide))
  refine ⟨d, ?_⟩
  unfold pick
  congr 1
  ext
  show (d.below values.length).toNat = i
  rw [hd, Int.toNat_natCast]

end Pick

/-- `sizeMin + Math.floor(Math.random() * (sizeMax - sizeMin + 1))`, each result rounded. -/
def sizeDrawn (config : SimulationConfig) (d : Draw) : Int :=
  ⌊toDouble (config.sizeMin +
    d.below (toDouble (toDouble (config.sizeMax - config.sizeMin) + 1)))⌋

/-- Whole numbers below `2 ^ 53` are kept. -/
theorem toDouble_intCast {n : Int} (hn : 0 ≤ n) (hlt : n < 2 ^ 53) : toDouble (n : ℚ) = n := by
  obtain ⟨k, rfl⟩ := Int.eq_ofNat_of_zero_le hn
  exact toDouble_eq_self (k := 0) (n := k) (by rw [pow_zero, mul_one]; rfl) (by omega)

/-- A size is not rounded below a whole number. -/
theorem le_sizeDrawn {config : SimulationConfig} {n : Int} (hn : 0 ≤ n) (hlt : n < 2 ^ 53)
    (d : Draw)
    (hle : (n : ℚ) ≤ config.sizeMin +
      d.below (toDouble (toDouble (config.sizeMax - config.sizeMin) + 1))) :
    n ≤ sizeDrawn config d := by
  rw [sizeDrawn, Int.le_floor, ← toDouble_intCast hn hlt]
  exact toDouble_mono (Int.cast_nonneg hn) hle

section Size

variable {config : SimulationConfig} (h : config.Sound)

include h

/-- There is always something to draw from. -/
theorem range_nonneg :
    0 ≤ toDouble (toDouble ((config.sizeMax : ℚ) - config.sizeMin) + 1) := by
  have hordered : (config.sizeMin : ℚ) ≤ config.sizeMax := Int.cast_le.mpr h.ordered
  have hwidth : 0 ≤ toDouble ((config.sizeMax : ℚ) - config.sizeMin) :=
    toDouble_zero ▸ toDouble_mono le_rfl (by linarith)
  exact toDouble_zero ▸ toDouble_mono le_rfl (by linarith)

theorem sizeDrawn_pos (d : Draw) : 0 < sizeDrawn config d := by
  have hmin : (1 : ℚ) ≤ config.sizeMin := by exact_mod_cast h.sizeMin_pos
  have hdrawn : (0 : ℚ) ≤ d.below (toDouble (toDouble (config.sizeMax - config.sizeMin) + 1)) :=
    Int.cast_nonneg (d.below_nonneg (range_nonneg h))
  exact le_sizeDrawn (n := 1) (by decide) (by decide) d (by push_cast; linarith)

/-- Where the sizes are below `2 ^ 52`, nothing is rounded but the product. -/
theorem sizeDrawn_eq (hsize : config.sizeMax ≤ 2 ^ 52) (d : Draw) :
    sizeDrawn config d = config.sizeMin +
      d.below ((config.sizeMax - config.sizeMin + 1).toNat : ℕ) := by
  have hmin := h.sizeMin_pos
  have hordered := h.ordered
  have hwidth : toDouble ((config.sizeMax : ℚ) - config.sizeMin) =
      ((config.sizeMax - config.sizeMin : Int) : ℚ) := by
    rw [← Int.cast_sub]
    exact toDouble_intCast (by omega) (by omega)
  obtain ⟨n, hn⟩ : ∃ n : ℕ, config.sizeMax - config.sizeMin + 1 = n :=
    ⟨_, (Int.toNat_of_nonneg (by omega)).symm⟩
  have hrange : toDouble (toDouble ((config.sizeMax : ℚ) - config.sizeMin) + 1) = (n : ℚ) := by
    have hcast : ((config.sizeMax - config.sizeMin : Int) : ℚ) + 1 = (n : Int) := by
      rw [← hn]
      push_cast
      ring
    rw [hwidth, hcast, toDouble_intCast (by omega) (by omega), Int.cast_natCast]
  have hlow := d.below_nonneg (Nat.cast_nonneg (α := ℚ) n)
  have hhigh := d.toNat_below_lt (n := n) (by omega) (by omega)
  rw [sizeDrawn, hrange, hn, Int.toNat_natCast, ← Int.cast_add,
    toDouble_intCast (by omega) (by omega), Int.floor_intCast]

theorem sizeDrawn_bounds (hsize : config.sizeMax ≤ 2 ^ 52) (d : Draw) :
    config.sizeMin ≤ sizeDrawn config d ∧ sizeDrawn config d ≤ config.sizeMax := by
  have hmin := h.sizeMin_pos
  have hordered := h.ordered
  have hlow := d.below_nonneg
    (Nat.cast_nonneg (α := ℚ) (config.sizeMax - config.sizeMin + 1).toNat)
  have hhigh := d.toNat_below_lt (n := (config.sizeMax - config.sizeMin + 1).toNat)
    (by omega) (by omega)
  rw [sizeDrawn_eq h hsize]
  omega

/-- **Every size between the two is drawn.** -/
theorem exists_sizeDrawn_eq (hsize : config.sizeMax ≤ 2 ^ 52) {n : Int}
    (hlow : config.sizeMin ≤ n) (hhigh : n ≤ config.sizeMax) : ∃ d, sizeDrawn config d = n := by
  have hmin := h.sizeMin_pos
  obtain ⟨d, hd⟩ := Draw.exists_below_eq (i := (n - config.sizeMin).toNat)
    (n := (config.sizeMax - config.sizeMin + 1).toNat) (by omega) (by omega)
  refine ⟨d, ?_⟩
  rw [sizeDrawn_eq h hsize, hd]
  omega

end Size

/-- What `Math.random()` answers to one order, in the order it is asked. -/
structure Draws where
  user : Draw
  instrument : Draw
  side : Draw
  size : Draw

theorem tradable_ne : TRADABLE_INSTRUMENTS ≠ [] := by decide

theorem tradable_length : TRADABLE_INSTRUMENTS.length < 2 ^ 32 := by decide

/-- `nextOrder`. -/
def nextOrder (config : SimulationConfig) (h : config.Sound) (draws : Draws) : SimOrder where
  userId := pick h.users_ne h.users_length draws.user
  instrumentId := pick tradable_ne tradable_length draws.instrument
  side := if draws.side.value < config.buyRatio then .BUY else .SELL
  size := sizeDrawn config draws.size
  type := .MARKET
  size_pos := sizeDrawn_pos h draws.size

/-- The orders the knobs speak of. -/
structure SimulationConfig.Allows (config : SimulationConfig) (order : SimOrder) : Prop where
  user : order.userId ∈ config.users
  instrument : order.instrumentId ∈ TRADABLE_INSTRUMENTS
  buy : order.side = .BUY → 0 < config.buyRatio
  /-- No draw is past the last one, so a ratio above it leaves no sell. -/
  sell : order.side = .SELL → config.buyRatio ≤ Draw.last.value
  size : config.sizeMin ≤ order.size ∧ order.size ≤ config.sizeMax
  type : order.type = .MARKET

/-- **The loop composes the orders its knobs allow**, each of them and no other. -/
theorem nextOrder_iff {config : SimulationConfig} (h : config.Sound)
    (hsize : config.sizeMax ≤ 2 ^ 52) {order : SimOrder} :
    (∃ draws, nextOrder config h draws = order) ↔ config.Allows order := by
  constructor
  · rintro ⟨draws, rfl⟩
    refine ⟨pick_mem h.users_ne h.users_length _, pick_mem tradable_ne tradable_length _,
      fun hbuy => ?_, fun hsell => ?_, ?_, rfl⟩
    · by_contra hnot
      have hno : ¬draws.side.value < config.buyRatio :=
        fun hlt => hnot (draws.side.nonneg.trans_lt hlt)
      simp only [nextOrder, if_neg hno] at hbuy
      cases hbuy
    · by_contra hnot
      have hyes : draws.side.value < config.buyRatio :=
        draws.side.value_le.trans_lt (not_le.mp hnot)
      simp only [nextOrder, if_pos hyes] at hsell
      cases hsell
    · exact sizeDrawn_bounds h hsize draws.size
  · intro hallows
    obtain ⟨user, huser⟩ := exists_pick_eq h.users_ne h.users_length hallows.user
    obtain ⟨instrument, hinstrument⟩ :=
      exists_pick_eq tradable_ne tradable_length hallows.instrument
    obtain ⟨side, hside⟩ : ∃ side : Draw,
        (if side.value < config.buyRatio then Side.BUY else .SELL) = order.side := by
      cases hs : order.side with
      | BUY => exact ⟨.zero, if_pos (hallows.buy hs)⟩
      | SELL => exact ⟨.last, if_neg (not_lt.mpr (hallows.sell hs))⟩
    obtain ⟨size, hdrawn⟩ := exists_sizeDrawn_eq h hsize hallows.size.1 hallows.size.2
    refine ⟨⟨user, instrument, side, size⟩, ?_⟩
    have htype := hallows.type
    cases order
    simp only at huser hinstrument hside hdrawn htype
    simp only [nextOrder, huser, hinstrument, hside, hdrawn, htype]

theorem nextOrder_iff_initial :
    ∃ draws, nextOrder Loop.initial.config sound_initial draws =
      ⟨3, 61, .SELL, 50, .MARKET, by decide⟩ := by
  have hratio : toDouble (6 / 10) ≤ Draw.last.value :=
    Draw.last.exact ▸ toDouble_mono (by norm_num) (by norm_num [Draw.last])
  exact (nextOrder_iff sound_initial (by decide)).mpr
    ⟨by decide, by decide, by decide, fun _ => hratio, by decide, rfl⟩

/-! ### Sending it -/

/-- A whole number of a body. -/
def wholeNumber (n : Int) : Json := .number ⟨n, 0, .inl rfl⟩

/-- `Number(price)`, of an amount of pesos with at most two decimals. -/
def priceNumber (price : String) : Json :=
  match PESOS price.toList with
  | some pesos => .number (.ofHundredths pesos.centavos)
  -- no number; `JSON.stringify` spells it so
  | none => .null

/-- `SimulationService.body`, as it is sent. -/
def SimOrder.body (order : SimOrder) : Cocos.Body where
  userId := some (wholeNumber order.userId)
  instrumentId := some (wholeNumber order.instrumentId)
  side := some (.string order.side.text)
  type := some (.string order.key.type)
  price :=
    match order.type with
    | .MARKET => none
    | .LIMIT price => some (priceNumber price)
  size := some (wholeNumber order.size)
  amount := none

/-- What the API reads of a type. -/
def SimOrder.sent (order : SimOrder) : OrderType × Option Decimal :=
  match order.type with
  | .MARKET => (.MARKET, none)
  | .LIMIT _ => (.LIMIT, some (.ofHundredths 100))

/-- The types the harness gives its orders. -/
def SimOrder.Typed (order : SimOrder) : Prop :=
  order.type = .MARKET ∨ order.type = .LIMIT LIMIT_PRICE

/-- **The API reads the order that was composed.** -/
theorem order_body {order : SimOrder} (htyped : order.Typed) : order.body.order =
    some ⟨order.userId, order.instrumentId, order.side, order.sent.1, order.sent.2,
      some order.size, none⟩ := by
  obtain ⟨userId, instrumentId, side, size, type, hsize⟩ := order
  obtain rfl | rfl : type = .MARKET ∨ type = .LIMIT LIMIT_PRICE := htyped
  · cases side <;> rfl
  · have hprice : priceNumber LIMIT_PRICE = .number (.ofHundredths 100) := by decide
    cases side <;> simp only [SimOrder.body, hprice] <;> rfl

/-- **The validators pass an order whose user and size fit their columns.** -/
theorem passes_body_iff {order : SimOrder} (htyped : order.Typed) (huser : 1 ≤ order.userId)
    (hinstrument : order.instrumentId ∈ TRADABLE_INSTRUMENTS) (lib : ClassValidator) :
    order.body.passes lib = .ok true ↔ order.userId ≤ MAX_INT4 ∧ order.size ≤ MAX_INT4 := by
  have hinstrument' : 0 < order.instrumentId ∧ order.instrumentId ≤ MAX_INT4 := by
    have hall : ∀ i ∈ TRADABLE_INSTRUMENTS, 0 < i ∧ i ≤ MAX_INT4 := by decide
    exact hall _ hinstrument
  have hsize := order.size_pos
  have hlimit : PlaceOrderDto.limitPrice ⟨order.userId, order.instrumentId, order.side,
      order.sent.1, order.sent.2, some order.size, none⟩ = true := by
    unfold SimOrder.sent
    cases order.type with
    | MARKET => rfl
    | LIMIT price =>
      show Cocos.isMoney (.ofHundredths 100) = true
      decide
  rw [Cocos.Body.passes_of_order (order_body htyped), Except.ok.injEq]
  simp only [PlaceOrderDto.valid, hlimit, PlaceOrderDto.sizeOrAmount, PlaceOrderDto.money,
    PlaceOrderDto.isId, Cocos.isSize, Option.isNone_none, Option.all_none, Bool.and_true,
    Bool.true_and, Bool.and_eq_true, decide_eq_true_eq]
  omega

/-! ### What the API makes of a plan -/

section Plan

variable {round : ℚ → ℚ} {profile : LoadProfile}

theorem instrumentAt_mem (index : Nat) : instrumentAt profile index ∈ TRADABLE_INSTRUMENTS := by
  unfold instrumentAt
  split_ifs
  · decide
  · exact List.get_mem ..

/-- A step is for one of the instruments, of a type and a size the API takes. -/
theorem stepAt_order (index : Nat) : (stepAt round profile index).order.Typed ∧
    (stepAt round profile index).order.instrumentId ∈ TRADABLE_INSTRUMENTS ∧
    (stepAt round profile index).order.size ≤ 3 := by
  have hsize : sizeAt index ≤ 3 := by
    have hall : ∀ size ∈ SIZES, size ≤ 3 := by decide
    exact hall _ (List.get_mem ..)
  have hmarket : (market profile index).Typed ∧
      (market profile index).instrumentId ∈ TRADABLE_INSTRUMENTS ∧
      (market profile index).size ≤ 3 := ⟨.inl rfl, instrumentAt_mem index, hsize⟩
  have hresting : (resting profile index).Typed ∧
      (resting profile index).instrumentId ∈ TRADABLE_INSTRUMENTS ∧
      (resting profile index).size ≤ 3 :=
    ⟨.inr rfl, instrumentAt_mem index, show (1 : Int) ≤ 3 by decide⟩
  unfold stepAt
  split_ifs
  · exact hmarket
  · exact hresting
  · exact hresting
  · exact hmarket

/-- **No profile plans an order the validators turn away**, but for a user past their column. -/
theorem planned_pass_iff (hadmitted : profile.Admitted) (lib : ClassValidator) {wave : Wave}
    (hwave : wave ∈ planWaves round profile) {step : Step} (hstep : step ∈ wave) :
    step.order.body.passes lib = .ok true ↔ step.order.userId ≤ MAX_INT4 := by
  have hmem : step ∈ (planWaves round profile).flatten :=
    List.mem_flatten.mpr ⟨wave, hwave, hstep⟩
  rw [flatten_planWaves] at hmem
  obtain ⟨index, -, rfl⟩ := List.mem_map.mp hmem
  obtain ⟨htyped, hinstrument, hsize⟩ := @stepAt_order round profile index
  have huser := hadmitted.users _ (userId_stepAt round profile index)
  have hmax : MAX_INT4 = 2147483647 := rfl
  rw [passes_body_iff htyped huser hinstrument]
  omega

/-- A contention run of ten orders, the first of them to rest. -/
def tenOrders : LoadProfile := DEFAULT_PROFILE.overridden
  ⟨some .contention, none, some ⟨10, by decide⟩, none, none, none⟩

theorem planned_pass_iff_tenOrders : ∃ wave ∈ planWaves toDouble tenOrders, ∃ step ∈ wave,
    step.order.body.passes .ofText = .ok true := by
  have hwave : (List.range 10).map (stepAt toDouble tenOrders) ∈ planWaves toDouble tenOrders := by
    rw [planWaves_of_le toDouble tenOrders (by decide) (by decide)]
    exact List.mem_singleton_self _
  have hstep : stepAt toDouble tenOrders 0 ∈ (List.range 10).map (stepAt toDouble tenOrders) :=
    List.mem_map_of_mem (List.mem_range.mpr (by decide))
  have huser : (stepAt toDouble tenOrders 0).order.userId = 1 :=
    List.mem_singleton.mp (userId_stepAt toDouble tenOrders 0)
  refine ⟨_, hwave, _, hstep, ?_⟩
  rw [planned_pass_iff (LoadProfile.admitted_default.overridden _) _ hwave hstep, huser]
  decide

end Plan

/-! ### What the API makes of the loop's orders -/

/-- From sizes past `2 ^ 52` a size is drawn that fits no column. -/
theorem exists_sizeDrawn_of_lt {config : SimulationConfig} (hsize : 2 ^ 52 < config.sizeMax)
    (h : config.Sound) : ∃ d, MAX_INT4 < sizeDrawn config d := by
  refine ⟨.last, Int.lt_of_lt_of_le (Int.lt_add_one_iff.mpr le_rfl)
    (le_sizeDrawn (n := MAX_INT4 + 1) (by decide) (by decide) _ ?_)⟩
  generalize hrange : toDouble (toDouble ((config.sizeMax : ℚ) - config.sizeMin) + 1) = range
  have hrangeNonneg : 0 ≤ range := hrange ▸ range_nonneg h
  rcases lt_or_ge MAX_INT4 config.sizeMin with hmin | hmin
  · -- the smallest size fits none
    have hdrawn : (0 : ℚ) ≤ Draw.last.below range :=
      Int.cast_nonneg (Draw.last.below_nonneg hrangeNonneg)
    have hmin' : ((MAX_INT4 + 1 : Int) : ℚ) ≤ config.sizeMin := Int.cast_le.mpr hmin
    linarith
  · -- there are so many sizes that the last draw comes past the columns
    have hwidth : ((2 ^ 51 : Int) : ℚ) ≤ (config.sizeMax : ℚ) - config.sizeMin := by
      rw [← Int.cast_sub, Int.cast_le]
      have hmax : MAX_INT4 = 2147483647 := rfl
      omega
    have hkept : toDouble ((2 ^ 51 : Int) : ℚ) = (2 ^ 51 : Int) :=
      toDouble_intCast (by decide) (by decide)
    have hrange51 : ((2 ^ 51 : Int) : ℚ) ≤ range := by
      have hinner := toDouble_mono (Int.cast_nonneg (by decide)) hwidth
      rw [hkept] at hinner
      rw [← hkept, ← hrange]
      exact toDouble_mono (Int.cast_nonneg (by decide)) (by linarith)
    have hdrawn : (2 ^ 50 : Int) ≤ Draw.last.below range := by
      rw [Draw.below, Int.le_floor, ← toDouble_intCast (n := 2 ^ 50) (by decide) (by decide)]
      refine toDouble_mono (Int.cast_nonneg (by decide)) ?_
      have hlast : (1 : ℚ) / 2 ≤ Draw.last.value := by norm_num [Draw.last]
      calc ((2 ^ 50 : Int) : ℚ) = 1 / 2 * ((2 ^ 51 : Int) : ℚ) := by norm_num
        _ ≤ Draw.last.value * range := by gcongr
    have hdrawn' : ((MAX_INT4 + 1 : Int) : ℚ) ≤ Draw.last.below range :=
      Int.cast_le.mpr (le_trans (by decide) hdrawn)
    have hminNonneg : (0 : ℚ) ≤ config.sizeMin :=
      Int.cast_nonneg (le_trans (by decide) h.sizeMin_pos)
    linarith

/-- **Every size that is drawn fits its column exactly if `sizeMax` does.** -/
theorem sizeDrawn_le_iff {config : SimulationConfig} (h : config.Sound) :
    (∀ d, sizeDrawn config d ≤ MAX_INT4) ↔ config.sizeMax ≤ MAX_INT4 := by
  constructor
  · intro hall
    rcases lt_or_ge (2 ^ 52) config.sizeMax with hlarge | hsize
    · obtain ⟨d, hd⟩ := exists_sizeDrawn_of_lt hlarge h
      exact absurd (hall d) (not_le.mpr hd)
    · obtain ⟨d, hd⟩ := exists_sizeDrawn_eq h hsize h.ordered le_rfl
      exact hd ▸ hall d
  · intro hsize d
    exact (sizeDrawn_bounds h (hsize.trans (by decide)) d).2.trans hsize

/-- **The API's validators pass whatever the loop composes exactly while its knobs fit the columns
    of the API**: the bounds the harness sets its knobs do not see to that. -/
theorem composed_pass_iff (lib : ClassValidator) {es : List LoopEvent} {s : Loop}
    (hes : ∀ e ∈ es, e.Admitted) (hrun : orderLoop.run .initial es = some s) :
    ∃ h : s.config.Sound, (∀ draws, (nextOrder s.config h draws).body.passes lib = .ok true) ↔
      (∀ u ∈ s.config.users, u ≤ MAX_INT4) ∧ s.config.sizeMax ≤ MAX_INT4 := by
  have h := sound_run hes hrun
  have hpasses : ∀ draws, (nextOrder s.config h draws).body.passes lib = .ok true ↔
      pick h.users_ne h.users_length draws.user ≤ MAX_INT4 ∧
        sizeDrawn s.config draws.size ≤ MAX_INT4 := fun draws =>
    passes_body_iff (.inl rfl) (h.users_pos _ (pick_mem h.users_ne h.users_length _))
      (pick_mem tradable_ne tradable_length _) lib
  refine ⟨h, ?_⟩
  simp only [hpasses]
  constructor
  · intro hall
    refine ⟨fun u hu => ?_, (sizeDrawn_le_iff h).mp fun d => (hall ⟨.zero, .zero, .zero, d⟩).2⟩
    obtain ⟨d, rfl⟩ := exists_pick_eq h.users_ne h.users_length hu
    exact (hall ⟨d, .zero, .zero, .zero⟩).1
  · rintro ⟨husers, hsize⟩ draws
    exact ⟨husers _ (pick_mem h.users_ne h.users_length _), (sizeDrawn_le_iff h).mpr hsize _⟩

/-- The sizes are widened past the column while the loop is down. -/
def widened : List LoopEvent := [.configure 0 ⟨none, none, none, some 2, some 3000000000⟩]

/-- The loop goes on to compose orders that are refused. -/
theorem composed_pass_iff_widened : ∃ s, orderLoop.run .initial widened = some s ∧
    ∃ h : s.config.Sound,
      ¬∀ draws, (nextOrder s.config h draws).body.passes .ofText = .ok true := by
  have hes : ∀ e ∈ widened, e.Admitted := by
    rw [widened, List.forall_mem_singleton]
    show StartSimulationDto.Admitted _
    exact ⟨by simp, by simp, by simp, by simp, by simp⟩
  have hrun : orderLoop.run .initial widened = some _ := rfl
  obtain ⟨h, hiff⟩ := composed_pass_iff .ofText hes hrun
  exact ⟨_, hrun, h, fun hall => absurd (hiff.mp hall).2 (by decide)⟩

end Cocos.Tools
