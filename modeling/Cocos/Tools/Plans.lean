import Cocos.Tools.Profiles

namespace Cocos.Tools

open Cocos.Lib

/-!
# What a plan is like

`planWaves` of `tools/src/load/profiles.ts`, for every profile.

* `Plans` — the loop of `planWaves`, from where it is entered to where it is left;
* `Carries` — what the ramp asks of rounding: exact arithmetic meets it (`carries_id`), and so do
  numbers of 53 bits (`carries_toDouble`);
* `concurrencyAt_mono`, `concurrencyAt_full` — a ramp climbs from one to the concurrency that was
  asked for, and is there after half of the orders;
* `rests_eq` — a cancel comes right after an order it can take;
* `plan_exact` — **the plan is exact**: the loop ends, with the steps of the profile in waves as
  wide as they may be.
-/

variable (round : ℚ → ℚ) (profile : LoadProfile)

/-! ### The loop -/

/-- The loop of `planWaves`, entered where `sent` steps have gone out, ends with these waves. -/
inductive Plans : Nat → List Wave → Prop
  | done {sent} (h : ¬sent < profile.totalOrders) : Plans sent []
  | wave {sent waves} (h : sent < profile.totalOrders)
      (hrest : Plans (sent + widthAt round profile sent) waves) :
      Plans sent (waveAt round profile sent :: waves)

variable {round profile}

/-- **The loop ends**: each time it goes round a step goes out. -/
theorem plans_wavesFrom {fuel sent : Nat} (hfuel : profile.totalOrders ≤ sent + fuel) :
    Plans round profile sent (wavesFrom round profile fuel sent) := by
  induction fuel generalizing sent with
  | zero => exact .done (by omega)
  | succ fuel ih =>
    unfold wavesFrom
    split
    · rename_i hleft
      have hpos := widthAt_pos round profile hleft
      exact .wave hleft (ih (by omega))
    · exact .done ‹_›

theorem length_waveAt (sent : Nat) :
    (waveAt round profile sent).length = widthAt round profile sent := by
  rw [waveAt, List.length_map, List.length_range]

/-- A wave another one comes after is as wide as it may be. -/
theorem Plans.length_eq {sent : Nat} {waves : List Wave} (h : Plans round profile sent waves)
    {before after : List Wave} {wave : Wave} (hwaves : waves = before ++ wave :: after)
    (hafter : after ≠ []) :
    wave.length = concurrencyAt round profile (sent + before.flatten.length) := by
  induction h generalizing before with
  | done => simp at hwaves
  | @wave sent waves hleft hrest ih =>
    cases before with
    | nil =>
      obtain ⟨rfl, rfl⟩ := List.cons.inj hwaves
      -- there are orders left for the next wave
      cases hrest with
      | done => exact absurd rfl hafter
      | wave hmore =>
        have hwidth : widthAt round profile sent =
          min (concurrencyAt round profile sent) (profile.totalOrders - sent) := rfl
        rw [length_waveAt, List.flatten_nil, List.length_nil, Nat.add_zero]
        omega
    | cons first before =>
      obtain ⟨rfl, rfl⟩ := List.cons.inj hwaves
      rw [ih rfl, List.flatten_cons, List.length_append, length_waveAt, Nat.add_assoc]

/-- No wave is empty. -/
theorem Plans.length_pos {sent : Nat} {waves : List Wave} (h : Plans round profile sent waves) :
    ∀ wave ∈ waves, 0 < wave.length := by
  induction h with
  | done => simp
  | wave hleft _ ih =>
    refine List.forall_mem_cons.mpr ⟨?_, ih⟩
    rw [length_waveAt]
    exact widthAt_pos round profile hleft

/-- No wave is wider than the plan may be where it starts. -/
theorem Plans.length_le {sent bound : Nat} {waves : List Wave} (h : Plans round profile sent waves)
    (hbound : ∀ sent, concurrencyAt round profile sent ≤ bound) :
    ∀ wave ∈ waves, wave.length ≤ bound := by
  induction h with
  | done => simp
  | @wave sent _ _ _ ih =>
    refine List.forall_mem_cons.mpr ⟨?_, ih⟩
    rw [length_waveAt]
    exact (Nat.min_le_left ..).trans (hbound sent)

/-! ### The ramp -/

variable (round profile) in
/-- What is asked of rounding: that it keeps the order, and the numbers a ramp is made of. -/
structure Carries : Prop where
  mono : ∀ {x y : ℚ}, 0 ≤ x → x ≤ y → round x ≤ round y
  whole : ∀ n ≤ profile.concurrency, round n = n
  half : round (profile.totalOrders * RAMP_OVER) = profile.totalOrders * RAMP_OVER

/-- Exact arithmetic. -/
theorem carries_id : Carries id profile where
  mono _ h := h
  whole _ _ := rfl
  half := rfl

/-- Numbers of 53 bits. -/
theorem carries_toDouble (hconcurrency : profile.concurrency < 2 ^ 53)
    (htotal : profile.totalOrders < 2 ^ 53) : Carries toDouble profile where
  mono := toDouble_mono
  whole n hn := toDouble_eq_self (k := 0) (n := n) (by ring) (by omega)
  half := toDouble_eq_self (k := 1) (n := profile.totalOrders) (by rw [RAMP_OVER]; ring) htotal

namespace Carries

variable (h : Carries round profile)
include h

theorem zero : round 0 = 0 := by
  simpa using h.whole 0 (Nat.zero_le _)

theorem nonneg {x : ℚ} (hx : 0 ≤ x) : 0 ≤ round x := by
  simpa only [h.zero] using h.mono le_rfl hx

/-- How far a ramp has climbed. -/
theorem climbed_nonneg (sent : Nat) :
    0 ≤ min 1 (round (sent / round (profile.totalOrders * RAMP_OVER))) := by
  rw [h.half, RAMP_OVER]
  exact le_min zero_le_one (h.nonneg (by positivity))

theorem concurrencyAt_zero (hmode : profile.mode = .ramp) : concurrencyAt round profile 0 = 1 := by
  simp [concurrencyAt, hmode, h.zero]

/-- **A ramp never steps back down.** -/
theorem concurrencyAt_mono {sent sent' : Nat} (hle : sent ≤ sent') :
    concurrencyAt round profile sent ≤ concurrencyAt round profile sent' := by
  have hpos : (1 : ℚ) ≤ profile.concurrency := by exact_mod_cast profile.concurrency_pos
  have hclimbed := h.climbed_nonneg sent
  unfold concurrencyAt
  split
  · exact le_rfl
  · exact le_rfl
  · rw [h.half] at hclimbed ⊢
    have hhalf : (0 : ℚ) ≤ profile.totalOrders * RAMP_OVER := by
      rw [RAMP_OVER]
      positivity
    have hsent : (sent : ℚ) ≤ sent' := by exact_mod_cast hle
    have hround := h.mono (by positivity) (div_le_div_of_nonneg_right hsent hhalf)
    have hrest : (0 : ℚ) ≤ profile.concurrency - 1 := by linarith
    dsimp only
    refine Nat.add_le_add_left (Nat.floor_mono (h.mono (mul_nonneg hrest hclimbed) ?_)) 1
    gcongr

/-- **Past half of the orders it is at the top.** -/
theorem concurrencyAt_full {sent : Nat} (hhalf : profile.totalOrders ≤ 2 * sent) :
    concurrencyAt round profile sent = profile.concurrency := by
  have hpos := profile.concurrency_pos
  have htotal : (0 : ℚ) < profile.totalOrders := by exact_mod_cast profile.totalOrders_pos
  unfold concurrencyAt
  split
  · rfl
  · rfl
  · have hfraction : (1 : ℚ) ≤ sent / (profile.totalOrders * RAMP_OVER) := by
      have hcast : (profile.totalOrders : ℚ) ≤ 2 * sent := by exact_mod_cast hhalf
      rw [RAMP_OVER, one_le_div (by positivity)]
      linarith
    have hround : (1 : ℚ) ≤ round (sent / (profile.totalOrders * RAMP_OVER)) := by
      have hone := h.whole 1 hpos
      rw [Nat.cast_one] at hone
      rw [← hone]
      exact h.mono zero_le_one hfraction
    have hcast : (profile.concurrency : ℚ) - 1 = (profile.concurrency - 1 : ℕ) := by
      rw [Nat.cast_sub hpos, Nat.cast_one]
    dsimp only
    rw [h.half, min_eq_left hround, mul_one, hcast, h.whole _ (Nat.sub_le ..), Nat.floor_natCast]
    omega

/-- It climbs no further. -/
theorem concurrencyAt_le (sent : Nat) :
    concurrencyAt round profile sent ≤ profile.concurrency := by
  have hhalf : profile.totalOrders ≤ 2 * (sent + profile.totalOrders) := by omega
  rw [← h.concurrencyAt_full hhalf]
  exact h.concurrencyAt_mono (Nat.le_add_right ..)

end Carries

/-! ### Orders and their cancels -/

/-- Whether a step cancels. -/
def Step.isCancel : Step → Bool
  | .place _ => false
  | .cancel _ => true

/-- Whether a step places a LIMIT order, which rests. -/
def Step.rests : Step → Bool
  | .place order =>
    match order.type with
    | .LIMIT _ => true
    | .MARKET => false
  | .cancel _ => false

theorem isCancel_stepAt (index : Nat) : (stepAt round profile index).isCancel =
    decide (2 ≤ period round profile ∧ index % period round profile = 1) := by
  unfold stepAt
  split_ifs with hperiod hrests hcancels
  · simp [Step.isCancel, hperiod.not_ge]
  · simp [Step.isCancel, hrests]
  · simp [Step.isCancel, hcancels, not_lt.mp hperiod]
  · simp [Step.isCancel, hcancels]

theorem rests_stepAt (index : Nat) : (stepAt round profile index).rests =
    decide (2 ≤ period round profile ∧ index % period round profile = 0) := by
  unfold stepAt
  split_ifs with hperiod hrests hcancels
  · simp [Step.rests, market, hperiod.not_ge]
  · simp [Step.rests, resting, hrests, not_lt.mp hperiod]
  · simp [Step.rests, hrests]
  · simp [Step.rests, market, hrests]

theorem add_one_mod_eq_one {n p : Nat} (hp : 2 ≤ p) : (n + 1) % p = 1 ↔ n % p = 0 := by
  have hlt := Nat.mod_lt n (show 0 < p by omega)
  rw [Nat.add_mod_eq_ite, Nat.mod_eq_of_lt (show 1 < p by omega)]
  split_ifs <;> omega

/-- **A cancel comes right after an order it can take**: of the first `n` steps as many place an
    order that rests as cancel one, and one more where the last of them placed it. -/
theorem rests_eq (n : Nat) :
    ((List.range n).map (stepAt round profile)).countP Step.rests =
      ((List.range n).map (stepAt round profile)).countP Step.isCancel +
        if 2 ≤ period round profile ∧ n % period round profile = 1 then 1 else 0 := by
  induction n with
  | zero =>
    rw [if_neg fun h => by simp at h]
    rfl
  | succ n ih =>
    rw [List.range_succ, List.map_append, List.countP_append, List.countP_append, ih,
      List.map_singleton, List.countP_singleton, List.countP_singleton, rests_stepAt,
      isCancel_stepAt]
    by_cases hperiod : 2 ≤ period round profile
    · simp only [hperiod, true_and, decide_eq_true_eq, add_one_mod_eq_one hperiod]
    · simp [hperiod]

/-! ### The plan -/

variable (round profile) in
/-- A plan that fires what its profile asks for, in waves as wide as they may be. -/
structure ExactPlan (waves : List Wave) : Prop where
  /-- It is what the loop ends with. -/
  ends : Plans round profile 0 waves
  steps : waves.flatten = (List.range profile.totalOrders).map (stepAt round profile)
  size : ∀ wave ∈ waves, 1 ≤ wave.length ∧ wave.length ≤ profile.concurrency
  /-- All but the last wave. -/
  width : ∀ before wave after, waves = before ++ wave :: after → after ≠ [] →
    wave.length = concurrencyAt round profile before.flatten.length
  ramp : profile.mode = .ramp → concurrencyAt round profile 0 = 1 ∧
    (∀ sent sent', sent ≤ sent' →
      concurrencyAt round profile sent ≤ concurrencyAt round profile sent') ∧
    ∀ sent, profile.totalOrders ≤ 2 * sent →
      concurrencyAt round profile sent = profile.concurrency
  /-- The part of the plan that has gone out at any moment. -/
  covered : ∀ steps, steps <+: waves.flatten →
    steps.countP Step.isCancel ≤ steps.countP Step.rests

/-- **The plan of a profile is exact**, in exact arithmetic and in any that carries the ramp. -/
theorem plan_exact (h : Carries round profile) :
    ExactPlan round profile (planWaves round profile) := by
  have hends : Plans round profile 0 (planWaves round profile) := plans_wavesFrom (by omega)
  refine ⟨hends, flatten_planWaves round profile, fun wave hwave => ?_,
    fun before wave after hwaves hafter => ?_, fun hmode => ?_, fun steps hprefix => ?_⟩
  · exact ⟨hends.length_pos wave hwave, hends.length_le h.concurrencyAt_le wave hwave⟩
  · rw [hends.length_eq hwaves hafter, Nat.zero_add]
  · exact ⟨h.concurrencyAt_zero hmode, fun _ _ => h.concurrencyAt_mono,
      fun _ => h.concurrencyAt_full⟩
  · have hsteps := List.prefix_iff_eq_take.mp hprefix
    rw [flatten_planWaves, ← List.map_take, List.take_range] at hsteps
    rw [hsteps, rests_eq]
    exact Nat.le_add_right ..

/-- A contention plan of ten orders that cancels one in three. -/
def oneInThree : LoadProfile where
  mode := .contention
  concurrency := 4
  totalOrders := 10
  users := [1]
  sameInstrument := true
  cancelMix := 1 / 3
  concurrency_pos := by decide
  totalOrders_pos := DEFAULT_PROFILE.concurrency_pos
  users_ne := DEFAULT_PROFILE.users_ne
  cancelMix_range := by norm_num

theorem plan_exact_oneInThree : ExactPlan id oneInThree (planWaves id oneInThree) ∧
    (planWaves id oneInThree).map List.length = [4, 4, 2] ∧
    (planWaves id oneInThree).flatten.countP Step.isCancel = 3 :=
  ⟨plan_exact carries_id, by decide +kernel, by decide +kernel⟩

end Cocos.Tools
