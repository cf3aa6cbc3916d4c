import Cocos.Lib.Double
import Cocos.Tools.LoadRun

namespace Cocos.Tools

open Cocos.Lib

/-!
# The plan of a load run

`tools/src/load/profiles.ts`: a profile says what a run is to fire, and in which waves; and the
profiles `POST /load/run` can leave, by `start-load.dto.ts` and `LoadService.start`.

* `LoadProfile`, `StartLoadDto`, `LoadProfile.overridden` — the knobs, within their bounds;
* `stepAt`, `concurrencyAt`, `planWaves` — the plan;
* `flatten_planWaves` — **the waves are the steps of the profile, each once and in order**;
* `length_le_of_mem_planWaves` — no wave is wider than the profile's concurrency.

`round` is what a number keeps of an exact result: `toDouble` where the plan is computed.
-/

/-! ### Profiles -/

inductive LoadMode
  | burst
  | ramp
  | contention
deriving DecidableEq, Repr

/-- What a run is to fire.  The bounds are those a plan needs. -/
structure LoadProfile where
  mode : LoadMode
  concurrency : Nat
  totalOrders : Nat
  users : List Int
  sameInstrument : Bool
  cancelMix : ℚ
  concurrency_pos : 0 < concurrency
  totalOrders_pos : 0 < totalOrders
  users_ne : users ≠ []
  cancelMix_range : 0 ≤ cancelMix ∧ cancelMix ≤ 1 / 2

def DEFAULT_PROFILE : LoadProfile where
  mode := .burst
  concurrency := 10
  totalOrders := 200
  users := [1]
  sameInstrument := true
  cancelMix := 1 / 10
  concurrency_pos := by decide
  totalOrders_pos := by decide
  users_ne := by decide
  cancelMix_range := by norm_num

/-- The bounds a request is held to. -/
structure LoadProfile.Admitted (profile : LoadProfile) : Prop where
  concurrency : profile.concurrency ≤ 3000
  totalOrders : profile.totalOrders ≤ 5000
  users : ∀ u ∈ profile.users, 1 ≤ u

/-- A request that passed the pipe: every knob may be left out. -/
structure StartLoadDto where
  mode : Option LoadMode
  concurrency : Option { n : Nat // 1 ≤ n ∧ n ≤ 3000 }
  totalOrders : Option { n : Nat // 1 ≤ n ∧ n ≤ 5000 }
  users : Option { users : List Int // users ≠ [] ∧ ∀ u ∈ users, 1 ≤ u }
  sameInstrument : Option Bool
  cancelMix : Option { mix : ℚ // 0 ≤ mix ∧ mix ≤ 1 / 2 }

namespace LoadProfile

/-- `LoadService.start`: the knobs left out keep the last run's values. -/
def overridden (profile : LoadProfile) (overrides : StartLoadDto) : LoadProfile where
  mode := overrides.mode.getD profile.mode
  concurrency := (overrides.concurrency.map (·.1)).getD profile.concurrency
  totalOrders := (overrides.totalOrders.map (·.1)).getD profile.totalOrders
  users := (overrides.users.map (·.1)).getD profile.users
  sameInstrument := overrides.sameInstrument.getD profile.sameInstrument
  cancelMix := (overrides.cancelMix.map (·.1)).getD profile.cancelMix
  concurrency_pos := by
    rcases overrides.concurrency with _ | n
    · exact profile.concurrency_pos
    · exact n.2.1
  totalOrders_pos := by
    rcases overrides.totalOrders with _ | n
    · exact profile.totalOrders_pos
    · exact n.2.1
  users_ne := by
    rcases overrides.users with _ | users
    · exact profile.users_ne
    · exact users.2.1
  cancelMix_range := by
    rcases overrides.cancelMix with _ | mix
    · exact profile.cancelMix_range
    · exact mix.2

theorem admitted_default : DEFAULT_PROFILE.Admitted := ⟨by decide, by decide, by decide⟩

/-- **What was admitted stays so**, whatever is asked for next. -/
theorem Admitted.overridden {profile : LoadProfile} (h : profile.Admitted)
    (overrides : StartLoadDto) : (profile.overridden overrides).Admitted where
  concurrency := by
    show (overrides.concurrency.map (·.1)).getD _ ≤ 3000
    rcases overrides.concurrency with _ | n
    · exact h.concurrency
    · exact n.2.2
  totalOrders := by
    show (overrides.totalOrders.map (·.1)).getD _ ≤ 5000
    rcases overrides.totalOrders with _ | n
    · exact h.totalOrders
    · exact n.2.2
  users := by
    show ∀ u ∈ (overrides.users.map (·.1)).getD _, 1 ≤ u
    rcases overrides.users with _ | users
    · exact h.users
    · exact users.2.2

end LoadProfile

/-! ### Steps -/

/-- The instrument the seed leaves user 1 ten shares short in. -/
def HOT_INSTRUMENT : Int := 31

def TRADABLE_INSTRUMENTS : List Int := [47, 54, 31, 45, 34, 50, 61]

/-- The price of a buy that rests: covered by any cash, and never filled. -/
def LIMIT_PRICE : String := "1.00"

def SIZES : List Int := [1, 2, 3]

variable (round : ℚ → ℚ) (profile : LoadProfile)

def instrumentAt (index : Nat) : Int :=
  if profile.sameInstrument then HOT_INSTRUMENT
  else TRADABLE_INSTRUMENTS.get ⟨index % TRADABLE_INSTRUMENTS.length, Nat.mod_lt _ (by decide)⟩

def userAt (index : Nat) : Int :=
  match profile.mode with
  | .contention => profile.users.head profile.users_ne
  | .burst | .ramp => profile.users.get
      ⟨index % profile.users.length, Nat.mod_lt _ (List.length_pos_of_ne_nil profile.users_ne)⟩

def sizeAt (index : Nat) : Int := SIZES.get ⟨index % SIZES.length, Nat.mod_lt _ (by decide)⟩

theorem sizeAt_pos (index : Nat) : 0 < sizeAt index := by
  have hall : ∀ size ∈ SIZES, 0 < size := by decide
  exact hall _ (List.get_mem ..)

/-- The order that is not there to be cancelled. -/
def market (index : Nat) : SimOrder where
  userId := userAt profile index
  instrumentId := instrumentAt profile index
  side := if index % 2 = 0 then .BUY else .SELL
  size := sizeAt index
  type := .MARKET
  size_pos := sizeAt_pos index

/-- The order that is. -/
def resting (index : Nat) : SimOrder where
  userId := userAt profile index
  instrumentId := instrumentAt profile index
  side := .BUY
  size := 1
  type := .LIMIT LIMIT_PRICE
  size_pos := Int.one_pos

/-- How often a cancel comes: `Math.round` of the mix turned over. -/
def period : Nat :=
  if profile.mode = .contention ∧ 0 < profile.cancelMix then
    ⌊round (1 / profile.cancelMix) + 1 / 2⌋₊
  else 0

/-- A step of the plan. -/
def stepAt (index : Nat) : Step :=
  if period round profile < 2 then .place (market profile index)
  else if index % period round profile = 0 then .place (resting profile index)
  else if index % period round profile = 1 then .cancel (resting profile index)
  else .place (market profile index)

/-- Every step is for a user of the profile. -/
theorem userId_stepAt (index : Nat) :
    (stepAt round profile index).order.userId ∈ profile.users := by
  have huser : userAt profile index ∈ profile.users := by
    unfold userAt
    split
    · exact List.head_mem _
    · exact List.get_mem ..
    · exact List.get_mem ..
  unfold stepAt
  split_ifs <;> exact huser

/-! ### Waves -/

/-- The part of a run a ramp climbs over. -/
def RAMP_OVER : ℚ := 1 / 2

/-- How wide a wave may be once `sent` steps have gone out. -/
def concurrencyAt (sent : Nat) : Nat :=
  match profile.mode with
  | .burst | .contention => profile.concurrency
  | .ramp =>
    let climbed := min 1 (round (sent / round (profile.totalOrders * RAMP_OVER)))
    1 + ⌊round ((profile.concurrency - 1) * climbed)⌋₊

theorem concurrencyAt_pos (sent : Nat) : 0 < concurrencyAt round profile sent := by
  unfold concurrencyAt
  split
  · exact profile.concurrency_pos
  · exact profile.concurrency_pos
  · exact Nat.add_pos_left Nat.one_pos _

/-- A wave as wide as may be, or as there are orders left. -/
def widthAt (sent : Nat) : Nat :=
  min (concurrencyAt round profile sent) (profile.totalOrders - sent)

theorem widthAt_pos {sent : Nat} (h : sent < profile.totalOrders) :
    0 < widthAt round profile sent := by
  have hwide := concurrencyAt_pos round profile sent
  unfold widthAt
  omega

/-- The wave that starts once `sent` steps have gone out. -/
def waveAt (sent : Nat) : Wave :=
  (List.range (widthAt round profile sent)).map fun i => stepAt round profile (sent + i)

/-- The waves from there on; the loop goes round `fuel` times at most. -/
def wavesFrom : (fuel sent : Nat) → List Wave
  | 0, _ => []
  | fuel + 1, sent =>
    if sent < profile.totalOrders then
      waveAt round profile sent :: wavesFrom fuel (sent + widthAt round profile sent)
    else []

/-- `planWaves`: every wave sends an order at least, so the loop goes round no more often than
    there are orders. -/
def planWaves : List Wave := wavesFrom round profile profile.totalOrders 0

theorem waveAt_eq (sent : Nat) : waveAt round profile sent =
    (List.range' sent (widthAt round profile sent)).map (stepAt round profile) := by
  rw [List.range'_eq_map_range, List.map_map]
  rfl

/-- The loop is left where every step has gone out. -/
theorem flatten_wavesFrom (fuel sent : Nat) (hfuel : profile.totalOrders ≤ sent + fuel) :
    (wavesFrom round profile fuel sent).flatten =
      (List.range' sent (profile.totalOrders - sent)).map (stepAt round profile) := by
  induction fuel generalizing sent with
  | zero =>
    rw [show profile.totalOrders - sent = 0 by omega]
    rfl
  | succ fuel ih =>
    unfold wavesFrom
    split
    · rename_i hleft
      have hpos := widthAt_pos round profile hleft
      have hle : widthAt round profile sent ≤ profile.totalOrders - sent := Nat.min_le_right ..
      have hsplit : profile.totalOrders - sent = widthAt round profile sent +
          (profile.totalOrders - (sent + widthAt round profile sent)) := by omega
      rw [List.flatten_cons, ih _ (by omega), waveAt_eq, ← List.map_append, List.range'_append_1,
        ← hsplit]
    · rw [show profile.totalOrders - sent = 0 by omega]
      rfl

/-- **The waves are the steps of the profile**, each once and in order. -/
theorem flatten_planWaves : (planWaves round profile).flatten =
    (List.range profile.totalOrders).map (stepAt round profile) := by
  have h := flatten_wavesFrom round profile profile.totalOrders 0 (by omega)
  rwa [Nat.sub_zero, ← List.range_eq_range'] at h

theorem sum_length_planWaves :
    ((planWaves round profile).map List.length).sum = profile.totalOrders := by
  rw [← List.length_flatten, flatten_planWaves, List.length_map, List.length_range]

/-- A plan that is no ramp is one wave, where the concurrency has room for all of it. -/
theorem planWaves_of_le (hmode : profile.mode ≠ .ramp)
    (hroom : profile.totalOrders ≤ profile.concurrency) :
    planWaves round profile = [waveAt round profile 0] := by
  have hpos := profile.totalOrders_pos
  have hwidth : widthAt round profile 0 = profile.totalOrders := by
    have hfull : concurrencyAt round profile 0 = profile.concurrency := by
      unfold concurrencyAt
      split <;> first | rfl | contradiction
    rw [widthAt, hfull, Nat.sub_zero, Nat.min_eq_right hroom]
  have hdone : ∀ fuel, wavesFrom round profile fuel profile.totalOrders = [] := by
    intro fuel
    cases fuel with
    | zero => rfl
    | succ fuel => exact if_neg (lt_irrefl _)
  obtain ⟨fuel, hfuel⟩ : ∃ fuel, profile.totalOrders = fuel + 1 :=
    ⟨_, (Nat.succ_pred hpos.ne').symm⟩
  rw [planWaves]
  nth_rewrite 1 [hfuel]
  rw [wavesFrom, if_pos hpos, hwidth, Nat.zero_add, hdone]

/-- Only a contention run cancels. -/
theorem stepAt_of_ne (hmode : profile.mode ≠ .contention) (index : Nat) :
    stepAt round profile index = .place (market profile index) := by
  have hperiod : period round profile = 0 := if_neg fun h => hmode h.1
  rw [stepAt, hperiod, if_pos (by decide)]

section Width

variable {round} (hround : ∀ {x : ℚ} {n : ℕ}, x ≤ n → n < 2 ^ 53 → round x ≤ n)
variable {profile} (hconcurrency : profile.concurrency < 2 ^ 53)
include hround hconcurrency

/-- A ramp climbs to the concurrency that was asked for, and no further. -/
theorem concurrencyAt_le (sent : Nat) : concurrencyAt round profile sent ≤ profile.concurrency := by
  have hpos := profile.concurrency_pos
  unfold concurrencyAt
  split
  · exact le_rfl
  · exact le_rfl
  · dsimp only
    set climbed := min 1 (round (sent / round (profile.totalOrders * RAMP_OVER))) with hclimbed
    have hexact : (profile.concurrency - 1 : ℚ) * climbed ≤ (profile.concurrency - 1 : ℕ) := by
      have hfull : climbed ≤ 1 := min_le_left ..
      have hrest : (0 : ℚ) ≤ (profile.concurrency - 1 : ℕ) := Nat.cast_nonneg _
      have hcast : ((profile.concurrency - 1 : ℕ) : ℚ) = profile.concurrency - 1 := by
        push_cast [Nat.one_le_iff_ne_zero.mpr hpos.ne']
        rfl
      rw [← hcast]
      exact mul_le_of_le_one_right hrest hfull
    have hfloor := Nat.floor_le_of_le (hround hexact (by omega))
    omega

/-- No wave is wider than that. -/
theorem length_le_of_mem_planWaves {wave : Wave} (h : wave ∈ planWaves round profile) :
    wave.length ≤ profile.concurrency := by
  have key : ∀ fuel sent, wave ∈ wavesFrom round profile fuel sent →
      wave.length ≤ profile.concurrency := by
    intro fuel
    induction fuel with
    | zero => exact fun sent h => absurd h List.not_mem_nil
    | succ fuel ih =>
      intro sent h
      unfold wavesFrom at h
      split at h
      · rcases List.mem_cons.mp h with rfl | h
        · rw [waveAt, List.length_map, List.length_range]
          exact (Nat.min_le_left ..).trans (concurrencyAt_le hround hconcurrency sent)
        · exact ih _ h
      · exact absurd h List.not_mem_nil
  exact key _ _ h

end Width

/-- A ramp of four over eight orders. -/
example : (planWaves toDouble { DEFAULT_PROFILE with
    mode := .ramp
    concurrency := 4
    totalOrders := 8
    concurrency_pos := by decide
    totalOrders_pos := by decide }).map List.length = [1, 1, 2, 4] := by decide +kernel

end Cocos.Tools
