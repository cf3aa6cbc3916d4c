import Cocos.Lib.Counts
import Cocos.Lib.Double
import Cocos.Lib.Quantile
import Cocos.Tools.Detectors
import Mathlib.Data.String.Basic

namespace Cocos.Tools

open Cocos.Lib

/-!
# The statistics of the back-office

`percentile` and `summarise` of `tools/src/backoffice/stats.ts`: what one page says about the rows
of the recorder.

* `percentile` — the sample at a fraction, and `IsNearestRank`, what that is over the sample as it
  was measured;
* `percentile_isNearestRank` — **the percentiles are nearest ranks**, where the product of the
  fraction and the size of the sample is the exact one and where it is a double, and
  `percentile_tenth`, where the two ranks differ;
* `summarise`, `Running.add` — the summary, and one row of its loop;
* `Running.Totals`, `totals_foldl`, `summarise_eq` — what is counted after some rows, each figure by
  itself;
* `statistics_exact` — **every row is counted once**, and the order of the rows does not matter.

`localeCompare` is the comparison of texts in the locale of the process.
-/

/-! ### Percentiles -/

/-- The sample at a fraction, by nearest rank.  `round` is what the multiplication makes of the
    exact product: `toDouble` for the numbers of the language, `id` in exact arithmetic. -/
def percentile (round : ℚ → ℚ) (values : List Int) (fraction : ℚ) : Int :=
  if values.length = 0 then 0
  else
    let sorted := sorted values
    let rank := ⌈round (fraction * sorted.length)⌉
    sorted.getD (min (max rank 1) sorted.length - 1).toNat 0

/-- What is asked of a rounding: it keeps the order and the signs. -/
structure Rounds (round : ℚ → ℚ) : Prop where
  mono : ∀ {x y}, 0 ≤ x → x ≤ y → round x ≤ round y
  pos : ∀ {x}, 0 < x → 0 < round x
  nonpos : ∀ {x}, x ≤ 0 → round x ≤ 0

theorem rounds_id : Rounds id where
  mono _ hxy := hxy
  pos hx := hx
  nonpos hx := hx

theorem rounds_toDouble : Rounds toDouble where
  mono := toDouble_mono
  pos hx := (zpow_pos two_pos _).trans_le (zpow_le_toDouble hx)
  nonpos {x} hx := by
    have hle := toDouble_le (n := 0) (by exact_mod_cast hx) (by norm_num)
    exact_mod_cast hle

section Percentile

variable {round : ℚ → ℚ} {values : List Int}

/-- The sample is the one of its rank. -/
theorem nearestRank_percentile (round : ℚ → ℚ) (hne : values ≠ []) (fraction : ℚ) :
    nearestRank values ⌈round (fraction * values.length)⌉ =
      some (percentile round values fraction) := by
  obtain ⟨v, hv⟩ := exists_nearestRank hne ⌈round (fraction * values.length)⌉
  have hlen : values.length ≠ 0 := fun h => hne (List.length_eq_zero_iff.mp h)
  rw [hv, percentile, if_neg hlen]
  unfold nearestRank placeOf at hv
  simp only [length_sorted, List.getD_eq_getElem?_getD, hv, Option.getD_some]

/-- The order the samples arrive in does not matter. -/
theorem percentile_perm (round : ℚ → ℚ) {values' : List Int} (h : values.Perm values')
    (fraction : ℚ) : percentile round values' fraction = percentile round values fraction := by
  by_cases hne : values = []
  · subst hne
    rw [h.symm.eq_nil]
  · have hne' : values' ≠ [] := fun hnil => hne (hnil ▸ h).eq_nil
    apply Option.some.inj
    rw [← nearestRank_percentile round hne, ← nearestRank_percentile round hne', h.length_eq]
    exact (nearestRank_perm h _).symm

variable (hround : Rounds round)
include hround

/-- The rank of a fraction that is not positive is before the first. -/
theorem Rounds.rank_nonpos (values : List Int) {f : ℚ} (hf : f ≤ 0) :
    ⌈round (f * values.length)⌉ ≤ 0 := by
  have hprod : f * values.length ≤ 0 := mul_nonpos_of_nonpos_of_nonneg hf (Nat.cast_nonneg _)
  exact Int.ceil_le.mpr (by exact_mod_cast hround.nonpos hprod)

/-- A greater fraction has no lesser rank, from the first on. -/
theorem Rounds.rank_mono {f g : ℚ} (hf : 0 ≤ f) (hfg : f ≤ g) :
    ⌈round (f * values.length)⌉ ≤ ⌈round (g * values.length)⌉ := by
  have hlen : (0 : ℚ) ≤ values.length := Nat.cast_nonneg _
  exact Int.ceil_mono (hround.mono (mul_nonneg hf hlen) (mul_le_mul_of_nonneg_right hfg hlen))

/-- A greater fraction has no lesser sample. -/
theorem Rounds.percentile_mono (values : List Int) {f g : ℚ} (hfg : f ≤ g) :
    percentile round values f ≤ percentile round values g := by
  by_cases hne : values = []
  · subst hne
    exact le_rfl
  · have hf := nearestRank_percentile round hne f
    have hg := nearestRank_percentile round hne g
    rcases le_total f 0 with hneg | hpos
    · have hrank := hround.rank_nonpos values hneg
      exact nearestRank_le hf (hrank.trans (by decide)) (mem_nearestRank hg)
    · exact nearestRank_mono hf hg (hround.rank_mono hpos hfg)

end Percentile

/-- The nearest-rank quantiles of a sample: what the percentiles are over the values as they were
    given, where the multiplication rounds by `round`. -/
structure IsNearestRank (round : ℚ → ℚ) (values : List Int) : Prop where
  mem : ∀ f, percentile round values f ∈ values
  atLeast : ∀ f, 0 < f → f ≤ 1 →
    ⌈round (f * values.length)⌉ ≤ values.countP (decide <| · ≤ percentile round values f)
  fewer : ∀ f, 0 < f → f ≤ 1 →
    values.countP (decide <| · < percentile round values f) < ⌈round (f * values.length)⌉
  perm : ∀ values', values.Perm values' → ∀ f,
    percentile round values' f = percentile round values f
  mono : ∀ f g, f ≤ g → percentile round values f ≤ percentile round values g
  least : ∀ f ≤ 0, ∀ v ∈ values, percentile round values f ≤ v
  greatest : ∀ f, 1 < f → ∀ v ∈ values, v ≤ percentile round values f

/-- Percentiles are nearest ranks where the rounding keeps the size of the sample. -/
theorem Rounds.isNearestRank {round : ℚ → ℚ} {values : List Int} (hround : Rounds round)
    (hwhole : round values.length = values.length) (hne : values ≠ []) :
    IsNearestRank round values := by
  have hone : ⌈round (1 * values.length)⌉ = values.length := by
    rw [one_mul, hwhole, Int.ceil_natCast]
  constructor
  case mem => exact fun f => mem_nearestRank (nearestRank_percentile round hne f)
  case atLeast =>
    intro f hpos hle
    exact le_countP_nearestRank (nearestRank_percentile round hne f)
      (hone ▸ hround.rank_mono hpos.le hle)
  case fewer =>
    intro f hpos _
    have hlen : (0 : ℚ) < values.length := by exact_mod_cast List.length_pos_iff.mpr hne
    exact countP_nearestRank_lt (nearestRank_percentile round hne f)
      (Int.ceil_pos.mpr (hround.pos (mul_pos hpos hlen)))
  case perm => exact fun values' h f => percentile_perm round h f
  case mono => exact fun f g hfg => hround.percentile_mono values hfg
  case least =>
    intro f hf v hv
    have hrank := hround.rank_nonpos values hf
    exact nearestRank_le (nearestRank_percentile round hne f) (hrank.trans (by decide)) hv
  case greatest =>
    intro f hf v hv
    exact le_nearestRank (nearestRank_percentile round hne f)
      (hone ▸ hround.rank_mono zero_le_one hf.le) hv

/-- **The percentiles of a sample are its nearest ranks**: with the exact product, and with the
    product as a double, for every sample an array can hold. -/
theorem percentile_isNearestRank {values : List Int} (hne : values ≠ []) :
    IsNearestRank id values ∧ (values.length < 2 ^ 32 → IsNearestRank toDouble values) := by
  refine ⟨rounds_id.isNearestRank rfl hne, fun hlen => ?_⟩
  exact rounds_toDouble.isNearestRank
    (toDouble_eq_self (k := 0) (by simp) (hlen.trans (by norm_num))) hne

/-- Of three calls, the half and the last. -/
theorem percentile_isNearestRank_three :
    IsNearestRank toDouble [30, 10, 20] ∧ percentile toDouble [30, 10, 20] (1 / 2) = 20 ∧
      percentile toDouble [30, 10, 20] 1 = 30 :=
  ⟨(percentile_isNearestRank (by decide)).2 (by decide), by decide +kernel, by decide +kernel⟩

/-- Ten samples, and the number `0.1`, which is above a tenth. -/
def tenSamples : List Int := [1, 2, 3, 4, 5, 6, 7, 8, 9, 10]

def tenth : ℚ := toDouble (1 / 10)

/-- **The rank of the exact product is not the rank of the code.**  Ten times the number `0.1` is
    above one and rounded to it, so that the sample has one value up to it where two are asked
    for. -/
theorem percentile_tenth : tenSamples ≠ [] ∧ 0 < tenth ∧ tenth ≤ 1 ∧ toDouble tenth = tenth ∧
    ⌈tenth * tenSamples.length⌉ = 2 ∧
    tenSamples.countP (decide <| · ≤ percentile toDouble tenSamples tenth) = 1 := by
  decide +kernel

/-! ### What the rows say -/

/-- The day that is a number of days from the beginning of 1970: its year, month and day. -/
def civil (days : Int) : Int × Int × Int :=
  -- years begin in March here, so that the day that is put in is the last
  let days := days + 719468
  let era := days / 146097
  let dayOfEra := days % 146097
  let yearOfEra := (dayOfEra - dayOfEra / 1460 + dayOfEra / 36524 - dayOfEra / 146096) / 365
  let dayOfYear := dayOfEra - (365 * yearOfEra + yearOfEra / 4 - yearOfEra / 100)
  let monthFromMarch := (5 * dayOfYear + 2) / 153
  let month := if monthFromMarch < 10 then monthFromMarch + 3 else monthFromMarch - 9
  (yearOfEra + era * 400 + if month ≤ 2 then 1 else 0, month,
    dayOfYear - (153 * monthFromMarch + 2) / 5 + 1)

/-- A number with zeros before it, up to a width. -/
def padded (width : Nat) (n : Nat) : String :=
  String.ofList (List.leftpad width '0' (toString n).toList)

/-- `new Date(ms).toISOString()`. -/
def toISOString (ms : Int) : String :=
  let (year, month, day) := civil (ms / 86400000)
  let inDay := (ms % 86400000).toNat
  let years :=
    if year < 0 then "-" ++ padded 6 year.natAbs
    else if 9999 < year then "+" ++ padded 6 year.toNat
    else padded 4 year.toNat
  years ++ "-" ++ padded 2 month.toNat ++ "-" ++ padded 2 day.toNat ++ "T" ++
    padded 2 (inDay / 3600000) ++ ":" ++ padded 2 (inDay / 60000 % 60) ++ ":" ++
    padded 2 (inDay / 1000 % 60) ++ "." ++ padded 3 (inDay % 1000) ++ "Z"

example : toISOString 1787745600000 = "2026-08-26T12:00:00.000Z" := by decide +kernel

/-- `path.replace(/\/\d+/g, '/:id')`; `inId` says that the digits of an id are being passed. -/
def replaceIds (inId : Bool) : List Char → List Char
  | [] => []
  | c :: rest =>
    if inId ∧ c.isDigit then replaceIds true rest
    else if c = '/' ∧ rest.head?.any Char.isDigit then "/:id".toList ++ replaceIds true rest
    else c :: replaceIds false rest

/-- The endpoint of a call: ids in a path are the row. -/
def endpointOf (attempt : Attempt) : String :=
  attempt.method ++ " " ++ String.ofList (replaceIds false (route attempt.path).toList)

/-- `String(actual)`, for an order the target said nothing of too. -/
def actualText (actual : Option OrderStatus) : String := (actual.map OrderStatus.text).getD "null"

/-- When a call was over. -/
def completedAt (attempt : Attempt) : Int := attempt.sentAt + attempt.latencyMs

def MINUTE_MS : Int := 60000

/-- How often an answer was seen where another was expected. -/
structure OutcomeCount where
  expected : Expectation
  actual : Option OrderStatus
  count : Nat
deriving DecidableEq, Repr

/-- What `summarise` has counted so far; `fromAt` and `toAt` are its `from` and `to`. -/
structure Running where
  byStatus : JsMap Nat Nat
  byEndpoint : JsMap String Nat
  outcomes : JsMap String OutcomeCount
  latencies : List Int
  fromAt : Option String
  toAt : Option String
  lastMinute : Nat
  counted : Nat
  shedding : Nat
  chaosEvents : Nat

/-- The key an outcome is counted under. -/
def outcomeKey (expected : Expectation) (actual : Option OrderStatus) : String :=
  expected.text ++ ">" ++ actualText actual

/-- The text that is before the others, of those that were seen and one more. -/
def foremost (before : String → String → Prop) [DecidableRel before] (seen : Option String)
    (text : String) : Option String :=
  match seen with
  | none => some text
  | some old => if before text old then some text else some old

/-- What becomes of `from`. -/
def earlier : Option String → String → Option String := foremost (· < ·)

/-- What becomes of `to`. -/
def later : Option String → String → Option String := foremost (· > ·)

namespace Running

/-- Before the first row. -/
def initial : Running := ⟨.empty, .empty, .empty, [], none, none, 0, 0, 0, 0⟩

/-- One more answer to an order that something was expected of. -/
def outcome (outcomes : JsMap String OutcomeCount) (expected : Expectation)
    (actual : Option OrderStatus) : JsMap String OutcomeCount :=
  let key := outcomeKey expected actual
  let row := (outcomes.get? key).getD ⟨expected, actual, 0⟩
  outcomes.set key { row with count := row.count + 1 }

/-- One row of the loop of `summarise`.  The key `String(attempt.status)` is kept as the number. -/
def add (now : Int) (s : Running) (attempt : Attempt) : Running :=
  if isChaosEvent attempt then { s with chaosEvents := s.chaosEvents + 1 }
  else
    { s with
      counted := s.counted + 1
      shedding := if attempt.status = 503 then s.shedding + 1 else s.shedding
      byStatus := s.byStatus.increment attempt.status
      byEndpoint := s.byEndpoint.increment (endpointOf attempt)
      latencies :=
        if attempt.status ≠ 0 then s.latencies ++ [attempt.latencyMs] else s.latencies
      outcomes :=
        match attempt.expected with
        | none => s.outcomes
        | some expected => outcome s.outcomes expected attempt.actual
      fromAt := earlier s.fromAt (toISOString attempt.sentAt)
      toAt := later s.toAt (toISOString attempt.sentAt)
      lastMinute :=
        if completedAt attempt ≥ now - MINUTE_MS then s.lastMinute + 1 else s.lastMinute }

end Running

/-- The calls that were counted, and the instants of the first and the last. -/
structure SummaryWindow where
  attempts : Nat
  fromAt : Option String
  toAt : Option String
deriving DecidableEq, Repr

/-- The latencies of the calls that were answered. -/
structure Latency where
  p50 : Int
  p95 : Int
  max : Int
  samples : Nat
deriving DecidableEq, Repr

/-- How often an endpoint was called. -/
structure EndpointCount where
  endpoint : String
  count : Nat
deriving DecidableEq, Repr

/-- The calls of the last minute. -/
structure Throughput where
  attempts : Nat
  perSec : ℚ
deriving DecidableEq, Repr

/-- What one page says about the rows. -/
structure Summary where
  window : SummaryWindow
  byStatus : List (Nat × Nat)
  shedding : Nat
  chaosEvents : Nat
  outcomes : List OutcomeCount
  latencyMs : Latency
  byEndpoint : List EndpointCount
  throughputLast60s : Throughput
deriving DecidableEq, Repr

section Summarise

variable (localeCompare : String → String → Ordering)

/-- How outcomes are listed. -/
def outcomeOrder (a b : OutcomeCount) : Ordering :=
  (localeCompare a.expected.text b.expected.text).then
    (localeCompare (actualText a.actual) (actualText b.actual))

/-- How endpoints are listed: the busiest first. -/
def endpointOrder (a b : EndpointCount) : Ordering :=
  (compare b.count a.count).then (localeCompare a.endpoint b.endpoint)

/-- Calls a second, to two places: `Math.round((lastMinute / 60) * 100) / 100`. -/
def perSec (lastMinute : Nat) : ℚ :=
  toDouble (⌊toDouble (toDouble (lastMinute / 60) * 100) + 1 / 2⌋ / 100)

/-- What one page says about the rows.  An object lists keys that are numbers in their order. -/
def summarise (attempts : List Attempt) (now : Int) : Summary :=
  let s := attempts.foldl (Running.add now) .initial
  { window := ⟨s.counted, s.fromAt, s.toAt⟩
    byStatus := sortBy (fun a b => compare a.1 b.1) s.byStatus.entries
    shedding := s.shedding
    chaosEvents := s.chaosEvents
    outcomes := sortBy (outcomeOrder localeCompare) (s.outcomes.entries.map Prod.snd)
    latencyMs :=
      { p50 := percentile toDouble s.latencies (1 / 2)
        p95 := percentile toDouble s.latencies (toDouble (95 / 100))
        max := percentile toDouble s.latencies 1
        samples := s.latencies.length }
    byEndpoint := sortBy (endpointOrder localeCompare) <|
      s.byEndpoint.entries.map fun (endpoint, count) => ⟨endpoint, count⟩
    throughputLast60s := ⟨s.lastMinute, perSec s.lastMinute⟩ }

end Summarise

/-! ### What is counted -/

/-- The rows that are calls to the target. -/
def calls (attempts : List Attempt) : List Attempt := attempts.filter fun a => !isChaosEvent a

/-- What was expected of a call, with what came of it. -/
def outcomeOf (attempt : Attempt) : Option (Expectation × Option OrderStatus) :=
  attempt.expected.map fun expected => (expected, attempt.actual)

theorem Expectation.text_injective : Function.Injective Expectation.text := by
  intro a b h
  cases a <;> cases b <;> first | rfl | exact absurd h (by decide)

theorem actualText_injective : Function.Injective actualText := by
  intro a b h
  rcases a with - | a <;> rcases b with - | b
  · rfl
  · cases b <;> exact absurd h (by decide)
  · cases a <;> exact absurd h (by decide)
  · exact congrArg some (OrderStatus.text_injective h)

/-- The keys of the outcomes tell them apart: no text of them has a `>`. -/
def outcomeKeys : Expectation × Option OrderStatus ↪ String where
  toFun k := outcomeKey k.1 k.2
  inj' := by
    rintro ⟨e, a⟩ ⟨e', a'⟩ h
    have hfirst : e = e' := by
      have hhead := congrArg (fun text : String => text.toList.head?) h
      cases e <;> cases e' <;> first | rfl | simp [outcomeKey, Expectation.text] at hhead
    subst hfirst
    have hrest : actualText a = actualText a' := by
      simpa [outcomeKey, String.append_right_inj] using h
    rw [actualText_injective hrest]

/-- Two texts may come in either order. -/
theorem foremost_comm {before : String → String → Prop} [DecidableRel before]
    [IsStrictTotalOrder String before] (seen : Option String) (a b : String) :
    foremost before (foremost before seen a) b = foremost before (foremost before seen b) a := by
  have htri : ∀ x y, ¬ before x y → ¬ before y x → x = y :=
    Std.Trichotomous.trichotomous (r := before)
  have hasymm : ∀ x y, before x y → ¬ before y x := fun _ _ => asymm_of before
  have htrans : ∀ x y z, before x y → before y z → before x z := fun _ _ _ => trans_of before
  cases seen with
  | none => grind [foremost]
  | some old => grind [foremost]

namespace Running

/-- The outcomes of some calls, under their keys. -/
def outcomesOf (rows : List Attempt) : JsMap String OutcomeCount :=
  (JsMap.counts (rows.filterMap outcomeOf)).rekey outcomeKeys fun k n => ⟨k.1, k.2, n⟩

/-- What is counted after some calls, and a number of rows that are none. -/
structure Totals (now : Int) (s : Running) (rows : List Attempt) (events : ℕ) : Prop where
  counted : s.counted = rows.length
  chaosEvents : s.chaosEvents = events
  byStatus : s.byStatus = JsMap.counts (rows.map (·.status))
  byEndpoint : s.byEndpoint = JsMap.counts (rows.map endpointOf)
  outcomes : s.outcomes = outcomesOf rows
  latencies : s.latencies = (rows.filter (·.status ≠ 0)).map (·.latencyMs)
  fromAt : s.fromAt = (rows.map fun a => toISOString a.sentAt).foldl earlier none
  toAt : s.toAt = (rows.map fun a => toISOString a.sentAt).foldl later none
  lastMinute : s.lastMinute = rows.countP fun a => completedAt a ≥ now - MINUTE_MS
  shedding : s.shedding = rows.countP (·.status = 503)

theorem outcome_rekey (m : JsMap (Expectation × Option OrderStatus) ℕ) (expected : Expectation)
    (actual : Option OrderStatus) :
    outcome (m.rekey outcomeKeys fun k n => ⟨k.1, k.2, n⟩) expected actual =
      (m.increment (expected, actual)).rekey outcomeKeys fun k n => ⟨k.1, k.2, n⟩ := by
  have hget := JsMap.get?_rekey outcomeKeys (fun k n => (⟨k.1, k.2, n⟩ : OutcomeCount)) m
    (expected, actual)
  rw [JsMap.increment, JsMap.rekey_set]
  unfold outcome
  simp only [show outcomeKey expected actual = outcomeKeys (expected, actual) from rfl, hget]
  cases m.get? (expected, actual) with
  | none => rfl
  | some n => rfl

variable {now : Int} {s : Running} {rows : List Attempt} {events : ℕ}

theorem totals_initial : Totals now .initial [] 0 :=
  ⟨rfl, rfl, rfl, rfl, rfl, rfl, rfl, rfl, rfl, rfl⟩

/-- A row of the harness about itself is counted on its own. -/
theorem Totals.event (h : Totals now s rows events) {attempt : Attempt}
    (hchaos : isChaosEvent attempt) : Totals now (s.add now attempt) rows (events + 1) := by
  rw [add, if_pos hchaos]
  exact { h with chaosEvents := congrArg (· + 1) h.chaosEvents }

/-- **A call is counted once in every figure.** -/
theorem Totals.call (h : Totals now s rows events) {attempt : Attempt}
    (hchaos : ¬ isChaosEvent attempt) :
    Totals now (s.add now attempt) (rows ++ [attempt]) events := by
  rw [add, if_neg hchaos]
  constructor
  case counted => simp [h.counted]
  case chaosEvents => exact h.chaosEvents
  case byStatus => simp [h.byStatus]
  case byEndpoint => simp [h.byEndpoint]
  case outcomes =>
    show (match attempt.expected with
      | none => s.outcomes
      | some expected => outcome s.outcomes expected attempt.actual) = _
    rw [h.outcomes, outcomesOf, outcomesOf, List.filterMap_append]
    cases hexp : attempt.expected with
    | none => simp [outcomeOf, hexp]
    | some expected => simp [outcomeOf, hexp, outcome_rekey]
  case latencies =>
    by_cases hzero : attempt.status = 0 <;> simp [h.latencies, hzero]
  case fromAt => simp [h.fromAt]
  case toAt => simp [h.toAt]
  case lastMinute =>
    rw [List.countP_append, List.countP_singleton, h.lastMinute]
    by_cases hlate : completedAt attempt ≥ now - MINUTE_MS <;> simp [hlate]
  case shedding =>
    rw [List.countP_append, List.countP_singleton, h.shedding]
    by_cases hshed : attempt.status = 503 <;> simp [hshed]

/-- What is counted after a list of rows. -/
theorem totals_foldl (now : Int) (attempts : List Attempt) :
    Totals now (attempts.foldl (add now) .initial) (calls attempts)
      (attempts.countP isChaosEvent) := by
  induction attempts using List.reverseRecOn with
  | nil => exact totals_initial
  | append_singleton attempts attempt ih =>
    rw [List.foldl_concat, calls, List.filter_append, List.countP_append]
    by_cases hchaos : isChaosEvent attempt
    · simpa [hchaos, calls] using ih.event hchaos
    · simpa [hchaos, calls] using ih.call hchaos

end Running

/-! ### What the figures say -/

/-- What is asked of the comparison of texts: that it tells apart the texts that are compared. -/
structure Separates (localeCompare : String → String → Ordering) (attempts : List Attempt) :
    Prop where
  endpoints : ∀ a ∈ attempts, ∀ b ∈ attempts,
    localeCompare (endpointOf a) (endpointOf b) = .eq → endpointOf a = endpointOf b
  expectations : ∀ a b : Expectation, localeCompare a.text b.text = .eq → a = b
  actuals : ∀ a b : Option OrderStatus, localeCompare (actualText a) (actualText b) = .eq → a = b

section Order

variable (localeCompare : String → String → Ordering) [Std.TransCmp localeCompare]

theorem transCmp_outcomeOrder : Std.TransCmp (outcomeOrder localeCompare) :=
  have := transCmp_comap localeCompare fun a : OutcomeCount => a.expected.text
  have := transCmp_comap localeCompare fun a : OutcomeCount => actualText a.actual
  inferInstanceAs <| Std.TransCmp <| compareLex
    (fun a b : OutcomeCount => localeCompare a.expected.text b.expected.text)
    (fun a b : OutcomeCount => localeCompare (actualText a.actual) (actualText b.actual))

theorem transCmp_endpointOrder : Std.TransCmp (endpointOrder localeCompare) :=
  have := transCmp_comap (fun m n : Nat => compare n m) EndpointCount.count
  have := transCmp_comap localeCompare EndpointCount.endpoint
  inferInstanceAs <| Std.TransCmp <| compareLex
    (fun a b : EndpointCount => compare b.count a.count)
    (fun a b : EndpointCount => localeCompare a.endpoint b.endpoint)

end Order

/-- The counters of the statuses, as they are listed. -/
def statusCounts (rows : List Attempt) : List (Nat × Nat) :=
  sortBy (fun a b => compare a.1 b.1) (JsMap.counts (rows.map (·.status))).entries

/-- The counters of the endpoints, before they are listed. -/
def endpointCounts (rows : List Attempt) : List EndpointCount :=
  (JsMap.counts (rows.map endpointOf)).entries.map fun (endpoint, count) => ⟨endpoint, count⟩

/-- The counters of the outcomes, before they are listed. -/
def outcomeCounts (rows : List Attempt) : List OutcomeCount :=
  (Running.outcomesOf rows).entries.map Prod.snd

/-- **The figures, each by itself.** -/
theorem summarise_eq (localeCompare : String → String → Ordering) (attempts : List Attempt)
    (now : Int) :
    summarise localeCompare attempts now =
      let rows := calls attempts
      let at' := rows.map fun a => toISOString a.sentAt
      let latencies := (rows.filter (·.status ≠ 0)).map (·.latencyMs)
      let lastMinute := rows.countP fun a => completedAt a ≥ now - MINUTE_MS
      { window := ⟨rows.length, at'.foldl earlier none, at'.foldl later none⟩
        byStatus := statusCounts rows
        shedding := rows.countP (·.status = 503)
        chaosEvents := attempts.countP isChaosEvent
        outcomes := sortBy (outcomeOrder localeCompare) (outcomeCounts rows)
        latencyMs :=
          { p50 := percentile toDouble latencies (1 / 2)
            p95 := percentile toDouble latencies (toDouble (95 / 100))
            max := percentile toDouble latencies 1
            samples := latencies.length }
        byEndpoint := sortBy (endpointOrder localeCompare) (endpointCounts rows)
        throughputLast60s := ⟨lastMinute, perSec lastMinute⟩ } := by
  have h := Running.totals_foldl now attempts
  unfold summarise
  simp only [h.counted, h.chaosEvents, h.byStatus, h.byEndpoint, h.outcomes, h.latencies, h.fromAt,
    h.toAt, h.lastMinute, h.shedding]
  rfl

section Figures

variable {attempts attempts' rows rows' : List Attempt}

theorem statusCounts_perm (h : rows.Perm rows') : statusCounts rows = statusCounts rows' := by
  have := transCmp_comap (compare (α := Nat)) (Prod.fst (α := Nat) (β := Nat))
  refine sortBy_eq_of_perm (fun a ha b hb heq => ?_) (JsMap.counts_perm (h.map _))
  exact JsMap.eq_of_key _ ha hb (Nat.compare_eq_eq.mp heq)

theorem endpointCounts_perm (h : rows.Perm rows') :
    (endpointCounts rows).Perm (endpointCounts rows') :=
  (JsMap.counts_perm (h.map _)).map _

theorem outcomeCounts_perm (h : rows.Perm rows') :
    (outcomeCounts rows).Perm (outcomeCounts rows') :=
  ((JsMap.counts_perm (h.filterMap _)).map _).map _

/-- An endpoint that is listed was called, and is listed once. -/
theorem endpointCounts_endpoint {a b : EndpointCount} (ha : a ∈ endpointCounts rows)
    (hb : b ∈ endpointCounts rows) :
    (∃ row ∈ rows, endpointOf row = a.endpoint) ∧ (a.endpoint = b.endpoint → a = b) := by
  obtain ⟨e, he, rfl⟩ := List.mem_map.mp ha
  obtain ⟨e', he', rfl⟩ := List.mem_map.mp hb
  refine ⟨List.mem_map.mp (JsMap.mem_of_mem_counts he), fun heq => ?_⟩
  rw [JsMap.eq_of_key _ he he' heq]

/-- An outcome is listed once. -/
theorem outcomeCounts_key {a b : OutcomeCount} (ha : a ∈ outcomeCounts rows)
    (hb : b ∈ outcomeCounts rows) (hexpected : a.expected = b.expected)
    (hactual : a.actual = b.actual) : a = b := by
  rw [outcomeCounts, Running.outcomesOf, JsMap.rekey, List.map_map] at ha hb
  obtain ⟨e, he, rfl⟩ := List.mem_map.mp ha
  obtain ⟨e', he', rfl⟩ := List.mem_map.mp hb
  rw [JsMap.eq_of_key _ he he' (Prod.ext hexpected hactual)]

section Perm

variable {localeCompare : String → String → Ordering} [Std.TransCmp localeCompare]
  (hsep : Separates localeCompare attempts) (h : attempts.Perm attempts')
include hsep h

theorem sortBy_endpointCounts_perm :
    sortBy (endpointOrder localeCompare) (endpointCounts (calls attempts')) =
      sortBy (endpointOrder localeCompare) (endpointCounts (calls attempts)) := by
  have := transCmp_endpointOrder localeCompare
  symm
  refine sortBy_eq_of_perm (fun a ha b hb heq => ?_) (endpointCounts_perm (h.filter _))
  obtain ⟨⟨row, hrow, hend⟩, hone⟩ := endpointCounts_endpoint ha hb
  obtain ⟨⟨row', hrow', hend'⟩, -⟩ := endpointCounts_endpoint hb ha
  obtain ⟨-, heq⟩ := Ordering.then_eq_eq.mp heq
  apply hone
  rw [← hend, ← hend'] at heq ⊢
  exact hsep.endpoints row (List.mem_of_mem_filter hrow) row' (List.mem_of_mem_filter hrow') heq

theorem sortBy_outcomeCounts_perm :
    sortBy (outcomeOrder localeCompare) (outcomeCounts (calls attempts')) =
      sortBy (outcomeOrder localeCompare) (outcomeCounts (calls attempts)) := by
  have := transCmp_outcomeOrder localeCompare
  symm
  refine sortBy_eq_of_perm (fun a ha b hb heq => ?_) (outcomeCounts_perm (h.filter _))
  obtain ⟨hexpected, hactual⟩ := Ordering.then_eq_eq.mp heq
  exact outcomeCounts_key ha hb (hsep.expectations _ _ hexpected) (hsep.actuals _ _ hactual)

/-- **The figures do not depend on the order of the rows.** -/
theorem summarise_perm (now : Int) :
    summarise localeCompare attempts' now = summarise localeCompare attempts now := by
  have hcalls : (calls attempts).Perm (calls attempts') := h.filter _
  have hlat := fun f => percentile_perm toDouble ((hcalls.filter (·.status ≠ 0)).map
    (·.latencyMs)) f
  have hat := hcalls.map fun a => toISOString a.sentAt
  have hfrom := hat.foldl_eq' (f := earlier) (fun a _ b _ seen => foremost_comm seen a b) none
  have hto := hat.foldl_eq' (f := later) (fun a _ b _ seen => foremost_comm seen a b) none
  rw [summarise_eq, summarise_eq]
  simp only [sortBy_endpointCounts_perm hsep h, sortBy_outcomeCounts_perm hsep h, hlat, hfrom, hto,
    statusCounts_perm hcalls, hcalls.countP_eq, h.countP_eq, hcalls.length_eq, List.length_map,
    (hcalls.filter _).length_eq]

end Perm

end Figures

/-! ### Sums -/

/-- The counter of a status. -/
def Summary.statusCount (summary : Summary) (status : Nat) : Nat :=
  (JsMap.lookup status summary.byStatus).getD 0

/-- Every row is counted once in every figure it belongs to. -/
structure CountsOnce (attempts : List Attempt) (summary : Summary) : Prop where
  rows : summary.window.attempts + summary.chaosEvents = attempts.length
  byStatus : (summary.byStatus.map Prod.snd).sum = summary.window.attempts
  byEndpoint : (summary.byEndpoint.map (·.count)).sum = summary.window.attempts
  statusCount : ∀ status, summary.statusCount status =
    attempts.countP fun a => !isChaosEvent a && a.status = status
  samples : summary.latencyMs.samples + summary.statusCount 0 = summary.window.attempts
  shedding : summary.shedding = summary.statusCount 503
  outcomes : (summary.outcomes.map (·.count)).sum =
    attempts.countP fun a => !isChaosEvent a && a.expected.isSome
  p50_le_p95 : summary.latencyMs.p50 ≤ summary.latencyMs.p95
  p95_le_max : summary.latencyMs.p95 ≤ summary.latencyMs.max

theorem countP_calls (p : Attempt → Bool) (attempts : List Attempt) :
    (calls attempts).countP p = attempts.countP fun a => !isChaosEvent a && p a := by
  rw [calls, List.countP_filter]
  exact List.countP_congr fun a _ => by simp [and_comm]

section Sums

variable (rows : List Attempt)

theorem sum_statusCounts : ((statusCounts rows).map Prod.snd).sum = rows.length := by
  rw [statusCounts, ((sortBy_perm _ _).map _).sum_eq, JsMap.sum_counts, List.length_map]

theorem lookup_statusCounts (status : Nat) :
    (JsMap.lookup status (statusCounts rows)).getD 0 = rows.countP (·.status = status) := by
  rw [statusCounts, JsMap.lookup_perm _ (sortBy_perm _ _), JsMap.getD_counts, List.count,
    List.countP_map]
  exact List.countP_congr fun a _ => by simp

theorem sum_endpointCounts (cmp : EndpointCount → EndpointCount → Ordering) :
    ((sortBy cmp (endpointCounts rows)).map (·.count)).sum = rows.length := by
  rw [((sortBy_perm _ _).map _).sum_eq, endpointCounts, List.map_map]
  exact (JsMap.sum_counts _).trans (List.length_map _)

theorem sum_outcomeCounts (cmp : OutcomeCount → OutcomeCount → Ordering) :
    ((sortBy cmp (outcomeCounts rows)).map (·.count)).sum =
      rows.countP fun a => a.expected.isSome := by
  have hlen : ∀ rows : List Attempt,
      (rows.filterMap outcomeOf).length = rows.countP fun a => a.expected.isSome := by
    intro rows
    induction rows with
    | nil => rfl
    | cons a rows ih => cases hexp : a.expected <;> simp [outcomeOf, hexp, ih]
  rw [((sortBy_perm _ _).map _).sum_eq, outcomeCounts, Running.outcomesOf, JsMap.rekey,
    List.map_map, List.map_map]
  exact (JsMap.sum_counts _).trans (hlen rows)

end Sums

/-- **Every row is counted once.** -/
theorem summarise_countsOnce (localeCompare : String → String → Ordering)
    (attempts : List Attempt) (now : Int) :
    CountsOnce attempts (summarise localeCompare attempts now) := by
  rw [summarise_eq]
  have hstatus := lookup_statusCounts (calls attempts)
  constructor
  case rows =>
    show (calls attempts).length + attempts.countP isChaosEvent = _
    rw [calls, ← List.countP_eq_length_filter, add_comm,
      List.length_eq_countP_add_countP isChaosEvent]
    simp
  case byStatus => exact sum_statusCounts _
  case byEndpoint => exact sum_endpointCounts _ _
  case statusCount => exact fun status => (hstatus status).trans (countP_calls _ _)
  case samples =>
    show (((calls attempts).filter (·.status ≠ 0)).map _).length +
      (JsMap.lookup 0 (statusCounts (calls attempts))).getD 0 = (calls attempts).length
    rw [hstatus, List.length_map, ← List.countP_eq_length_filter, add_comm,
      List.length_eq_countP_add_countP (·.status = 0)]
    congr 1
    exact List.countP_congr fun a _ => by simp
  case shedding => exact (hstatus 503).symm
  case outcomes => exact (sum_outcomeCounts _ _).trans (countP_calls _ _)
  case p50_le_p95 =>
    refine rounds_toDouble.percentile_mono _ ?_
    calc (1 / 2 : ℚ) = toDouble (1 / 2) :=
          (toDouble_eq_self (k := 1) (n := 1) (by norm_num) (by norm_num)).symm
      _ ≤ toDouble (95 / 100) := toDouble_mono (by norm_num) (by norm_num)
  case p95_le_max =>
    have hle := toDouble_le (x := 95 / 100) (n := 1) (by norm_num) (by norm_num)
    exact rounds_toDouble.percentile_mono _ (by exact_mod_cast hle)

/-- **The statistics count every call once, and do not depend on the order of the rows**, where the
    comparison of texts is an order that tells the texts of the rows apart. -/
theorem statistics_exact {localeCompare : String → String → Ordering} [Std.TransCmp localeCompare]
    {attempts : List Attempt} (hsep : Separates localeCompare attempts) (now : Int) :
    CountsOnce attempts (summarise localeCompare attempts now) ∧
      ∀ attempts', attempts.Perm attempts' →
        summarise localeCompare attempts' now = summarise localeCompare attempts now :=
  ⟨summarise_countsOnce localeCompare attempts now, fun _ h => summarise_perm hsep h now⟩

/-- A comparison that tells all texts apart tells those of any rows apart. -/
theorem separates_compare (attempts : List Attempt) : Separates compare attempts where
  endpoints _ _ _ _ h := Std.LawfulEqOrd.eq_of_compare h
  expectations _ _ h := Expectation.text_injective (Std.LawfulEqOrd.eq_of_compare h)
  actuals _ _ h := actualText_injective (Std.LawfulEqOrd.eq_of_compare h)

/-- A placement that was filled as expected, one that never answered, and a row about chaos. -/
def threeRows : List Attempt :=
  let row : Attempt :=
    { id := 1
      sentAt := 1000
      method := "POST"
      path := "/orders"
      latencyMs := 30
      status := 201
      ok := true
      sent := none
      body := none
      expected := some .FILLED
      actual := some .FILLED
      orderId := some 7
      idempotencyKey := none
      chaos := none }
  [row, { row with id := 2, status := 0, ok := false, actual := none },
    { row with id := 3, path := "chaos:db_pause" }]

theorem statistics_exact_threeRows :
    CountsOnce threeRows (summarise compare threeRows 5000) ∧
      summarise compare threeRows.reverse 5000 = summarise compare threeRows 5000 ∧
      (summarise compare threeRows 5000).byStatus = [(0, 1), (201, 1)] := by
  obtain ⟨hcounts, hperm⟩ := statistics_exact (separates_compare threeRows) 5000
  exact ⟨hcounts, hperm _ threeRows.reverse_perm.symm, by decide +kernel⟩

end Cocos.Tools
