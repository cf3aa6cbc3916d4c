import Cocos.Lib.Records
import Cocos.Tools.Stats

namespace Cocos.Tools

open Cocos.Lib

/-!
# Instants as texts

The harness keeps its instants as the texts of `toISOString`, and compares the texts:
`tools/src/backoffice/stats.ts` takes the first and the last of them for the window of a page.

* `daysTo`, `civil_spec` — the calendar: the day a month begins on, and the month of a day;
* `fields`, `fields_lt` — the seven numbers of an instant, which sort as the instants do;
* `toISOString_eq` — in the years of four digits the text is the record of these numbers;
* `toISOString_lt_iff` — **such texts sort as their instants do**;
* `window_chronological` — **the window of a page is from its first call to its last**.
-/

/-! ### The calendar -/

/-- The days before a year, of years that begin in March. -/
def daysBefore (year : Int) : Int := 365 * year + year / 4 - year / 100 + year / 400

/-- The calendar repeats itself every four hundred years. -/
theorem daysBefore_add_era (year era : Int) :
    daysBefore (year + era * 400) = daysBefore year + 146097 * era := by
  simp only [daysBefore]
  omega

theorem daysBefore_succ_le (year : Int) : daysBefore (year + 1) ≤ daysBefore year + 366 := by
  have hfourth : (year + 1) / 4 ≤ year / 4 + 1 := by omega
  have hhundredth : (year + 1) / 400 + year / 100 ≤ year / 400 + (year + 1) / 100 := by omega
  simp only [daysBefore]
  omega

/-- The days before a month, from the beginning of 1970; the months are counted from that of year
    zero. -/
def daysTo (month : Int) : Int :=
  daysBefore ((month - 2) / 12) + (153 * ((month - 2) % 12) + 2) / 5 - 719468

theorem daysTo_lt_succ (month : Int) : daysTo month < daysTo (month + 1) := by
  simp only [daysTo, daysBefore]
  omega

/-- A month begins later than those before it. -/
theorem daysTo_mono {a b : Int} (h : a ≤ b) : daysTo a ≤ daysTo b := by
  obtain ⟨n, rfl⟩ := Int.le.dest h
  induction n with
  | zero => simp
  | succ n ih =>
    have hsucc := daysTo_lt_succ (a + n)
    rw [Nat.cast_succ, ← Int.add_assoc]
    exact (ih (Int.le_add_of_nonneg_right (Int.natCast_nonneg n))).trans hsucc.le

/-- A day of a century lies in a year of it. -/
theorem year_of_century {century day year : Int} (hday : 0 ≤ day) (hday' : day ≤ 36523)
    (hcentury : 0 ≤ century) (hcentury' : century ≤ 3)
    (hyear : year = (day - (24 * century + day) / 1460) / 365) :
    365 * year + year / 4 ≤ day ∧ 0 ≤ year ∧ year < 100 ∧
      (year < 99 → day < 365 * (year + 1) + (year + 1) / 4) := by
  have hleaps : (24 * century + day) / 1460 = year / 4 ∨
      (24 * century + day) / 1460 = year / 4 + 1 := by omega
  rcases hleaps with hleaps | hleaps
  · omega
  · omega

/-- A day of four centuries lies in a year of them. -/
theorem year_of_era {day year : Int} (hday : 0 ≤ day) (hday' : day < 146097)
    (hyear : year = (day - day / 1460 + day / 36524 - day / 146096) / 365) :
    daysBefore year ≤ day ∧ 0 ≤ year ∧ year < 400 ∧ day < daysBefore (year + 1) := by
  unfold daysBefore
  rcases Int.lt_or_eq_of_le (Int.le_sub_one_of_lt hday') with hlt | rfl
  · obtain ⟨c, r, hsplit, hr, hr', hc, hc'⟩ : ∃ c r : Int, day = 36524 * c + r ∧ 0 ≤ r ∧
        r ≤ 36523 ∧ 0 ≤ c ∧ c ≤ 3 :=
      ⟨day / 36524, day % 36524, by omega, by omega, by omega, by omega, by omega⟩
    have hleaps : day / 1460 = 25 * c + (24 * c + r) / 1460 := by omega
    have hcenturies : day / 36524 = c := by omega
    have hlast : day / 146096 = 0 := by omega
    have hyear' : year = 100 * c + (r - (24 * c + r) / 1460) / 365 := by
      rw [hyear, hleaps, hcenturies, hlast]
      omega
    obtain ⟨hle, hnonneg, hlt', hnext⟩ := year_of_century hr hr' hc hc' rfl
    generalize (r - (24 * c + r) / 1460) / 365 = y at *
    have hfourth : year / 4 = 25 * c + y / 4 := by omega
    have hhundredth : year / 100 = c := by omega
    refine ⟨by omega, by omega, by omega, ?_⟩
    by_cases hy : y < 99
    · have hday := hnext hy
      have hfourth' : (year + 1) / 4 = 25 * c + (y + 1) / 4 := by omega
      have hhundredth' : (year + 1) / 100 = c := by omega
      omega
    · have hfourth' : (year + 1) / 4 = 25 * c + 25 := by omega
      have hhundredth' : (year + 1) / 100 = c + 1 := by omega
      omega
  -- the last day of the four hundred years
  · subst hyear
    decide

/-- The month of a day of a year that begins in March, and the day in it. -/
theorem month_of_day {day month : Int} (hday : 0 ≤ day) (hday' : day ≤ 365)
    (hmonth : month = (5 * day + 2) / 153) :
    0 ≤ month ∧ month ≤ 11 ∧ (153 * month + 2) / 5 ≤ day ∧ day < (153 * month + 2) / 5 + 31 ∧
      (month < 11 → day < (153 * (month + 1) + 2) / 5) := by
  omega

/-- **The month of a day**, and the day in it. -/
theorem civil_spec (days : Int) : ∃ year month day, civil days = (year, month, day) ∧
    1 ≤ month ∧ month ≤ 12 ∧ 1 ≤ day ∧ day ≤ 31 ∧
    days = daysTo (12 * year + month - 1) + (day - 1) ∧ days < daysTo (12 * year + month) := by
  obtain ⟨era, doe, hdays, hdoe, hdoe'⟩ : ∃ era doe : Int, days + 719468 = 146097 * era + doe ∧
      0 ≤ doe ∧ doe < 146097 :=
    ⟨(days + 719468) / 146097, (days + 719468) % 146097, by omega, by omega, by omega⟩
  obtain ⟨yoe, hyoe⟩ : ∃ yoe, yoe = (doe - doe / 1460 + doe / 36524 - doe / 146096) / 365 :=
    ⟨_, rfl⟩
  obtain ⟨hle, hnonneg, hlt, hnext⟩ := year_of_era hdoe hdoe' hyoe
  have hlength := daysBefore_succ_le yoe
  obtain ⟨doy, hdoy⟩ : ∃ doy, doy = doe - daysBefore yoe := ⟨_, rfl⟩
  obtain ⟨mp, hmp⟩ : ∃ mp, mp = (5 * doy + 2) / 153 := ⟨_, rfl⟩
  obtain ⟨hmp0, hmp11, hfrom, hto, hwithin⟩ :=
    month_of_day (show 0 ≤ doy by omega) (show doy ≤ 365 by omega) hmp
  have hera : (days + 719468) / 146097 = era := by omega
  have hmod : (days + 719468) % 146097 = doe := by omega
  have hdoy' : doe - (365 * yoe + yoe / 4 - yoe / 100) = doy := by
    rw [hdoy, daysBefore]
    omega
  have hcivil : civil days = (yoe + era * 400 + if (if mp < 10 then mp + 3 else mp - 9) ≤ 2 then 1
      else 0, if mp < 10 then mp + 3 else mp - 9, doy - (153 * mp + 2) / 5 + 1) := by
    simp only [civil, hera, hmod, ← hyoe, hdoy', ← hmp]
  -- a month is a year that begins in March, and a month of it
  have hindex : ∀ year month, daysTo (12 * year + month + 2) =
      daysBefore (year + month / 12) + (153 * (month % 12) + 2) / 5 - 719468 := fun year month => by
    have hyear : (12 * year + month + 2 - 2) / 12 = year + month / 12 := by omega
    have hmonth : (12 * year + month + 2 - 2) % 12 = month % 12 := by omega
    rw [daysTo, hyear, hmonth]
  have hfirst : daysTo (12 * (yoe + era * 400) + mp + 2) =
      daysBefore yoe + 146097 * era + (153 * mp + 2) / 5 - 719468 := by
    have hzero : mp / 12 = 0 := by omega
    have hsame : mp % 12 = mp := by omega
    rw [hindex, hzero, hsame, Int.add_zero, daysBefore_add_era]
  have hsecond : days < daysTo (12 * (yoe + era * 400) + (mp + 1) + 2) := by
    rw [hindex]
    by_cases hlast : mp < 11
    · have hzero : (mp + 1) / 12 = 0 := by omega
      have hsame : (mp + 1) % 12 = mp + 1 := by omega
      have hday := hwithin hlast
      rw [hzero, hsame, Int.add_zero, daysBefore_add_era]
      omega
    · obtain rfl : mp = 11 := by omega
      have hyear : yoe + era * 400 + (11 + 1) / 12 = yoe + 1 + era * 400 := by omega
      rw [hyear, daysBefore_add_era]
      omega
  by_cases hspring : mp < 10
  · have hjanuary : ¬mp + 3 ≤ 2 := by omega
    rw [if_pos hspring, if_neg hjanuary, Int.add_zero] at hcivil
    have hthis : 12 * (yoe + era * 400) + (mp + 3) - 1 = 12 * (yoe + era * 400) + mp + 2 := by
      omega
    have hnext' : 12 * (yoe + era * 400) + (mp + 3) = 12 * (yoe + era * 400) + (mp + 1) + 2 := by
      omega
    refine ⟨_, _, _, hcivil, by omega, by omega, by omega, by omega, ?_, ?_⟩
    · rw [hthis, hfirst]
      omega
    · rwa [hnext']
  · have hjanuary : mp - 9 ≤ 2 := by omega
    rw [if_neg hspring, if_pos hjanuary] at hcivil
    have hthis : 12 * (yoe + era * 400 + 1) + (mp - 9) - 1 = 12 * (yoe + era * 400) + mp + 2 := by
      omega
    have hnext' : 12 * (yoe + era * 400 + 1) + (mp - 9) =
        12 * (yoe + era * 400) + (mp + 1) + 2 := by omega
    refine ⟨_, _, _, hcivil, by omega, by omega, by omega, by omega, ?_, ?_⟩
    · rw [hthis, hfirst]
      omega
    · rwa [hnext']

/-- **Later days have later dates.** -/
theorem civil_lt {a b : Int} (h : a < b) :
    (civil a).1 < (civil b).1 ∨ (civil a).1 = (civil b).1 ∧
      ((civil a).2.1 < (civil b).2.1 ∨ (civil a).2.1 = (civil b).2.1 ∧
        (civil a).2.2 < (civil b).2.2) := by
  obtain ⟨year, month, day, ha, hmonth, hmonth', hfirst, -, hday, hend⟩ := civil_spec a
  obtain ⟨year', month', day', hb, hmonth₁, hmonth₁', -, -, hday₁, hend₁⟩ := civil_spec b
  simp only [ha, hb]
  rcases Int.lt_trichotomy (12 * year + month) (12 * year' + month') with hlt | heq | hgt
  · omega
  · obtain rfl : year = year' := by omega
    obtain rfl : month = month' := by omega
    omega
  · -- a later month would begin after the end of the other
    have hbegins : daysTo (12 * year' + month') ≤ daysTo (12 * year + month - 1) :=
      daysTo_mono (by omega)
    omega

/-! ### The fields of an instant -/

/-- The instants of the years of four digits. -/
def FourDigits (ms : Int) : Prop := -62167219200000 ≤ ms ∧ ms < 253402300800000

instance (ms : Int) : Decidable (FourDigits ms) := inferInstanceAs (Decidable (_ ∧ _))

/-- What is written of an instant: the date, and the time of the day. -/
def fields (ms : Int) : List Nat :=
  let (year, month, day) := civil (ms / 86400000)
  let inDay := (ms % 86400000).toNat
  [year.toNat, month.toNat, day.toNat, inDay / 3600000, inDay / 60000 % 60, inDay / 1000 % 60,
    inDay % 1000]

/-- How it is written. -/
def isoForm : List (Nat × List Char) :=
  [(4, ['-']), (2, ['-']), (2, ['T']), (2, [':']), (2, [':']), (2, ['.']), (3, ['Z'])]

variable {ms ms' : Int}

/-- The years are those of four digits. -/
theorem FourDigits.year (h : FourDigits ms) :
    0 ≤ (civil (ms / 86400000)).1 ∧ (civil (ms / 86400000)).1 ≤ 9999 := by
  obtain ⟨hfrom, hto⟩ := h
  obtain ⟨year, month, day, hcivil, hmonth, hmonth', hday, -, hdays, hend⟩ :=
    civil_spec (ms / 86400000)
  rw [hcivil]
  refine ⟨Int.not_lt.mp fun hneg => ?_, Int.not_lt.mp fun hmore => ?_⟩
  · have hbefore : daysTo (12 * year + month) ≤ daysTo 0 := daysTo_mono (by omega)
    have hzero : daysTo 0 = -719528 := by decide
    omega
  · have hafter : daysTo 120000 ≤ daysTo (12 * year + month - 1) := daysTo_mono (by omega)
    have hlast : daysTo 120000 = 2932897 := by decide
    omega

theorem FourDigits.fits (h : FourDigits ms) : Fits isoForm (fields ms) := by
  obtain ⟨hyear, hyear'⟩ := h.year
  obtain ⟨year, month, day, hcivil, hmonth, hmonth', hday, hday', -⟩ := civil_spec (ms / 86400000)
  rw [hcivil] at hyear hyear'
  simp only [Fits, isoForm, fields, hcivil, List.forall₂_cons, List.forall₂_nil_left_iff, and_true]
  omega

/-- **The text of an instant is the record of its fields.** -/
theorem toISOString_eq (h : FourDigits ms) :
    toISOString ms = String.ofList (record isoForm (fields ms)) := by
  obtain ⟨hyear, hyear'⟩ := h.year
  apply String.toList_inj.mp
  rw [String.toList_ofList]
  simp only [toISOString, fields, if_neg (Int.not_lt.mpr hyear), if_neg (Int.not_lt.mpr hyear')]
  simp [padded, record, isoForm, fixed, digits]

/-- **The fields of instants sort as the instants do.** -/
theorem fields_lt (h : FourDigits ms) (hlt : ms < ms') : fields ms < fields ms' := by
  obtain ⟨hyear, -⟩ := h.year
  obtain ⟨year, month, day, ha, hmonth, -, hday, -⟩ := civil_spec (ms / 86400000)
  obtain ⟨year', month', day', hb, hmonth', -, hday', -⟩ := civil_spec (ms' / 86400000)
  rcases Int.lt_or_eq_of_le (Int.ediv_le_ediv (by decide : (0 : Int) < 86400000) hlt.le)
    with hdays | hdays
  · have hcivil := civil_lt hdays
    simp only [ha, hb] at hcivil hyear
    simp only [fields, ha, hb, List.cons_lt_cons_iff]
    omega
  -- on one day the time of the day decides
  · obtain ⟨n, hn⟩ : ∃ n, n = (ms % 86400000).toNat := ⟨_, rfl⟩
    obtain ⟨m, hm⟩ : ∃ m, m = (ms' % 86400000).toNat := ⟨_, rfl⟩
    have hless : n < m := by omega
    simp only [fields, hdays, ← hn, ← hm, List.cons_lt_cons_iff, Nat.lt_irrefl, false_or, true_and,
      List.not_lt_nil, and_false, or_false]
    omega

/-- **The texts of instants sort as the instants do.** -/
theorem toISOString_lt_iff (h : FourDigits ms) (h' : FourDigits ms') :
    toISOString ms < toISOString ms' ↔ ms < ms' := by
  rw [toISOString_eq h, toISOString_eq h', String.lt_iff_toList_lt, String.toList_ofList,
    String.toList_ofList, record_lt_record_iff h.fits h'.fits]
  refine ⟨fun hlt => ?_, fields_lt h⟩
  rcases Int.lt_trichotomy ms ms' with hless | rfl | hmore
  · exact hless
  · exact absurd hlt (List.lt_irrefl _)
  · exact absurd (List.lt_trans hlt (fields_lt h' hmore)) (List.lt_irrefl _)

/-! ### The window of a page -/

/-- What is kept of some instants, of which the earlier or the later is: it is one of them, and none
    is before it. -/
theorem foldl_foremost (before : String → String → Prop) [DecidableRel before]
    (ahead : Int → Int → Prop) [DecidableRel ahead] [IsStrictTotalOrder Int ahead]
    (hahead : ∀ {ms ms'}, FourDigits ms → FourDigits ms' →
      (before (toISOString ms) (toISOString ms') ↔ ahead ms ms'))
    {instants : List Int} (hall : ∀ ms ∈ instants, FourDigits ms) (hne : instants ≠ []) :
    ∃ ms ∈ instants, (instants.map toISOString).foldl (foremost before) none =
      some (toISOString ms) ∧ ∀ ms' ∈ instants, ¬ahead ms' ms := by
  induction instants using List.reverseRecOn with
  | nil => exact absurd rfl hne
  | append_singleton instants last ih =>
    have hlast := hall last (List.mem_append_right _ (List.mem_singleton_self _))
    have hall := fun ms hms => hall ms (List.mem_append_left _ hms)
    rw [List.map_append, List.foldl_append]
    by_cases hnil : instants = []
    · subst hnil
      refine ⟨last, List.mem_singleton_self _, rfl, fun ms' hms' => ?_⟩
      rw [List.mem_singleton.mp hms']
      exact irrefl_of ahead last
    · obtain ⟨ms, hms, hkept, hfirst⟩ := ih hall hnil
      rw [hkept]
      show ∃ _, _ ∧ (if before _ _ then _ else _) = _ ∧ _
      by_cases hbefore : ahead last ms
      · refine ⟨last, List.mem_append_right _ (List.mem_singleton_self _),
          if_pos ((hahead hlast (hall ms hms)).mpr hbefore), fun ms' hms' => ?_⟩
        rcases List.mem_append.mp hms' with hms' | hms'
        · exact fun hless => hfirst ms' hms' (trans_of ahead hless hbefore)
        · rw [List.mem_singleton.mp hms']
          exact irrefl_of ahead last
      · refine ⟨ms, List.mem_append_left _ hms,
          if_neg fun h => hbefore ((hahead hlast (hall ms hms)).mp h), fun ms' hms' => ?_⟩
        rcases List.mem_append.mp hms' with hms' | hms'
        · exact hfirst ms' hms'
        · rwa [List.mem_singleton.mp hms']

/-- The window is from the first of the calls to the last, and there is none without a call. -/
def SummaryWindow.IsFrom (window : SummaryWindow) (rows : List Attempt) : Prop :=
  (rows = [] → window.fromAt = none ∧ window.toAt = none) ∧
    (rows ≠ [] → ∃ first ∈ rows, ∃ last ∈ rows,
      window.fromAt = some (toISOString first.sentAt) ∧
      window.toAt = some (toISOString last.sentAt) ∧
      ∀ row ∈ rows, first.sentAt ≤ row.sentAt ∧ row.sentAt ≤ last.sentAt)

/-- **The window of a page is from its first call to its last**, whatever order the rows are in and
    whatever the rows about chaos say. -/
theorem window_chronological (localeCompare : String → String → Ordering)
    {attempts : List Attempt} (now : Int)
    (hyears : ∀ row ∈ calls attempts, FourDigits row.sentAt) :
    (summarise localeCompare attempts now).window.IsFrom (calls attempts) := by
  rw [summarise_eq]
  refine ⟨fun hnil => ?_, fun hne => ?_⟩
  · simp [hnil]
  · have hall : ∀ ms ∈ (calls attempts).map (·.sentAt), FourDigits ms :=
      List.forall_mem_map.mpr hyears
    have hne' : (calls attempts).map (·.sentAt) ≠ [] := List.map_eq_nil_iff.not.mpr hne
    obtain ⟨_, hmem, hfrom, hearliest⟩ :=
      foldl_foremost (· < ·) (· < ·) toISOString_lt_iff hall hne'
    obtain ⟨first, hfirst, rfl⟩ := List.mem_map.mp hmem
    obtain ⟨_, hmem, hto, hlatest⟩ :=
      foldl_foremost (· > ·) (· > ·) (fun h h' => toISOString_lt_iff h' h) hall hne'
    obtain ⟨last, hlast, rfl⟩ := List.mem_map.mp hmem
    rw [List.map_map] at hfrom hto
    refine ⟨first, hfirst, last, hlast, hfrom, hto, fun row hrow => ?_⟩
    have hsent := List.mem_map_of_mem (f := (·.sentAt)) hrow
    exact ⟨Int.not_lt.mp (hearliest _ hsent), Int.not_lt.mp (hlatest _ hsent)⟩

/-- Two calls and a row about chaos, the later call recorded first. -/
def lateRowFirst : List Attempt := threeRows.map fun a => { a with sentAt := 5000 - 1000 * a.id }

theorem window_chronological_lateRowFirst :
    (summarise compare lateRowFirst 5000).window.IsFrom (calls lateRowFirst) ∧
      (summarise compare lateRowFirst 5000).window.fromAt = some "1970-01-01T00:00:03.000Z" :=
  ⟨window_chronological compare 5000 (by decide +kernel), by decide +kernel⟩

end Cocos.Tools
