import Cocos.Lib.JsMap
import Cocos.Lib.Lists
import Cocos.Tools.Folds

namespace Cocos.Tools

open Cocos.Lib

/-!
# The invariants of a load run

`tools/src/load/invariants.ts`: what a load run asks of the rows it reads back.

* `verdict`, `Line` — a check of many lines, and what is said of it: it passes where no line is
  a breach;
* `byUser` — the rows of each user, in the order of the list (`mem_byUser`);
* `conservation` — the balance the API answers with, the fold of the rows, and the shadow;
* `noOverdraft`, `noOversell` — folds that must not go down too far, and when they do not
  (`noOverdraft_passes_iff`, `noOversell_pass_iff`);
* `responseDbAgreement` — the answers of the run and the rows, both ways.

A check that throws is `none`.
-/

/-! ### Verdicts -/

structure InvariantResult where
  name : String
  pass : Bool
  detail : String
deriving DecidableEq, Repr

def REPORTED_BREACHES : Nat := 5

/-- A check with its notes and breaches; the first five of those are named. -/
def verdict (name : String) (notes breaches : List String) : InvariantResult :=
  if breaches = [] then
    let said := "; ".intercalate notes
    ⟨name, true, if said = "" then "nothing to check" else said⟩
  else
    let shown := "; ".intercalate (breaches.take REPORTED_BREACHES)
    ⟨name, false,
      if breaches.length > REPORTED_BREACHES then
        s!"{shown} (and {breaches.length - REPORTED_BREACHES} more)"
      else shown⟩

theorem verdict_pass_iff {name : String} {notes breaches : List String} :
    (verdict name notes breaches).pass = true ↔ breaches = [] := by
  unfold verdict
  split <;> simp_all

/-- What a check says of one user. -/
inductive Line
  | note (text : String)
  | breach (text : String)
deriving DecidableEq, Repr

def Line.note? : Line → Option String
  | .note text => some text
  | .breach _ => none

def Line.breach? : Line → Option String
  | .note _ => none
  | .breach text => some text

/-- The verdict of a check that says something of every user. -/
def verdictOf (name : String) (lines : List Line) : InvariantResult :=
  verdict name (lines.filterMap Line.note?) (lines.filterMap Line.breach?)

theorem verdictOf_pass_iff {name : String} {lines : List Line} :
    (verdictOf name lines).pass = true ↔ ∀ line ∈ lines, line.breach? = none := by
  rw [verdictOf, verdict_pass_iff, List.filterMap_eq_nil_iff]

/-- What a template prints for a value that may be `null`. -/
def nullable {α : Type} [ToString α] : Option α → String
  | some a => toString a
  | none => "null"

/-! ### The rows of each user -/

def byUser (rows : List LedgerRow) : JsMap (Option Int) (List LedgerRow) :=
  rows.foldl (fun grouped row =>
    grouped.set row.userId ((grouped.get? row.userId).getD [] ++ [row])) .empty

theorem get?_byUser (rows : List LedgerRow) (u : Option Int) :
    (byUser rows).get? u =
      if rows.filter (fun row => row.userId = u) = [] then none
      else some (rows.filter fun row => row.userId = u) := by
  induction rows using List.reverseRecOn with
  | nil => rfl
  | append_singleton rows row ih =>
    have hfold : byUser (rows ++ [row]) = (byUser rows).set row.userId
        (((byUser rows).get? row.userId).getD [] ++ [row]) := by
      rw [byUser, List.foldl_append]
      rfl
    rw [hfold, JsMap.get?_set, List.filter_append]
    by_cases hu : row.userId = u
    · subst hu
      rw [if_pos rfl, ih]
      split <;> simp_all
    · rw [if_neg (Ne.symm hu), ih]
      simp [hu]

/-- The users of a table are grouped with their rows, in the order of the list. -/
theorem mem_byUser {rows : List LedgerRow} {u : Option Int} {owned : List LedgerRow} :
    (u, owned) ∈ (byUser rows).entries ↔
      owned = rows.filter (fun row => row.userId = u) ∧ owned ≠ [] := by
  rw [← JsMap.lookup_eq_some_iff (byUser rows).nodup]
  show (byUser rows).get? u = some owned ↔ _
  rw [get?_byUser]
  split
  · rename_i hnil
    rw [hnil]
    simp
  · rename_i hne
    rw [Option.some.injEq]
    constructor
    · rintro rfl
      exact ⟨rfl, hne⟩
    · exact fun h => h.1.symm

/-! ### Conservation -/

/-- A balance the API answered with, or why there is none to compare. -/
inductive CashReading
  | cash (cash : String)
  | unavailable (reason : String)
deriving DecidableEq, Repr

/-- What comes of comparing one user's balances. -/
inductive Conserved
  | unread (u : Option Int) (db reason : String)
  | apiDiffers (u : Option Int) (api db : String)
  | unshadowed (u : Option Int) (api db : String)
  | shadowDiffers (u : Option Int) (db shadow : String)
  | agreed (u : Option Int) (api db shadow : String)
deriving DecidableEq, Repr

def Conserved.line : Conserved → Line
  | .unread u db reason =>
    .note s!"user {nullable u}: the FILLED fold says {db}, API leg not comparable — {reason}"
  | .apiDiffers u api db => .breach s!"user {nullable u}: API says {api}, the FILLED fold says {db}"
  | .unshadowed u api db =>
    .note s!"user {nullable u}: API {api} == fold {db}, shadow leg not comparable"
  | .shadowDiffers u db shadow =>
    .breach s!"user {nullable u}: API and fold agree at {db}, the shadow says {shadow}"
  | .agreed u api db shadow =>
    .note s!"user {nullable u}: API {api} == fold {db} == shadow {shadow}"

/-- One user's balances: the API's, the fold of the rows, the shadow's. -/
def conserve (apiCash : JsMap Int CashReading) (shadowCash : JsMap Int String) (u : Option Int)
    (db : String) : Conserved :=
  match (u.bind apiCash.get?).getD (.unavailable "no API balance was read for this user") with
  | .unavailable reason => .unread u db reason
  | .cash api =>
    if api ≠ db then .apiDiffers u api db
    else
      match u.bind shadowCash.get? with
      | none => .unshadowed u api db
      | some shadow => if shadow ≠ db then .shadowDiffers u db shadow else .agreed u api db shadow

/-- What comes of comparing every user's. -/
def conserved (rows : List LedgerRow) (apiCash : JsMap Int CashReading)
    (shadowCash : JsMap Int String) : Option (List Conserved) :=
  (byUser rows).entries.mapM fun (u, owned) =>
    (cashTotal owned).map fun total => conserve apiCash shadowCash u (moneyOf total)

def conservation (rows : List LedgerRow) (apiCash : JsMap Int CashReading)
    (shadowCash : JsMap Int String) : Option InvariantResult :=
  (conserved rows apiCash shadowCash).map fun outcomes =>
    verdictOf "conservation" (outcomes.map Conserved.line)

/-- The API's balance differs from the fold where it was read and is another. -/
theorem conserve_eq_apiDiffers {apiCash : JsMap Int CashReading} {shadowCash : JsMap Int String}
    {u v : Option Int} {db api db' : String} :
    conserve apiCash shadowCash u db = .apiDiffers v api db' ↔
      v = u ∧ db' = db ∧ u.bind apiCash.get? = some (.cash api) ∧ api ≠ db := by
  unfold conserve
  cases hread : u.bind apiCash.get? with
  | none => simp
  | some reading =>
    cases reading with
    | unavailable reason => simp
    | cash cash =>
      simp only [Option.getD_some]
      split
      · rename_i hne
        simp only [Conserved.apiDiffers.injEq, Option.some.injEq, CashReading.cash.injEq]
        constructor
        · rintro ⟨rfl, rfl, rfl⟩
          exact ⟨rfl, rfl, rfl, hne⟩
        · rintro ⟨rfl, rfl, rfl, -⟩
          exact ⟨rfl, rfl, rfl⟩
      · rename_i heq
        rw [not_not] at heq
        constructor
        · intro h
          split at h
          · cases h
          · split at h <;> cases h
        · rintro ⟨-, -, hcash, hne⟩
          cases hcash
          exact absurd heq hne

/-! ### Overdrafts -/

/-- How far one user's cash has got, and the lowest it has been. -/
structure Dip where
  fold : Int
  low : Int
  lowAt : Int
deriving DecidableEq, Repr

def Dip.add (dip : Dip) (row : LedgerRow) : Option Dip :=
  (cashDelta row).map fun delta =>
    if dip.fold + delta < dip.low then ⟨dip.fold + delta, dip.fold + delta, row.id⟩
    else { dip with fold := dip.fold + delta }

/-- The lowest one user's cash is over its rows. -/
def dipOf (owned : List LedgerRow) : Option Dip := owned.foldlM Dip.add ⟨0, 0, 0⟩

/-- What is said of one user's lowest balance. -/
def overdraftLine (u : Option Int) (owned : List LedgerRow) (dip : Dip) : Line :=
  if dip.low < 0 then
    .breach s!"user {nullable u}: the cash fold reached {moneyOf dip.low} at order {dip.lowAt}"
  else .note s!"user {nullable u}: {owned.length} rows, the cash fold never dipped below 0.00"

/-- The running cash of every user never goes below zero. -/
def noOverdraft (rows : List LedgerRow) : Option InvariantResult :=
  ((byUser rows).entries.mapM fun (u, owned) =>
    (dipOf owned).map (overdraftLine u owned)).map (verdictOf "no_overdraft")

theorem cashTotal_concat (rows : List LedgerRow) (row : LedgerRow) :
    cashTotal (rows ++ [row]) = (cashTotal rows).bind fun total =>
      (cashDelta row).map (total + ·) := by
  rw [cashTotal, List.foldlM_append]
  simp only [List.foldlM_cons, List.foldlM_nil, bind_pure]
  rfl

theorem dipOf_concat (owned : List LedgerRow) (row : LedgerRow) :
    dipOf (owned ++ [row]) = (dipOf owned).bind (Dip.add · row) := by
  rw [dipOf, List.foldlM_append]
  simp only [List.foldlM_cons, List.foldlM_nil, bind_pure]
  rfl

theorem Dip.add_eq_some (dip : Dip) {row : LedgerRow} {delta : Int}
    (h : cashDelta row = some delta) : ∃ lowAt, dip.add row =
      some ⟨dip.fold + delta, min dip.low (dip.fold + delta), lowAt⟩ := by
  rw [Dip.add, h, Option.map_some]
  split
  · exact ⟨row.id, by rw [min_eq_right (by omega)]⟩
  · exact ⟨dip.lowAt, by rw [min_eq_left (by omega)]⟩

/-- A fold that ends got through its first rows. -/
theorem exists_cashTotal_of_append {rows rest : List LedgerRow} {total : Int}
    (h : cashTotal (rows ++ rest) = some total) : ∃ first, cashTotal rows = some first := by
  rw [cashTotal, List.foldlM_append] at h
  obtain ⟨first, hfirst, -⟩ := Option.bind_eq_some_iff.mp h
  exact ⟨first, hfirst⟩

/-- **The dip is the lowest the cash has been**, where the cash can be computed at all. -/
theorem dipOf_spec (owned : List LedgerRow) :
    (cashTotal owned = none → dipOf owned = none) ∧
      ∀ total, cashTotal owned = some total → ∃ dip, dipOf owned = some dip ∧ dip.fold = total ∧
        ∀ x, x ≤ dip.low ↔ x ≤ 0 ∧ ∀ pre row post, owned = pre ++ row :: post →
          ∃ c, cashTotal (pre ++ [row]) = some c ∧ x ≤ c := by
  induction owned using List.reverseRecOn with
  | nil =>
    refine ⟨fun h => (by cases h), fun total h => ⟨_, rfl, ?_, fun x => ?_⟩⟩
    · cases h
      rfl
    · simp
  | append_singleton owned row ih =>
    obtain ⟨hnone, hsome⟩ := ih
    rw [cashTotal_concat, dipOf_concat]
    cases howned : cashTotal owned with
    | none => simp [hnone howned]
    | some before =>
      obtain ⟨dip, hdip, hfold, hlow⟩ := hsome before howned
      rw [hdip, Option.bind_some, Option.bind_some]
      cases hdelta : cashDelta row with
      | none => simp [Dip.add, hdelta]
      | some delta =>
        obtain ⟨lowAt, hadd⟩ := dip.add_eq_some hdelta
        refine ⟨fun h => (by cases h), fun total h => ⟨_, hadd, ?_⟩⟩
        obtain rfl : before + delta = total := Option.some.inj h
        have hlast : cashTotal (owned ++ [row]) = some (before + delta) := by
          rw [cashTotal_concat, howned, hdelta]
          rfl
        refine ⟨congrArg (· + delta) hfold, fun x => ?_⟩
        -- the rows on the way are the ones before, and this one
        have hhere : (∃ c, cashTotal (owned ++ [row]) = some c ∧ x ≤ c) ↔ x ≤ before + delta := by
          simp [hlast]
        rw [forall_concat_eq_append_cons
          (P := fun pre r => ∃ c, cashTotal (pre ++ [r]) = some c ∧ x ≤ c), hhere, ← and_assoc,
          ← hlow, ← hfold]
        exact le_min_iff

/-- **No overdraft is found exactly if no fold on the way is below zero**, and every fold can
    be computed. -/
theorem noOverdraft_passes_iff {rows : List LedgerRow} :
    (∃ result, noOverdraft rows = some result ∧ result.pass = true) ↔
      ∀ u pre row post, (rows.filter fun row => row.userId = u) = pre ++ row :: post →
        ∃ c, cashTotal (pre ++ [row]) = some c ∧ 0 ≤ c := by
  constructor
  · rintro ⟨result, hresult, hpass⟩ u pre row post hsplit
    obtain ⟨lines, hlines, rfl⟩ := Option.map_eq_some_iff.mp hresult
    have hmem : (u, pre ++ row :: post) ∈ (byUser rows).entries :=
      mem_byUser.mpr ⟨hsplit.symm, by simp⟩
    obtain ⟨line, hline, hsaid⟩ := exists_right_of_forall₂ (forall₂_of_mapM_eq_some hlines) hmem
    obtain ⟨dip, hdip, rfl⟩ := Option.map_eq_some_iff.mp hsaid
    have hnote := verdictOf_pass_iff.mp hpass _ hline
    have hlow : 0 ≤ dip.low := by
      by_contra hneg
      rw [overdraftLine, if_pos (by omega)] at hnote
      cases hnote
    cases htotal : cashTotal (pre ++ row :: post) with
    | none => cases hdip.symm.trans ((dipOf_spec _).1 htotal)
    | some total =>
      obtain ⟨dip', hdip', -, hall⟩ := (dipOf_spec _).2 total htotal
      cases hdip.symm.trans hdip'
      exact ((hall 0).mp hlow).2 pre row post rfl
  · intro hall
    have hentry : ∀ entry ∈ (byUser rows).entries, ∃ dip, dipOf entry.2 = some dip ∧
        0 ≤ dip.low := by
      rintro ⟨u, owned⟩ hmem
      obtain ⟨howned, hne⟩ := mem_byUser.mp hmem
      obtain ⟨pre, row, hlast⟩ := List.eq_nil_or_concat owned |>.resolve_left hne
      rw [List.concat_eq_append] at hlast
      obtain ⟨total, htotal, -⟩ := hall u pre row [] (howned ▸ hlast)
      rw [← hlast] at htotal
      obtain ⟨dip, hdip, -, hlow⟩ := (dipOf_spec owned).2 total htotal
      refine ⟨dip, hdip, (hlow 0).mpr ⟨le_rfl, fun pre row post hsplit => ?_⟩⟩
      exact hall u pre row post (howned ▸ hsplit)
    have hlines : ((byUser rows).entries.mapM fun (u, owned) =>
        (dipOf owned).map (overdraftLine u owned)) =
          some ((byUser rows).entries.map fun entry =>
            overdraftLine entry.1 entry.2 ((dipOf entry.2).getD ⟨0, 0, 0⟩)) := by
      apply mapM_eq_some_map
      intro entry hmem
      obtain ⟨dip, hdip, -⟩ := hentry entry hmem
      simp [hdip]
    refine ⟨_, by rw [noOverdraft, hlines]; rfl, verdictOf_pass_iff.mpr fun line hline => ?_⟩
    obtain ⟨entry, hmem, rfl⟩ := List.mem_map.mp hline
    obtain ⟨dip, hdip, hlow⟩ := hentry entry hmem
    rw [hdip, Option.getD_some, overdraftLine, if_neg (by omega)]
    rfl

/-! ### Oversells -/

/-- What is held of a position, and the lowest it was before the run. -/
structure Position where
  fold : Int
  floor : Int
deriving DecidableEq, Repr

structure Oversells where
  folds : JsMap (Option Int × Option Int) Position
  breaches : List String
  counted : Nat

/-- One row: before the run it moves the floor, in the run it is held against it. -/
def Oversells.add (highWaterMark : Int) (s : Oversells) (row : LedgerRow) : Oversells :=
  let key := (row.userId, row.instrumentId)
  let held := (s.folds.get? key).getD ⟨0, 0⟩
  let fold := held.fold + shareDelta row
  if row.id ≤ highWaterMark then
    ⟨s.folds.set key ⟨fold, min held.floor fold⟩, s.breaches, s.counted + 1⟩
  else
    ⟨s.folds.set key ⟨fold, held.floor⟩,
      if fold < held.floor then s.breaches ++
        [s!"user {nullable row.userId} instrument {nullable row.instrumentId}: order {row.id} took the position to {fold}, under its floor of {held.floor}"]
      else s.breaches,
      s.counted + 1⟩

def oversells (rows : List LedgerRow) (highWaterMark : Int) : Oversells :=
  rows.foldl (Oversells.add highWaterMark) ⟨.empty, [], 0⟩

theorem oversells_concat (rows : List LedgerRow) (row : LedgerRow) (highWaterMark : Int) :
    oversells (rows ++ [row]) highWaterMark =
      (oversells rows highWaterMark).add highWaterMark row := by
  rw [oversells, List.foldl_append]
  rfl

/-- No position goes below where the rows before the run had left it. -/
def noOversell (rows : List LedgerRow) (highWaterMark : Int) : InvariantResult :=
  let s := oversells rows highWaterMark
  let floors := s.folds.entries.filterMap fun ((u, i), held) =>
    if held.floor < 0 then some s!"{nullable u}/{nullable i} floor {held.floor}" else none
  verdict "no_oversell"
    (s!"{s.folds.entries.length} positions over {s.counted} rows never went under their pre-run floor"
      :: floors)
    s.breaches

/-- The position a row moves. -/
def LedgerRow.position (row : LedgerRow) : Option Int × Option Int :=
  (row.userId, row.instrumentId)

/-- The shares of a position. -/
def sharesOf (key : Option Int × Option Int) (rows : List LedgerRow) : Int :=
  shareTotal (rows.filter fun row => row.position = key)

theorem sharesOf_concat (key : Option Int × Option Int) (rows : List LedgerRow) (row : LedgerRow) :
    sharesOf key (rows ++ [row]) =
      sharesOf key rows + if row.position = key then shareDelta row else 0 := by
  by_cases hkey : row.position = key <;> simp [sharesOf, shareTotal_eq, hkey]

/-- `x` shares are less than the position has been at in the rows before the run: less than none,
    and less than after each of those rows. -/
def UnderFloor (highWaterMark : Int) (key : Option Int × Option Int) (rows : List LedgerRow)
    (x : Int) : Prop :=
  x < 0 ∧ ∀ pre row post, rows = pre ++ row :: post → row.position = key →
    row.id ≤ highWaterMark → x < sharesOf key (pre ++ [row])

theorem underFloor_concat {highWaterMark : Int} {key : Option Int × Option Int}
    {rows : List LedgerRow} {row : LedgerRow} {x : Int} :
    UnderFloor highWaterMark key (rows ++ [row]) x ↔
      UnderFloor highWaterMark key rows x ∧ (row.position = key → row.id ≤ highWaterMark →
        x < sharesOf key (rows ++ [row])) := by
  unfold UnderFloor
  rw [forall_concat_eq_append_cons (P := fun pre row => row.position = key →
    row.id ≤ highWaterMark → x < sharesOf key (pre ++ [row])), and_assoc]

/-- What is under a floor is under every fold that has got no further than the mark. -/
theorem UnderFloor.lt_sharesOf {highWaterMark : Int} {key : Option Int × Option Int}
    {rows first rest : List LedgerRow} {x : Int} (h : UnderFloor highWaterMark key rows x)
    (hrows : rows = first ++ rest) (hids : ∀ row ∈ first, row.id ≤ highWaterMark) :
    x < sharesOf key first := by
  induction first using List.reverseRecOn generalizing rest with
  | nil => exact h.1
  | append_singleton first row ih =>
    by_cases hkey : row.position = key
    · exact h.2 first row rest (by simpa using hrows) hkey (hids row (by simp))
    -- a row of another position leaves this one where it was
    · rw [sharesOf_concat, if_neg hkey, add_zero]
      have hrows : rows = first ++ row :: rest := by simpa using hrows
      exact ih hrows fun row hrow => hids row (List.mem_append_left _ hrow)

/-- What is kept of a position. -/
def Oversells.position (s : Oversells) (key : Option Int × Option Int) : Position :=
  (s.folds.get? key).getD ⟨0, 0⟩

theorem Oversells.position_add (highWaterMark : Int) (s : Oversells) (row : LedgerRow)
    (key : Option Int × Option Int) :
    (s.add highWaterMark row).position key =
      if row.position = key then
        ⟨(s.position key).fold + shareDelta row,
          if row.id ≤ highWaterMark then
            min (s.position key).floor ((s.position key).fold + shareDelta row)
          else (s.position key).floor⟩
      else s.position key := by
  by_cases hkey : row.position = key
  · subst hkey
    rw [if_pos rfl]
    by_cases hid : row.id ≤ highWaterMark <;>
      simp [Oversells.position, Oversells.add, LedgerRow.position, hid, JsMap.get?_set]
  · rw [if_neg hkey]
    have hne : ¬key = (row.userId, row.instrumentId) := fun h => hkey h.symm
    by_cases hid : row.id ≤ highWaterMark <;>
      simp [Oversells.position, Oversells.add, hid, JsMap.get?_set, hne]

/-- **What is kept of a position**: its shares, and the lowest they were before the run. -/
theorem position_oversells (rows : List LedgerRow) (highWaterMark : Int)
    (key : Option Int × Option Int) :
    ((oversells rows highWaterMark).position key).fold = sharesOf key rows ∧
      ∀ x, x < ((oversells rows highWaterMark).position key).floor ↔
        UnderFloor highWaterMark key rows x := by
  induction rows using List.reverseRecOn with
  | nil =>
    refine ⟨rfl, fun x => ?_⟩
    show x < 0 ↔ _
    simp [UnderFloor]
  | append_singleton rows row ih =>
    obtain ⟨hfold, hfloor⟩ := ih
    rw [oversells_concat, Oversells.position_add]
    simp only [underFloor_concat, sharesOf_concat, ← hfloor, ← hfold]
    by_cases hkey : row.position = key
    · rw [if_pos hkey, if_pos hkey]
      refine ⟨rfl, fun x => ?_⟩
      by_cases hid : row.id ≤ highWaterMark
      · simp [hkey, hid]
      · simp [hid]
    · rw [if_neg hkey, if_neg hkey]
      exact ⟨(add_zero _).symm, fun x => by simp [hkey]⟩

/-- **No oversell is found exactly if no row of the run takes its position under its floor.** -/
theorem noOversell_pass_iff {rows : List LedgerRow} {highWaterMark : Int} :
    (noOversell rows highWaterMark).pass = true ↔
      ∀ pre row post, rows = pre ++ row :: post → highWaterMark < row.id →
        ¬UnderFloor highWaterMark row.position pre (sharesOf row.position (pre ++ [row])) := by
  rw [noOversell, verdict_pass_iff]
  induction rows using List.reverseRecOn with
  | nil => simp [oversells]
  | append_singleton rows row ih =>
    rw [forall_concat_eq_append_cons (P := fun pre row => highWaterMark < row.id →
      ¬UnderFloor highWaterMark row.position pre (sharesOf row.position (pre ++ [row]))), ← ih,
      oversells_concat]
    obtain ⟨hfold, hfloor⟩ := position_oversells rows highWaterMark row.position
    rw [← hfloor, sharesOf_concat, if_pos rfl, ← hfold]
    by_cases hid : row.id ≤ highWaterMark
    · have hlater : ¬highWaterMark < row.id := by omega
      simp [Oversells.add, hid, hlater]
    · have hlater : highWaterMark < row.id := by omega
      simp only [Oversells.add, if_neg hid, hlater, true_imp_iff]
      split
      · rename_i hunder
        simp only [List.append_eq_nil_iff, List.cons_ne_self, and_false, false_iff, not_and,
          not_not]
        exact fun _ => hunder
      · rename_i hover
        exact ⟨fun h => ⟨h, hover⟩, And.left⟩

/-! ### Answers and rows -/

/-- What an answered placement said of its order. -/
structure PlacedResponse where
  orderId : Int
  status : String
  size : Int
  price : String
deriving DecidableEq, Repr

/-- The row is the one that was answered, or that one cancelled where the run asked for it. -/
def agrees (cancelled : List Int) (row : LedgerRow) (placement : PlacedResponse) : Bool :=
  row.status = some placement.status ∨
    (placement.status = "NEW" ∧ row.status = some "CANCELLED" ∧ row.id ∈ cancelled)

/-- One answered placement held against the rows. -/
def responseBreach (held : JsMap Int LedgerRow) (cancelled : List Int)
    (placement : PlacedResponse) : Option String :=
  match held.get? placement.orderId with
  | none => some s!"order {placement.orderId} was answered for but the database holds no such row"
  | some row =>
    if ¬agrees cancelled row placement ∨ row.size ≠ some placement.size ∨
        row.price ≠ some placement.price then
      some s!"order {placement.orderId}: the response said {placement.status}/{placement.size}/{placement.price}, the row says {nullable row.status}/{nullable row.size}/{nullable row.price}"
    else none

/-- The answered placements that are not their rows. -/
def responseBreaches (placements : List PlacedResponse) (rows : List LedgerRow)
    (cancelled : List Int) : List String :=
  placements.filterMap (responseBreach (.ofEntries (rows.map fun row => (row.id, row))) cancelled)

/-- The rows of the run, and those of them no answer named. -/
def created (rows : List LedgerRow) (highWaterMark : Int) : List LedgerRow :=
  rows.filter fun row => row.id > highWaterMark

def unmatched (rows : List LedgerRow) (highWaterMark : Int) (acknowledged : List Int) :
    List LedgerRow :=
  (created rows highWaterMark).filter fun row => row.id ∉ acknowledged

/-- More rows that no answer named than calls that got no answer. -/
def phantomBreach (unmatched : List LedgerRow) (unanswered : Nat) : Option String :=
  if unmatched.length > unanswered then
    let ids := ", ".intercalate ((unmatched.take 10).map fun row => toString row.id)
    some s!"{unmatched.length} rows in the run window were never answered for but only {unanswered} calls went unanswered: {ids}"
  else none

/-- Every answered placement is its row, and every row of the run was answered or can have been
    lost. -/
def responseDbAgreement (placements : List PlacedResponse) (rows : List LedgerRow)
    (highWaterMark : Int) (acknowledged : List Int) (unanswered : Nat) (cancelled : List Int) :
    InvariantResult :=
  let fresh := created rows highWaterMark
  let lost := unmatched rows highWaterMark acknowledged
  verdict "response_db_agreement"
    [s!"{placements.length} answered orders match their rows",
      s!"{fresh.length} rows created in the run, {fresh.length - lost.length} acknowledged, {lost.length} unmatched against {unanswered} unanswered calls"]
    (responseBreaches placements rows cancelled ++ (phantomBreach lost unanswered).toList)

theorem responseDbAgreement_pass_iff {placements : List PlacedResponse} {rows : List LedgerRow}
    {highWaterMark : Int} {acknowledged : List Int} {unanswered : Nat} {cancelled : List Int} :
    (responseDbAgreement placements rows highWaterMark acknowledged unanswered cancelled).pass =
        true ↔
      responseBreaches placements rows cancelled = [] ∧
        phantomBreach (unmatched rows highWaterMark acknowledged) unanswered = none := by
  unfold responseDbAgreement
  rw [verdict_pass_iff, List.append_eq_nil_iff, Option.toList_eq_nil_iff]

end Cocos.Tools
