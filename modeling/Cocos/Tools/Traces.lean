import Cocos.Lib.Lines
import Mathlib.Data.List.Infix

namespace Cocos.Tools

open Cocos.Lib

/-!
# Reading a trace back

`pageOf` of `tools/src/history/history.ts`, over what `HistoryService.append` of
`tools/src/history/history.service.ts` writes: one line of JSON a row, in a file that may end
anywhere if the process was killed.

* `traceOf`, `pageOf` — what is written of some rows, and a page of the text that is read back;
* `pages_eq` — the pages one after the other are the lines, up to where they stop;
* `Readable` — what is asked of JSON and of the encoding of the file;
* `trace_survives` — **a trace that is cut off anywhere is read back up to the cut**: the rows whose
  lines are whole, in order and once each, and one more in the total for a line that is torn.

The units of the file are characters, or the bytes on the disk: `read` is what `readFile` makes of
them.
-/

universe u v

variable {χ : Type u} {Row : Type v}

/-- What is written of some rows: `JSON.stringify(row)` and a newline for each. -/
def traceOf (stringify : Row → List χ) (newline : χ) (rows : List Row) : List χ :=
  rows.flatMap fun row => stringify row ++ [newline]

theorem traceOf_eq_written (stringify : Row → List χ) (newline : χ) (rows : List Row) :
    traceOf stringify newline rows = written newline (rows.map stringify) :=
  (List.flatMap_map stringify (· ++ [newline]) rows).symm

/-- A page of a trace. -/
structure Page (Row : Type v) where
  total : Nat
  rows : List Row

/-- A page of the text of a trace.  `parse` is `parsed`: the value of a line, or nothing where
    `JSON.parse` throws. -/
def pageOf (parse : List Char → Option Row) (text : List Char) (offset limit : Nat) : Page Row :=
  let lines := (text.splitOn '\n').filter (· ≠ [])
  { total := lines.length
    rows := ((lines.take (offset + limit)).drop offset).filterMap parse }

/-- The rows of the first pages, one page after the other. -/
def pages (parse : List Char → Option Row) (text : List Char) (limit n : Nat) : List Row :=
  (List.range n).flatMap fun page => (pageOf parse text (page * limit) limit).rows

/-- The first pages hold what is parsed of the first lines. -/
theorem pages_eq (parse : List Char → Option Row) (text : List Char) (limit n : Nat) :
    pages parse text limit n = ((linesOf '\n' text).take (n * limit)).filterMap parse := by
  induction n with
  | zero => simp [pages]
  | succ n ih =>
    have hpage : (pageOf parse text (n * limit) limit).rows =
        (((linesOf '\n' text).drop (n * limit)).take limit).filterMap parse := by
      show (((linesOf '\n' text).take (n * limit + limit)).drop (n * limit)).filterMap parse = _
      rw [List.drop_take, Nat.add_sub_cancel_left]
    have hsplit : pages parse text limit (n + 1) =
        pages parse text limit n ++ (pageOf parse text (n * limit) limit).rows := by
      simp [pages, List.range_succ]
    rw [hsplit, ih, hpage, ← List.filterMap_append, ← List.take_add, Nat.succ_mul]

/-- What is asked of the encoding of the file and of JSON: newlines are read as newlines, and
    nothing else is; no row has one in its text, its text is parsed to it, and no part of its text
    is parsed. -/
structure Readable (newline : χ) (read : List χ → List Char) (stringify : Row → List χ)
    (parse : List Char → Option Row) : Prop where
  read_newline : ∀ a b, read (a ++ newline :: b) = read a ++ '\n' :: read b
  newline_notMem_read : ∀ a, newline ∉ a → '\n' ∉ read a
  read_eq_nil : ∀ a, read a = [] ↔ a = []
  newline_notMem : ∀ row, newline ∉ stringify row
  ne_nil : ∀ row, stringify row ≠ []
  parse_stringify : ∀ row, parse (read (stringify row)) = some row
  parse_part : ∀ row p, IsPart p (stringify row) → parse (read p) = none

section Readable

variable [DecidableEq χ] {newline : χ} {read : List χ → List Char} {stringify : Row → List χ}
  {parse : List Char → Option Row}

/-- The lines of what is read are what is read of the lines. -/
theorem Readable.splitOn_read (h : Readable newline read stringify parse) (text : List χ) :
    (read text).splitOn '\n' = (text.splitOn newline).map read := by
  induction hlen : text.length using Nat.strongRecOn generalizing text with
  | ind len ih =>
    by_cases hmem : newline ∈ text
    · obtain ⟨a, b, rfl, ha⟩ := List.eq_append_cons_of_mem hmem
      have hb : b.length < len := by
        rw [← hlen, List.length_append, List.length_cons]
        omega
      rw [h.read_newline, List.splitOn_append_cons_self_of_not_mem ha,
        List.splitOn_append_cons_self_of_not_mem (h.newline_notMem_read a ha), ih _ hb b rfl]
      rfl
    · rw [List.splitOn_eq_singleton hmem,
        List.splitOn_eq_singleton (h.newline_notMem_read text hmem)]
      rfl

theorem Readable.linesOf_read (h : Readable newline read stringify parse) (text : List χ) :
    linesOf '\n' (read text) = (linesOf newline text).map read := by
  rw [linesOf, h.splitOn_read, List.filter_map, linesOf]
  congr 1
  exact List.filter_congr fun l _ => by simp [h.read_eq_nil]

omit [DecidableEq χ] in
/-- What is parsed of the whole lines are their rows. -/
theorem Readable.filterMap_rows (h : Readable newline read stringify parse) (rows : List Row) :
    ((rows.map stringify).map read).filterMap parse = rows := by
  rw [List.filterMap_map, List.filterMap_map]
  exact (List.filterMap_congr fun row _ => h.parse_stringify row).trans List.filterMap_some

/-- A trace that was cut off is read back up to the cut: it holds the lines of the first `k` rows;
    the pages give those rows, in order and once each; and every page says in its total how many
    they are, and one more where the text ends inside a line. -/
structure ReadBack (newline : χ) (read : List χ → List Char) (stringify : Row → List χ)
    (parse : List Char → Option Row) (rows : List Row) (cut : List χ) (k : Nat) : Prop where
  whole : ∀ i, HoldsLine newline (rows.map stringify) cut i ↔ i < k
  pages : ∀ limit ≥ 1, ∀ n, (pageOf parse (read cut) 0 limit).total ≤ n * limit →
    pages parse (read cut) limit n = rows.take k
  total : ∀ offset limit, (pageOf parse (read cut) offset limit).total = k + 1 ∧
      EndsInside newline (rows.map stringify) cut ∨
    (pageOf parse (read cut) offset limit).total = k ∧
      ¬ EndsInside newline (rows.map stringify) cut

/-- **A trace survives truncation and paging**, wherever it is cut off. -/
theorem trace_survives (h : Readable newline read stringify parse) {rows : List Row}
    {cut : List χ} (hcut : cut <+: traceOf stringify newline rows) :
    ∃ k, ReadBack newline read stringify parse rows cut k := by
  have hls : ∀ l ∈ rows.map stringify, l ≠ [] ∧ newline ∉ l := by
    intro l hl
    obtain ⟨row, -, rfl⟩ := List.mem_map.mp hl
    exact ⟨h.ne_nil row, h.newline_notMem row⟩
  rw [traceOf_eq_written] at hcut
  obtain ⟨k, rest, hk⟩ := exists_cut hcut
  have hlen : k ≤ rows.length := by simpa using hk.le_length
  have hlines : linesOf '\n' (read cut) =
      ((rows.take k).map stringify).map read ++ rest.map read := by
    simp only [h.linesOf_read, hk.linesOf_eq hls, List.map_append, List.map_take]
  have htotal : ∀ offset limit, (pageOf parse (read cut) offset limit).total = k + rest.length := by
    intro offset limit
    show (linesOf '\n' (read cut)).length = _
    simp [hlines, hlen]
  refine ⟨k, hk.holdsLine_iff fun l hl => (hls l hl).1, fun limit _ n hn => ?_, ?_⟩
  · have hrest : (rest.map read).filterMap parse = [] := by
      rcases hk.isPart with rfl | ⟨p, l, rfl, hl, hpart⟩
      · rfl
      · obtain ⟨row, -, rfl⟩ := List.mem_map.mp hl
        simp [h.parse_part row p hpart]
    have hall : (linesOf '\n' (read cut)).length ≤ n * limit := hn
    rw [pages_eq, List.take_of_length_le hall, hlines, List.filterMap_append, h.filterMap_rows,
      hrest, List.append_nil]
  · intro offset limit
    rw [htotal]
    rcases hk.isPart with rfl | ⟨p, l, rfl, -, -⟩
    · exact .inr ⟨rfl, fun hin => hk.endsInside_iff.mp hin rfl⟩
    · exact .inl ⟨rfl, hk.endsInside_iff.mpr (List.cons_ne_nil p [])⟩

end Readable

/-! ### A run of two rows -/

/-- The text of a row that is nothing but a flag. -/
def flagText (row : Bool) : List Char :=
  if row then "\x7b\"ok\":true\x7d".toList else "\x7b\"ok\":false\x7d".toList

/-- And its value. -/
def flagOf (text : List Char) : Option Bool :=
  if text = flagText true then some true else if text = flagText false then some false else none

theorem readable_flag : Readable '\n' id flagText flagOf where
  read_newline _ _ := rfl
  newline_notMem_read _ h := h
  read_eq_nil _ := Iff.rfl
  newline_notMem row := by cases row <;> decide
  ne_nil row := by cases row <;> decide
  parse_stringify row := by cases row <;> decide
  parse_part row p h := by
    have hp : p ∈ (flagText row).inits := (List.mem_inits p _).mpr h.isPrefix
    have hne := h.ne_nil
    have hall := h.ne
    have key : ∀ p ∈ (flagText row).inits, p ≠ [] → p ≠ flagText row → flagOf p = none := by
      cases row <;> decide
    exact key p hp hne hall

/-- Cut off in the second of two lines, a trace has the first row, and two lines. -/
theorem trace_survives_torn :
    let cut := (traceOf flagText '\n' [true, false]).take 16
    (∃ k, ReadBack '\n' id flagText flagOf [true, false] cut k) ∧
      pages flagOf cut 1 2 = [true] ∧ (pageOf flagOf cut 0 1).total = 2 :=
  ⟨trace_survives readable_flag (List.take_prefix 16 _), by decide, by decide⟩

end Cocos.Tools
