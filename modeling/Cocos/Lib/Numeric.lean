import Cocos.Lib.Numeral
import Cocos.Lib.Sql

namespace Cocos.Lib

/-!
# The type `NUMERIC`

A number on its way from a text into a column.

* `NumericCast` — the cast of a text, which reads every numeral at its value, and
  `NumericCast.parsed`, one that reads nothing else;
* `numericColumn` — storing a number in a column of so many digits and decimals, in units of
  the last place: it is rounded, and raises where the digits are too few;
* `numericColumn_units` — a whole number of units that fits is stored as it is.
-/

/-- `text::numeric`; what it makes of a text that is no numeral is left open. -/
structure NumericCast where
  read : String → Option ℚ
  read_numeral : ∀ n : Numeral, read n.toString = some n.value

/-- The cast that reads numerals only. -/
def NumericCast.parsed : NumericCast where
  read s := (Numeral.parse s.toList).map Numeral.value
  read_numeral n := by
    rw [Numeral.toString, String.toList_ofList, Numeral.parse_text, Option.map_some]

/-- A number as a column `NUMERIC(precision, scale)` stores it, in units of `10 ^ -scale`. -/
def numericColumn (precision scale : Nat) (x : ℚ) : Option Int :=
  let units := sqlRound (x * 10 ^ scale)
  if units.natAbs < 10 ^ precision then some units else none

/-- A whole number of units that fits is stored as it is. -/
theorem numericColumn_units {precision scale : Nat} {x : ℚ} {units : Int}
    (hx : x * 10 ^ scale = units) (hfits : units.natAbs < 10 ^ precision) :
    numericColumn precision scale x = some units := by
  simp only [numericColumn, hx, sqlRound_intCast, if_pos hfits]

end Cocos.Lib
