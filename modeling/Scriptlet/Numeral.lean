import Scriptlet.Number.Decimal

/-!
# Numerals

A numeral is a number as a program writes it: the text, kept for printing the program back, and the
number it stands for.
-/

namespace Scriptlet

/-- A number literal as written, with its value. -/
structure Numeral where
  text : String
  value : Float
deriving DecidableEq

namespace Numeral

/-- Reads a numeral. Underscores separate digits and carry no meaning. -/
def ofText? (text : String) : Option Numeral :=
  (Decimal.readNumber? (text.toList.filter (· ≠ '_'))).map fun value => ⟨text, value⟩

end Numeral
end Scriptlet
