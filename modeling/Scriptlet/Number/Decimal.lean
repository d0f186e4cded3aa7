import Scriptlet.Number.Binary64

/-!
# Decimal notation, read

A decimal is a natural number times a power of ten. `Decimal.toFloat` is the binary64 number
nearest to it. `readNumber?` reads the notation: an optional sign; digits with an optional point
among them, at least one digit in all; an optional exponent with a sign of its own; or else, in
letters of either case, the name of infinity or of the number that is none.
-/

namespace Scriptlet

/-- The number `coefficient * 10 ^ exponent`. -/
structure Decimal where
  coefficient : Nat
  exponent : Int
deriving DecidableEq

namespace Decimal

/-- The value of a digit character. -/
def digitValue (c : Char) : Nat := c.toNat - '0'.toNat

/-- The number that a row of digits stands for. -/
def ofDigits (digits : List Char) : Nat :=
  digits.foldl (fun n c => 10 * n + digitValue c) 0

/-- The rank of the nearest binary64 number. A positive decimal with an exponent above 400 is
beyond every finite number, and one with fewer than `-400` behind all its digits is far below half
the smallest one, so neither needs its power of ten. -/
def nearestRank : Decimal → Nat
  | ⟨0, _⟩ => 0
  | ⟨coefficient, .ofNat n⟩ =>
    if 400 < n then Binary64.infinityRank
    else Binary64.nearestRank (coefficient * Nat.pow 10 n) 1
  | ⟨coefficient, .negSucc n⟩ =>
    if coefficient.log2 + 400 < n + 1 then 0
    else Binary64.nearestRank coefficient (Nat.pow 10 (n + 1))

/-- The nearest binary64 number. -/
def toFloat (d : Decimal) : Float := Binary64.ofRank d.nearestRank

/-- Digits with an optional point among them, and what follows. -/
def readPoint? (text : List Char) : Option (Decimal × List Char) :=
  let whole := text.takeWhile Char.isDigit
  let rest := text.dropWhile Char.isDigit
  let (fraction, rest) := match rest with
    | '.' :: rest => (rest.takeWhile Char.isDigit, rest.dropWhile Char.isDigit)
    | rest => ([], rest)
  if whole.isEmpty && fraction.isEmpty then none
  else some (⟨ofDigits (whole ++ fraction), -(fraction.length : Int)⟩, rest)

/-- A sign in front, and what follows: whether it is a minus. -/
def readSign : List Char → Bool × List Char
  | '-' :: rest => (true, rest)
  | '+' :: rest => (false, rest)
  | rest => (false, rest)

/-- A whole text that is the exponent of a number, the empty one included. -/
def readExponent? : List Char → Option Int
  | [] => some 0
  | c :: rest =>
    let (negative, digits) := readSign rest
    if (c = 'e' || c = 'E') && !digits.isEmpty && digits.all Char.isDigit then
      some (if negative then -(ofDigits digits : Int) else ofDigits digits)
    else none

/-- A whole text that is a decimal without sign. -/
def read? (text : List Char) : Option Decimal := do
  let (d, rest) ← readPoint? text
  let exponent ← readExponent? rest
  some { d with exponent := d.exponent + exponent }

/-- A whole text that is a number without sign. -/
def readMagnitude? (text : List Char) : Option Float :=
  let name := String.ofList (text.map Char.toLower)
  if name = "inf" || name = "infinity" then some (Binary64.ofRank Binary64.infinityRank)
  else if name = "nan" then some (Binary64.ofRank (Binary64.infinityRank + 1))
  else (read? text).map toFloat

/-- A whole text that is a number. -/
def readNumber? (text : List Char) : Option Float :=
  let (negative, magnitude) := readSign text
  (readMagnitude? magnitude).map fun x => if negative then -x else x

end Decimal
end Scriptlet
