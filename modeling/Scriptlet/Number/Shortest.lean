import Scriptlet.Number.Binary64

/-!
# The shortest decimal that reads back

A number is printed with the fewest digits that still read back as the same number, in positional
notation, whatever its size.

The numbers that round to a rank fill an interval between two half-way points, ends included when
the rank is even. A *grid* is the set of multiples of a power of ten. The coarsest grid that meets
the interval gives the fewest digits; of its points, the two next to the number itself are the only
ones to look at, and the nearer one is taken, the greater one on a tie.

All quantities are natural numbers, in units of `2 ^ -1075 * 10 ^ -324`: every half-way point and
every point of a grid of `10 ^ -324` or more is a multiple of that unit. The finest grid needed is
`10 ^ -324`, which is finer than any interval is wide.
-/

namespace Scriptlet.Shortest

open Binary64 (units)

/-- The power of ten of the finest grid, counted downward. -/
def finest : Nat := 324

/-- The power of ten, counted from the finest grid, above which no finite number has a digit. -/
def coarsest : Nat := finest + 308

/-- A point of the `n`th grid. -/
def point (n g : Nat) : Nat := g * Nat.pow 10 n * Nat.pow 2 1075

/-- The magnitude of a rank. -/
def magnitude (rank : Nat) : Nat := 2 * units rank * Nat.pow 10 finest

/-- The half-way point between a rank and the next one. -/
def halfway (rank : Nat) : Nat := (units rank + units (rank + 1)) * Nat.pow 10 finest

/-- Whether a point rounds to a positive rank. -/
def RoundsTo (rank p : Nat) : Prop :=
  if rank % 2 = 0 then halfway (rank - 1) ≤ p ∧ p ≤ halfway rank
  else halfway (rank - 1) < p ∧ p < halfway rank

instance (rank p : Nat) : Decidable (RoundsTo rank p) := by
  unfold RoundsTo
  infer_instance

/-- The point of the `n`th grid that rounds to a rank and is nearest to it. -/
def gridPoint? (rank n : Nat) : Option Nat :=
  let low := magnitude rank / point n 1
  let high := low + 1
  if RoundsTo rank (point n low) then
    if RoundsTo rank (point n high)
        ∧ point n low + point n high ≤ 2 * magnitude rank then some high
    else some low
  else if RoundsTo rank (point n high) then some high
  else none

/-- The coarsest grid with a point that rounds to a rank, from the `n`th grid on, and the point. -/
def search (rank : Nat) : Nat → Nat × Nat
  | 0 => (0, (gridPoint? rank 0).getD 0)
  | n + 1 =>
    match gridPoint? rank (n + 1) with
    | some g => (n + 1, g)
    | none => search rank n

/-- A row of digits with zeros put in front up to a width. -/
def padded (width n : Nat) : String :=
  let digits := n.repr
  "".pushn '0' (width - digits.length) ++ digits

/-- The text of `g * 10 ^ (n - 324)`. -/
def positional (n g : Nat) : String :=
  if finest ≤ n then (g * Nat.pow 10 (n - finest)).repr
  else
    let places := finest - n
    (g / Nat.pow 10 places).repr ++ "." ++ padded places (g % Nat.pow 10 places)

/-- The text of a magnitude. -/
def magnitudeText (rank : Nat) : String :=
  if rank = 0 then "0"
  else if rank = Binary64.infinityRank then "inf"
  else
    let (n, g) := search rank coarsest
    positional n g

/-- The text of a number. A zero keeps its sign, and what is no number has none. -/
def text (x : Float) : String :=
  if Binary64.infinityRank < Binary64.rank x then "NaN"
  else if Binary64.isNegative x then "-" ++ magnitudeText (Binary64.rank x)
  else magnitudeText (Binary64.rank x)

end Scriptlet.Shortest
