/-!
# Binary64 magnitudes as ranks

The magnitudes of binary64 numbers, from zero up, are numbered by *rank*: the bits of a number
without its sign, read as a natural number. Rank zero is zero, and the next number up has the next
rank. `units` is the magnitude of a rank as a multiple of the smallest positive one, `2 ^ -1074`.

The rank of infinity stands, for rounding, where the next finite number would be: the rule that
rounds to the nearest rank, ties to the even one, then also says when a number overflows.

`units_floorRank_le` and `lt_units_floorRank_succ` say that `floorRank` finds the two ranks that
enclose a quotient.

Powers of natural numbers are written `Nat.pow`. The operator `^` becomes one term in a module that
imports the algebraic hierarchy and another in one that does not.
-/

namespace Scriptlet.Binary64

/-- Ranks that share one binary exponent. -/
def binade : Nat := Nat.pow 2 52

/-- The rank of infinity. -/
def infinityRank : Nat := 2047 * binade

/-- The magnitude of a rank, in multiples of `2 ^ -1074`. -/
def units (rank : Nat) : Nat :=
  if rank < binade then rank else (binade + rank % binade) * Nat.pow 2 (rank / binade - 1)

/-- The next rank is worth more units. -/
theorem units_lt_units_succ (rank : Nat) : units rank < units (rank + 1) := by
  have positive : 0 < binade := by decide
  by_cases small : rank + 1 < binade
  · have : rank < binade := by omega
    simp [units, small, this]
  by_cases border : rank + 1 = binade
  · have below : rank < binade := by omega
    simp only [units, if_pos below, border, Nat.lt_irrefl, if_false, Nat.mod_self,
      Nat.div_self positive, Nat.sub_self, show Nat.pow 2 0 = 1 from rfl]
    omega
  · have above : ¬ rank < binade := by omega
    simp only [units, if_neg above, if_neg small]
    have inside := Nat.mod_lt rank positive
    have split := Nat.div_add_mod rank binade
    have powers : 0 < Nat.pow 2 (rank / binade - 1) := Nat.two_pow_pos _
    by_cases last : rank % binade + 1 = binade
    · have next : rank + 1 = binade * (rank / binade + 1) := by rw [Nat.mul_add]; omega
      have quotient : (rank + 1) / binade = rank / binade + 1 := by
        rw [next, Nat.mul_div_cancel_left _ positive]
      have remainder : (rank + 1) % binade = 0 := by rw [next, Nat.mul_mod_right]
      have first : 0 < rank / binade := Nat.div_pos (by omega) positive
      have doubled : Nat.pow 2 (rank / binade + 1 - 1) = 2 * Nat.pow 2 (rank / binade - 1) := by
        rw [Nat.add_sub_cancel, ← Nat.sub_add_cancel first]
        exact Nat.pow_succ'
      rw [quotient, remainder, doubled, Nat.add_zero, ← Nat.mul_assoc]
      exact Nat.mul_lt_mul_of_pos_right (by omega) powers
    · have quotient : (rank + 1) / binade = rank / binade :=
        Nat.div_eq_of_lt_le (by rw [Nat.mul_comm]; omega) (by
          rw [Nat.add_mul, Nat.one_mul, Nat.mul_comm]; omega)
      have remainder : (rank + 1) % binade = rank % binade + 1 := by
        have := Nat.div_add_mod (rank + 1) binade
        rw [quotient] at this
        omega
      rw [quotient, remainder]
      exact Nat.mul_lt_mul_of_pos_right (by omega) powers

/-- Higher ranks are worth as many units or more. -/
theorem units_le_units {low high : Nat} (le : low ≤ high) : units low ≤ units high := by
  induction le with
  | refl => exact Nat.le_refl _
  | step _ ih => exact Nat.le_trans ih (Nat.le_of_lt (units_lt_units_succ _))

/-- The bit of the sign. -/
def signBit : Nat := Nat.pow 2 63

/-- The rank of a number, which forgets its sign. -/
def rank (x : Float) : Nat := x.toBits.toNat % signBit

/-- Whether the sign is set, also on a zero. -/
def isNegative (x : Float) : Bool := signBit ≤ x.toBits.toNat

/-- The number of a rank without sign. -/
def ofRank (rank : Nat) : Float := Float.ofBits (UInt64.ofNat rank)

/-- The greatest sum of `base` and a number below `2 ^ bits` that passes a test, of which smaller
sums pass whenever a greater one does. -/
def greatest (fits : Nat → Bool) : Nat → Nat → Nat
  | 0, base => base
  | bits + 1, base =>
    greatest fits bits (if fits (base + Nat.pow 2 bits) then base + Nat.pow 2 bits else base)

/-- The greatest number that fits does fit. -/
theorem greatest_fits (fits : Nat → Bool) (bits base : Nat) (start : fits base) :
    fits (greatest fits bits base) := by
  induction bits generalizing base with
  | zero => exact start
  | succ bits ih =>
    unfold greatest
    split
    · exact ih _ ‹_›
    · exact ih _ start

/-- The next number does not fit, if none beyond the range does. -/
theorem greatest_succ_unfit (fits : Nat → Bool) (bits base : Nat)
    (top : fits (base + Nat.pow 2 bits) = false) : fits (greatest fits bits base + 1) = false := by
  induction bits generalizing base with
  | zero => simpa [greatest] using top
  | succ bits ih =>
    unfold greatest
    split
    · refine ih _ ?_
      have doubled : Nat.pow 2 bits + Nat.pow 2 bits = Nat.pow 2 (bits + 1) :=
        (Nat.two_pow_succ bits).symm
      rwa [Nat.add_assoc, doubled]
    · next stays => exact ih _ (by simpa using stays)

/-- The greatest rank below `2 ^ 63` whose magnitude is at most a quotient of units. -/
def floorRank (numerator denominator : Nat) : Nat :=
  greatest (fun rank => units rank * denominator ≤ numerator) 63 0

/-- The magnitude of the rank found is at most the quotient. -/
theorem units_floorRank_le (numerator denominator : Nat) :
    units (floorRank numerator denominator) * denominator ≤ numerator :=
  of_decide_eq_true (greatest_fits (fun rank => units rank * denominator ≤ numerator) 63 0
    (by simp [units, binade]))

/-- The magnitude of the next rank is greater, unless the quotient is beyond every rank. -/
theorem lt_units_floorRank_succ {numerator denominator : Nat}
    (inRange : numerator < units (Nat.pow 2 63) * denominator) :
    numerator < units (floorRank numerator denominator + 1) * denominator :=
  Nat.lt_of_not_le (of_decide_eq_false
    (greatest_succ_unfit (fun rank => units rank * denominator ≤ numerator) 63 0
      (decide_eq_false (Nat.not_le.mpr inRange))))

/-- The rank nearest to a quotient; of two equally near ones the even one. -/
def nearestRank (numerator denominator : Nat) : Nat :=
  let scaled := numerator * Nat.pow 2 1074
  let low := floorRank scaled denominator
  let halfway := (units low + units (low + 1)) * denominator
  let nearest :=
    if 2 * scaled < halfway then low
    else if halfway < 2 * scaled then low + 1
    else low + low % 2
  min nearest infinityRank

end Scriptlet.Binary64
