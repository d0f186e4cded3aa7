import Mathlib.Data.List.Induction
import Scriptlet.Number.Shortest
import Scriptlet.Proofs.Notation
import Scriptlet.Proofs.Numeral

/-!
# Shortest decimals read back

What is printed for a magnitude is a numeral, and the number nearest to what it stands for is the
one that was printed (`isNumeralText_magnitudeText`, `nearestRank_magnitudeText`). Three facts make
it up:

- a quotient between the half-way points around a rank is rounded to it (`nearestRank_eq`);
- the search ends at a point between them, at the latest on the finest grid (`search_roundsTo`);
- the text of a point stands for that point (`ofNumeral_positional`).
-/

namespace Scriptlet

/-! ## Rounding -/

namespace Binary64

/-- Ranks further up are worth more units. -/
theorem units_pred_lt_units {rank : Nat} (positive : 0 < rank) : units (rank - 1) < units rank := by
  have step := units_lt_units_succ (rank - 1)
  rwa [Nat.sub_add_cancel positive] at step

/-- A quotient between the half-way points around a rank is rounded to it. The points themselves go
to the even rank. -/
theorem nearestRank_eq {rank numerator denominator : Nat} (positive : 0 < rank)
    (finite : rank < infinityRank)
    (above : (units (rank - 1) + units rank) * denominator + rank % 2
      ≤ 2 * (numerator * Nat.pow 2 1074))
    (below : 2 * (numerator * Nat.pow 2 1074) + rank % 2
      ≤ (units rank + units (rank + 1)) * denominator)
    (divides : 0 < denominator) : nearestRank numerator denominator = rank := by
  unfold nearestRank
  dsimp only
  generalize numerator * Nat.pow 2 1074 = scaled at above below ⊢
  have lower := units_pred_lt_units positive
  have upper := units_lt_units_succ rank
  have steps {a b : Nat} (lt : a < b) : a * denominator < b * denominator :=
    Nat.mul_lt_mul_of_pos_right lt divides
  have lowerStep := steps lower
  have upperStep := steps upper
  have inRange : scaled < units (Nat.pow 2 63) * denominator := by
    have last : units (rank + 1) ≤ units (Nat.pow 2 63) :=
      units_le_units (Nat.le_trans finite (by decide))
    have := Nat.mul_le_mul_right denominator last
    rw [Nat.add_mul] at below
    omega
  have floor := units_floorRank_le scaled denominator
  have next := lt_units_floorRank_succ inRange
  -- the floor is the rank itself or the one before
  generalize floorRank scaled denominator = low at floor next ⊢
  have notAbove : low < rank + 1 := by
    by_contra high
    have := Nat.mul_le_mul_right denominator (units_le_units (Nat.le_of_not_lt high))
    rw [Nat.add_mul] at below
    omega
  have notBelow : rank - 1 < low + 1 := by
    by_contra high
    have := Nat.mul_le_mul_right denominator (units_le_units (Nat.le_of_not_lt high))
    rw [Nat.add_mul] at above
    omega
  obtain rfl | before : low = rank ∨ low + 1 = rank := by omega
  · split_ifs <;> omega
  · obtain rfl : rank - 1 = low := by omega
    rw [before]
    split_ifs <;> omega

end Binary64

/-! ## The search -/

namespace Shortest

open Binary64 (units infinityRank units_lt_units_succ units_pred_lt_units)

/-- Powers of ten are positive. -/
theorem ten_pow_pos (n : Nat) : 0 < Nat.pow 10 n := Nat.pow_pos (by decide)

/-- A grid point that the search finds is rounded to the rank. -/
theorem gridPoint?_roundsTo {rank n g : Nat} (found : gridPoint? rank n = some g) :
    RoundsTo rank (point n g) := by
  unfold gridPoint? at found
  dsimp only at found
  split_ifs at found with low high high
  · exact Option.some.inj found ▸ high.1
  · exact Option.some.inj found ▸ low
  · exact Option.some.inj found ▸ high

/-- A point is as many times the first point of its grid. -/
theorem point_eq_mul (n g : Nat) : point n g = g * point n 1 := by
  simp only [point, Nat.one_mul, Nat.mul_assoc]

/-- A step of the finest grid is shorter than the way from a rank to a half-way point. -/
theorem exists_gridPoint {rank : Nat} (positive : 0 < rank) : ∃ g, gridPoint? rank 0 = some g := by
  have fine : point 0 1 < Nat.pow 10 finest := by decide +kernel
  have lower := units_pred_lt_units positive
  have upper := units_lt_units_succ rank
  have rest := Nat.mod_lt (magnitude rank) (show 0 < point 0 1 by decide +kernel)
  have split := Nat.div_add_mod' (magnitude rank) (point 0 1)
  have high : point 0 (magnitude rank / point 0 1 + 1)
      = magnitude rank / point 0 1 * point 0 1 + point 0 1 := by
    rw [point_eq_mul, Nat.add_mul, Nat.one_mul]
  have before : halfway (rank - 1) < magnitude rank := by
    rw [halfway, magnitude, Nat.sub_add_cancel positive]
    exact Nat.mul_lt_mul_of_pos_right (by omega) (ten_pow_pos finest)
  have behind : magnitude rank + Nat.pow 10 finest ≤ halfway rank := by
    rw [halfway, magnitude]
    calc 2 * units rank * Nat.pow 10 finest + Nat.pow 10 finest
        = (2 * units rank + 1) * Nat.pow 10 finest := by rw [Nat.add_mul, Nat.one_mul]
      _ ≤ (units rank + units (rank + 1)) * Nat.pow 10 finest :=
        Nat.mul_le_mul_right _ (by omega)
  have rounds : RoundsTo rank (point 0 (magnitude rank / point 0 1 + 1)) := by
    rw [RoundsTo, high]
    split_ifs <;> omega
  unfold gridPoint?
  dsimp only
  split_ifs
  · exact ⟨_, rfl⟩
  · exact ⟨_, rfl⟩
  · exact ⟨_, rfl⟩

/-- The search ends at a point that rounds to the rank. -/
theorem search_roundsTo {rank : Nat} (positive : 0 < rank) (n : Nat) :
    RoundsTo rank (point (search rank n).1 (search rank n).2) := by
  induction n with
  | zero =>
    obtain ⟨g, found⟩ := exists_gridPoint positive
    rw [search, found]
    exact gridPoint?_roundsTo found
  | succ n ih =>
    unfold search
    split
    · next found => exact gridPoint?_roundsTo found
    · exact ih

end Shortest

/-! ## Digits -/

/-- Digits in a row are a run of digits. -/
theorem IsDigitRun.of_digits {text : List Char} (digits : ∀ c ∈ text, c.isDigit = true)
    (nonempty : text ≠ []) : IsDigitRun text := by
  induction text using List.reverseRecOn with
  | nil => exact absurd rfl nonempty
  | append_singleton text c ih =>
    refine isDigitRun_concat_iff.mpr ⟨digits c List.mem_concat_self, ?_⟩
    by_cases empty : text = []
    · exact .inl empty
    · exact .inr (.inl (ih (fun d member => digits d (List.mem_append_left _ member)) empty))

/-- The digits that a number is written with are digits. -/
theorem isDigit_of_mem_toDigits {n : Nat} : ∀ c ∈ Nat.toDigits 10 n, c.isDigit = true :=
  fun _ => Nat.isDigit_of_mem_toDigits (by decide) (by decide)

/-- The digits of a positive number do not begin with a zero. -/
theorem head?_toDigits_ne {n : Nat} (positive : 0 < n) : (Nat.toDigits 10 n).head? ≠ some '0' := by
  induction n using Nat.strongRecOn with
  | ind n ih =>
    by_cases small : n < 10
    · have digit : ∀ d < 10, 0 < d → [Nat.digitChar d].head? ≠ some '0' := by decide
      rw [Nat.toDigits_of_lt_base small]
      exact digit n small positive
    · have shorter : n / 10 < n := Nat.div_lt_self positive (by decide)
      rw [Nat.toDigits_of_base_le (by decide) (Nat.le_of_not_lt small),
        List.head?_append, Option.or_of_isSome (List.isSome_head?.mpr Nat.toDigits_ne_nil)]
      exact ih _ shorter (Nat.div_pos (Nat.le_of_not_lt small) (by decide))

/-- The digits of a number are a numeral. -/
theorem isWhole_toDigits (n : Nat) : IsWhole (Nat.toDigits 10 n) := by
  rcases Nat.eq_zero_or_pos n with rfl | positive
  · exact .inl (Nat.toDigits_zero 10)
  · exact .inr ⟨.of_digits isDigit_of_mem_toDigits Nat.toDigits_ne_nil, head?_toDigits_ne positive⟩

namespace Decimal

/-- The digits of a number stand for it. -/
theorem ofDigits_toDigits (n : Nat) : ofDigits (Nat.toDigits 10 n) = n :=
  Nat.ofDigitChars_eq_foldl.symm.trans (Nat.ofDigitChars_toDigits (by decide) (by decide))

/-- Digits behind others move those up by as many places. -/
theorem ofDigits_append (front back : List Char) :
    ofDigits (front ++ back) = ofDigits front * Nat.pow 10 back.length + ofDigits back := by
  have folds (text : List Char) : ofDigits text = Nat.ofDigitChars 10 text 0 :=
    Nat.ofDigitChars_eq_foldl.symm
  rw [folds, folds, folds, Nat.ofDigitChars_append, Nat.ofDigitChars_eq_ofDigitChars_zero,
    Nat.mul_comm]
  rfl

/-- Zeros stand for zero. -/
theorem ofDigits_zeros (n : Nat) : ofDigits (List.replicate n '0') = 0 :=
  Nat.ofDigitChars_eq_foldl.symm.trans
    (Nat.ofDigitChars_replicate_zero.trans (Nat.mul_zero _))

/-- A numeral without a point stands for its digits. -/
theorem ofNumeral_digits {whole : List Char} (digits : ∀ c ∈ whole, c.isDigit = true) :
    ofNumeral whole = ⟨ofDigits whole, 0⟩ := by
  have noPoint : whole.dropWhile (· ≠ '.') = [] :=
    List.dropWhile_eq_nil_iff.mpr fun c member => decide_eq_true fun point =>
      absurd (point ▸ digits c member) (by decide)
  rw [ofNumeral, List.filter_eq_self.mpr digits, noPoint]
  rfl

/-- A numeral with a point stands for all its digits, shifted by those behind the point. -/
theorem ofNumeral_point {whole fraction : List Char} (digits : ∀ c ∈ whole, c.isDigit = true)
    (behind : ∀ c ∈ fraction, c.isDigit = true) :
    ofNumeral (whole ++ '.' :: fraction)
      = ⟨ofDigits (whole ++ fraction), -(fraction.length : Int)⟩ := by
  have point : ¬ Char.isDigit '.' = true := by decide
  rw [ofNumeral, dropWhile_of_isDigits fun c member _ => digits c member, List.filter_append,
    List.filter_cons_of_neg point, List.filter_eq_self.mpr digits, List.filter_eq_self.mpr behind,
    List.dropWhile_cons_of_neg (by decide), List.countP_cons_of_neg point,
    List.countP_eq_length.mpr behind]

/-- A whole decimal is rounded as it is. -/
theorem nearestRank_whole {c : Nat} (positive : 0 < c) :
    nearestRank ⟨c, .ofNat 0⟩ = Binary64.nearestRank c 1 := by
  rw [nearestRank, if_neg (by decide), show Nat.pow 10 0 = 1 from rfl, Nat.mul_one]
  exact Nat.ne_of_gt positive

/-- A decimal with places behind the point is rounded as a quotient. -/
theorem nearestRank_pointed {c n : Nat} (positive : 0 < c) (few : n < 400) :
    nearestRank ⟨c, .negSucc n⟩ = Binary64.nearestRank c (Nat.pow 10 (n + 1)) := by
  rw [nearestRank, if_neg (by omega)]
  exact Nat.ne_of_gt positive

end Decimal

/-! ## The text -/

namespace Shortest

open Binary64 (units infinityRank units_pred_lt_units)

/-- A padded number has its digits behind the zeros that they lack. -/
theorem toList_padded (width n : Nat) : (padded width n).toList
    = List.replicate (width - (Nat.toDigits 10 n).length) '0' ++ Nat.toDigits 10 n := by
  have zeros (k : Nat) : ("".pushn '0' k).toList = List.replicate k '0' := by
    rw [String.pushn_eq_repeat_push]
    induction k with
    | zero => rfl
    | succ k ih => rw [Nat.repeat, String.toList_push, ih, List.replicate_succ']
  unfold padded
  dsimp only
  rw [String.toList_append, zeros, Nat.toList_repr, ← String.length_toList, Nat.toList_repr]

/-- All of a padded number are digits. -/
theorem isDigit_of_mem_padded {width n : Nat} :
    ∀ c ∈ (padded width n).toList, c.isDigit = true := by
  intro c member
  rw [toList_padded] at member
  rcases List.mem_append.mp member with zero | digit
  · exact List.eq_of_mem_replicate zero ▸ rfl
  · exact isDigit_of_mem_toDigits c digit

/-- A padded number that fits has exactly the width. -/
theorem length_toList_padded {width n : Nat} (fits : n < Nat.pow 10 width) (wide : 0 < width) :
    (padded width n).toList.length = width := by
  have short := (Nat.length_toDigits_le_iff (by decide) wide).mpr fits
  rw [toList_padded, List.length_append, List.length_replicate]
  omega

/-- A padded number stands for the number. -/
theorem ofDigits_padded (width n : Nat) : Decimal.ofDigits (padded width n).toList = n := by
  rw [toList_padded, Decimal.ofDigits_append, Decimal.ofDigits_zeros, Decimal.ofDigits_toDigits,
    Nat.zero_mul, Nat.zero_add]

/-- On a grid of whole numbers, a point is written without a decimal point. -/
theorem toList_positional_whole {n g : Nat} (coarse : finest ≤ n) :
    (positional n g).toList = Nat.toDigits 10 (g * Nat.pow 10 (n - finest)) := by
  rw [positional, if_pos coarse, Nat.toList_repr]

/-- On a finer grid it is written with as many places as the grid has. -/
theorem toList_positional_pointed {n g : Nat} (fine : ¬ finest ≤ n) :
    (positional n g).toList = Nat.toDigits 10 (g / Nat.pow 10 (finest - n))
      ++ '.' :: (padded (finest - n) (g % Nat.pow 10 (finest - n))).toList := by
  rw [positional, if_neg fine]
  dsimp only
  rw [String.toList_append, String.toList_append, Nat.toList_repr, List.append_assoc]
  rfl

/-- What is printed for a point is a numeral. -/
theorem isNumeralText_positional (n g : Nat) : IsNumeralText (positional n g).toList := by
  by_cases coarse : finest ≤ n
  · rw [toList_positional_whole coarse]
    exact .inl (isWhole_toDigits _)
  · rw [toList_positional_pointed coarse]
    refine .inr ⟨_, _, .inr (isWhole_toDigits _), .of_digits isDigit_of_mem_padded ?_, rfl⟩
    rw [toList_padded]
    exact List.append_ne_nil_of_right_ne_nil _ Nat.toDigits_ne_nil

/-- The text of a point stands for the point. -/
theorem ofNumeral_positional (n g : Nat) : Decimal.ofNumeral (positional n g).toList =
    if finest ≤ n then ⟨g * Nat.pow 10 (n - finest), 0⟩ else ⟨g, -((finest - n : Nat) : Int)⟩ := by
  split_ifs with coarse
  · rw [toList_positional_whole coarse, Decimal.ofNumeral_digits isDigit_of_mem_toDigits,
      Decimal.ofDigits_toDigits]
  · have places : 0 < finest - n := Nat.sub_pos_of_lt (Nat.lt_of_not_le coarse)
    have fits := Nat.mod_lt g (ten_pow_pos (finest - n))
    rw [toList_positional_pointed coarse,
      Decimal.ofNumeral_point isDigit_of_mem_toDigits isDigit_of_mem_padded,
      Decimal.ofDigits_append, ofDigits_padded, Decimal.ofDigits_toDigits,
      length_toList_padded fits places, Nat.div_add_mod']

/-- A quotient that is a point which rounds to a rank is rounded to it. -/
theorem nearestRank_of_roundsTo {rank p numerator denominator : Nat} (positive : 0 < rank)
    (finite : rank < infinityRank) (rounds : RoundsTo rank p) (divides : 0 < denominator)
    (same : 2 * (numerator * Nat.pow 2 1074) * Nat.pow 10 finest = p * denominator) :
    Binary64.nearestRank numerator denominator = rank := by
  have scale := ten_pow_pos finest
  -- both sides of a comparison, from the unit of points to multiples of the denominator
  have scaled (r : Nat) : halfway r * denominator
      = (units r + units (r + 1)) * denominator * Nat.pow 10 finest := Nat.mul_right_comm ..
  have back := Nat.sub_add_cancel positive
  unfold RoundsTo at rounds
  split_ifs at rounds with even
  · refine Binary64.nearestRank_eq positive finite ?_ ?_ divides
    · have le := Nat.mul_le_mul_right denominator rounds.1
      rw [scaled, ← same, back] at le
      have := Nat.le_of_mul_le_mul_right le scale
      omega
    · have le := Nat.mul_le_mul_right denominator rounds.2
      rw [scaled, ← same] at le
      have := Nat.le_of_mul_le_mul_right le scale
      omega
  · refine Binary64.nearestRank_eq positive finite ?_ ?_ divides
    · have lt := Nat.mul_lt_mul_of_pos_right rounds.1 divides
      rw [scaled, ← same, back] at lt
      have := Nat.lt_of_mul_lt_mul_right lt
      omega
    · have lt := Nat.mul_lt_mul_of_pos_right rounds.2 divides
      rw [scaled, ← same] at lt
      have := Nat.lt_of_mul_lt_mul_right lt
      omega

/-- A point that a positive rank is rounded from is not zero. -/
theorem pos_of_roundsTo {rank n g : Nat} (positive : 0 < rank)
    (rounds : RoundsTo rank (point n g)) : 0 < g := by
  have first : 0 < halfway (rank - 1) := by
    rw [halfway, Nat.sub_add_cancel positive]
    exact Nat.mul_pos (Nat.add_pos_right _ (Nat.zero_lt_of_lt (units_pred_lt_units positive)))
      (ten_pow_pos finest)
  refine Nat.pos_of_ne_zero ?_
  rintro rfl
  rw [point_eq_mul, Nat.zero_mul] at rounds
  unfold RoundsTo at rounds
  split_ifs at rounds <;> omega

/-- Doubling a half-way point takes one more power of two. -/
theorem two_mul_units (k : Nat) : 2 * (k * Nat.pow 2 1074) = k * Nat.pow 2 1075 := by
  have doubled : Nat.pow 2 1075 = 2 * Nat.pow 2 1074 := by decide +kernel
  rw [doubled, Nat.mul_left_comm]

/-- A point that rounds to a rank is printed as a numeral that is read as the rank. -/
theorem nearestRank_ofNumeral_positional {rank n g : Nat} (positive : 0 < rank)
    (finite : rank < infinityRank) (rounds : RoundsTo rank (point n g)) :
    (Decimal.ofNumeral (positional n g).toList).nearestRank = rank := by
  have some : 0 < g := pos_of_roundsTo positive rounds
  have powers (a b : Nat) : Nat.pow 10 (a + b) = Nat.pow 10 a * Nat.pow 10 b := Nat.pow_add 10 a b
  rw [ofNumeral_positional]
  split_ifs with coarse
  · obtain ⟨k, rfl⟩ := Nat.exists_eq_add_of_le' coarse
    rw [Nat.add_sub_cancel]
    refine (Decimal.nearestRank_whole (Nat.mul_pos some (ten_pow_pos k))).trans ?_
    refine nearestRank_of_roundsTo positive finite rounds Nat.one_pos ?_
    rw [two_mul_units, point, powers, Nat.mul_one]
    generalize Nat.pow 2 1075 = scale
    ac_rfl
  · obtain ⟨places, split⟩ := Nat.exists_eq_add_one.mpr (Nat.sub_pos_of_lt (Nat.lt_of_not_le coarse))
    have all : finest = n + (places + 1) := by omega
    have few : places < 400 := Nat.lt_of_lt_of_le (by omega : places < finest) (by decide)
    rw [split, Int.neg_ofNat_succ, Decimal.nearestRank_pointed some few]
    refine nearestRank_of_roundsTo positive finite rounds (ten_pow_pos _) ?_
    rw [two_mul_units, point, all, powers]
    generalize Nat.pow 2 1075 = scale
    ac_rfl

/-! ## Printing and reading -/

/-- The text of a magnitude is that of the point the search ends at. -/
theorem magnitudeText_positional {rank : Nat} (positive : 0 < rank) (finite : rank < infinityRank) :
    magnitudeText rank = positional (search rank coarsest).1 (search rank coarsest).2 := by
  rw [magnitudeText, if_neg (Nat.ne_of_gt positive), if_neg (Nat.ne_of_lt finite)]

/-- **The text of a magnitude is a numeral.** -/
theorem isNumeralText_magnitudeText {rank : Nat} (finite : rank < infinityRank) :
    IsNumeralText (magnitudeText rank).toList := by
  rcases Nat.eq_zero_or_pos rank with rfl | positive
  · exact .inl (.inl rfl)
  · rw [magnitudeText_positional positive finite]
    exact isNumeralText_positional _ _

/-- **The text of a magnitude is read as that magnitude.** -/
theorem nearestRank_magnitudeText {rank : Nat} (finite : rank < infinityRank) :
    (Decimal.ofNumeral (magnitudeText rank).toList).nearestRank = rank := by
  rcases Nat.eq_zero_or_pos rank with rfl | positive
  · rfl
  · rw [magnitudeText_positional positive finite]
    exact nearestRank_ofNumeral_positional positive finite (search_roundsTo positive coarsest)

end Shortest

end Scriptlet
