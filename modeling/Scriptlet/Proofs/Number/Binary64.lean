import Mathlib
import Scriptlet.Number.Decimal

/-!
# The numbers of ranks

`ofRank` makes a number of bits, and all bits that stand for no number are made into the same ones.
Up to the rank of infinity that does not occur: the number of a rank has no sign, and is a number
from zero up (`isNegative_ofRank`, `zero_le_ofRank`).

A finite number is the number of its rank, or that number negated: negation changes the sign and
nothing else, also of a zero (`ofRank_rank`, `neg_ofRank_rank`).

A decimal is rounded to such a rank (`Decimal.nearestRank_le`).
-/

namespace Scriptlet

namespace Binary64

open Float.Model

variable {r : Nat}

/-! ## The fields of a word -/

/-- The exponent is eleven bits, above those of the mantissa. -/
theorem toNat_unpackExponent (b : BitVec Format.binary64.numBits) :
    (UnpackedFloat.unpackExponent b).toNat = b.toNat / 2 ^ 52 % 2 ^ 11 := by
  rw [UnpackedFloat.unpackExponent_def, BitVec.extractLsb'_toNat, Nat.shiftRight_eq_div_pow]

/-- The mantissa is the lowest 52 bits. -/
theorem toNat_unpackMantissa (b : BitVec Format.binary64.numBits) :
    (UnpackedFloat.unpackMantissa b).toNat = b.toNat % 2 ^ 52 := by
  rw [UnpackedFloat.unpackMantissa_def, BitVec.extractLsb'_toNat, Nat.shiftRight_zero]

/-- The sign is the bit above the exponent. -/
theorem toNat_unpackSign (b : BitVec Format.binary64.numBits) :
    (UnpackedFloat.unpackSign b).toNat = b.toNat / 2 ^ 63 % 2 := by
  rw [UnpackedFloat.unpackSign_def, BitVec.extractLsb'_toNat, Nat.shiftRight_eq_div_pow]
  rfl

/-- Words that differ in the sign only are unpacked to numbers that differ in it only. -/
theorem neg_unpack {b c : BitVec Format.binary64.numBits} (plus : b.toNat < 2 ^ 63)
    (minus : c.toNat = b.toNat + 2 ^ 63) :
    (UnpackedFloat.unpack .binary64 b).neg = UnpackedFloat.unpack .binary64 c := by
  have mantissa : UnpackedFloat.unpackMantissa b = UnpackedFloat.unpackMantissa c :=
    BitVec.eq_of_toNat_eq (by rw [toNat_unpackMantissa, toNat_unpackMantissa]; omega)
  have exponent : UnpackedFloat.unpackExponent b = UnpackedFloat.unpackExponent c :=
    BitVec.eq_of_toNat_eq (by rw [toNat_unpackExponent, toNat_unpackExponent]; omega)
  have unsigned : UnpackedFloat.unpackSign b = 0#1 := by
    refine BitVec.eq_of_toNat_eq ?_
    rw [toNat_unpackSign]
    change _ = 0
    omega
  have signed : UnpackedFloat.unpackSign c = 1#1 := by
    refine BitVec.eq_of_toNat_eq ?_
    have bound : c.toNat < 2 ^ 64 := c.isLt
    rw [toNat_unpackSign]
    change _ = 1
    omega
  unfold UnpackedFloat.unpack
  simp only [unsigned, signed, mantissa, exponent]
  split_ifs <;> rfl

/-! ## Ranks -/

/-- Bits up to those of infinity stand for a number. -/
theorem isNaNBits_ofNat (number : r ≤ infinityRank) :
    UnpackedFloat.isNaNBits (.ofNat Format.binary64.numBits r) = false := by
  have small : r < 2 ^ Format.binary64.numBits := number.trans_lt (by decide)
  rw [UnpackedFloat.isNaNBits, decide_eq_false_iff_not]
  rintro ⟨exponent, mantissa⟩
  replace exponent := congrArg BitVec.toNat exponent
  rw [toNat_unpackExponent, BitVec.toNat_ofNat, Nat.mod_eq_of_lt small] at exponent
  rw [← BitVec.toNat_ne_iff_ne, toNat_unpackMantissa, BitVec.toNat_ofNat,
    Nat.mod_eq_of_lt small] at mantissa
  -- the greatest exponent is that of infinity, the first rank that has it
  change r / 2 ^ 52 % 2 ^ 11 = 2047 at exponent
  change r % 2 ^ 52 ≠ 0 at mantissa
  have bound : r ≤ 2047 * 2 ^ 52 := number
  omega

/-- Ranks of numbers are below the bit of the sign. -/
theorem lt_signBit (number : r ≤ infinityRank) : r < signBit := number.trans_lt (by decide)

/-- Ranks of numbers have no sign. -/
theorem unpackSign_ofNat (number : r ≤ infinityRank) :
    UnpackedFloat.unpackSign (.ofNat Format.binary64.numBits r) = 0#1 := by
  have small : r < 2 ^ Format.binary64.numBits := number.trans_lt (by decide)
  refine BitVec.eq_of_toNat_eq ?_
  rw [toNat_unpackSign, BitVec.toNat_ofNat, Nat.mod_eq_of_lt small]
  change r / signBit % 2 = 0
  rw [Nat.div_eq_of_lt (lt_signBit number)]

/-- The bits of the number of a rank are the rank. -/
theorem toBits_ofRank (number : r ≤ infinityRank) : (ofRank r).toBits = UInt64.ofNat r := by
  have packed := UnpackedFloat.pack_unpack (.ofNat Format.binary64.numBits r)
  rw [isNaNBits_ofNat number] at packed
  exact UInt64.toBitVec_inj.mp packed

/-- The same for the bits as a natural number. -/
theorem toNat_toBits_ofRank (number : r ≤ infinityRank) : (ofRank r).toBits.toNat = r := by
  have small : r < 2 ^ 64 := number.trans_lt (by decide)
  rw [toBits_ofRank number, UInt64.toNat_ofNat', Nat.mod_eq_of_lt small]

/-- The number of a rank is not negative. -/
theorem isNegative_ofRank (number : r ≤ infinityRank) : isNegative (ofRank r) = false := by
  rw [isNegative, toNat_toBits_ofRank number]
  exact decide_eq_false (lt_signBit number).not_ge

/-! ## Order -/

/-- Whatever is a number and has no sign is from zero up. -/
theorem zero_le_unpack {bits : BitVec Format.binary64.numBits}
    (number : UnpackedFloat.isNaNBits bits = false)
    (unsigned : UnpackedFloat.unpackSign bits = 0#1) :
    (UnpackedFloat.zero .positive).le (UnpackedFloat.unpack .binary64 bits) = true := by
  rw [UnpackedFloat.isNaNBits, decide_eq_false_iff_not, not_and_not_right] at number
  unfold UnpackedFloat.unpack
  rw [unsigned]
  dsimp only
  split_ifs with full empty zero
  · rfl
  · exact absurd (number full) empty
  · rfl
  · rfl
  · rfl

/-- The order of floats, on what they unpack to. -/
theorem zero_le_iff {x : Float} :
    0 ≤ x ↔ (UnpackedFloat.zero .positive).le x.toModel.unpack = true :=
  decide_eq_true_iff (p := (0 : Float).toModel ≤ x.toModel)

/-- The number of a rank is from zero up. -/
theorem zero_le_ofRank (number : r ≤ infinityRank) : 0 ≤ ofRank r := by
  rw [zero_le_iff, Float.Model.unpack, show (ofRank r).toModel.toBits = _ from toBits_ofRank number]
  exact zero_le_unpack (isNaNBits_ofNat number) (unpackSign_ofNat number)

/-- What is no number is not compared with any. -/
theorem isNaN_of_zero_le {x : Float} (compared : 0 ≤ x) : x.isNaN = false := by
  rw [zero_le_iff] at compared
  change x.toModel.unpack.isNaN = false
  cases unpacked : x.toModel.unpack with
  | notANumber =>
    rw [unpacked] at compared
    cases compared
  | _ => rfl

/-! ## Finite numbers -/

variable {x : Float}

/-- A finite number has an exponent that is not all ones. -/
theorem unpackExponent_ne (finite : x.isFinite = true) :
    @UnpackedFloat.unpackExponent .binary64 x.toBits.toBitVec ≠ -1#_ := by
  intro full
  change (UnpackedFloat.unpack .binary64 x.toBits.toBitVec).isFinite = true at finite
  unfold UnpackedFloat.unpack at finite
  simp only [full, if_true] at finite
  split_ifs at finite <;> cases finite

/-- Finite numbers have ranks below that of infinity. -/
theorem rank_lt (finite : x.isFinite = true) : rank x < infinityRank := by
  have exponent := unpackExponent_ne finite
  rw [← BitVec.toNat_ne_iff_ne, toNat_unpackExponent] at exponent
  change x.toBits.toNat / 2 ^ 52 % 2 ^ 11 ≠ 2047 at exponent
  change x.toBits.toNat % 2 ^ 63 < 2047 * 2 ^ 52
  omega

/-- A finite number without sign is the number of its rank. -/
theorem ofRank_rank (finite : x.isFinite = true) (positive : isNegative x = false) :
    ofRank (rank x) = x := by
  have small : x.toBits.toNat < signBit := Nat.not_le.mp (of_decide_eq_false positive)
  rw [← Float.toBits_inj, toBits_ofRank (rank_lt finite).le, rank, Nat.mod_eq_of_lt small,
    UInt64.ofNat_toNat]

/-- **Negation sets the sign.** A finite number with a sign is the number of its rank, negated. -/
theorem neg_ofRank_rank (finite : x.isFinite = true) (negative : isNegative x = true) :
    -ofRank (rank x) = x := by
  have large : 2 ^ 63 ≤ x.toBits.toNat := of_decide_eq_true negative
  have word := x.toBits.toNat_lt
  have bits := toNat_toBits_ofRank (rank_lt finite).le
  have unpacked : (UnpackedFloat.unpack .binary64 (ofRank (rank x)).toBits.toBitVec).neg
      = UnpackedFloat.unpack .binary64 x.toBits.toBitVec := by
    refine neg_unpack ?_ ?_
    · exact bits.trans_lt (lt_signBit (rank_lt finite).le)
    · change x.toBits.toNat = (ofRank (rank x)).toBits.toNat + 2 ^ 63
      rw [bits]
      change x.toBits.toNat = x.toBits.toNat % 2 ^ 63 + 2 ^ 63
      omega
  have number : @UnpackedFloat.isNaNBits .binary64 x.toBits.toBitVec = false :=
    decide_eq_false fun nan => unpackExponent_ne finite nan.1
  have packed := @UnpackedFloat.pack_unpack .binary64 x.toBits.toBitVec
  rw [number] at packed
  refine Float.toBits_inj.mp (UInt64.toBitVec_inj.mp ?_)
  exact (congrArg (UnpackedFloat.pack .binary64) unpacked).trans (packed (by decide))

end Binary64

/-- A decimal is rounded to a number, or to infinity. -/
theorem Decimal.nearestRank_le (d : Decimal) : d.nearestRank ≤ Binary64.infinityRank := by
  unfold nearestRank
  split
  · exact Nat.zero_le _
  · split_ifs
    · exact le_rfl
    · exact Nat.min_le_right _ _
  · split_ifs
    · exact Nat.zero_le _
    · exact Nat.min_le_right _ _

end Scriptlet
