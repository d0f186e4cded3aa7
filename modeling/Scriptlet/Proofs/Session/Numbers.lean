import Scriptlet.Proofs.Grammar.Acceptance
import Scriptlet.Proofs.Number.Binary64
import Scriptlet.Proofs.Number.Shortest
import Scriptlet.Session

/-!
# Printed numbers, typed back in

What is printed for a finite number is a program. A number without sign is printed as one numeral. The
minus of any other is read as a token of its own and stands in the tree as a sign in front of a
numeral, so it is evaluation that puts it back.
-/

namespace Scriptlet

variable {text : String}

/-- A numeral spells its number. -/
theorem spells_numeral (numeral : IsNumeral text) : Source.Spells text.toList [.number text] := by
  have spelled : (TokenKind.number text).IsSpelled := numeral
  have spells := Source.Spells.nil.spelling spelled fun _ => (Option.not_mem_none _).elim
  rwa [List.append_nil] at spells

/-- An operand with or without signs is a program. -/
theorem parse_eq_ok_of_signed {source : String} {ks : List TokenKind} {e : Expr}
    (spells : Source.Spells source.toList ks) (operand : Derivation ks (.signed e))
    (short : ks.length ≤ maxNesting) : parse source = .ok ⟨[.expression e]⟩ := by
  have r : Derivation ks (.statements [.expression e]) :=
    .lastStatement (.bare (.comparison (.single nofun (.single nofun (.single nofun operand)))))
  exact parse_eq_ok_iff.mpr ⟨_, spells, r, r.levels_le_length.trans short⟩

/-- A numeral is a program by itself. -/
theorem parse_numeral (numeral : IsNumeral text) :
    parse text = .ok ⟨[.expression (.number (.ofLexeme text))]⟩ :=
  parse_eq_ok_of_signed (spells_numeral numeral) (.unsigned (.base (.number numeral)))
    (show 1 ≤ maxNesting by decide)

/-- A minus in front of a numeral is a sign. It is no part of the numeral. -/
theorem parse_minusNumeral (numeral : IsNumeral text) :
    parse ("-" ++ text) = .ok ⟨[.expression (.unary .minus (.number (.ofLexeme text)))]⟩ := by
  have spells : Source.Spells ("-" ++ text).toList [.minus, .number text] := by
    rw [String.toList_append]
    exact (spells_numeral numeral).symbol '-' rfl fun _ _ => rfl
  exact parse_eq_ok_of_signed spells (.sign .minus (.unsigned (.base (.number numeral))))
    (show 2 ≤ maxNesting by decide)

/-- A numeral comes to what it stands for. -/
theorem execute_numeral (numeral : IsNumeral text) (limit : Nat) :
    execute text limit = .ok (.number (Numeral.ofLexeme text).value) := by
  rw [execute, parse_numeral numeral]
  rfl

/-- A numeral with a minus is evaluated to its value negated. -/
theorem execute_minusNumeral (numeral : IsNumeral text) (limit : Nat) :
    execute ("-" ++ text) limit = .ok (.number (-(Numeral.ofLexeme text).value)) := by
  rw [execute, parse_minusNumeral numeral]
  rfl

/-- The text of a magnitude is read back as the magnitude. -/
theorem value_ofLexeme_magnitudeText {rank : Nat} (finite : rank < Binary64.infinityRank) :
    (Numeral.ofLexeme (Shortest.magnitudeText rank)).value = Binary64.ofRank rank :=
  congrArg Binary64.ofRank (Shortest.nearestRank_magnitudeText finite)

/-- **A printed number can be typed back in.** What is printed for a finite number, run as a program,
comes to a number with the same bits: the two zeros stay apart, and the smallest numbers are not
lost. -/
theorem execute_text_number {x : Float} (finite : x.isFinite = true) (limit : Nat) :
    ∃ y, execute (Value.number x).text limit = .ok (.number y) ∧ y.toBits = x.toBits := by
  have rank := Binary64.rank_lt finite
  have numeral := isNumeral_iff.mpr (Shortest.isNumeralText_magnitudeText rank)
  refine ⟨x, ?_, rfl⟩
  rw [Value.text, Shortest.text, if_neg (Nat.not_lt_of_lt rank)]
  split_ifs with negative
  · rw [execute_minusNumeral numeral, value_ofLexeme_magnitudeText rank,
      Binary64.neg_ofRank_rank finite negative]
  · rw [execute_numeral numeral, value_ofLexeme_magnitudeText rank,
      Binary64.ofRank_rank finite (Bool.eq_false_iff.mpr negative)]

/-- The greatest of all negative numbers. -/
theorem execute_text_greatestNegative :
    (Float.ofBits 0x8000000000000001).isFinite = true ∧
      (Value.number (Float.ofBits 0x8000000000000001)).text = "-0." ++ "".pushn '0' 323 ++ "5" ∧
      ∃ y, execute ("-0." ++ "".pushn '0' 323 ++ "5") defaultLimit = .ok (.number y) ∧
        y.toBits = 0x8000000000000001 := by
  have finite : (Float.ofBits 0x8000000000000001).isFinite = true := by decide +kernel
  have printed : (Value.number (Float.ofBits 0x8000000000000001)).text
      = "-0." ++ "".pushn '0' 323 ++ "5" := by decide +kernel
  have bits : (Float.ofBits 0x8000000000000001).toBits = 0x8000000000000001 := by decide +kernel
  obtain ⟨y, ran, same⟩ := execute_text_number finite defaultLimit
  rw [printed] at ran
  exact ⟨finite, printed, y, ran, same.trans bits⟩

end Scriptlet
