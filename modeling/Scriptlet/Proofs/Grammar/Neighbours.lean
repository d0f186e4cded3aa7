import Mathlib.Data.List.Chain
import Scriptlet.Proofs.Grammar.Completeness

/-!
# What stands next to what

A function ends with a brace and begins with its word, and it is an operand only in parentheses. So
in what derives, no operator stands right behind a closing brace, and none right in front of the
word `function` (`Derivation.fits`).
-/

namespace Scriptlet

namespace TokenKind

/-- Kinds that stand for operators. -/
def IsOperator (kind : TokenKind) : Prop := ∃ op : BinaryOp, kind = op.token

/-- Whether two kinds may stand next to each other, as far as functions and operators go. -/
structure Fits (k l : TokenKind) : Prop where
  behindBrace : k = .rightBrace → ¬ l.IsOperator
  beforeFunction : l = .functionWord → ¬ k.IsOperator

/-- Kinds that are neither operators nor at the border of a function. -/
def IsNeutral : TokenKind → Prop
  | identifier _ | assign | leftParen | rightParen | leftBrace | comma | newLine => True
  | ifWord | returnWord => True
  | _ => False

/-- A neutral kind is no operator. -/
theorem IsNeutral.not_isOperator {kind : TokenKind} (neutral : kind.IsNeutral) :
    ¬ kind.IsOperator := by
  rintro ⟨op, rfl⟩
  cases op <;> exact neutral

/-- A neutral kind fits whatever stands behind it. -/
theorem IsNeutral.fits_left {k : TokenKind} (neutral : k.IsNeutral) (l : TokenKind) : k.Fits l :=
  ⟨fun same => (same ▸ neutral).elim, fun _ => neutral.not_isOperator⟩

theorem IsNeutral.fits_right {l : TokenKind} (neutral : l.IsNeutral) (k : TokenKind) : k.Fits l :=
  ⟨fun _ => neutral.not_isOperator, fun same => (same ▸ neutral).elim⟩

/-- A brace is no operator. -/
theorem not_isOperator_rightBrace : ¬ rightBrace.IsOperator := by
  rintro ⟨op, same⟩
  cases op <;> cases same

/-- The word of a function is none either. -/
theorem not_isOperator_functionWord : ¬ functionWord.IsOperator := by
  rintro ⟨op, same⟩
  cases op <;> cases same

/-- Everything may stand in front of a closing brace. -/
theorem fits_rightBrace (k : TokenKind) : k.Fits .rightBrace :=
  ⟨fun _ => not_isOperator_rightBrace, nofun⟩

/-- Everything may stand behind the word of a function. -/
theorem functionWord_fits (l : TokenKind) : functionWord.Fits l :=
  ⟨nofun, fun _ => not_isOperator_functionWord⟩

end TokenKind

open TokenKind

variable {ks ls : List TokenKind} {k : TokenKind} {phrase : Phrase}

/-- A neutral kind may be put in front of kinds that fit. -/
theorem isChain_neutral_cons (neutral : k.IsNeutral) (rest : ks.IsChain Fits) :
    (k :: ks).IsChain Fits :=
  List.isChain_cons.mpr ⟨fun l _ => neutral.fits_left l, rest⟩

/-- A neutral kind may be put between kinds that fit. -/
theorem isChain_neutral_between (first : ks.IsChain Fits) (neutral : k.IsNeutral)
    (second : ls.IsChain Fits) : (ks ++ k :: ls).IsChain Fits := by
  refine List.isChain_append.mpr ⟨first, isChain_neutral_cons neutral second, ?_⟩
  intro l _ k' front
  cases Option.mem_some.mp front
  exact neutral.fits_right l

/-- An operator may be put in front of an operand. -/
theorem isChain_operator_cons (op : BinaryOp) (rest : ks.IsChain Fits)
    (begins : ∃ k ls, ks = k :: ls ∧ k.BeginsOperand) : (op.token :: ks).IsChain Fits := by
  obtain ⟨k, ls, rfl, begins⟩ := begins
  refine List.isChain_cons_cons.mpr ⟨⟨fun brace => ?_, fun word => ?_⟩, rest⟩
  · cases op <;> cases brace
  · exact absurd word (begins.ne id)

/-- An operator may be put behind what does not end with a brace and in front of an operand. -/
theorem isChain_operator_between (op : BinaryOp) (first : ks.IsChain Fits)
    (ends : ∃ ms k, ks = ms ++ [k] ∧ k ≠ .rightBrace) (second : ls.IsChain Fits)
    (begins : ∃ k ms, ls = k :: ms ∧ k.BeginsOperand) : (ks ++ op.token :: ls).IsChain Fits := by
  refine List.isChain_append.mpr ⟨first, isChain_operator_cons op second begins, ?_⟩
  obtain ⟨ms, k, rfl, other⟩ := ends
  intro k' last l front
  rw [List.getLast?_concat] at last
  cases Option.mem_some.mp last
  cases Option.mem_some.mp front
  exact ⟨fun brace => absurd brace other, fun word => by cases op <;> cases word⟩

/-- Parameters between commas fit. -/
theorem isChain_parameterKinds (parameters : List String) :
    (parameterKinds parameters).IsChain Fits := by
  induction parameters with
  | nil => exact .nil
  | cons name rest ih =>
    cases rest with
    | nil => exact .singleton _
    | cons next rest =>
      exact isChain_neutral_cons trivial (isChain_neutral_cons trivial ih)

namespace Derivation

/-- Every phrase with an operand at its end ends with another kind than a brace. -/
theorem ends_operand (r : Derivation ks phrase) (operand : slack phrase = 1) :
    ∃ ls k, ks = ls ++ [k] ∧ k ≠ .rightBrace := by
  induction r with
  | number text => exact ⟨[], _, rfl, nofun⟩
  | name x => exact ⟨[], _, rfl, nofun⟩
  | call name r => exact ⟨_ :: _ :: _, _, rfl, nofun⟩
  | group r => exact ⟨_ :: _, _, rfl, nofun⟩
  | base r ih | unsigned r ih => exact ih rfl
  | single left r ih => exact ih (slack_operand ..)
  | sign op r ih =>
    obtain ⟨ls, k, rfl, other⟩ := ih rfl
    exact ⟨_ :: ls, k, rfl, other⟩
  | @power ks _ _ _ r s _ ih =>
    obtain ⟨ls, k, rfl, other⟩ := ih rfl
    exact ⟨ks ++ .power :: ls, k, by rw [List.append_assoc, List.cons_append], other⟩
  | @fold _ ks _ _ _ op left same r s _ ih =>
    obtain ⟨ls, k, rfl, other⟩ := ih (slack_operand ..)
    exact ⟨ks ++ op.token :: ls, k, by rw [List.append_assoc, List.cons_append], other⟩
  | _ => cases operand

/-- **Operators keep away from functions.** -/
theorem fits (r : Derivation ks phrase) : ks.IsChain Fits := by
  induction r with
  | number | name => exact .singleton _
  | call name r ih =>
    exact isChain_neutral_cons trivial (isChain_neutral_cons trivial
      (isChain_neutral_between ih trivial .nil))
  | group r ih => exact isChain_neutral_cons trivial (isChain_neutral_between ih trivial .nil)
  -- An operator stands between operands here. The first of these does not end with a brace, and the
  -- second does not begin with the word of a function.
  | power r s base exponent =>
    exact isChain_operator_between .power base (r.ends_operand rfl) exponent (s.begins_operand rfl)
  | sign op r ih =>
    cases op with
    | plus => exact isChain_operator_cons .add ih (r.begins_operand rfl)
    | minus => exact isChain_operator_cons .subtract ih (r.begins_operand rfl)
  | fold op left same r s chain operand =>
    exact isChain_operator_between op chain (r.ends_operand rfl) operand
      (s.begins_operand (slack_operand ..))
  | noArguments | noStatements => exact .nil
  | nextArgument r s first rest | nextStatement r s first rest =>
    exact isChain_neutral_between first trivial rest
  | assign name r ih => exact isChain_neutral_cons trivial (isChain_neutral_cons trivial ih)
  | anonymous r ih => exact List.isChain_cons.mpr ⟨fun l _ => functionWord_fits l, ih⟩
  | block r ih =>
    refine isChain_neutral_cons trivial (List.isChain_append.mpr ⟨ih, .singleton _, ?_⟩)
    intro k _ l front
    cases Option.mem_some.mp front
    exact fits_rightBrace k
  | function parameters r ih =>
    exact isChain_neutral_cons trivial
      (isChain_neutral_between (isChain_parameterKinds parameters) trivial ih)
  | declaration name r ih =>
    exact List.isChain_cons.mpr ⟨fun l _ => functionWord_fits l, isChain_neutral_cons trivial ih⟩
  | conditional r s condition body =>
    exact isChain_neutral_cons trivial (isChain_neutral_cons trivial
      (isChain_neutral_between condition trivial body))
  | result r ih | newLine r ih => exact isChain_neutral_cons trivial ih
  | _ => assumption

end Derivation
end Scriptlet
