import Scriptlet.Proofs.Grammar.WellFormed
import Scriptlet.Proofs.Notation
import Scriptlet.Proofs.Number.Binary64
import Scriptlet.Proofs.Transcript

/-!
# Names and numbers in accepted programs

Two notations of numbers meet in a program: the machine says which texts are number tokens, and
reading says which texts are numbers. The text of a number token is refused only when it is no
number (`persists_isJudged`). But all texts that the machine takes are numbers, so none is refused
(`parse_ne_invalidNumeral`).

The names and numbers of an accepted program are therefore those of the grammar, and each number is
a value from zero up (`Tree.Lettered`).
-/

namespace Scriptlet

/-! ## Numerals that are refused -/

/-- Whether a numeral is refused only where its text is no number. -/
def SyntaxError.IsJudged (e : SyntaxError) : Prop :=
  ∀ text l, e = .invalidNumeral text l → Numeral.ofText? text = none

/-- Every reader judges the text of a number before it refuses it. -/
theorem Cursor.persists_isJudged : Persists fun _ r => ∀ e d, r = .error e d → e.IsJudged := by
  refine persists_errors (fun _ _ _ _ => nofun) ?_ (fun _ _ => nofun) fun _ _ => id
  rintro _ _ _ none _ _ ⟨⟩
  exact none

/-- A text that the parser refuses as a number has no value. -/
theorem ofText?_of_parseTokens {tokens : List Token} {text : String} {l : Location}
    (refused : parseTokens tokens = .error (.invalidNumeral text l)) :
    Numeral.ofText? text = none := by
  unfold parseTokens at refused
  split at refused
  · cases refused
  · next e d failed =>
    cases refused
    exact Cursor.persists_isJudged.pervades.statements .endOfText _ _ d
      (Cursor.program_eq_error_iff.mp failed) text l rfl

/-- The text of a number token is a number. -/
theorem exists_ofText?_of_tokenize {source text : String} {tokens : List Token} {l : Location}
    (read : tokenize source = .ok tokens) (member : ⟨.number text, l⟩ ∈ tokens) :
    ∃ numeral, Numeral.ofText? text = some numeral := by
  obtain ⟨ts, finish, scanned, rfl⟩ := tokenize_eq_ok_iff.mp read
  have number : ⟨.number text, l⟩ ∈ ts := by simpa using member
  exact ⟨_, Numeral.ofText?_of_isNumeral (scanned.lexed.numeral _ number text rfl)⟩

/-- No source is refused for a number, as what is taken for one has a value. -/
theorem parse_ne_invalidNumeral (source text : String) (l : Location) :
    parse source ≠ .error (.invalidNumeral text l) := by
  intro refused
  obtain ⟨_, tokens, read, t, member, rfl⟩ := pointsInto_of_parse refused
  obtain ⟨numeral, number⟩ := exists_ofText?_of_tokenize read member
  rw [parse, read] at refused
  cases number.symm.trans (ofText?_of_parseTokens refused)

/-! ## Names and numbers -/

/-- Whether a numeral is written as the grammar says, and has the value that its text is read as
without underscores: a number, from zero up, without sign. -/
structure Numeral.IsRead (n : Numeral) : Prop where
  written : IsNumeralText n.text.toList
  value_eq : Decimal.readNumber? (n.text.toList.filter (· ≠ '_')) = some n.value
  isNaN : n.value.isNaN = false
  zero_le : 0 ≤ n.value
  unsigned : Binary64.isNegative n.value = false

/-- The value of a numeral is the one nearest to what is written. -/
theorem Numeral.isRead_ofLexeme {text : String} (numeral : IsNumeral text) :
    (ofLexeme text).IsRead where
  written := isNumeral_iff.mp numeral
  value_eq := by
    have read := ofText?_of_isNumeral numeral
    obtain ⟨value, found, same⟩ := Option.map_eq_some_iff.mp read
    rw [← same]
    exact found
  isNaN := Binary64.isNaN_of_zero_le (Binary64.zero_le_ofRank (Decimal.nearestRank_le _))
  zero_le := Binary64.zero_le_ofRank (Decimal.nearestRank_le _)
  unsigned := Binary64.isNegative_ofRank (Decimal.nearestRank_le _)

/-- Whether a node carries names and numbers of the grammar, and has a name of its own exactly where
it declares one. -/
def Tree.Lettered : Tree → Prop
  | .expr (.number numeral) => numeral.IsRead
  | .expr (.variable name) | .expr (.assign name _) | .expr (.call name _) => IsName name
  | .expr (.function signature _) =>
    signature.name = none ∧ ∀ name ∈ signature.parameters, IsName name
  | .stmt (.declaration signature _) =>
    (∃ name, signature.name = some name ∧ IsName name) ∧
      ∀ name ∈ signature.parameters, IsName name
  | _ => True

/-- What is well formed has literals and names that are. -/
theorem Tree.WellFormed.lettered {t : Tree} (h : t.WellFormed) : t.Lettered := by
  unfold WellFormed at h
  unfold Lettered
  split
  · obtain ⟨numeral, same⟩ := h
    rw [same]
    exact Numeral.isRead_ofLexeme numeral
  · exact isIdentifier_iff.mp h
  · exact isIdentifier_iff.mp h
  · exact isIdentifier_iff.mp h
  · exact ⟨h.1, fun name member => isIdentifier_iff.mp (h.2 name member)⟩
  · obtain ⟨⟨name, same, identifier⟩, parameters⟩ := h
    exact ⟨⟨name, same, isIdentifier_iff.mp identifier⟩,
      fun name member => isIdentifier_iff.mp (parameters name member)⟩
  · trivial

/-- **Accepted programs are made of the names and numbers of the grammar.** No text is refused for a
numeral that is no number. In every program that a text is read as, function bodies included, each
numeral has the value that its text stands for, a number from zero up; each name is one of the
grammar; and of functions those that are declared have a name, and others none. -/
theorem parse_lettered (source : String) :
    (∀ text l, parse source ≠ .error (.invalidNumeral text l)) ∧
      ∀ p, parse source = .ok p → ∀ t, p.Contains t → t.Lettered := by
  refine ⟨parse_ne_invalidNumeral source, fun p read t inside => ?_⟩
  obtain ⟨s, member, below⟩ := inside
  exact (parse_wellFormed read s member t below).lettered

/-- A number in the body of a function. -/
theorem parse_lettered_constant :
    (∀ text l, parse "function f(x)\x7b1_0.5\x7d" ≠ .error (.invalidNumeral text l)) ∧
      parse "function f(x)\x7b1_0.5\x7d" = .ok ⟨[.declaration ⟨some "f", ["x"]⟩
        [.expression (.number (.ofLexeme "1_0.5"))]]⟩ ∧
      IsName "f" ∧ IsName "x" ∧ (Numeral.ofLexeme "1_0.5").IsRead := by
  have spells : Source.Spells "function f(x)\x7b1_0.5\x7d".toList [.functionWord, .identifier "f",
      .leftParen, .identifier "x", .rightParen, .leftBrace, .number "1_0.5", .rightBrace] :=
    .cons nofun (fun _ => ⟨_, _, rfl⟩) (.cons nofun (fun _ => ⟨_, _, rfl⟩)
      (.cons nofun (fun _ => ⟨_, _, rfl⟩) (.cons nofun (fun _ => ⟨_, _, rfl⟩)
      (.cons nofun (fun _ => ⟨_, _, rfl⟩) (.cons nofun (fun _ => ⟨_, _, rfl⟩)
      (.cons nofun (fun _ => ⟨_, _, rfl⟩) (.cons nofun (fun _ => ⟨_, _, rfl⟩) .nil)))))))
  have numeral : Derivation [.number "1_0.5"] (.chain .additive (.number (.ofLexeme "1_0.5"))) :=
    .single nofun (.single nofun (.unsigned (.base (.number (by decide)))))
  have r : Derivation _ (.statements [.declaration ⟨some "f", ["x"]⟩
      [.expression (.number (.ofLexeme "1_0.5"))]]) :=
    .lastStatement (.declaration "f" (.function ["x"]
      (.block (.lastStatement (.bare (.comparison (.single nofun numeral)))))))
  have read : parse "function f(x)\x7b1_0.5\x7d" = .ok ⟨[.declaration ⟨some "f", ["x"]⟩
      [.expression (.number (.ofLexeme "1_0.5"))]]⟩ :=
    parse_eq_ok_iff.mpr ⟨_, spells, r, r.levels_le_length.trans (by decide)⟩
  obtain ⟨never, lettered⟩ := parse_lettered "function f(x)\x7b1_0.5\x7d"
  have declared := lettered _ read _ ⟨_, List.mem_cons_self, .root _⟩
  have number := lettered _ read (.expr (.number (.ofLexeme "1_0.5")))
    ⟨_, List.mem_cons_self, .part List.mem_cons_self (.part List.mem_cons_self (.root _))⟩
  obtain ⟨⟨_, ⟨⟩, name⟩, parameters⟩ := declared
  exact ⟨never, read, name, parameters "x" List.mem_cons_self, number⟩

end Scriptlet
