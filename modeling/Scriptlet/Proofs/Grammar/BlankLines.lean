import Scriptlet.Proofs.Grammar.Readers

/-!
# Blank lines mean nothing

A line end is needless at the very start, behind another line end and directly behind an opening
brace: nothing but the brace stands on its line. Tokens without such line ends are read as the same
program, or refused for the same reason (`parseTokens_withoutBlankLines`).

Two cursors are compared, one of them in tokens without blank lines (`IsTrimmed`). They show the
same kinds until a line end or an opening brace is taken, and again as soon as the line ends behind
it have been passed over. So this is a property of readers for which line ends are passed over
together, and `PervadesLines` is what there is to show (`pervadesLines_readsAlike`).
-/

namespace Scriptlet

/-! ## Kinds without blank lines -/

/-- Kinds of tokens without the line ends of blank lines. What stands in front of them may leave
their first line `blank`. -/
def withoutBlankLines (blank : Bool) : List TokenKind → List TokenKind
  | [] => []
  | kind :: rest =>
    if kind = .newLine ∧ blank then withoutBlankLines true rest
    else kind :: withoutBlankLines kind.opensLine rest

section

variable {kind : TokenKind} {kinds : List TokenKind}

/-- A kind that is no line end stays. -/
theorem withoutBlankLines_cons_of_ne (blank : Bool) (other : kind ≠ .newLine) :
    withoutBlankLines blank (kind :: kinds) = kind :: withoutBlankLines kind.opensLine kinds :=
  if_neg fun both => other both.1

/-- Behind something on the line, every kind stays. -/
theorem withoutBlankLines_false_cons :
    withoutBlankLines false (kind :: kinds) = kind :: withoutBlankLines kind.opensLine kinds :=
  if_neg fun both => Bool.false_ne_true both.2

/-- A line end of a blank line goes. -/
theorem withoutBlankLines_true_newLine :
    withoutBlankLines true (.newLine :: kinds) = withoutBlankLines true kinds :=
  if_pos ⟨rfl, rfl⟩

/-- On a blank line, the line ends in front count for nothing. -/
theorem withoutBlankLines_true (kinds : List TokenKind) :
    withoutBlankLines true kinds = withoutBlankLines false (kinds.dropWhile (· = .newLine)) := by
  induction kinds with
  | nil => rfl
  | cons kind kinds ih =>
    by_cases line : kind = .newLine
    · subst line
      simp only [withoutBlankLines_true_newLine, List.dropWhile_cons, decide_true, if_true, ih]
    · rw [List.dropWhile_cons_of_neg (by simpa using line), withoutBlankLines_false_cons,
        withoutBlankLines_cons_of_ne _ line]

/-- Behind a line that is blank so far, no line end is left in front. -/
theorem dropWhile_withoutBlankLines (kinds : List TokenKind) :
    (withoutBlankLines true kinds).dropWhile (· = .newLine) = withoutBlankLines true kinds := by
  induction kinds with
  | nil => rfl
  | cons kind kinds ih =>
    by_cases line : kind = .newLine
    · subst line
      rw [withoutBlankLines_true_newLine, ih]
    · rw [withoutBlankLines_cons_of_ne _ line]
      exact List.dropWhile_cons_of_neg (by simpa using line)

end

/-! ## Cursors and replies -/

/-- The same error at another place. -/
def SyntaxError.placedAt (l : Location) : SyntaxError → SyntaxError
  | illegalSymbol symbol _ => illegalSymbol symbol l
  | unterminatedLiteral text _ => unterminatedLiteral text l
  | unexpectedToken expected found _ => unexpectedToken expected found l
  | invalidNumeral text _ => invalidNumeral text l
  | nestingTooDeep limit _ => nestingTooDeep limit l

namespace Cursor

/-- Whether the second cursor shows what the first one does, without blank lines, and has as many
levels open, of as many. -/
structure IsTrimmed (blank : Bool) (c d : Cursor) : Prop where
  kinds : d.tokens.map Token.kind = withoutBlankLines blank (c.tokens.map Token.kind)
  depth : d.depth = c.depth
  limit : d.limit = c.limit

end Cursor

/-- Whether two replies give the same value, at cursors that show the same but for blank lines, or
the same error, perhaps of different places. -/
inductive Reply.Alike {α : Type} : Reply α → Reply α → Prop
  | ok {a : α} {c d : Cursor} : c.IsTrimmed false d → Alike (.ok a c) (.ok a d)
  | error {e f : SyntaxError} {c d : Cursor} :
      e.placedAt .start = f.placedAt .start → Alike (.error e c) (.error f d)

namespace Cursor

variable {blank : Bool} {c d : Cursor}

namespace IsTrimmed

/-- Cursors may be compared with more levels open. -/
theorem under (n : Nat) (same : c.IsTrimmed blank d) : (c.under n).IsTrimmed blank (d.under n) :=
  ⟨same.kinds, congrArg (· + n) same.depth, same.limit⟩

theorem closed (same : c.IsTrimmed blank d) : c.closed.IsTrimmed blank d.closed :=
  ⟨same.kinds, congrArg (· - 1) same.depth, same.limit⟩

/-- Where the line is not blank, the kinds at both cursors are the same. -/
theorem current_eq (same : c.IsTrimmed false d) : d.current.kind = c.current.kind := by
  obtain ⟨tokens, finish, depth, limit⟩ := c
  obtain ⟨others, place, level, bound⟩ := d
  have kinds : others.map Token.kind = withoutBlankLines false (tokens.map Token.kind) := same.kinds
  cases tokens with
  | nil =>
    cases List.map_eq_nil_iff.mp kinds
    rfl
  | cons t rest =>
    rw [List.map_cons, withoutBlankLines_false_cons] at kinds
    obtain ⟨u, others, rfl, first, _⟩ := List.map_eq_cons_iff.mp kinds
    exact first

/-- Behind a token that opens a line, the line is blank. -/
theorem advance (same : c.IsTrimmed false d) :
    c.advance.IsTrimmed c.current.kind.opensLine d.advance := by
  refine ⟨?_, same.depth, same.limit⟩
  obtain ⟨tokens, finish, depth, limit⟩ := c
  obtain ⟨others, place, level, bound⟩ := d
  have kinds : others.map Token.kind = withoutBlankLines false (tokens.map Token.kind) := same.kinds
  cases tokens with
  | nil =>
    cases List.map_eq_nil_iff.mp kinds
    rfl
  | cons t rest =>
    rw [List.map_cons, withoutBlankLines_false_cons] at kinds
    obtain ⟨u, others, rfl, _, later⟩ := List.map_eq_cons_iff.mp kinds
    exact later

/-- Behind the line ends of a blank line the cursors show the same again. -/
theorem skipNewLines (same : c.IsTrimmed true d) :
    c.skipNewLines.IsTrimmed false d.skipNewLines := by
  refine ⟨?_, same.depth, same.limit⟩
  have skipped (tokens : List Token) : (tokens.dropWhile (·.kind = .newLine)).map Token.kind
      = (tokens.map Token.kind).dropWhile (· = .newLine) := by
    rw [List.dropWhile_map]
    rfl
  unfold Cursor.skipNewLines
  rw [skipped, skipped, same.kinds, dropWhile_withoutBlankLines, withoutBlankLines_true]

/-- Where the line is not blank, readers see the same at both cursors. -/
theorem resembles (same : c.IsTrimmed false d) : c.Resembles d := by
  refine ⟨same.current_eq, fun plain => ?_⟩
  have later := same.advance
  rw [plain] at later
  exact later.current_eq

end IsTrimmed

end Cursor

namespace Reply.Alike

variable {α β : Type} {r s : Reply α}

/-- Closing a level keeps replies alike. -/
theorem close (h : r.Alike s) : r.close.Alike s.close := by
  cases h with
  | ok same => exact .ok same.closed
  | error placed => exact .error placed

/-- Replies that are alike may go on alike. -/
theorem andThen {next : α → Cursor → Reply β} (h : r.Alike s)
    (later : ∀ a c d, r = .ok a c → c.IsTrimmed false d → (next a c).Alike (next a d)) :
    (r.andThen next).Alike (s.andThen next) := by
  cases h with
  | ok same => exact later _ _ _ rfl same
  | error placed => exact .error placed

end Reply.Alike

/-! ## Readers -/

namespace Cursor

variable {α : Type} {blank : Bool} {c d : Cursor}

/-- Whether a reader answers alike at a cursor that shows the same but for blank lines. -/
def ReadsAlike (read : Cursor → Reply α) (c : Cursor) : Prop :=
  ∀ d, c.IsTrimmed false d → (read c).Alike (read d)

/-- The level is opened or refused at both cursors alike. -/
theorem alike_deeper {body : Cursor → Reply α} (same : c.IsTrimmed blank d)
    (h : (body (c.under 1)).Alike (body (d.under 1))) :
    (c.deeper body).Alike (d.deeper body) := by
  unfold deeper
  rw [same.depth, same.limit]
  split
  · exact .error rfl
  · exact h.close

/-- Readers answer alike wherever the tokens differ in blank lines only. -/
theorem pervadesLines_readsAlike : PervadesLines fun read c => ReadsAlike read c where
  ok a c d same := .ok same
  refusal expected c d same :=
    .error (congrArg (SyntaxError.unexpectedToken expected · .start) same.current_eq.symm)
  noNumeral _ _ d same := .error rfl
  lookahead {_ read other c} agree h d same := by
    rw [agree d same.resembles, agree c ⟨rfl, fun _ => rfl⟩]
    exact h d same
  advance _ plain h d same := h _ (plain ▸ same.advance)
  -- A line end opens a line, and the reader behind it passes over those that differ.
  newLine {_ c _} first h d same := by
    have later := same.advance
    rw [first] at later
    exact h _ later.skipNewLines
  leftBrace {_ c _} first h d same := by
    have later := same.advance
    rw [first] at later
    exact alike_deeper later (h _ (later.under 1).skipNewLines)
  andThen first later d same :=
    (first d same).andThen fun a m n answer left => later a m answer n left
  deeper h d same := alike_deeper same (h _ (same.under 1))

end Cursor

open Cursor

/-- At the start of the tokens the line is blank. -/
theorem isTrimmed_ofTokens {tokens others : List Token}
    (same : others.map Token.kind = withoutBlankLines true (tokens.map Token.kind)) :
    (ofTokens tokens).IsTrimmed true (ofTokens others) :=
  ⟨same, rfl, rfl⟩

/-- **Blank lines mean nothing.** Tokens without them are read as the same program, or refused for
the same reason: the error is of the same kind, with the same expectation and the same token found,
text of a numeral or limit, perhaps of another place. -/
theorem parseTokens_withoutBlankLines {tokens others : List Token}
    (same : others.map Token.kind = withoutBlankLines true (tokens.map Token.kind)) :
    (parseTokens others).mapError (·.placedAt .start)
      = (parseTokens tokens).mapError (·.placedAt .start) := by
  have start := (isTrimmed_ofTokens same).skipNewLines
  have replies : ((ofTokens tokens).skipNewLines.statementsFrom .endOfText []).val.Alike
      ((ofTokens others).skipNewLines.statementsFrom .endOfText []).val :=
    (pervadesLines_readsAlike.readers _).statementsFrom .endOfText [] _ start
  unfold parseTokens program statements
  generalize ((ofTokens tokens).skipNewLines.statementsFrom .endOfText []).val = r at replies
  generalize ((ofTokens others).skipNewLines.statementsFrom .endOfText []).val = s at replies
  cases replies with
  | ok _ => rfl
  | error placed => exact congrArg Except.error placed.symm

/-- The tokens of a function whose parameters begin on a line of their own, with blank lines in front
of it, in front of them and in its body. -/
def spreadFunction : List Token :=
  [.newLine, .newLine, .functionWord, .identifier "f", .newLine, .newLine, .leftParen, .rightParen,
    .leftBrace, .newLine, .newLine, .rightBrace].map (⟨·, .start⟩)

/-- The same tokens without the blank lines, at another place. -/
def trimmedFunction : List Token :=
  [.functionWord, .identifier "f", .newLine, .leftParen, .rightParen, .leftBrace,
    .rightBrace].map (⟨·, ⟨7, 2, 3⟩⟩)

/-- The line end in front of the parameters is refused in both. -/
theorem parseTokens_spreadFunction :
    trimmedFunction.map Token.kind = withoutBlankLines true (spreadFunction.map Token.kind) ∧
    parseTokens spreadFunction
      = .error (.unexpectedToken (.token .leftParen) .newLine .start) ∧
    (parseTokens trimmedFunction).mapError (·.placedAt .start)
      = .error (.unexpectedToken (.token .leftParen) .newLine .start) := by
  have same : trimmedFunction.map Token.kind
      = withoutBlankLines true (spreadFunction.map Token.kind) := by decide
  have failed : ((ofTokens spreadFunction).skipNewLines.statementsFrom .endOfText []).val
      = .error (.unexpectedToken (.token .leftParen) .newLine .start)
        { ofTokens spreadFunction with tokens := spreadFunction.drop 4 } := by
    rw [val_statementsFrom, if_neg (by decide), val_statement]
    -- behind the word and the name
    show Reply.andThen (Reply.map _ _) _ = _
    rw [val_functionRest]
    rfl
  have refused : parseTokens spreadFunction
      = .error (.unexpectedToken (.token .leftParen) .newLine .start) := by
    unfold parseTokens program statements
    rw [failed]
  refine ⟨same, refused, ?_⟩
  rw [parseTokens_withoutBlankLines same, refused]
  rfl

end Scriptlet
