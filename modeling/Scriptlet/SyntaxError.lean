import Scriptlet.Token

/-!
# What can be wrong with a source text

Every cause carries the location it is reported at, and `message` is the only place where a cause
is put into words.
-/

namespace Scriptlet

/-- What a reader of tokens was prepared to take. -/
inductive Expected where
  | token (kind : TokenKind)
  | identifier
  | expression
deriving DecidableEq

/-- The reasons for which a source text is refused. -/
inductive SyntaxError where
  /-- A character that no word can hold at this place. -/
  | illegalSymbol (symbol : Char) (location : Location)
  /-- The text ends within a word. -/
  | unterminatedLiteral (text : String) (location : Location)
  /-- A word other than the expected one. -/
  | unexpectedToken (expected : Expected) (found : TokenKind) (location : Location)
  /-- A number token whose text is no number. -/
  | invalidNumeral (text : String) (location : Location)
  /-- More levels open at once than the limit allows. -/
  | nestingTooDeep (limit : Nat) (location : Location)
deriving DecidableEq

namespace Expected

/-- An expectation in words. -/
def describe : Expected → String
  | token kind => kind.describe
  | identifier => "'Identifier' literal"
  | expression => "expression"

end Expected

namespace SyntaxError

/-- The place a cause is reported at. -/
def location : SyntaxError → Location
  | illegalSymbol _ l => l
  | unterminatedLiteral _ l => l
  | unexpectedToken _ _ l => l
  | invalidNumeral _ l => l
  | nestingTooDeep _ l => l

/-- A cause in words, without its place. -/
def complaint : SyntaxError → String
  | illegalSymbol c _ => "Unrecognized symbol '" ++ c.toString ++ "'"
  | unterminatedLiteral text _ => "Unterminated literal '" ++ text ++ "'"
  | unexpectedToken expected found _ =>
    "Expected " ++ expected.describe ++ " but got " ++ found.describe
  | invalidNumeral text _ => "Invalid numeral '" ++ text ++ "'"
  | nestingTooDeep limit _ => "Nesting deeper than " ++ limit.repr ++ " levels"

/-- A cause in words, with its place. -/
def message (e : SyntaxError) : String :=
  e.complaint ++ " at " ++ e.location.describe

end SyntaxError
end Scriptlet
