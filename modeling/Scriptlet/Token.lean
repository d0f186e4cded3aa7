import Scriptlet.Location

/-!
# Tokens

The words of the language, without and with the place where they stand. A number and an identifier
carry the text they were written with; every other kind has one spelling of its own, except that a
statement also ends at a semicolon.
-/

namespace Scriptlet

/-- The kinds of words that a source text is made of. -/
inductive TokenKind where
  | number (text : String)
  | identifier (name : String)
  | assign
  | plus
  | minus
  | asterisk
  | slash
  | power
  | less
  | lessEqual
  | equal
  | greater
  | greaterEqual
  | leftParen
  | rightParen
  | leftBrace
  | rightBrace
  | comma
  | newLine
  | functionWord
  | ifWord
  | returnWord
  | endOfText
deriving DecidableEq

/-- The groups that a message sorts token kinds into. -/
inductive TokenCategory where
  | literal
  | operator
  | delimiter
  | keyword
deriving DecidableEq

/-- A word and the place of its first character. -/
structure Token where
  kind : TokenKind
  location : Location
deriving DecidableEq

namespace TokenCategory

/-- The group's name in messages. -/
def name : TokenCategory → String
  | literal => "literal"
  | operator => "operator"
  | delimiter => "delimiter"
  | keyword => "keyword"

end TokenCategory

namespace TokenKind

/-- How a kind is written in a source text; the end is written as nothing. -/
def spelling : TokenKind → String
  | number text => text
  | identifier name => name
  | assign => "="
  | plus => "+"
  | minus => "-"
  | asterisk => "*"
  | slash => "/"
  | power => "**"
  | less => "<"
  | lessEqual => "<="
  | equal => "=="
  | greater => ">"
  | greaterEqual => ">="
  | leftParen => "("
  | rightParen => ")"
  | leftBrace => "\x7b"
  | rightBrace => "\x7d"
  | comma => ","
  | newLine => "\n"
  | functionWord => "function"
  | ifWord => "if"
  | returnWord => "return"
  | endOfText => ""

/-- The group of a kind. -/
def category : TokenKind → TokenCategory
  | number _ | identifier _ => .literal
  | assign | plus | minus | asterisk | slash | power => .operator
  | less | lessEqual | equal | greater | greaterEqual => .operator
  | leftParen | rightParen | leftBrace | rightBrace | comma | newLine | endOfText => .delimiter
  | functionWord | ifWord | returnWord => .keyword

/-- The name of a kind in messages: its spelling where that is fixed and visible. -/
def label : TokenKind → String
  | number _ => "Number"
  | identifier _ => "Identifier"
  | newLine => "NewLine"
  | endOfText => "End"
  | kind => kind.spelling

/-- A kind as messages name it, with its group. -/
def describe (kind : TokenKind) : String :=
  "'" ++ kind.label ++ "' " ++ kind.category.name

/-- The text that a literal was written with; no other kind carries one. -/
def text? : TokenKind → Option String
  | number text => some text
  | identifier name => some name
  | _ => none

/-- The kind of a word made of letters and digits: a keyword, or else an identifier. -/
def ofWord (word : String) : TokenKind :=
  if word = "function" then .functionWord
  else if word = "if" then .ifWord
  else if word = "return" then .returnWord
  else .identifier word

/-- The kind that one character stands for when it is read alone. -/
def ofSymbol? : Char → Option TokenKind
  | '\n' => some newLine
  | ';' => some newLine
  | ',' => some comma
  | '(' => some leftParen
  | ')' => some rightParen
  | '{' => some leftBrace
  | '}' => some rightBrace
  | '+' => some plus
  | '-' => some minus
  | '/' => some slash
  | '*' => some asterisk
  | '<' => some less
  | '>' => some greater
  | '=' => some assign
  | _ => none

/-- The kind that two adjacent characters stand for together. -/
def ofPair? : Char → Char → Option TokenKind
  | '*', '*' => some power
  | '<', '=' => some lessEqual
  | '>', '=' => some greaterEqual
  | '=', '=' => some equal
  | _, _ => none

end TokenKind
end Scriptlet
