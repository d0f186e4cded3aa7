import Scriptlet.Proofs.Grammar.Reply

/-!
# Recursive descent with a window

The readers of the grammar move a cursor, carry a bound on the tokens they leave, and open and close
levels in pairs. Here the same descent is written as it goes on in place, without any of that. A
`Parser` sees two tokens and an iterator over the others. It counts levels up and down, and those of
a chain of operators are given back all at once. Every loop and every call goes back into
`Routine.body` with nothing that makes it end, so `read` has to say how deep it may go; where this is
too little, the descent is unfinished.

What is done to the window and to the counter is put on record, in order, each with the counter
behind it.
-/

namespace Scriptlet

/-! ## The window -/

/-- The current token, the one behind it, and the tokens that have not been looked at. -/
structure Window where
  current : Token
  next : Token
  rest : List Token

namespace Window

/-- The window at the first of some tokens. -/
def ofTokens (tokens : List Token) : Window :=
  let current := tokens.headD ⟨.endOfText, .start⟩
  ⟨current, tokens.tail.headD ⟨.endOfText, current.location⟩, tokens.tail.tail⟩

/-- The window one token further on. Behind the last token ends are produced, at its place. -/
def advance (w : Window) : Window :=
  ⟨w.next, w.rest.headD ⟨.endOfText, w.next.location⟩, w.rest.tail⟩

end Window

/-! ## The parser -/

/-- A change of the window or of the counter. -/
inductive Move where
  | advance (token : Token)
  | enter
  | leave (levels : Nat)
deriving DecidableEq

/-- A move, and the counter behind it. -/
structure Step where
  move : Move
  depth : Nat
deriving DecidableEq

/-- The window, the counter of levels, and what has been done. -/
structure Parser where
  window : Window
  depth : Nat
  record : List Step

/-- A parser in front of some tokens. -/
def Parser.ofTokens (tokens : List Token) : Parser := ⟨.ofTokens tokens, 0, []⟩

/-- Why there is no value: the tokens are refused, or the descent may go no deeper. -/
inductive Halt where
  | refused (cause : SyntaxError)
  | unfinished

/-- What is done with a parser. -/
abbrev Parse := EStateM Halt Parser

namespace Parse

variable {α : Type}

/-- The current token. -/
def current : Parse Token := do return (← get).window.current

/-- The kinds of the two tokens in the window. -/
def peek : Parse (TokenKind × TokenKind) := do
  let w := (← get).window
  return (w.current.kind, w.next.kind)

/-- Refuses the tokens. -/
def refuse (cause : SyntaxError) : Parse α := throw (.refused cause)

/-- Refuses the current token, where something else was expected. -/
def refuseCurrent (expected : Expected) : Parse α := do
  let token ← current
  refuse (.unexpectedToken expected token.kind token.location)

/-- Moves the window one token further on, and gives the token that was current. -/
def advance : Parse Token := modifyGet fun p =>
  let token := p.window.current
  (token, ⟨p.window.advance, p.depth, p.record ++ [⟨.advance token, p.depth⟩]⟩)

/-- Opens a level, if there may be another one. -/
def enter : Parse Unit := do
  let p ← get
  if maxNesting ≤ p.depth then refuse (.nestingTooDeep maxNesting p.window.current.location)
  else set (⟨p.window, p.depth + 1, p.record ++ [⟨.enter, p.depth + 1⟩]⟩ : Parser)

/-- Gives levels back. -/
def leave (levels : Nat) : Parse Unit := modify fun p =>
  ⟨p.window, p.depth - levels, p.record ++ [⟨.leave levels, p.depth - levels⟩]⟩

/-- Goes on behind a refusal too. -/
def attempt (x : Parse α) : Parse (Except SyntaxError α) := fun p =>
  match x p with
  | .ok a q => .ok (.ok a) q
  | .error (.refused e) q => .ok (.error e) q
  | .error .unfinished q => .error .unfinished q

/-- Gives the value or refuses the tokens after all. -/
def settle : Except SyntaxError α → Parse α
  | .ok a => pure a
  | .error e => refuse e

/-- Does something one level deeper. -/
def nested (x : Parse α) : Parse α := do
  enter
  let result ← attempt x
  leave 1
  settle result

/-- One routine behind another goes on from where the first has ended. -/
theorem bind_apply {β : Type} (x : Parse α) (f : α → Parse β) (p : Parser) :
    (x >>= f) p = match x p with
      | .ok a q => f a q
      | .error e q => .error e q := by
  change EStateM.bind x f p = _
  unfold EStateM.bind
  cases x p <;> rfl

/-- A level is entered if there is room for it. -/
theorem enter_apply (p : Parser) :
    enter p = if maxNesting ≤ p.depth then
        .error (.refused (.nestingTooDeep maxNesting p.window.current.location)) p
      else .ok () ⟨p.window, p.depth + 1, p.record ++ [⟨.enter, p.depth + 1⟩]⟩ := by
  change (if maxNesting ≤ p.depth then _ else _ : Parse Unit) p = _
  split <;> rfl

/-- An attempt ends well however the routine ends. -/
theorem attempt_apply (x : Parse α) (p : Parser) :
    attempt x p = match x p with
      | .ok a q => .ok (.ok a) q
      | .error (.refused e) q => .ok (.error e) q
      | .error .unfinished q => .error .unfinished q := rfl

/-- Takes the current token if it is of a kind. -/
def nextIf (kind : TokenKind) : Parse Bool := do
  if (← current).kind = kind then
    let _ ← advance
    return true
  else return false

/-- Takes the current token if it is of a kind, and else refuses it. -/
def expect (kind : TokenKind) : Parse Unit := do
  if (← current).kind = kind then
    let _ ← advance
  else refuseCurrent (.token kind)

/-- Takes the current token if it is an identifier, and else refuses it. -/
def identifier : Parse String := do
  match (← current).kind with
  | .identifier name =>
    let _ ← advance
    return name
  | _ => refuseCurrent .identifier

/-- Elements up to the closing parenthesis; perhaps none. -/
def sequence (first : Parse (List α)) : Parse (List α) := do
  if ← nextIf .rightParen then return []
  else first

/-- An element, and what comes behind it up to the closing parenthesis. -/
def sequenceFrom (element : Parse α) (again : List α → Parse (List α)) (before : List α) :
    Parse (List α) := do
  let a ← element
  if ← nextIf .comma then again (a :: before)
  else
    expect .rightParen
    return (a :: before).reverse

end Parse

/-! ## Routines -/

/-- The functions and the loops of the descent. A loop carries what it has so far. -/
inductive Routine where
  | newLines
  | statements (stop : TokenKind)
  | statementsFrom (stop : TokenKind) (before : List Stmt)
  | statement
  | block
  | functionRest (name : Option String)
  | parametersFrom (before : List String)
  | expression
  | chain (level : Level)
  | folds (level : Level) (left : Expr) (count : Nat)
  | signed
  | atom
  | argumentsFrom (before : List Expr)

namespace Routine

/-- What a routine gives. The loop of a chain gives the levels that it has opened along with what it
has come to, be that a value or a refusal. -/
@[reducible] def Result : Routine → Type
  | newLines => Unit
  | statements _ | statementsFrom _ _ | block => List Stmt
  | statement => Stmt
  | functionRest _ => Signature × List Stmt
  | parametersFrom _ => List String
  | expression | chain _ | signed | atom => Expr
  | folds _ _ _ => Except SyntaxError Expr × Nat
  | argumentsFrom _ => List Expr

end Routine

section

open Parse Routine

variable (call : (r : Routine) → Parse r.Result)

/-- The operand that a chain begins with. -/
def firstOperand : Level → Parse Expr
  | .comparison => call (chain .additive)
  | .additive => call (chain .multiplicative)
  | .multiplicative => call signed
  | .power => call atom

/-- An operand behind an operator of a chain. -/
def laterOperand : Level → Parse Expr
  | .comparison => call (chain .additive)
  | .additive => call (chain .multiplicative)
  | .multiplicative => call signed
  | .power => call signed

/-- What is done for a routine, where `call` is done for those that it calls. -/
def Routine.body : (r : Routine) → Parse r.Result
  | newLines => do
    if ← nextIf .newLine then call newLines
  | statements stop => do
    call newLines
    call (statementsFrom stop [])
  | statementsFrom stop before => do
    if (← current).kind = stop then return before.reverse
    else
      let s ← call statement
      if (← current).kind = stop then return (s :: before).reverse
      else
        expect .newLine
        call newLines
        call (statementsFrom stop (s :: before))
  | statement => do
    match ← peek with
    | (.functionWord, .identifier _) =>
      expect .functionWord
      let name ← identifier
      let (signature, body) ← call (functionRest (some name))
      return .declaration signature body
    | (.ifWord, _) =>
      expect .ifWord
      expect .leftParen
      let condition ← call expression
      expect .rightParen
      let body ← call block
      return .conditional condition body
    | (.returnWord, _) =>
      expect .returnWord
      let e ← call expression
      return .result e
    | (.leftBrace, _) =>
      let body ← call block
      return .block body
    | _ =>
      let e ← call expression
      return .expression e
  | block => do
    expect .leftBrace
    let body ← nested (call (statements .rightBrace))
    expect .rightBrace
    return body
  | functionRest name => do
    expect .leftParen
    let parameters ← sequence (call (parametersFrom []))
    let body ← call block
    return (⟨name, parameters⟩, body)
  | parametersFrom before =>
    sequenceFrom identifier (fun before => call (parametersFrom before)) before
  | expression => nested do
    match ← peek with
    | (.identifier _, .assign) =>
      let name ← identifier
      expect .assign
      let e ← call expression
      return .assign name e
    | (.functionWord, _) =>
      expect .functionWord
      let (signature, body) ← call (functionRest none)
      return .function signature body
    | _ => call (chain .comparison)
  | chain level => do
    let left ← firstOperand call level
    let (result, count) ← call (folds level left 0)
    leave count
    settle result
  | folds level left count => do
    match level.operator? (← current).kind with
    | none => return (.ok left, count)
    | some op =>
      match ← attempt enter with
      | .error e => return (.error e, count)
      | .ok () =>
        let _ ← advance
        match ← attempt (laterOperand call level) with
        | .ok right => call (folds level (.binary op left right) (count + 1))
        | .error e => return (.error e, count + 1)
  | signed => do
    match (← current).kind with
    | .plus =>
      let _ ← advance
      let operand ← nested (call signed)
      return .unary .plus operand
    | .minus =>
      let _ ← advance
      let operand ← nested (call signed)
      return .unary .minus operand
    | _ => call (chain .power)
  | atom => do
    match ← peek with
    | (.number _, _) =>
      let token ← advance
      match token.kind with
      | .number text =>
        match Numeral.ofText? text with
        | some numeral => return .number numeral
        | none => refuse (.invalidNumeral text token.location)
      | other => refuse (.unexpectedToken .expression other token.location)
    | (.identifier _, .leftParen) =>
      let name ← identifier
      expect .leftParen
      let arguments ← sequence (call (argumentsFrom []))
      return .call name arguments
    | (.identifier _, _) =>
      let name ← identifier
      return .variable name
    | (.leftParen, _) =>
      expect .leftParen
      let e ← call expression
      expect .rightParen
      return e
    | _ => refuseCurrent .expression
  | argumentsFrom before =>
    sequenceFrom (call expression) (fun before => call (argumentsFrom before)) before

end

/-- What is done for a routine, in calls and loops of a depth below `room`. -/
def read : (room : Nat) → (r : Routine) → Parse r.Result
  | 0, _ => throw .unfinished
  | room + 1, r => r.body (read room)

/-! ## Calls from outside -/

/-- What a parser can be asked for. -/
inductive Entry where
  | program
  | statement
  | expression
  | statements (stop : TokenKind)

/-- What has been read. -/
inductive Parsed where
  | program (p : Program)
  | statement (s : Stmt)
  | expression (e : Expr)
  | statements (body : List Stmt)

/-- Reads what is asked for. -/
def Entry.read (room : Nat) : Entry → Parse Parsed
  | program => do return .program ⟨← Scriptlet.read room (.statements .endOfText)⟩
  | statement => do return .statement (← Scriptlet.read room .statement)
  | expression => do return .expression (← Scriptlet.read room .expression)
  | statements stop => do return .statements (← Scriptlet.read room (.statements stop))

/-- Reads one thing after the other with one parser, going on behind a refusal. -/
def readEach (room : Nat) : List Entry → Parser → List (Except Halt Parsed) × Parser
  | [], p => ([], p)
  | entry :: rest, p =>
    match entry.read room p with
    | .ok a q => (readEach room rest q).map (.ok a :: ·) id
    | .error e q => (readEach room rest q).map (.error e :: ·) id

/-- The value or the error that a reader answers. -/
def Reply.outcome {α : Type} : Reply α → Except SyntaxError α
  | .ok a _ => .ok a
  | .error e _ => .error e

namespace Cursor

/-- Reads what is asked for with a cursor. -/
def readEntry (c : Cursor) : Entry → Reply Parsed
  | .program => c.program.map .program
  | .statement => c.statement.val.map .statement
  | .expression => c.expression.val.map .expression
  | .statements stop => (c.statements stop).map .statements

/-- Reads one thing after the other with one cursor, going on behind an error. -/
def readEach : List Entry → Cursor → List (Except SyntaxError Parsed) × Cursor
  | [], c => ([], c)
  | entry :: rest, c =>
    let r := c.readEntry entry
    (readEach rest r.cursor).map (r.outcome :: ·) id

end Cursor
end Scriptlet
