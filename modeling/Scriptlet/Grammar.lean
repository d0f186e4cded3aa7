import Scriptlet.Cursor
import Scriptlet.Program
import Scriptlet.Source

/-!
# From tokens to programs

A program is read by recursive descent, looking at most two tokens ahead.

```text
statements   newLine* (statement (newLine+ statement)* newLine*)?
statement    function identifier rest | if "(" expression ")" block | return expression
             | block | expression
expression   identifier "=" expression | function rest | comparison
comparison   additive (("<" | "<=" | "==" | ">" | ">=") additive)*
additive     multiplicative (("+" | "-") multiplicative)*
multiplicative   signed (("*" | "/") signed)*
signed       ("+" | "-") signed | power
power        atom ("**" signed)*
atom         number | identifier | identifier "(" arguments ")" | "(" expression ")"
rest         "(" parameters ")" block
block        "{" statements "}"
```

Chains of operators lean to the left. The operand behind `**` may carry a sign and is read as far as
it goes, so powers lean to the right.

A level of nesting is open while an expression, the operand of a sign or the statements of a block
are read. Each operator of a chain opens one that stays open until the chain ends. No more than
`maxNesting` levels are open at once.

Every reader ends because each way back to itself takes a token first. The measure is the number of
tokens left and, among readers that call each other without taking one, the order written above.
-/

namespace Scriptlet

/-- The four kinds of operator chains, from the loosest to the tightest. -/
inductive Level where
  | comparison
  | additive
  | multiplicative
  | power
deriving DecidableEq

namespace Level

/-- The operator of this level that a token stands for. -/
def operator? : Level → TokenKind → Option BinaryOp
  | comparison, .less => some .less
  | comparison, .lessEqual => some .lessEqual
  | comparison, .equal => some .equal
  | comparison, .greater => some .greater
  | comparison, .greaterEqual => some .greaterEqual
  | additive, .plus => some .add
  | additive, .minus => some .subtract
  | multiplicative, .asterisk => some .multiply
  | multiplicative, .slash => some .divide
  | power, .power => some .power
  | _, _ => none

/-- The place of a chain's first operand in the order of readers; the chain is one above it. -/
def height : Level → Nat
  | power => 1
  | multiplicative => 4
  | additive => 6
  | comparison => 8

/-- An operator is not the end. -/
theorem ne_endOfText {level : Level} {kind : TokenKind} {op : BinaryOp}
    (found : level.operator? kind = some op) : kind ≠ .endOfText := by
  rintro rfl
  cases level <;> cases found

end Level

namespace Cursor

/-- Parameters up to the closing parenthesis, which is taken too; at least one. -/
def parametersFrom (before : List String) (c : Cursor) : Onward c.left (List String) :=
  c.expectIdentifier fun name d _ =>
    if comma : d.current.kind = .comma then
      d.take (by simp [comma]) fun e _ => (e.parametersFrom (name :: before)).weaken
    else d.expect .rightParen fun e _ => .ok (name :: before).reverse e
termination_by c.left

/-- Parameters up to the closing parenthesis, which is taken too; perhaps none. -/
def parameters (c : Cursor) : Onward c.left (List String) :=
  if empty : c.current.kind = .rightParen then
    c.take (by simp [empty]) fun d _ => .ok [] d
  else c.parametersFrom []

mutual
/-- Statements with line ends between them, up to a token of the kind `stop`, which is left; the
statements `before` have been read already, the last one first. -/
def statementsFrom (stop : TokenKind) (before : List Stmt) (c : Cursor) :
    Onward c.left (List Stmt) :=
  if c.current.kind = stop then .ok before.reverse c
  else
    c.statement.andThen fun s d _ =>
      if d.current.kind = stop then .ok (s :: before).reverse d
      else
        d.expect .newLine fun e _ =>
          have := e.left_skipNewLines_le
          (e.skipNewLines.statementsFrom stop (s :: before)).weaken
termination_by 32 * c.left + 13

/-- One statement. -/
def statement (c : Cursor) : Onward c.left Stmt :=
  match first : c.current.kind, c.following.kind with
  | .functionWord, .identifier _ =>
    c.take (by simp [first]) fun d _ =>
      d.expectIdentifier fun name e _ =>
        (e.functionRest (some name)).map fun (signature, body) => .declaration signature body
  | .ifWord, _ =>
    c.take (by simp [first]) fun d taken =>
      d.expect .leftParen fun e opened =>
        e.expression.andThen fun condition f few =>
          have fewer : f.left < c.left := Nat.lt_of_le_of_lt few (Nat.lt_trans opened taken)
          f.expect .rightParen (fun g closed => g.block.map (.conditional condition)
            (Nat.le_of_lt (Nat.lt_trans closed fewer))) (Nat.le_of_lt fewer)
  | .returnWord, _ => c.take (by simp [first]) fun d _ => d.expression.map .result
  | .leftBrace, _ => c.block.map .block
  | _, _ => c.expression.map .expression
termination_by 32 * c.left + 12

/-- Statements in braces. -/
def block (c : Cursor) : Onward c.left (List Stmt) :=
  c.expect .leftBrace fun d _ =>
    (d.nested (n := d.left) fun e _ _ =>
      have := e.left_skipNewLines_le
      (e.skipNewLines.statementsFrom .rightBrace []).weaken).andThen fun body f _ =>
        f.expect .rightBrace fun g _ => .ok body g
termination_by 32 * c.left + 11

/-- What follows the name of a function: parameters in parentheses and a body. -/
def functionRest (name : Option String) (c : Cursor) : Onward c.left (Signature × List Stmt) :=
  c.expect .leftParen fun d _ =>
    d.parameters.andThen fun parameters e _ => e.block.map fun body => (⟨name, parameters⟩, body)
termination_by 32 * c.left + 11

/-- An expression: one level. -/
def expression (c : Cursor) : Onward c.left Expr :=
  c.nested fun d _ _ =>
    match first : d.current.kind, d.following.kind with
    | .identifier name, .assign =>
      d.take (by simp [first]) fun e _ =>
        e.expect .assign fun f _ => f.expression.map (.assign name)
    | .functionWord, _ =>
      d.take (by simp [first]) fun e _ =>
        (e.functionRest none).map fun (signature, body) => .function signature body
    | _, _ => (d.chain .comparison).weaken
termination_by 32 * c.left + 10
decreasing_by all_goals (try simp only [Level.height]); omega

/-- A chain of operators. -/
def chain (level : Level) (c : Cursor) : Onward c.left Expr :=
  (c.firstOperand level).andThen fun left d _ => (d.folds level left).weaken
termination_by 32 * c.left + level.height + 1

/-- The operators and operands of a chain behind its first operand. Each operator is one level. -/
def folds (level : Level) (left : Expr) (c : Cursor) : Onward c.left Expr :=
  match found : level.operator? c.current.kind with
  | none => .ok left c
  | some op =>
    c.nested fun d _ same =>
      d.take (same ▸ Level.ne_endOfText found) fun e _ =>
        (e.laterOperand level).andThen fun right f _ =>
          (f.folds level (.binary op left right)).weaken
termination_by 32 * c.left

/-- The operand that a chain begins with. -/
def firstOperand (level : Level) (c : Cursor) : Onward c.left Expr :=
  match level with
  | .comparison => c.chain .additive
  | .additive => c.chain .multiplicative
  | .multiplicative => c.signed
  | .power => c.atom
termination_by 32 * c.left + level.height
decreasing_by all_goals simp only [Level.height]; omega

/-- An operand behind an operator of a chain. -/
def laterOperand (level : Level) (c : Cursor) : Onward c.left Expr :=
  match level with
  | .comparison => c.chain .additive
  | .additive => c.chain .multiplicative
  | .multiplicative => c.signed
  | .power => c.signed
termination_by 32 * c.left + 10
decreasing_by all_goals (try simp only [Level.height]); omega

/-- An operand with its signs. What a sign stands before is one level deeper. -/
def signed (c : Cursor) : Onward c.left Expr :=
  match first : c.current.kind with
  | .plus =>
    c.take (by simp [first]) fun d _ => d.nested fun e _ _ => e.signed.map (.unary .plus)
  | .minus =>
    c.take (by simp [first]) fun d _ => d.nested fun e _ _ => e.signed.map (.unary .minus)
  | _ => c.chain .power
termination_by 32 * c.left + 3
decreasing_by all_goals (try simp only [Level.height]); omega

/-- An operand without operators of its own. -/
def atom (c : Cursor) : Onward c.left Expr :=
  match first : c.current.kind with
  | .number text =>
    c.take (by simp [first]) fun d _ =>
      match Numeral.ofText? text with
      | some numeral => .ok (.number numeral) d
      | none => .fail (.invalidNumeral text c.current.location) d
  | .identifier name =>
    c.take (by simp [first]) fun d _ =>
      if called : d.current.kind = .leftParen then
        d.take (by simp [called]) fun e _ => e.arguments.map (.call name)
      else .ok (.variable name) d
  | .leftParen =>
    c.take (by simp [first]) fun d _ =>
      d.expression.andThen fun e f _ => f.expect .rightParen fun g _ => .ok e g
  | _ => c.refuse .expression
termination_by 32 * c.left

/-- Arguments up to the closing parenthesis, which is taken too; perhaps none. -/
def arguments (c : Cursor) : Onward c.left (List Expr) :=
  if empty : c.current.kind = .rightParen then
    c.take (by simp [empty]) fun d _ => .ok [] d
  else c.argumentsFrom []
termination_by 32 * c.left + 12

/-- Arguments up to the closing parenthesis, which is taken too; at least one. -/
def argumentsFrom (before : List Expr) (c : Cursor) : Onward c.left (List Expr) :=
  c.expression.andThen fun e d _ =>
    if comma : d.current.kind = .comma then
      d.take (by simp [comma]) fun f _ => (f.argumentsFrom (e :: before)).weaken
    else d.expect .rightParen fun f _ => .ok (e :: before).reverse f
termination_by 32 * c.left + 11
end

/-- Statements up to a token of the kind `stop`, which is left. -/
def statements (stop : TokenKind) (c : Cursor) : Reply (List Stmt) :=
  (c.skipNewLines.statementsFrom stop []).val

/-- All statements up to the end. -/
def program (c : Cursor) : Reply Program :=
  match c.statements .endOfText with
  | .ok statements d => .ok ⟨statements⟩ d
  | .error e d => .error e d

end Cursor

/-- Reads a whole program from its tokens. -/
def parseTokens (tokens : List Token) : Except SyntaxError Program :=
  match (Cursor.ofTokens tokens).program with
  | .ok p _ => .ok p
  | .error e _ => .error e

/-- Reads a whole program. -/
def parse (text : String) : Except SyntaxError Program :=
  match tokenize text with
  | .error e => .error e
  | .ok tokens => parseTokens tokens

end Scriptlet
