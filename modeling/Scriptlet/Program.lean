import Scriptlet.Numeral

/-!
# Programs

A program is a list of statements. Everything that has a value is an expression; a function is one
too, and a declaration is the statement that also gives it a name. The last value of a block is the
value of the block, so an expression stands as a statement on its own.
-/

namespace Scriptlet

/-- The operators that stand between two operands. -/
inductive BinaryOp where
  | add
  | subtract
  | multiply
  | divide
  | power
  | less
  | lessEqual
  | equal
  | greater
  | greaterEqual
deriving DecidableEq

/-- The operators that stand before one operand. -/
inductive UnaryOp where
  | plus
  | minus
deriving DecidableEq

/-- What a function shows of itself besides its body. -/
structure Signature where
  name : Option String
  parameters : List String
deriving DecidableEq

mutual
/-- What has a value. -/
inductive Expr where
  | number (numeral : Numeral)
  | variable (name : String)
  | assign (name : String) (value : Expr)
  | binary (op : BinaryOp) (left right : Expr)
  | unary (op : UnaryOp) (operand : Expr)
  | call (name : String) (arguments : List Expr)
  | function (signature : Signature) (body : List Stmt)

/-- What is carried out in order. -/
inductive Stmt where
  | expression (e : Expr)
  | result (value : Expr)
  | block (body : List Stmt)
  | conditional (condition : Expr) (body : List Stmt)
  | declaration (signature : Signature) (body : List Stmt)
end

/-- A whole program. -/
structure Program where
  statements : List Stmt

namespace BinaryOp

/-- The operator as it is written. -/
def symbol : BinaryOp → String
  | add => "+"
  | subtract => "-"
  | multiply => "*"
  | divide => "/"
  | power => "**"
  | less => "<"
  | lessEqual => "<="
  | equal => "=="
  | greater => ">"
  | greaterEqual => ">="

end BinaryOp

namespace UnaryOp

/-- The operator as it is written. -/
def symbol : UnaryOp → String
  | plus => "+"
  | minus => "-"

end UnaryOp
end Scriptlet
