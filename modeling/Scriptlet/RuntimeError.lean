import Scriptlet.Value

/-!
# What can go wrong while a program runs

Every cause carries what its message needs, and `message` is the only place where a cause is put
into words.
-/

namespace Scriptlet

/-- A value used in a way that its sort does not allow. -/
inductive Misuse where
  | binary (op : BinaryOp) (left right : ValueKind)
  | unary (op : UnaryOp) (operand : ValueKind)
  | condition (kind : ValueKind)
  | notCallable (name : String)
deriving DecidableEq

/-- The reasons for which a run fails. -/
inductive RuntimeError where
  /-- A name that no scope in reach binds. -/
  | unbound (name : String)
  | divisionByZero
  | misuse (cause : Misuse)
  /-- A call by this name with too few or too many arguments. -/
  | arity (function : String) (expected actual : Nat)
  | returnOutsideFunction
  /-- More calls open at once than the limit allows. -/
  | tooManyCalls (limit : Nat)
deriving DecidableEq

namespace Misuse

/-- A misuse in words. -/
def message : Misuse → String
  | binary op left right => left.name ++ " " ++ op.symbol ++ " " ++ right.name
  | unary op operand => op.symbol ++ operand.name
  | condition kind => "condition must be a boolean, got " ++ kind.name
  | notCallable name => "the given identifier '" ++ name ++ "' is not callable"

end Misuse

namespace RuntimeError

/-- A cause in words. -/
def message : RuntimeError → String
  | unbound name => "Identifier " ++ name ++ " is not defined"
  | divisionByZero => "Division by zero"
  | misuse cause => "Illegal operation: " ++ cause.message
  | arity function expected actual =>
    "Function " ++ function ++ " expects " ++ expected.repr ++ " argument(s) but got "
      ++ actual.repr
  | returnOutsideFunction => "Cannot return outside of a function"
  | tooManyCalls limit => "Maximum call depth of " ++ limit.repr ++ " exceeded"

end RuntimeError
end Scriptlet
