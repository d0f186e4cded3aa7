import Scriptlet.RuntimeError

/-!
# Operators on values

Operators take numbers only. Division by a zero of either sign fails, whatever is divided; all other
arithmetic is binary64 arithmetic and always has a result.
-/

namespace Scriptlet

namespace BinaryOp

/-- The operator on two numbers. -/
def onNumbers (op : BinaryOp) (x y : Float) : Except RuntimeError Value :=
  match op with
  | add => .ok (.number (x + y))
  | subtract => .ok (.number (x - y))
  | multiply => .ok (.number (x * y))
  | divide => if y == 0 then .error .divisionByZero else .ok (.number (x / y))
  | power => .ok (.number (x ^ y))
  | less => .ok (.boolean (x < y))
  | lessEqual => .ok (.boolean (x ≤ y))
  | equal => .ok (.boolean (x == y))
  | greater => .ok (.boolean (y < x))
  | greaterEqual => .ok (.boolean (y ≤ x))

/-- The operator on two values. -/
def apply (op : BinaryOp) : Value → Value → Except RuntimeError Value
  | .number x, .number y => op.onNumbers x y
  | left, right => .error (.misuse (.binary op left.kind right.kind))

end BinaryOp

namespace UnaryOp

/-- The operator on a value. -/
def apply : UnaryOp → Value → Except RuntimeError Value
  | plus, .number x => .ok (.number x)
  | minus, .number x => .ok (.number (-x))
  | op, operand => .error (.misuse (.unary op operand.kind))

end UnaryOp
end Scriptlet
