import Scriptlet.Number.Shortest
import Scriptlet.Program

/-!
# Values

A program computes with numbers, booleans, functions and the absence of a value. A function is a
closure: what was declared, together with the scope it was declared in. Each time a declaration is
carried out it makes a function of its own, so a closure also has an identity, and two functions are
the same when their identities are.
-/

namespace Scriptlet

/-- A scope, by its place in the heap. -/
abbrev ScopeId := Nat

/-- A function as it was declared, and the scope that its free names are looked up in. -/
structure Closure where
  identity : Nat
  signature : Signature
  body : List Stmt
  scope : ScopeId

/-- What an expression can come to. -/
inductive Value where
  | number (x : Float)
  | boolean (b : Bool)
  | function (closure : Closure)
  | nothing

/-- The four sorts of values. -/
inductive ValueKind where
  | number
  | boolean
  | function
  | nothing
deriving DecidableEq

namespace ValueKind

/-- The sort as messages name it. -/
def name : ValueKind → String
  | number => "number"
  | boolean => "boolean"
  | function => "function"
  | nothing => "none"

end ValueKind

namespace Value

/-- The sort of a value. -/
def kind : Value → ValueKind
  | number _ => .number
  | boolean _ => .boolean
  | function _ => .function
  | nothing => .nothing

/-- Whether there is no value. -/
def isNothing : Value → Bool
  | nothing => true
  | _ => false

/-- Whether two values are equal: numbers as numbers, so that the two zeros are equal and what is
no number is not equal to itself, and functions by identity. -/
def equals : Value → Value → Bool
  | number x, number y => x == y
  | boolean a, boolean b => a == b
  | function f, function g => f.identity == g.identity
  | nothing, nothing => true
  | _, _ => false

/-- There is no value where the value equals `nothing`. -/
theorem equals_nothing (v : Value) : v.equals nothing = v.isNothing := by
  cases v <;> rfl

/-- A value as it is printed. -/
def text : Value → String
  | number x => Shortest.text x
  | boolean true => "true"
  | boolean false => "false"
  | function closure =>
    match closure.signature.name with
    | some name => "<function " ++ name ++ ">"
    | none => "<function>"
  | nothing => "None"

end Value
end Scriptlet
