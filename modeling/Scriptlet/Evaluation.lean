import Scriptlet.Heap
import Scriptlet.Operator

/-!
# Evaluation

An evaluation changes the heap and ends in a value or in an error; the heap keeps what had been done
before the error. Operands, arguments and statements are evaluated from left to right.

A call is made in three steps: the name is looked up and the number of arguments is checked; the
arguments are evaluated in the caller's scope; the body is evaluated in a new scope within the one
that the function was declared in. Bodies of conditionals and blocks have no scope of their own.

What a call does is a parameter of evaluation (`Calls`), so evaluation itself goes through the program
text only. `callsWithin` gives the parameter: with `room` for some number of further calls, the body
of a call has room for one less, and without room the call fails. So every evaluation ends: the room
gets smaller with each call, whatever the size of its body, and between calls the part of the program
that is evaluated gets smaller.

What an evaluation costs is not said: scopes stay in the heap when nothing holds them any longer, and
neither the stack of the machine nor a log of the calls is part of the library.
-/

namespace Scriptlet

/-- A computation on the heap that may fail. -/
abbrev Eval := EStateM RuntimeError Heap

/-- How a statement ends: with a value, or by a return from the innermost call. -/
inductive Flow where
  | normal (value : Value)
  | returned (value : Value)

/-- What a call of a function with evaluated arguments does. -/
abbrev Calls := Closure → List Value → Eval Value

/-- An outcome that does not depend on the heap. -/
def Eval.ofExcept {α : Type} : Except RuntimeError α → Eval α
  | .ok a => pure a
  | .error e => throw e

/-- The value of a name, as seen from a scope. -/
def readName (scope : ScopeId) (name : String) : Eval Value := do
  match (← get).lookup? scope name with
  | some value => pure value
  | none => throw (.unbound name)

/-- Assigns a value to a name, as seen from a scope. -/
def assignName (scope : ScopeId) (name : String) (value : Value) : Eval Unit :=
  modify fun heap => heap.assign scope name value

/-- The function that a name stands for, to be called with some number of arguments. -/
def callee (scope : ScopeId) (name : String) (count : Nat) : Eval Closure := do
  match ← readName scope name with
  | .function closure =>
    if closure.signature.parameters.length = count then pure closure
    else throw (.arity name closure.signature.parameters.length count)
  | _ => throw (.misuse (.notCallable name))

/-- Makes a function that is declared in a scope. -/
def makeFunction (scope : ScopeId) (signature : Signature) (body : List Stmt) : Eval Value :=
  modifyGet fun heap => heap.newFunction scope signature body

/-- Makes the scope of a call: parameters bound to arguments, within the scope of the function. -/
def openCall (closure : Closure) (arguments : List Value) : Eval ScopeId :=
  modifyGet fun heap =>
    heap.newScope (some closure.scope) (.ofList (closure.signature.parameters.zip arguments))

mutual
/-- Evaluates an expression. -/
def evalExpr (calls : Calls) (scope : ScopeId) : Expr → Eval Value
  | .number numeral => pure (.number numeral.value)
  | .variable name => readName scope name
  | .assign name e => do
    let value ← evalExpr calls scope e
    assignName scope name value
    pure value
  | .binary op left right => do
    let x ← evalExpr calls scope left
    let y ← evalExpr calls scope right
    .ofExcept (op.apply x y)
  | .unary op operand => do
    let x ← evalExpr calls scope operand
    .ofExcept (op.apply x)
  | .call name arguments => do
    let closure ← callee scope name arguments.length
    let values ← evalArguments calls scope arguments
    calls closure values
  | .function signature body => makeFunction scope signature body

/-- Evaluates arguments. -/
def evalArguments (calls : Calls) (scope : ScopeId) : List Expr → Eval (List Value)
  | [] => pure []
  | e :: rest => do
    let value ← evalExpr calls scope e
    let values ← evalArguments calls scope rest
    pure (value :: values)

/-- Evaluates a statement. A conditional comes to nothing, unless it returns. -/
def evalStmt (calls : Calls) (scope : ScopeId) : Stmt → Eval Flow
  | .expression e => do
    let value ← evalExpr calls scope e
    pure (.normal value)
  | .result e => do
    let value ← evalExpr calls scope e
    pure (.returned value)
  | .block body => evalBlock calls scope .nothing body
  | .conditional condition body => do
    match ← evalExpr calls scope condition with
    | .boolean true =>
      match ← evalBlock calls scope .nothing body with
      | .normal _ => pure (.normal .nothing)
      | .returned value => pure (.returned value)
    | .boolean false => pure (.normal .nothing)
    | other => throw (.misuse (.condition other.kind))
  | .declaration signature body => do
    let function ← makeFunction scope signature body
    match signature.name with
    | some name => assignName scope name function
    | none => pure ()
    pure (.normal function)

/-- Evaluates statements up to a return. Without one the last value is the value of them all; `last`
is the value so far. -/
def evalBlock (calls : Calls) (scope : ScopeId) (last : Value) : List Stmt → Eval Flow
  | [] => pure (.normal last)
  | s :: rest => do
    match ← evalStmt calls scope s with
    | .normal value => evalBlock calls scope value rest
    | .returned value => pure (.returned value)
end

/-- Calls with room for some number of them, one within the other, of the `limit` there is in all. A
body that does not return comes to nothing. -/
def callsWithin (limit : Nat) : (room : Nat) → Calls
  | 0, _, _ => throw (.tooManyCalls limit)
  | room + 1, closure, arguments => do
    let scope ← openCall closure arguments
    match ← evalBlock (callsWithin limit room) scope .nothing closure.body with
    | .returned value => pure value
    | .normal _ => pure .nothing

/-- Evaluates a statement on its own, with no calls around it. -/
def Stmt.eval (s : Stmt) (limit : Nat) (scope : ScopeId) : Eval Flow :=
  evalStmt (callsWithin limit limit) scope s

/-- Evaluates a program, with no calls around it. A return outside of every function is an error. -/
def Program.eval (p : Program) (limit : Nat) (scope : ScopeId) : Eval Value := do
  match ← evalBlock (callsWithin limit limit) scope .nothing p.statements with
  | .normal value => pure value
  | .returned _ => throw .returnOutsideFunction

/-- The number of calls that may be open at once, unless a run sets another one. -/
def defaultLimit : Nat := 10000

end Scriptlet
