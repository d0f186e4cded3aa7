import Mathlib.Logic.Function.Iterate
import Scriptlet.Proofs.Evaluation.Events

/-!
# Evaluation as a recursion

`callsWithin` counts the room for calls down, and so recurses on it. Here evaluation is the
recursion that it is without that: the number of open calls is part of the state, next to the heap;
a call adds one to it and takes it away again behind the body; and the body, of whatever size, comes
out of the heap. Nothing in the text of this recursion makes it end.

A `Task` is what one call of the recursion evaluates, and `Task.body` says what is done for it. This
evaluates no other task itself, but asks for it and says how it goes on from there (`Plan.ask`). A
step puts what is done for a task in the place of the task that is asked for (`Plan.step`), so the
number of steps is the number of calls of the recursion.
-/

namespace Scriptlet

/-! ## Sizes -/

mutual
/-- The number of nodes of an expression. -/
def Expr.size : Expr → Nat
  | .number _ | .variable _ => 1
  | .assign _ e => e.size + 1
  | .binary _ left right => left.size + right.size + 1
  | .unary _ operand => operand.size + 1
  | .call _ arguments => argumentsSize arguments + 1
  | .function _ body => blockSize body + 1

/-- The number of nodes of arguments. -/
def argumentsSize : List Expr → Nat
  | [] => 0
  | e :: rest => e.size + argumentsSize rest

/-- The number of nodes of a statement. -/
def Stmt.size : Stmt → Nat
  | .expression e => e.size + 1
  | .result e => e.size + 1
  | .block body => blockSize body + 1
  | .conditional condition body => condition.size + blockSize body + 1
  | .declaration _ body => blockSize body + 1

/-- The number of nodes of a block. -/
def blockSize : List Stmt → Nat
  | [] => 1
  | s :: rest => s.size + blockSize rest
end

/-! ## Tasks -/

/-- The value or the error that a computation comes to. -/
def Eval.outcome {α : Type} (x : Eval α) (heap : Heap) : Except RuntimeError α :=
  match x heap with
  | .ok a _ => .ok a
  | .error e _ => .error e

/-- What there is to evaluate: syntax in a scope, or a call with evaluated arguments. -/
inductive Task where
  | program (p : Program) (scope : ScopeId)
  | block (body : List Stmt) (scope : ScopeId)
  | stmt (s : Stmt) (scope : ScopeId)
  | expr (e : Expr) (scope : ScopeId)
  | call (closure : Closure) (arguments : List Value)

namespace Task

/-- What a task comes to. -/
@[reducible] def Result : Task → Type
  | .program _ _ | .expr _ _ | .call _ _ => Value
  | .block _ _ | .stmt _ _ => Flow

/-- The size of the syntax that is evaluated. A call has none before its body is entered. -/
def size : Task → Nat
  | .program p _ => blockSize p.statements + 1
  | .block body _ => blockSize body
  | .stmt s _ => s.size
  | .expr e _ => e.size
  | .call _ _ => 0

/-- What a task comes to by `callsWithin`, with some number of calls open. -/
def eval (limit depth : Nat) : (task : Task) → Eval task.Result
  | .program p scope =>
    evalBlock (callsWithin limit (limit - depth)) scope .nothing p.statements >>= Flow.outermost
  | .block body scope => evalBlock (callsWithin limit (limit - depth)) scope .nothing body
  | .stmt s scope => evalStmt (callsWithin limit (limit - depth)) scope s
  | .expr e scope => evalExpr (callsWithin limit (limit - depth)) scope e
  | .call closure arguments => callsWithin limit (limit - depth) closure arguments

end Task

/-! ## Plans -/

/-- Where an evaluation stands: the heap, and the number of calls that are open. -/
structure Standing where
  heap : Heap
  depth : Nat

/-- What there is left to do: nothing, or a task and what follows from how it ends. -/
inductive Plan (α : Type) where
  | done (outcome : Except RuntimeError α) (left : Standing)
  | ask (task : Task) (standing : Standing)
    (next : Except RuntimeError task.Result → Standing → Plan α)

namespace Plan

variable {α β : Type}

/-- Goes on from how a plan ends. -/
def andThen : Plan α → (Except RuntimeError α → Standing → Plan β) → Plan β
  | .done outcome left, next => next outcome left
  | .ask task standing rest, next =>
    .ask task standing fun outcome left => (rest outcome left).andThen next

/-- Going on with nothing more changes no plan. -/
theorem andThen_done (plan : Plan α) : plan.andThen .done = plan := by
  induction plan with
  | done outcome left => rfl
  | ask task standing rest ih =>
    exact congrArg (ask task standing) (funext fun outcome => funext fun left => ih outcome left)

/-- It does not matter where a plan is cut into parts. -/
theorem andThen_assoc {γ : Type} (plan : Plan α)
    (next : Except RuntimeError α → Standing → Plan β)
    (last : Except RuntimeError β → Standing → Plan γ) :
    (plan.andThen next).andThen last
      = plan.andThen fun outcome left => (next outcome left).andThen last := by
  induction plan with
  | done outcome left => rfl
  | ask task standing rest ih =>
    exact congrArg (ask task standing) (funext fun outcome => funext fun left => ih outcome left)

end Plan

/-! ## Procedures -/

/-- What is done from a standing, up to the first task it asks for, and so on behind it. -/
def Procedure (α : Type) := Standing → Plan α

namespace Procedure

instance : Monad Procedure where
  pure a := fun standing => .done (.ok a) standing
  bind x f := fun standing => (x standing).andThen fun
    | .ok a, left => f a left
    | .error e, left => .done (.error e) left

/-- Computations on the heap neither ask for tasks nor open calls. -/
instance : MonadLift Eval Procedure where
  monadLift x := fun standing =>
    .done (x.outcome standing.heap) { standing with heap := x.left standing.heap }

end Procedure

/-- Asks for a task. -/
def evaluate (task : Task) : Procedure task.Result := fun standing => .ask task standing .done

/-- Asks for a task with one more call open, and closes the call however the task ends. -/
def evaluateInCall (task : Task) : Procedure task.Result := fun standing =>
  .ask task { standing with depth := standing.depth + 1 } fun outcome left =>
    .done outcome { left with depth := left.depth - 1 }

/-- Fails if as many calls are open as may be. -/
def demandRoom (limit : Nat) : Procedure Unit := fun standing =>
  if limit ≤ standing.depth then .done (.error (.tooManyCalls limit)) standing
  else .done (.ok ()) standing

/-- Statements one after the other, up to a return. -/
def evaluateBlock (scope : ScopeId) (last : Value) : List Stmt → Procedure Flow
  | [] => pure (.normal last)
  | s :: rest => do
    match ← evaluate (.stmt s scope) with
    | .normal value => evaluateBlock scope value rest
    | .returned value => pure (.returned value)

/-- Arguments one after the other. -/
def evaluateArguments (scope : ScopeId) : List Expr → Procedure (List Value)
  | [] => pure []
  | e :: rest => do
    let value ← evaluate (.expr e scope)
    let values ← evaluateArguments scope rest
    pure (value :: values)

/-- What is done for a task. -/
def Task.body (limit : Nat) : (task : Task) → Procedure task.Result
  | .program p scope => do
    let flow ← evaluate (.block p.statements scope)
    flow.outermost
  | .block body scope => evaluateBlock scope .nothing body
  | .stmt (.expression e) scope => do
    let value ← evaluate (.expr e scope)
    pure (.normal value)
  | .stmt (.result e) scope => do
    let value ← evaluate (.expr e scope)
    pure (.returned value)
  | .stmt (.block body) scope => evaluate (.block body scope)
  | .stmt (.conditional condition body) scope => do
    match ← evaluate (.expr condition scope) with
    | .boolean true =>
      match ← evaluate (.block body scope) with
      | .normal _ => pure (.normal .nothing)
      | .returned value => pure (.returned value)
    | .boolean false => pure (.normal .nothing)
    | other => (throw (.misuse (.condition other.kind)) : Eval Flow)
  | .stmt (.declaration signature body) scope => do
    let function ← makeFunction scope signature body
    match signature.name with
    | some name => assignName scope name function
    | none => pure ()
    pure (.normal function)
  | .expr (.number numeral) _ => pure (.number numeral.value)
  | .expr (.variable name) scope => readName scope name
  | .expr (.assign name e) scope => do
    let value ← evaluate (.expr e scope)
    assignName scope name value
    pure value
  | .expr (.binary op left right) scope => do
    let x ← evaluate (.expr left scope)
    let y ← evaluate (.expr right scope)
    Eval.ofExcept (op.apply x y)
  | .expr (.unary op operand) scope => do
    let x ← evaluate (.expr operand scope)
    Eval.ofExcept (op.apply x)
  | .expr (.call name arguments) scope => do
    let closure ← callee scope name arguments.length
    let values ← evaluateArguments scope arguments
    evaluate (.call closure values)
  | .expr (.function signature body) scope => makeFunction scope signature body
  | .call closure arguments => do
    demandRoom limit
    let scope ← openCall closure arguments
    let flow ← evaluateInCall (.block closure.body scope)
    flow.innermost

/-! ## Steps -/

namespace Plan

variable {α β : Type} {limit : Nat}

/-- A step: the task that is asked for gives way to what is done for it. -/
def step (limit : Nat) : Plan α → Plan α
  | .done outcome left => .done outcome left
  | .ask task standing next => (task.body limit standing).andThen next

/-- What is done stays done. -/
theorem step_iterate_done (n : Nat) (outcome : Except RuntimeError α) (left : Standing) :
    (step limit)^[n] (.done outcome left) = .done outcome left :=
  Function.iterate_fixed rfl n

/-- A step of what is asked first is a step of all. -/
theorem step_ask_andThen (task : Task) (standing : Standing)
    (rest : Except RuntimeError task.Result → Standing → Plan α)
    (next : Except RuntimeError α → Standing → Plan β) :
    step limit ((ask task standing rest).andThen next)
      = (step limit (ask task standing rest)).andThen next :=
  (andThen_assoc _ rest next).symm

/-- A plan is done after some number of steps. -/
def Ends (limit : Nat) (plan : Plan α) (outcome : Except RuntimeError α) (left : Standing) : Prop :=
  ∃ n, (step limit)^[n] plan = .done outcome left

/-- What is done ends at once. -/
theorem Ends.done (outcome : Except RuntimeError α) (left : Standing) :
    (Plan.done outcome left).Ends limit outcome left := ⟨0, rfl⟩

/-- A plan ends in one way. -/
theorem Ends.unique {plan : Plan α} {outcome other : Except RuntimeError α} {left last : Standing}
    (ends : plan.Ends limit outcome left) (also : plan.Ends limit other last) :
    other = outcome ∧ last = left := by
  obtain ⟨n, first⟩ := ends
  obtain ⟨m, second⟩ := also
  have same : Plan.done outcome left = .done other last := by
    rw [← step_iterate_done m, ← first, ← Function.iterate_add_apply, Nat.add_comm,
      Function.iterate_add_apply, second, step_iterate_done]
  cases same
  exact ⟨rfl, rfl⟩

/-- What follows begins where the plan in front has ended. -/
theorem Ends.andThen {plan : Plan α} {next : Except RuntimeError α → Standing → Plan β}
    {outcome : Except RuntimeError α} {left : Standing} {final : Except RuntimeError β}
    {last : Standing} (first : plan.Ends limit outcome left)
    (second : (next outcome left).Ends limit final last) :
    (plan.andThen next).Ends limit final last := by
  obtain ⟨n, first⟩ := first
  induction n generalizing plan with
  | zero =>
    obtain rfl : plan = .done outcome left := first
    exact second
  | succ n ih =>
    cases plan with
    | done early there =>
      obtain ⟨rfl, rfl⟩ := (Ends.done early there).unique ⟨_, first⟩
      exact second
    | ask task standing rest =>
      obtain ⟨m, rest⟩ := ih first
      refine ⟨m + 1, ?_⟩
      rw [Function.iterate_succ_apply, step_ask_andThen]
      exact rest

end Plan

end Scriptlet
