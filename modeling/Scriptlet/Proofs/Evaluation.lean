import Scriptlet.Evaluation

/-!
# Steps of an evaluation

What a step does to the heap, said of the outcome (`bind_apply`), and how statements are evaluated
one list behind another (`evalBlock_append`).
-/

namespace Scriptlet

namespace Eval

variable {α β : Type}

/-- Goes on from a value with the heap it leaves, and stops at an error. -/
theorem bind_apply (x : Eval α) (f : α → Eval β) (heap : Heap) :
    (x >>= f) heap = match x heap with
      | .ok a left => f a left
      | .error e left => .error e left := by
  change EStateM.bind x f heap = _
  unfold EStateM.bind
  cases x heap <;> rfl

theorem get_apply (heap : Heap) : (get : Eval Heap) heap = .ok heap heap := rfl

end Eval

/-- A name that stands for a function is called with as many arguments as the function takes. -/
theorem callee_of_lookup? {scope : ScopeId} {name : String} {heap : Heap} {closure : Closure}
    (bound : heap.lookup? scope name = some (.function closure)) :
    callee scope name closure.signature.parameters.length heap = .ok closure heap := by
  simp only [callee, readName, Eval.bind_apply, Eval.get_apply, bound]
  exact congrFun (if_pos rfl) heap

/-- An operation does not come to a function. -/
theorem BinaryOp.ne_function_of_apply {op : BinaryOp} {x y value : Value}
    (result : op.apply x y = .ok value) (closure : Closure) : value ≠ .function closure := by
  unfold BinaryOp.apply at result
  split at result
  · unfold BinaryOp.onNumbers at result
    split at result
    case h_4 =>
      split at result <;> cases result
      exact nofun
    all_goals
      cases result
      exact nofun
  · cases result

/-- A sign gives no function. -/
theorem UnaryOp.ne_function_of_apply {op : UnaryOp} {x value : Value}
    (result : op.apply x = .ok value) (closure : Closure) : value ≠ .function closure := by
  unfold UnaryOp.apply at result
  split at result <;> cases result <;> exact nofun

/-- What comes of statements that may return goes on unless they have. -/
def Flow.andThen (next : Value → Eval Flow) : Flow → Eval Flow
  | .normal value => next value
  | .returned value => pure (.returned value)

/-- What a flow comes to outside of every function. -/
def Flow.outermost : Flow → Eval Value
  | .normal value => pure value
  | .returned _ => throw .returnOutsideFunction

variable (calls : Calls) (scope : ScopeId)

/-- No statements give the value so far. -/
theorem evalBlock_nil (last : Value) :
    evalBlock calls scope last [] = pure (.normal last) := by
  rw [evalBlock]

/-- The first statement is evaluated, and the others if it does not return. -/
theorem evalBlock_cons (last : Value) (s : Stmt) (rest : List Stmt) :
    evalBlock calls scope last (s :: rest)
      = evalStmt calls scope s >>= Flow.andThen fun value => evalBlock calls scope value rest := by
  rw [evalBlock]
  refine congrArg (evalStmt calls scope s >>= ·) (funext fun flow => ?_)
  cases flow <;> rfl

/-- Statements behind statements are evaluated behind them, unless those have returned. -/
theorem evalBlock_append (last : Value) (front back : List Stmt) :
    evalBlock calls scope last (front ++ back)
      = evalBlock calls scope last front >>= Flow.andThen fun value =>
        evalBlock calls scope value back := by
  induction front generalizing last with
  | nil => rfl
  | cons s rest ih =>
    rw [List.cons_append, evalBlock_cons, evalBlock_cons, bind_assoc]
    refine congrArg (evalStmt calls scope s >>= ·) (funext fun flow => ?_)
    cases flow with
    | normal value => exact ih value
    | returned value => rfl

/-- The value so far matters only where there is no statement. -/
theorem evalBlock_last {body : List Stmt} (some : body ≠ []) (last other : Value) :
    evalBlock calls scope last body = evalBlock calls scope other body := by
  cases body with
  | nil => exact absurd rfl some
  | cons s rest => rw [evalBlock_cons, evalBlock_cons]

/-- A program is evaluated as its statements, where nothing has been returned to. -/
theorem Program.eval_eq (p : Program) (limit : Nat) :
    p.eval limit scope
      = evalBlock (callsWithin limit limit) scope .nothing p.statements >>= Flow.outermost := by
  refine congrArg (evalBlock _ _ _ _ >>= ·) (funext fun flow => ?_)
  cases flow <;> rfl

end Scriptlet
