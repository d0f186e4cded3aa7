import Scriptlet.Proofs.Evaluation.CallLimit
import Scriptlet.Proofs.Evaluation.Recursion

/-!
# Every evaluation ends

The recursion of `Task.body` ends, whatever is in the heap (`evaluation_ends`). The measure of a
task is the room for further calls together with the size of the syntax. A body has less room than
its call, and everything else that is asked for has smaller syntax.

For this the number of open calls has to be the same behind a task as in front of it, or what is
asked for next would have another measure. So both are said at once: a procedure does what a
computation does (`Procedure.Does`) if it ends as that does, with as many calls open, and asks only
for tasks below a bound. This holds of every `Task.body` as soon as the tasks below it settle
(`body_does`). A property like this one spreads (`Procedure.Spreads`): it holds of what is done for
a task if it holds of the smaller tasks, and only a call has to be looked at by itself.
-/

namespace Scriptlet

open Plan

/-- Even the empty block has a size. -/
theorem blockSize_pos (body : List Stmt) : 0 < blockSize body := by
  induction body with
  | nil => exact Nat.one_pos
  | cons s rest ih => exact Nat.add_pos_right s.size ih

/-- A statement is smaller than the block it stands in. -/
theorem size_lt_of_mem {s : Stmt} {body : List Stmt} (mem : s ∈ body) :
    s.size < blockSize body := by
  induction mem with
  | head rest => exact Nat.lt_add_of_pos_right (blockSize_pos rest)
  | tail other _ ih => exact Nat.lt_add_left other.size ih

/-- An argument is no larger than all arguments together. -/
theorem size_le_of_mem {e : Expr} {es : List Expr} (mem : e ∈ es) : e.size ≤ argumentsSize es := by
  induction mem with
  | head rest => exact Nat.le_add_right _ _
  | tail other _ ih => exact Nat.le_add_left_of_le ih

/-! ## Requests -/

/-- The tasks that a plan asks for, one after the other, up to its end. What is asked for on behalf
of these tasks is not among them. -/
inductive Plan.Asks {α : Type} (limit : Nat) : Plan α → Task → Standing → Prop where
  | now (task : Task) (standing : Standing)
    (next : Except RuntimeError task.Result → Standing → Plan α) :
    Asks limit (.ask task standing next) task standing
  | later {task other : Task} {standing left there : Standing}
    {next : Except RuntimeError task.Result → Standing → Plan α}
    {outcome : Except RuntimeError task.Result}
    (ends : (evaluate task standing).Ends limit outcome left)
    (asks : Asks limit (next outcome left) other there) :
    Asks limit (.ask task standing next) other there

/-- One call of the recursion is made in the course of another one, by what is done for that. -/
def Invokes (limit : Nat) (inner outer : Task × Standing) : Prop :=
  (outer.1.body limit outer.2).Asks limit inner.1 inner.2

/-- The room that there is for further calls, and the size of the syntax. -/
def Task.measure (limit : Nat) (task : Task) (depth : Nat) : Nat × Nat := (limit - depth, task.size)

/-- Less room, or as much and smaller syntax. -/
abbrev Lower : Nat × Nat → Nat × Nat → Prop := Prod.Lex (· < ·) (· < ·)

/-- A smaller task at the same depth is lower, as there is the same room for calls. -/
theorem Task.lower_of_size_lt {limit depth : Nat} {task other : Task}
    (smaller : task.size < other.size) :
    Lower (task.measure limit depth) (other.measure limit depth) := .right _ smaller

section

variable {α β : Type} {limit : Nat}

/-- What a plan with something behind it asks for, it asks for itself or behind its end. -/
theorem asks_andThen {plan : Plan α} {next : Except RuntimeError α → Standing → Plan β}
    {task : Task} {standing : Standing} (asks : (plan.andThen next).Asks limit task standing) :
    plan.Asks limit task standing ∨
      ∃ outcome left, plan.Ends limit outcome left ∧
        (next outcome left).Asks limit task standing := by
  induction plan with
  | done outcome left => exact .inr ⟨outcome, left, .done outcome left, asks⟩
  | ask first there rest ih =>
    cases asks with
    | now => exact .inl (.now ..)
    | later ends asks =>
      rcases ih _ _ asks with before | ⟨outcome, left, ended, after⟩
      · exact .inl (.later ends before)
      · exact .inr ⟨outcome, left, ends.andThen ended, after⟩

/-- A plan that is done asks for nothing. -/
theorem not_asks_done {outcome : Except RuntimeError α} {left standing : Standing} {task : Task} :
    ¬ (Plan.done outcome left).Asks limit task standing := nofun

/-! ## What procedures do -/

/-- A procedure does what a computation does: begun with some number of calls open it ends as the
computation, with as many open. On the way it asks for tasks below a bound only. -/
structure Procedure.Does (limit depth : Nat) (bound : Nat × Nat) (x : Procedure α) (y : Eval α) :
    Prop where
  lower : ∀ heap task standing, (x ⟨heap, depth⟩).Asks limit task standing →
    Lower (task.measure limit standing.depth) bound
  ends : ∀ heap, (x ⟨heap, depth⟩).Ends limit (y.outcome heap) ⟨y.left heap, depth⟩

namespace Procedure

variable {depth : Nat} {bound : Nat × Nat}

/-- What is done at once asks for nothing. -/
theorem Does.of_done {x : Procedure α} {y : Eval α}
    (done : ∀ heap, x ⟨heap, depth⟩ = .done (y.outcome heap) ⟨y.left heap, depth⟩) :
    Does limit depth bound x y := by
  constructor
  case lower =>
    intro heap task standing asks
    rw [done] at asks
    exact absurd asks not_asks_done
  case ends =>
    intro heap
    rw [done]
    exact .done _ _

/-- A computation is done without asking for tasks. -/
theorem Does.lift (y : Eval α) : Does limit depth bound (liftM y) y := .of_done fun _ => rfl

/-- What does two computations, one behind the other, does them in turn. -/
theorem Does.bind {x : Procedure α} {y : Eval α} {f : α → Procedure β} {g : α → Eval β}
    (first : Does limit depth bound x y) (next : ∀ a, Does limit depth bound (f a) (g a)) :
    Does limit depth bound (x >>= f) (y >>= g) := by
  constructor
  case lower =>
    intro heap task standing asks
    rcases asks_andThen asks with front | ⟨outcome, left, ended, back⟩
    · exact first.lower heap task standing front
    -- What is asked behind the first computation is asked only if that has given a value.
    · obtain ⟨rfl, rfl⟩ := (first.ends heap).unique ended
      unfold Eval.outcome at back
      cases result : y heap with
      | ok a after =>
        rw [Eval.left_eq_of_ok result, result] at back
        exact (next a).lower after task standing back
      | error e after =>
        rw [result] at back
        exact absurd back not_asks_done
  case ends =>
    intro heap
    refine (first.ends heap).andThen ?_
    unfold Eval.outcome
    rw [Eval.left_bind, Eval.bind_apply]
    cases result : y heap with
    | ok a after =>
      rw [Eval.left_eq_of_ok result]
      exact (next a).ends after
    | error e after =>
      rw [Eval.left_eq_of_error result]
      exact .done _ _

end Procedure

/-- A task ends as it does by `callsWithin`, with as many calls open as in front of it. -/
def Task.Settles (limit : Nat) (task : Task) (depth : Nat) : Prop :=
  ∀ heap, (evaluate task ⟨heap, depth⟩).Ends limit
    ((task.eval limit depth).outcome heap) ⟨(task.eval limit depth).left heap, depth⟩

namespace Procedure

variable {depth : Nat} {bound : Nat × Nat} {task : Task}

/-- To ask for a lower task that settles is to evaluate it. -/
theorem Does.evaluate (settles : task.Settles limit depth)
    (lower : Lower (task.measure limit depth) bound) :
    Does limit depth bound (evaluate task) (task.eval limit depth) where
  lower _ _ _ asks := by
    cases asks with
    | now => exact lower
    | later _ asks => exact absurd asks not_asks_done
  ends := settles

/-- To ask for it within a call is so too, if there is room, for then there is less room inside. -/
theorem Does.evaluateInCall (settles : task.Settles limit (depth + 1)) (room : depth < limit)
    {n : Nat} :
    Does limit depth (limit - depth, n) (evaluateInCall task) (task.eval limit (depth + 1)) where
  lower _ _ _ asks := by
    cases asks with
    | now => exact .left _ _ (Nat.sub_succ_lt_self _ _ room)
    | later _ asks => exact absurd asks not_asks_done
  ends heap := (settles heap).andThen (.done _ _)

end Procedure

/-! ## What is done for tasks -/

/-- A property of procedures, each next to what it does, that holds of computations on the heap which
do not call, and is kept where procedures go on behind each other. -/
structure Procedure.Spreads (Q : {α : Type} → Procedure α → Eval α → Prop) : Prop where
  lift : ∀ {α : Type} {y : Eval α}, (∀ k, Eval.UpTo k y y) → Q (liftM y) y
  bind : ∀ {α β : Type} {x : Procedure α} {y : Eval α} {f : α → Procedure β} {g : α → Eval β},
    Q x y → (∀ a, Q (f a) (g a)) → Q (x >>= f) (y >>= g)

namespace Procedure.Spreads

variable {Q : {α : Type} → Procedure α → Eval α → Prop} {limit depth : Nat} (k : Spreads Q)
include k

/-- A value given at once has the property. -/
theorem pure {α : Type} (a : α) : Q (pure a) (pure a) := k.lift fun _ => .pure a

/-- The statements of a block have it one behind the other, if each has. -/
theorem evaluateBlock (scope : ScopeId) {body : List Stmt} (last : Value)
    (statements : ∀ s ∈ body, Q (evaluate (.stmt s scope)) ((Task.stmt s scope).eval limit depth)) :
    Q (evaluateBlock scope last body)
      (evalBlock (callsWithin limit (limit - depth)) scope last body) := by
  induction body generalizing last with
  | nil => exact k.pure _
  | cons s rest ih =>
    obtain ⟨first, others⟩ := List.forall_mem_cons.mp statements
    rw [evalBlock_cons]
    refine k.bind first ?_
    rintro (value | value)
    · exact ih value others
    · exact k.pure _

theorem evaluateArguments (scope : ScopeId) {es : List Expr}
    (arguments : ∀ e ∈ es, Q (evaluate (.expr e scope)) ((Task.expr e scope).eval limit depth)) :
    Q (evaluateArguments scope es)
      (evalArguments (callsWithin limit (limit - depth)) scope es) := by
  induction es with
  | nil => exact k.pure _
  | cons e rest ih =>
    obtain ⟨first, others⟩ := List.forall_mem_cons.mp arguments
    exact k.bind first fun value => k.bind (ih others) fun values => k.pure _

/-- What spreads holds of what is done for a task if it holds of the tasks with smaller syntax that
this asks for. A call asks for its body, which may be larger. -/
theorem body (task : Task)
    (smaller : ∀ other : Task, other.size < task.size → Q (evaluate other) (other.eval limit depth))
    (call : ∀ closure arguments, task = .call closure arguments →
      Q (task.body limit) (task.eval limit depth)) :
    Q (task.body limit) (task.eval limit depth) := by
  match task with
  | .program p scope =>
    refine k.bind (smaller (.block p.statements scope) (Nat.lt_succ_self _)) ?_
    rintro (value | value)
    · exact k.lift fun _ => .pure value
    · exact k.lift fun _ => .throw (by simp)
  | .block body scope =>
    exact k.evaluateBlock scope .nothing fun s mem => smaller (.stmt s scope) (size_lt_of_mem mem)
  | .stmt (.expression e) scope =>
    exact k.bind (smaller (.expr e scope) (Nat.lt_succ_self _)) fun value => k.pure _
  | .stmt (.result e) scope =>
    exact k.bind (smaller (.expr e scope) (Nat.lt_succ_self _)) fun value => k.pure _
  | .stmt (.block body) scope => exact smaller (.block body scope) (Nat.lt_succ_self _)
  | .stmt (.conditional condition body) scope =>
    obtain ⟨first, second⟩ : condition.size < condition.size + blockSize body + 1 ∧
        blockSize body < condition.size + blockSize body + 1 := by omega
    refine k.bind (smaller (.expr condition scope) first) ?_
    -- Only a boolean decides, and every other kind is an error that is not about calls.
    rintro (_ | (_ | _) | _ | _)
    case boolean.true =>
      refine k.bind (smaller (.block body scope) second) ?_
      rintro (_ | value) <;> exact k.pure _
    case boolean.false => exact k.pure _
    all_goals exact k.lift fun _ => .throw (by simp)
  | .stmt (.declaration ⟨some name, parameters⟩ body) scope =>
    refine k.bind (k.lift fun _ => makeFunction_upTo scope _ body) fun function => ?_
    exact k.bind (k.lift fun _ => assignName_upTo scope name function) fun _ => k.pure _
  | .stmt (.declaration ⟨none, _⟩ body) scope =>
    exact k.bind (k.lift fun _ => makeFunction_upTo scope _ body) fun function => k.pure _
  | .expr (.number numeral) _ => exact k.pure _
  | .expr (.variable name) scope => exact k.lift fun _ => readName_upTo scope name
  | .expr (.assign name e) scope =>
    refine k.bind (smaller (.expr e scope) (Nat.lt_succ_self _)) fun value => ?_
    exact k.bind (k.lift fun _ => assignName_upTo scope name value) fun _ => k.pure _
  | .expr (.binary op left right) scope =>
    obtain ⟨first, second⟩ : left.size < left.size + right.size + 1 ∧
        right.size < left.size + right.size + 1 := by omega
    refine k.bind (smaller (.expr left scope) first) fun x => ?_
    refine k.bind (smaller (.expr right scope) second) fun y => ?_
    exact k.lift fun _ => .ofExcept (op.apply_ne_tooManyCalls x y)
  | .expr (.unary op operand) scope =>
    refine k.bind (smaller (.expr operand scope) (Nat.lt_succ_self _)) fun x => ?_
    exact k.lift fun _ => .ofExcept (op.apply_ne_tooManyCalls x)
  | .expr (.call name arguments) scope =>
    refine k.bind (k.lift fun _ => callee_upTo scope name _) fun closure => ?_
    refine k.bind (k.evaluateArguments scope fun e mem =>
      smaller (.expr e scope) (Nat.lt_succ_of_le (size_le_of_mem mem))) fun values => ?_
    -- A call has no size of its own: what it asks for is below it by the room, not by the size.
    exact smaller (.call closure values) (Nat.succ_pos _)
  | .expr (.function signature body) scope =>
    exact k.lift fun _ => makeFunction_upTo scope signature body
  | .call closure arguments => exact call closure arguments rfl

end Procedure.Spreads

section

variable {depth : Nat} {bound : Nat × Nat}

/-- To do what a computation does is a property that spreads. -/
theorem spreads_does : Procedure.Spreads (Procedure.Does limit depth bound) where
  lift _ := .lift _
  bind := .bind

/-- With room for a call, the demand for room is met. -/
theorem demandRoom_of_lt (room : depth < limit) (heap : Heap) :
    demandRoom limit ⟨heap, depth⟩ = .done (.ok ()) ⟨heap, depth⟩ :=
  if_neg (Nat.not_le_of_lt room)

/-- A call asks for its body only, and that with less room. -/
theorem call_does (closure : Closure) (arguments : List Value)
    (settles : ∀ scope, depth < limit →
      (Task.block closure.body scope).Settles limit (depth + 1)) :
    ((Task.call closure arguments).body limit).Does limit depth
      ((Task.call closure arguments).measure limit depth)
      (callsWithin limit (limit - depth) closure arguments) := by
  by_cases room : depth < limit
  · have less : limit - depth = limit - (depth + 1) + 1 := by omega
    rw [less, callsWithin_succ, ← pure_bind () fun _ => openCall closure arguments >>= _]
    refine .bind (.of_done (demandRoom_of_lt room)) fun _ => ?_
    refine .bind (.lift _) fun scope => ?_
    exact .bind (.evaluateInCall (settles scope room) room) fun flow => .lift flow.innermost
  · have full : limit ≤ depth := Nat.le_of_not_lt room
    rw [Nat.sub_eq_zero_of_le full]
    refine .of_done fun heap => ?_
    change Plan.andThen (demandRoom limit ⟨heap, depth⟩) _ = _
    rw [show demandRoom limit ⟨heap, depth⟩ = .done (.error (.tooManyCalls limit)) ⟨heap, depth⟩
      from if_pos full]
    rfl

/-- What is done for a task is what `callsWithin` has it come to, if the tasks below it settle. -/
theorem body_does (task : Task)
    (settles : ∀ (other : Task) inside,
      Lower (other.measure limit inside) (task.measure limit depth) → other.Settles limit inside) :
    (task.body limit).Does limit depth (task.measure limit depth) (task.eval limit depth) := by
  refine spreads_does.body task (fun other smaller => ?_) fun closure arguments same => ?_
  · have lower : Lower (other.measure limit depth) (task.measure limit depth) :=
      Task.lower_of_size_lt smaller
    -- The other tasks are smaller and have as much room, and the body of a call has less room.
    exact .evaluate (settles other depth lower) lower
  · subst same
    exact call_does closure arguments fun scope room =>
      settles (.block closure.body scope) (depth + 1) (.left _ _ (Nat.sub_succ_lt_self _ _ room))

/-- The order of measures is well-founded, being lexicographic. -/
theorem wellFounded_lower : WellFounded Lower :=
  (Prod.lex ⟨_, Nat.lt_wfRel.wf⟩ ⟨_, Nat.lt_wfRel.wf⟩).wf

/-- Every task settles, by induction on the measure: a step leads to what is done for the task. -/
theorem Task.settles (limit : Nat) (task : Task) (depth : Nat) : task.Settles limit depth := by
  induction bound : task.measure limit depth using wellFounded_lower.induction
    generalizing task depth with
  | _ bound ih =>
    subst bound
    intro heap
    -- What is asked for is lower, so it settles, and the plan for the task comes to its end.
    have below (other : Task) (inside : Nat)
        (lower : Lower (other.measure limit inside) (task.measure limit depth)) :
        other.Settles limit inside := ih _ lower other inside rfl
    obtain ⟨n, ended⟩ := (body_does task below).ends heap
    refine ⟨n + 1, ?_⟩
    rw [Function.iterate_succ_apply]
    exact (congrArg (step limit)^[n] (Plan.andThen_done _)).trans ended

/-- What is invoked has less room, or as much and smaller syntax. -/
theorem Invokes.lower {inner outer : Task × Standing} (invokes : Invokes limit inner outer) :
    Lower (inner.1.measure limit inner.2.depth) (outer.1.measure limit outer.2.depth) :=
  have does := body_does outer.1 fun other inside _ => other.settles limit inside
  does.lower outer.2.heap inner.1 inner.2 invokes

/-- A call with room for it invokes the body, one call deeper. -/
theorem Invokes.call (closure : Closure) (arguments : List Value) (heap : Heap)
    (room : depth < limit) :
    Invokes limit
      (.block closure.body heap.scopes.size, ⟨heap.apply (.call closure arguments), depth + 1⟩)
      (.call closure arguments, ⟨heap, depth⟩) := by
  change Plan.Asks limit (Plan.andThen (demandRoom limit ⟨heap, depth⟩) _) _ _
  rw [demandRoom_of_lt room]
  exact .now _ _ _

end

end

/-- **Every evaluation ends.** From every heap, with any number of calls open, every task comes to a
value or an error after finitely many steps, and leaves as many calls open; programs come to what
`Program.eval` has them come to. The recursion is well-founded, because each call of it that is made
in the course of another one has less room for further calls, or as much room and smaller syntax,
though the body that a call goes on to can be of any size. -/
theorem evaluation_ends (limit : Nat) :
    (∀ task standing, (evaluate task standing).Ends limit
      ((task.eval limit standing.depth).outcome standing.heap)
      ⟨(task.eval limit standing.depth).left standing.heap, standing.depth⟩) ∧
    (∀ p scope heap, (evaluate (.program p scope) ⟨heap, 0⟩).Ends limit
      ((p.eval limit scope).outcome heap) ⟨p.left limit scope heap, 0⟩) ∧
    WellFounded (Invokes limit) ∧
    (∀ inner outer, Invokes limit inner outer →
      Lower (inner.1.measure limit inner.2.depth) (outer.1.measure limit outer.2.depth)) ∧
    ∀ (closure : Closure) (arguments : List Value) (heap : Heap) (depth : Nat), depth < limit →
      Invokes limit
        (.block closure.body heap.scopes.size, ⟨heap.apply (.call closure arguments), depth + 1⟩)
        (.call closure arguments, ⟨heap, depth⟩) := by
  refine ⟨fun task standing => task.settles limit standing.depth standing.heap,
    fun p scope heap => ?_, ?_, fun _ _ => Invokes.lower,
    fun closure arguments heap _ => Invokes.call closure arguments heap⟩
  · rw [Program.left, p.eval_eq]
    exact Task.settles limit (.program p scope) 0 heap
  · have measured : WellFounded (InvImage Lower fun t : Task × Standing =>
        t.1.measure limit t.2.depth) := InvImage.wf _ wellFounded_lower
    exact Subrelation.wf Invokes.lower measured

/-- A call that overflows ends, and one with room goes on to a body that is larger than the call. -/
theorem evaluation_ends_idleCall :
    (evaluate (.program idleCall 0) ⟨idleHeap, 0⟩).Ends 0 (.error (.tooManyCalls 0)) ⟨idleHeap, 0⟩ ∧
      Invokes 1 (.block [] 1, ⟨idleHeap.apply (.call idle []), 1⟩) (.call idle [], ⟨idleHeap, 0⟩) ∧
      Lower (0, 1) (1, 0) := by
  obtain ⟨_, ends, _⟩ := evaluation_ends 0
  obtain ⟨_, _, _, lower, goesOn⟩ := evaluation_ends 1
  have overflow := ends idleCall 0 idleHeap
  rw [Eval.outcome, Program.left, Eval.left_eq_of_error eval_idleCall_zero, eval_idleCall_zero]
    at overflow
  have body := goesOn idle [] idleHeap 0 (by decide)
  exact ⟨overflow, body, lower _ _ body⟩

end Scriptlet
