import Scriptlet.Proofs.Evaluation

/-!
# Events of a run

A run changes the heap by events only: it assigns a name, opens the scope of a call, or makes a
function. `Program.events` lists the events of a run in order, up to its end or its error, and the
run leaves what comes of the heap when they are replayed (`Program.left_eq_replay`). So the heaps of a
run, the one it begins with and the one behind each event, are the replays of the events up to there.

A property `P` of stretches (the heap in front, the heap behind, the events between) holds of every
evaluation as soon as it composes and holds of each event that the evaluation can have: `Keeps` lists
what there is to show, and `Keeps.evalBlock` is the one induction over programs. Assignments are
asked for only where a program has them, outside of function bodies and in its own scope (`targets`).
-/

namespace Scriptlet

/-- What a flow comes to at the end of a call. -/
def Flow.innermost : Flow → Eval Value
  | .normal _ => pure .nothing
  | .returned value => pure value

/-- With room for a call, the scope is opened, the body evaluated in it, and the flow comes to a
value. -/
theorem callsWithin_succ (limit room : Nat) (closure : Closure) (arguments : List Value) :
    callsWithin limit (room + 1) closure arguments = openCall closure arguments >>= fun scope =>
      evalBlock (callsWithin limit room) scope .nothing closure.body >>= Flow.innermost := by
  refine congrArg (openCall closure arguments >>= ·) (funext fun scope => ?_)
  refine congrArg (evalBlock _ _ _ _ >>= ·) (funext fun flow => ?_)
  cases flow <;> rfl

/-! ## Events -/

/-- One change of the heap. A function that is made stands at a path in the text that is evaluated: the
place of the next part at each node, down to the function. -/
inductive Event where
  | assign (scope : ScopeId) (name : String) (value : Value)
  | call (closure : Closure) (arguments : List Value)
  | function (scope : ScopeId) (path : List Nat) (signature : Signature) (body : List Stmt)

/-- The heap behind an event. -/
def Heap.apply (h : Heap) : Event → Heap
  | .assign scope name value => h.assign scope name value
  | .call closure arguments =>
    (h.newScope (some closure.scope) (.ofList (closure.signature.parameters.zip arguments))).2
  | .function scope _ signature body => (h.newFunction scope signature body).2

/-- The heap behind some events. -/
def Heap.replay (h : Heap) (events : List Event) : Heap := events.foldl apply h

/-- Events in two parts are replayed one part behind the other. -/
theorem Heap.replay_append (h : Heap) (events more : List Event) :
    h.replay (events ++ more) = (h.replay events).replay more := List.foldl_append

/-- The function that an event calls. -/
def Event.called? : Event → Option Closure
  | .call closure _ => some closure
  | _ => none

/-- The functions called in some events, in the order of the calls. -/
def called (events : List Event) : List Closure := events.filterMap Event.called?

/-- The functions called in two parts of a history are those of either part. -/
theorem called_append (events more : List Event) :
    called (events ++ more) = called events ++ called more := List.filterMap_append

/-! ## Histories -/

/-- The heap that a computation leaves, with a value or with an error. -/
def Eval.left {α : Type} (x : Eval α) (heap : Heap) : Heap :=
  match x heap with
  | .ok _ left => left
  | .error _ left => left

/-- The events of a computation from each heap. -/
abbrev History := Heap → List Event

namespace History

variable {α : Type}

/-- No events. -/
def none : History := fun _ => []

/-- One event. -/
def one (event : Event) : History := fun _ => [event]

/-- The events of a computation, and if it gives a value those of what goes on from there. -/
def andThen (first : History) (x : Eval α) (next : α → History) : History := fun heap =>
  first heap ++ match x heap with
    | .ok a left => next a left
    | .error _ _ => []

end History

section

variable (calls : Calls) (history : Closure → List Value → History) (scope : ScopeId)

mutual
/-- The events of an expression at a path, where `history` gives those of calls. -/
def Expr.events (path : List Nat) : Expr → History
  | .number _ | .variable _ => .none
  | .assign name e => (e.events (path ++ [0])).andThen (evalExpr calls scope e) fun value =>
    .one (.assign scope name value)
  | .binary _ left right => (left.events (path ++ [0])).andThen (evalExpr calls scope left) fun _ =>
    right.events (path ++ [1])
  | .unary _ operand => operand.events (path ++ [0])
  | .call name arguments => History.none.andThen (callee scope name arguments.length) fun closure =>
    (argumentEvents path 0 arguments).andThen (evalArguments calls scope arguments)
      (history closure)
  | .function signature body => .one (.function scope path signature body)

/-- The events of arguments, the first of which has some place below a path. -/
def argumentEvents (path : List Nat) (place : Nat) : List Expr → History
  | [] => .none
  | e :: rest => (e.events (path ++ [place])).andThen (evalExpr calls scope e) fun _ =>
    argumentEvents path (place + 1) rest

/-- The events of a statement at a path. -/
def Stmt.events (path : List Nat) : Stmt → History
  | .expression e => e.events (path ++ [0])
  | .result e => e.events (path ++ [0])
  | .block body => blockEvents path 0 body
  | .conditional condition body =>
    (condition.events (path ++ [0])).andThen (evalExpr calls scope condition) fun
      | .boolean true => blockEvents path 1 body
      | _ => .none
  | .declaration signature body =>
    (History.one (.function scope path signature body)).andThen (makeFunction scope signature body)
      fun function =>
        match signature.name with
        | some name => .one (.assign scope name function)
        | none => .none

/-- The events of statements, up to a return, the first of which has some place below a path. -/
def blockEvents (path : List Nat) (place : Nat) : List Stmt → History
  | [] => .none
  | s :: rest => (s.events (path ++ [place])).andThen (evalStmt calls scope s) fun
    | .normal _ => blockEvents path (place + 1) rest
    | .returned _ => .none
end

end

/-- The events of a call that has room for some number of calls. Without room it has none. Paths
begin anew in the body. -/
def callEvents (limit : Nat) : (room : Nat) → Closure → List Value → History
  | 0, _, _ => .none
  | room + 1, closure, arguments =>
    (History.one (.call closure arguments)).andThen (openCall closure arguments) fun scope =>
      blockEvents (callsWithin limit room) (callEvents limit room) scope [] 0 closure.body

/-- The heap that a run leaves. -/
def Program.left (p : Program) (limit : Nat) (scope : ScopeId) : Heap → Heap :=
  (p.eval limit scope).left

/-- The events of a run. -/
def Program.events (p : Program) (limit : Nat) (scope : ScopeId) : History :=
  blockEvents (callsWithin limit limit) (callEvents limit limit) scope [] 0 p.statements

/-! ## Targets -/

mutual
/-- The names that an expression assigns outside of function bodies. -/
def Expr.targets : Expr → List String
  | .number _ | .variable _ | .function _ _ => []
  | .assign name e => name :: e.targets
  | .binary _ left right => left.targets ++ right.targets
  | .unary _ operand => operand.targets
  | .call _ arguments => argumentTargets arguments

/-- The names that arguments assign outside of function bodies. -/
def argumentTargets : List Expr → List String
  | [] => []
  | e :: rest => e.targets ++ argumentTargets rest

/-- The names that a statement assigns or declares outside of function bodies. -/
def Stmt.targets : Stmt → List String
  | .expression e => e.targets
  | .result e => e.targets
  | .block body => blockTargets body
  | .conditional condition body => condition.targets ++ blockTargets body
  | .declaration signature _ => signature.name.toList

/-- The names that statements assign or declare outside of function bodies. -/
def blockTargets : List Stmt → List String
  | [] => []
  | s :: rest => s.targets ++ blockTargets rest
end

/-- The names that a program assigns or declares outside of function bodies. -/
def Program.targets (p : Program) : List String := blockTargets p.statements

/-! ## Properties of stretches -/

namespace Eval

variable {α β : Type} {P : Heap → Heap → List Event → Prop}

/-- A computation and its events have a property, whatever heap they begin with. -/
def Has (P : Heap → Heap → List Event → Prop) (x : Eval α) (history : History) : Prop :=
  ∀ heap, P heap (x.left heap) (history heap)

/-- A computation that leaves the heap as it is. -/
def Quiet (x : Eval α) : Prop := ∀ heap, x.left heap = heap

/-- A value given at once leaves the heap alone. -/
theorem quiet_pure (a : α) : Quiet (pure a) := fun _ => rfl

theorem quiet_throw (e : RuntimeError) : Quiet (throw e : Eval α) := fun _ => rfl

theorem quiet_ofExcept (r : Except RuntimeError α) : Quiet (ofExcept r) := by
  cases r with
  | ok a => exact quiet_pure a
  | error e => exact quiet_throw e

theorem quiet_innermost (flow : Flow) : flow.innermost.Quiet := by
  cases flow <;> exact quiet_pure _

theorem quiet_outermost (flow : Flow) : flow.outermost.Quiet := by
  cases flow with
  | normal value => exact quiet_pure value
  | returned value => exact quiet_throw _

/-- Two computations one behind the other leave what the second leaves, if the first comes to an
end. -/
theorem left_bind (x : Eval α) (f : α → Eval β) (heap : Heap) :
    (x >>= f).left heap = match x heap with
      | .ok a left => (f a).left left
      | .error _ left => left := by
  unfold left
  rw [bind_apply]
  cases x heap <;> rfl

/-- The heap of a value is the one left. -/
theorem left_eq_of_ok {x : Eval α} {heap left : Heap} {a : α} (ended : x heap = .ok a left) :
    x.left heap = left := by
  unfold Eval.left
  rw [ended]

/-- The heap of an error is the one left. -/
theorem left_eq_of_error {x : Eval α} {heap left : Heap} {e : RuntimeError}
    (ended : x heap = .error e left) : x.left heap = left := by
  unfold Eval.left
  rw [ended]

/-- What is quiet, followed by what is quiet, is quiet. -/
theorem Quiet.bind {x : Eval α} {f : α → Eval β} (first : x.Quiet) (next : ∀ a, (f a).Quiet) :
    (x >>= f).Quiet := by
  intro heap
  rw [left_bind]
  cases ended : x heap with
  | ok a left => exact (next a left).trans ((left_eq_of_ok ended).symm.trans (first heap))
  | error e left => exact (left_eq_of_error ended).symm.trans (first heap)

end Eval

open Eval

/-- To read a name is quiet. -/
theorem quiet_readName (scope : ScopeId) (name : String) : (readName scope name).Quiet := by
  refine Quiet.bind (fun _ => rfl) fun heap => ?_
  split
  · exact quiet_pure _
  · exact quiet_throw _

/-- To fetch what is called is quiet. -/
theorem quiet_callee (scope : ScopeId) (name : String) (count : Nat) :
    (callee scope name count).Quiet := by
  refine Quiet.bind (quiet_readName scope name) fun value => ?_
  split
  · split
    · exact quiet_pure _
    · exact quiet_throw _
  · exact quiet_throw _

/-- What is called takes as many arguments as it is given. -/
theorem length_parameters_of_callee {scope : ScopeId} {name : String} {count : Nat}
    {heap left : Heap} {closure : Closure}
    (found : callee scope name count heap = .ok closure left) :
    closure.signature.parameters.length = count := by
  unfold callee at found
  rw [bind_apply] at found
  split at found
  · split at found
    · split at found
      · next length =>
        cases found
        exact length
      · cases found
    · cases found
  · cases found

/-- As many values as arguments are given. -/
theorem length_of_evalArguments {calls : Calls} {scope : ScopeId} {es : List Expr}
    {heap left : Heap} {values : List Value}
    (ended : evalArguments calls scope es heap = .ok values left) : values.length = es.length := by
  induction es generalizing heap values with
  | nil =>
    cases ended
    rfl
  | cons e rest ih =>
    simp only [evalArguments, bind_apply] at ended
    split at ended
    · split at ended
      · next others =>
        cases ended
        exact congrArg (· + 1) (ih others)
      · cases ended
    · cases ended

/-- A property of stretches that holds of nothing and of one stretch behind another. -/
structure Composes (P : Heap → Heap → List Event → Prop) : Prop where
  nothing : ∀ heap, P heap heap []
  append : ∀ {a b c : Heap} {events more : List Event},
    P a b events → P b c more → P a c (events ++ more)

section

variable {α β : Type} {P : Heap → Heap → List Event → Prop} {x : Eval α} {history : History}

/-- What is quiet has the property with no events. -/
theorem Composes.quiet (laws : Composes P) (quiet : x.Quiet) : x.Has P .none := by
  intro heap
  rw [quiet heap]
  exact laws.nothing heap

/-- A computation has a property that composes when its steps have it. -/
theorem Composes.bind (laws : Composes P) {f : α → Eval β} {next : α → History}
    (first : x.Has P history)
    (rest : ∀ heap a left, x heap = .ok a left → P left ((f a).left left) (next a left)) :
    (x >>= f).Has P (history.andThen x next) := by
  intro heap
  have front := first heap
  rw [left_bind, History.andThen]
  cases ended : x heap with
  | ok a left =>
    rw [left_eq_of_ok ended] at front
    exact laws.append front (rest heap a left ended)
  | error e left =>
    rw [left_eq_of_error ended] at front
    rw [List.append_nil]
    exact front

/-- What leaves the heap as it is has no events. -/
theorem Composes.bind_quiet (laws : Composes P) {f : α → Eval β} (first : x.Has P history)
    (rest : ∀ a, (f a).Quiet) : (x >>= f).Has P history := by
  intro heap
  have whole := laws.bind first (fun _ a left _ => laws.quiet (rest a) left) heap
  rw [History.andThen] at whole
  cases ended : x heap <;> simpa only [ended, History.none, List.append_nil] using whole

end

/-- What there is to show of a property for it to hold of every evaluation in a scope that assigns
no other names than `names`: that it composes, and that it holds of every event the evaluation can
have and of every call it can make. -/
structure Keeps (P : Heap → Heap → List Event → Prop) (calls : Calls)
    (history : Closure → List Value → History) (scope : ScopeId) (names : String → Prop) : Prop
    extends Composes P where
  assign : ∀ name, names name → ∀ heap value,
    P heap (heap.assign scope name value) [.assign scope name value]
  function : ∀ heap path signature body,
    P heap (heap.newFunction scope signature body).2 [.function scope path signature body]
  call : ∀ closure arguments, closure.signature.parameters.length = arguments.length →
    (calls closure arguments).Has P (history closure arguments)

namespace Keeps

variable {P : Heap → Heap → List Event → Prop} {calls : Calls}
  {history : Closure → List Value → History} {scope : ScopeId} {names : String → Prop}

/-- An assignment of a name that is allowed has the property. -/
theorem assignName (k : Keeps P calls history scope names) {name : String} (allowed : names name)
    (value : Value) : (assignName scope name value).Has P (.one (.assign scope name value)) :=
  fun heap => k.assign name allowed heap value

theorem makeFunction (k : Keeps P calls history scope names) (path : List Nat)
    (signature : Signature) (body : List Stmt) :
    (makeFunction scope signature body).Has P (.one (.function scope path signature body)) :=
  fun heap => k.function heap path signature body

mutual
/-- Expressions that assign only names that are allowed have the property, with their events. -/
theorem evalExpr (k : Keeps P calls history scope names) (path : List Nat) :
    ∀ e : Expr, (∀ name ∈ e.targets, names name) →
      (evalExpr calls scope e).Has P (e.events calls history scope path)
  | .number _, _ => k.quiet (quiet_pure _)
  | .variable name, _ => k.quiet (quiet_readName scope name)
  | .assign name e, allowed => by
    obtain ⟨here, inside⟩ := List.forall_mem_cons.mp allowed
    refine k.bind (k.evalExpr _ e inside) fun _ value left _ => ?_
    exact k.bind_quiet (k.assignName here value) (fun _ => quiet_pure value) left
  | .binary op left right, allowed => by
    obtain ⟨first, second⟩ := List.forall_mem_append.mp allowed
    refine k.bind (k.evalExpr _ left first) fun _ x heap _ => ?_
    exact k.bind_quiet (k.evalExpr _ right second) (fun y => quiet_ofExcept (op.apply x y)) heap
  | .unary op operand, allowed =>
    k.bind_quiet (k.evalExpr _ operand allowed) fun x => quiet_ofExcept (op.apply x)
  | .call name arguments, allowed => by
    refine k.bind (k.quiet (quiet_callee scope name arguments.length)) ?_
    intro _ closure heap found
    refine k.bind (k.evalArguments path 0 arguments allowed) (fun _ values left ended => ?_) heap
    have fits := (length_parameters_of_callee found).trans (length_of_evalArguments ended).symm
    exact k.call closure values fits left
  | .function signature body, _ => k.makeFunction path signature body

theorem evalArguments (k : Keeps P calls history scope names) (path : List Nat) (place : Nat) :
    ∀ es : List Expr, (∀ name ∈ argumentTargets es, names name) →
      (evalArguments calls scope es).Has P (argumentEvents calls history scope path place es)
  | [], _ => k.quiet (quiet_pure _)
  | e :: rest, allowed => by
    obtain ⟨first, others⟩ := List.forall_mem_append.mp allowed
    refine k.bind (k.evalExpr _ e first) fun _ value left _ => ?_
    exact k.bind_quiet (k.evalArguments path _ rest others) (fun values => quiet_pure _) left

/-- Statements have the property, the bodies of functions aside. -/
theorem evalStmt (k : Keeps P calls history scope names) (path : List Nat) :
    ∀ s : Stmt, (∀ name ∈ s.targets, names name) →
      (evalStmt calls scope s).Has P (s.events calls history scope path)
  | .expression e, allowed => k.bind_quiet (k.evalExpr _ e allowed) fun _ => quiet_pure _
  | .result e, allowed => k.bind_quiet (k.evalExpr _ e allowed) fun _ => quiet_pure _
  | .block body, allowed => k.evalBlock path 0 .nothing body allowed
  | .conditional condition body, allowed => by
    obtain ⟨first, second⟩ := List.forall_mem_append.mp allowed
    refine k.bind (k.evalExpr _ condition first) fun _ value left _ => ?_
    rcases value with _ | (_ | _) | _ | _
    case boolean.true =>
      refine k.bind_quiet (k.evalBlock path 1 .nothing body second) (fun flow => ?_) left
      cases flow <;> exact quiet_pure _
    case boolean.false => exact k.quiet (quiet_pure _) left
    all_goals exact k.quiet (quiet_throw _) left
  | .declaration ⟨some name, parameters⟩ body, allowed => by
    simp only [Scriptlet.evalStmt, Stmt.events]
    refine k.bind (k.makeFunction path ⟨some name, parameters⟩ body) fun _ function left _ => ?_
    exact k.bind_quiet (k.assignName (allowed name List.mem_cons_self) function)
      (fun _ => quiet_pure _) left
  | .declaration ⟨none, _⟩ body, _ =>
    k.bind (k.makeFunction path _ body) fun _ function left _ => k.quiet (quiet_pure _) left

theorem evalBlock (k : Keeps P calls history scope names) (path : List Nat) (place : Nat)
    (last : Value) : ∀ body : List Stmt, (∀ name ∈ blockTargets body, names name) →
      (evalBlock calls scope last body).Has P (blockEvents calls history scope path place body)
  | [], _ => k.quiet (quiet_pure _)
  | s :: rest, allowed => by
    obtain ⟨first, others⟩ := List.forall_mem_append.mp allowed
    refine k.bind (k.evalStmt _ s first) fun _ flow left _ => ?_
    cases flow with
    | normal value => exact k.evalBlock path _ value rest others left
    | returned value => exact k.quiet (quiet_pure _) left
end

/-- A property of the events of a program holds of a run of it. -/
theorem eval {limit : Nat}
    (k : Keeps P (callsWithin limit limit) (callEvents limit limit) scope names) (p : Program)
    (allowed : ∀ name ∈ p.targets, names name) :
    (p.eval limit scope).Has P (p.events limit scope) := by
  rw [p.eval_eq]
  exact k.bind_quiet (k.evalBlock [] 0 .nothing p.statements allowed) quiet_outermost

end Keeps

/-! ## Replays -/

/-- The heap behind a stretch is what comes of its events. -/
def Replays (before after : Heap) (events : List Event) : Prop := after = before.replay events

/-- Replaying events in two parts is a composition. -/
theorem replays_composes : Composes Replays where
  nothing _ := rfl
  append first second := by
    rw [Replays, Heap.replay_append, ← first]
    exact second

/-- What is replayed is kept, whatever calls there are. -/
theorem replays_keeps {calls : Calls} {history : Closure → List Value → History}
    (called : ∀ closure arguments, (calls closure arguments).Has Replays (history closure arguments))
    (scope : ScopeId) : Keeps Replays calls history scope fun _ => True :=
  { replays_composes with
    assign := fun _ _ _ _ => rfl
    function := fun _ _ _ _ => rfl
    call := fun closure arguments _ => called closure arguments }

/-- A call leaves what comes of its events, by induction on the room there is. -/
theorem callsWithin_replays (limit room : Nat) (closure : Closure) (arguments : List Value) :
    (callsWithin limit room closure arguments).Has Replays
      (callEvents limit room closure arguments) := by
  induction room generalizing closure arguments with
  | zero => exact replays_composes.quiet (quiet_throw _)
  | succ room ih =>
    have opened : (openCall closure arguments).Has Replays (.one (.call closure arguments)) :=
      fun _ => rfl
    rw [callsWithin_succ]
    refine replays_composes.bind opened fun _ scope left _ => ?_
    have body := (replays_keeps ih scope).evalBlock [] 0 .nothing closure.body fun _ _ => trivial
    exact replays_composes.bind_quiet body quiet_innermost left

/-- **A run leaves what comes of its events.** -/
theorem Program.left_eq_replay (p : Program) (limit : Nat) (scope : ScopeId) (heap : Heap) :
    p.left limit scope heap = heap.replay (p.events limit scope heap) :=
  (replays_keeps (callsWithin_replays limit limit) scope).eval p (fun _ _ => trivial) heap

end Scriptlet
