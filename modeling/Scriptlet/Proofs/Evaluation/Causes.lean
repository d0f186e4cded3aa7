import Scriptlet.Proofs.Evaluation.Provenance
import Scriptlet.Proofs.Grammar.WellFormed
import Scriptlet.Session

/-!
# What a runtime error comes from

Every runtime error has something in the program that it comes from (`RuntimeError.StemsFrom`): a
name that is read, an operation, a call, a return that no function is around. Most errors are met in
the body of some function that has been fetched from a scope, so the invariant of a run is that all
functions in the heap are written in the program (`Heap.WrittenIn`).

`Eval.Ensures` says of a computation that it keeps an invariant, that the values it gives are good
and that the errors it meets are owing to something. It has a rule for each way to put computations
together. Evaluation follows these rules (`Calls.Stay.evalBlock`), whatever room there is for calls
(`stay_callsWithin`). A call ends the returns in its body, so statements come to a return only by one
that they have outside of all function bodies (`blockReturns`).
-/

namespace Scriptlet

/-! ## What is written in a program -/

namespace Tree

/-- A node that stands in a tree outside of all function bodies in it. -/
inductive Exposes : Tree → Tree → Prop
  | root (t : Tree) : Exposes t t
  | part {t u v : Tree} {hold : Hold} :
      t.code? = none → (hold, u) ∈ t.parts → Exposes u v → Exposes t v

/-- Whether a tree has a return outside of all function bodies. -/
def Returns (t : Tree) : Prop := ∃ e, t.Exposes (.stmt (.result e))

/-- What is contained in something contained is contained. -/
theorem Contains.trans {t u v : Tree} (first : t.Contains u) (second : u.Contains v) :
    t.Contains v := by
  induction first with
  | root => exact second
  | part member _ ih => exact .part member (ih second)

end Tree

/-- Whether statements have a return outside of all function bodies. -/
def blockReturns (body : List Stmt) : Prop := ∃ s ∈ body, Tree.Returns (.stmt s)

/-- A block that has a return gives it to the statement the block is part of. -/
theorem Tree.returns_of_block {t : Tree} {body : List Stmt} (noFunction : t.code? = none)
    (parts : ∀ s ∈ body, (.within, .stmt s) ∈ t.parts) (h : blockReturns body) : t.Returns := by
  obtain ⟨s, member, e, inside⟩ := h
  exact ⟨e, .part noFunction (parts s member) inside⟩

/-- What is part of something written in a program is written in it. -/
theorem Program.Contains.part {p : Program} {t u : Tree} {hold : Hold} (h : p.Contains t)
    (part : (hold, u) ∈ t.parts) : p.Contains u := by
  obtain ⟨s, member, inside⟩ := h
  exact ⟨s, member, inside.trans (.part part (.root u))⟩

/-- A function of which the program has the text. -/
def Closure.WrittenIn (p : Program) (closure : Closure) : Prop :=
  ∃ t, p.Contains t ∧ t.code? = some closure.code

/-- A value of which the program has the text if it is a function. -/
def Value.WrittenIn (p : Program) (value : Value) : Prop :=
  ∀ closure, value = .function closure → closure.WrittenIn p

/-- Whether all functions that are bound in a heap are written in a program. -/
def Heap.WrittenIn (p : Program) (heap : Heap) : Prop :=
  ∀ s name value, (heap.bindings s).find? name = some value → value.WrittenIn p

/-- What a program has that an error comes from, where there may be `limit` calls open at once, and
what else there is to say of the error: operands are refused because they are no numbers, conditions
because they are no booleans, and arguments because there are too few or too many of them. -/
def RuntimeError.StemsFrom (p : Program) (limit : Nat) : RuntimeError → Prop
  | unbound name =>
    p.Contains (.expr (.variable name)) ∨ ∃ arguments, p.Contains (.expr (.call name arguments))
  | divisionByZero => ∃ left right, p.Contains (.expr (.binary .divide left right))
  | misuse (.binary op left right) =>
    (∃ e f, p.Contains (.expr (.binary op e f))) ∧ ¬ (left = .number ∧ right = .number)
  | misuse (.unary op operand) => (∃ e, p.Contains (.expr (.unary op e))) ∧ operand ≠ .number
  | misuse (.condition kind) =>
    (∃ condition body, p.Contains (.stmt (.conditional condition body))) ∧ kind ≠ .boolean
  | misuse (.notCallable name) => ∃ arguments, p.Contains (.expr (.call name arguments))
  | arity name expected actual => expected ≠ actual ∧
    (∃ arguments, p.Contains (.expr (.call name arguments)) ∧ arguments.length = actual) ∧
      ∃ t code, p.Contains t ∧ t.code? = some code ∧ code.signature.parameters.length = expected
  | returnOutsideFunction => blockReturns p.statements
  | tooManyCalls n => n = limit ∧ ∃ name arguments, p.Contains (.expr (.call name arguments))

/-! ## Computations -/

namespace Eval

/-- A computation keeps an invariant of the heap, gives good values only, and meets bad errors only.
-/
def Ensures {α : Type} (inv : Heap → Prop) (x : Eval α) (good : α → Prop)
    (bad : RuntimeError → Prop) : Prop :=
  ∀ heap, inv heap → match x heap with
    | .ok a left => inv left ∧ good a
    | .error e left => inv left ∧ bad e

namespace Ensures

variable {α β : Type} {inv : Heap → Prop} {x : Eval α} {f : α → Eval β} {good : α → Prop}
  {last : β → Prop} {bad : RuntimeError → Prop}

/-- A value given at once ensures what is known of it. -/
theorem pure {a : α} (known : good a) : Ensures inv (pure a) good bad :=
  fun _ kept => ⟨kept, known⟩

/-- An error thrown at once is owing to what it is owing to. -/
theorem throw {e : RuntimeError} (known : bad e) : Ensures inv (throw e) good bad :=
  fun _ kept => ⟨kept, known⟩

/-- Two computations in turn: the second is asked for the good values of the first only. -/
theorem bind (first : Ensures inv x good bad) (next : ∀ a, good a → Ensures inv (f a) last bad) :
    Ensures inv (x >>= f) last bad := by
  intro heap kept
  have front := first heap kept
  rw [bind_apply]
  cases ended : x heap with
  | ok a left =>
    rw [ended] at front
    exact next a front.2 left front.1
  | error e left =>
    rw [ended] at front
    exact front

/-- Fewer values may be good than are asked to be. -/
theorem mono {other : α → Prop} (h : Ensures inv x good bad) (weaker : ∀ a, good a → other a) :
    Ensures inv x other bad := by
  intro heap kept
  have whole := h heap kept
  cases ended : x heap with
  | ok a left =>
    rw [ended] at whole
    exact ⟨whole.1, weaker a whole.2⟩
  | error e left =>
    rw [ended] at whole
    exact whole

/-- A plain outcome leaves the heap, so only value and error are asked about. -/
theorem ofExcept {r : Except RuntimeError α} (known : ∀ a, r = .ok a → good a)
    (owing : ∀ e, r = .error e → bad e) : Ensures inv (ofExcept r) good bad := by
  cases r with
  | ok a => exact .pure (known a rfl)
  | error e => exact .throw (owing e rfl)

end Ensures

end Eval

open Eval

variable {p : Program} {limit : Nat}

/-- A computation on functions of a program, with errors that stem from it. -/
abbrev Eval.Stays {α : Type} (p : Program) (limit : Nat) (x : Eval α) (good : α → Prop) : Prop :=
  x.Ensures (Heap.WrittenIn p) good (RuntimeError.StemsFrom p limit)

/-! ## Steps -/

/-- A value of the kind of numbers is a number. -/
theorem Value.exists_of_kind_eq_number {value : Value} (number : value.kind = .number) :
    ∃ x, value = .number x := by
  cases value with
  | number x => exact ⟨x, rfl⟩
  | _ => cases number

/-- An operator gives no function, so its value is written in every program. -/
theorem BinaryOp.writtenIn_of_apply {op : BinaryOp} {x y value : Value}
    (result : op.apply x y = .ok value) : value.WrittenIn p :=
  fun closure same => absurd same (BinaryOp.ne_function_of_apply result closure)

theorem UnaryOp.writtenIn_of_apply {op : UnaryOp} {x value : Value}
    (result : op.apply x = .ok value) : value.WrittenIn p :=
  fun closure same => absurd same (UnaryOp.ne_function_of_apply result closure)

/-- An operation fails by its operands' kinds, and its node is in the program. -/
theorem BinaryOp.stemsFrom_of_apply {op : BinaryOp} {x y : Value} {e : RuntimeError}
    (node : ∃ left right, p.Contains (.expr (.binary op left right)))
    (failed : op.apply x y = .error e) : e.StemsFrom p limit := by
  unfold BinaryOp.apply at failed
  split at failed
  · unfold BinaryOp.onNumbers at failed
    split at failed
    case h_4 =>
      split at failed <;> cases failed
      exact node
    all_goals cases failed
  · next other =>
    cases failed
    refine ⟨node, fun ⟨left, right⟩ => ?_⟩
    obtain ⟨a, rfl⟩ := Value.exists_of_kind_eq_number left
    obtain ⟨b, rfl⟩ := Value.exists_of_kind_eq_number right
    exact other a b rfl rfl

/-- A sign fails by its operand's kind. -/
theorem UnaryOp.stemsFrom_of_apply {op : UnaryOp} {x : Value} {e : RuntimeError}
    (node : ∃ operand, p.Contains (.expr (.unary op operand)))
    (failed : op.apply x = .error e) : e.StemsFrom p limit := by
  unfold UnaryOp.apply at failed
  split at failed <;> cases failed
  next plus minus =>
  refine ⟨node, fun number => ?_⟩
  obtain ⟨a, rfl⟩ := Value.exists_of_kind_eq_number number
  cases op with
  | plus => exact plus a rfl rfl
  | minus => exact minus a rfl rfl

/-- A name that is read stays, if its failure would stem from the program. -/
theorem stays_readName (scope : ScopeId) {name : String}
    (named : (RuntimeError.unbound name).StemsFrom p limit) :
    (readName scope name).Stays p limit (Value.WrittenIn p) := by
  intro heap kept
  rw [readName, bind_apply, get_apply]
  cases found : heap.lookup? scope name with
  | some value =>
    obtain ⟨s, _, bound⟩ := Option.bind_eq_some_iff.mp found
    simp only [found]
    exact ⟨kept, kept s name value bound⟩
  | none =>
    simp only [found]
    exact ⟨kept, named⟩

/-- A call that fetches its function stays; it fails by the name, the kind or the count of
arguments. -/
theorem stays_callee (scope : ScopeId) {name : String} {arguments : List Expr}
    (node : p.Contains (.expr (.call name arguments))) :
    (callee scope name arguments.length).Stays p limit (Closure.WrittenIn p) := by
  refine .bind (stays_readName scope (.inr ⟨arguments, node⟩)) fun value known => ?_
  cases value with
  | function closure =>
    obtain ⟨t, inside, code⟩ := known closure rfl
    dsimp only
    split
    · exact .pure ⟨t, inside, code⟩
    · next other =>
      exact .throw ⟨other, ⟨arguments, node, rfl⟩, t, closure.code, inside, code, rfl⟩
  | _ => exact .throw ⟨arguments, node⟩

/-- An assignment binds a value that is written in the program. -/
theorem stays_assignName (scope : ScopeId) (name : String) {value : Value}
    (known : value.WrittenIn p) :
    (assignName scope name value).Stays p limit fun _ => True := by
  refine fun heap kept => ⟨fun s other new found => ?_, trivial⟩
  rcases Heap.find?_define found with rfl | old
  · exact known
  · exact kept s other new old

/-- The function made at a node is written in the program. -/
theorem stays_makeFunction (scope : ScopeId) {t : Tree} (node : p.Contains t)
    {signature : Signature} {body : List Stmt} (code : t.code? = some ⟨signature, body⟩) :
    (makeFunction scope signature body).Stays p limit (Value.WrittenIn p) := by
  refine fun heap kept => ⟨kept, fun closure same => ?_⟩
  cases same
  exact ⟨t, node, code⟩

/-- Opening a call binds arguments that are written in the program. -/
theorem stays_openCall (closure : Closure) {arguments : List Value}
    (known : ∀ value ∈ arguments, value.WrittenIn p) :
    (openCall closure arguments).Stays p limit fun _ => True := by
  refine fun heap kept => ⟨fun s name value found => ?_, trivial⟩
  rcases Heap.find?_newScope found with own | old
  · exact known value (List.of_mem_zip (Bindings.mem_of_find?_ofList own)).2
  · exact kept s name value old

/-! ## Evaluation -/

/-- Whether the value of a flow is written in a program if it is a function, and whether the flow is
a return only if there is one. -/
def Flow.WrittenIn (p : Program) (returns : Prop) : Flow → Prop
  | .normal value => value.WrittenIn p
  | .returned value => value.WrittenIn p ∧ returns

/-- A flow may return in more cases than it does. -/
theorem Flow.WrittenIn.mono {flow : Flow} {returns other : Prop} (h : flow.WrittenIn p returns)
    (weaker : returns → other) : flow.WrittenIn p other := by
  cases flow with
  | normal value => exact h
  | returned value => exact h.imp_right weaker

/-- Calls of functions of a program with values of it, where the program has a call at all. -/
def Calls.Stay (p : Program) (limit : Nat) (calls : Calls) : Prop :=
  ∀ closure arguments, closure.WrittenIn p → (∀ value ∈ arguments, value.WrittenIn p) →
    (∃ name es, p.Contains (.expr (.call name es))) →
      (calls closure arguments).Stays p limit (Value.WrittenIn p)

namespace Calls.Stay

variable {calls : Calls} {scope : ScopeId}

mutual
/-- Expressions of a program stay. -/
theorem evalExpr (stay : calls.Stay p limit) : ∀ e : Expr, p.Contains (.expr e) →
    (Scriptlet.evalExpr calls scope e).Stays p limit (Value.WrittenIn p)
  | .number _, _ => .pure nofun
  | .variable name, node => stays_readName scope (.inl node)
  | .assign name e, node => by
    refine .bind (stay.evalExpr e (node.part List.mem_cons_self)) fun value known => ?_
    exact .bind (stays_assignName scope name known) fun _ _ => .pure known
  | .binary op left right, node => by
    have second := node.part (List.mem_cons_of_mem _ List.mem_cons_self)
    refine .bind (stay.evalExpr left (node.part List.mem_cons_self)) fun x _ => ?_
    refine .bind (stay.evalExpr right second) fun y _ => .ofExcept ?_ ?_
    · exact fun value => BinaryOp.writtenIn_of_apply
    · exact fun e => BinaryOp.stemsFrom_of_apply ⟨left, right, node⟩
  | .unary op operand, node => by
    refine .bind (stay.evalExpr operand (node.part List.mem_cons_self)) fun x _ => .ofExcept ?_ ?_
    · exact fun value => UnaryOp.writtenIn_of_apply
    · exact fun e => UnaryOp.stemsFrom_of_apply ⟨operand, node⟩
  | .call name arguments, node => by
    have inside : ∀ e ∈ arguments, p.Contains (.expr e) := fun e member =>
      node.part (List.mem_map_of_mem member)
    refine .bind (stays_callee scope node) fun closure known => ?_
    refine .bind (stay.evalArguments arguments inside) fun values knownValues => ?_
    exact stay closure values known knownValues ⟨name, arguments, node⟩
  | .function signature body, node => stays_makeFunction scope node rfl

theorem evalArguments (stay : calls.Stay p limit) :
    ∀ es : List Expr, (∀ e ∈ es, p.Contains (.expr e)) →
      (Scriptlet.evalArguments calls scope es).Stays p limit
        fun values => ∀ value ∈ values, value.WrittenIn p
  | [], _ => .pure nofun
  | e :: rest, nodes => by
    obtain ⟨first, others⟩ := List.forall_mem_cons.mp nodes
    refine .bind (stay.evalExpr e first) fun value known => ?_
    refine .bind (stay.evalArguments rest others) fun values knownValues => ?_
    exact .pure (List.forall_mem_cons.mpr ⟨known, knownValues⟩)

/-- Statements of a program stay, and return only by a return of their own. -/
theorem evalStmt (stay : calls.Stay p limit) : ∀ s : Stmt, p.Contains (.stmt s) →
    (Scriptlet.evalStmt calls scope s).Stays p limit (Flow.WrittenIn p (Tree.Returns (.stmt s)))
  | .expression e, node =>
    .bind (stay.evalExpr e (node.part List.mem_cons_self)) fun _ known => .pure known
  | .result e, node =>
    .bind (stay.evalExpr e (node.part List.mem_cons_self)) fun _ known =>
      .pure ⟨known, e, .root _⟩
  | .block body, node => by
    have parts : ∀ s ∈ body, (.within, .stmt s) ∈ (Tree.stmt (.block body)).parts :=
      fun _ => List.mem_map_of_mem
    have inside : ∀ s ∈ body, p.Contains (.stmt s) := fun s member => node.part (parts s member)
    exact (stay.evalBlock .nothing body inside nofun).mono fun _ known =>
      known.mono (Tree.returns_of_block rfl parts)
  | .conditional condition body, node => by
    have parts : ∀ s ∈ body,
        (.within, .stmt s) ∈ (Tree.stmt (.conditional condition body)).parts :=
      fun _ member => List.mem_cons_of_mem _ (List.mem_map_of_mem member)
    have inside : ∀ s ∈ body, p.Contains (.stmt s) := fun s member => node.part (parts s member)
    refine .bind (stay.evalExpr condition (node.part List.mem_cons_self)) fun value _ => ?_
    rcases value with _ | (_ | _) | _ | _
    case boolean.true =>
      refine .bind (stay.evalBlock .nothing body inside nofun) fun flow known => ?_
      cases flow with
      | normal value => exact .pure nofun
      | returned value => exact .pure (known.imp_right (Tree.returns_of_block rfl parts))
    case boolean.false => exact .pure nofun
    all_goals exact .throw ⟨⟨condition, body, node⟩, nofun⟩
  | .declaration ⟨some name, parameters⟩ body, node => by
    simp only [Scriptlet.evalStmt]
    refine .bind (stays_makeFunction scope node rfl) fun function known => ?_
    exact .bind (stays_assignName scope name known) fun _ _ => .pure known
  | .declaration ⟨none, parameters⟩ body, node => by
    simp only [Scriptlet.evalStmt]
    exact .bind (stays_makeFunction scope node rfl) fun _ known => .pure known

theorem evalBlock (stay : calls.Stay p limit) (last : Value) :
    ∀ body : List Stmt, (∀ s ∈ body, p.Contains (.stmt s)) → last.WrittenIn p →
      (Scriptlet.evalBlock calls scope last body).Stays p limit
        (Flow.WrittenIn p (blockReturns body))
  | [], _, known => .pure known
  | s :: rest, nodes, _ => by
    obtain ⟨first, others⟩ := List.forall_mem_cons.mp nodes
    refine .bind (stay.evalStmt s first) fun flow known => ?_
    cases flow with
    | normal value =>
      refine (stay.evalBlock value rest others known).mono fun _ known => known.mono ?_
      exact fun ⟨s, member, returns⟩ => ⟨s, List.mem_cons_of_mem _ member, returns⟩
    | returned value =>
      exact .pure (known.imp_right fun returns => ⟨s, List.mem_cons_self, returns⟩)
end

end Calls.Stay

/-- **Calls stay within a program**, whatever room there is for them: bodies of its functions are
written in it, and what they return stays in them. -/
theorem stay_callsWithin (room : Nat) : (callsWithin limit room).Stay p limit := by
  induction room with
  | zero => exact fun _ _ _ _ call => .throw ⟨rfl, call⟩
  | succ room ih =>
    intro closure arguments written known _
    obtain ⟨t, node, code⟩ := written
    have inside : ∀ s ∈ closure.body, p.Contains (.stmt s) := fun s member =>
      node.part (Tree.parts_of_code? code ▸ List.mem_map_of_mem member)
    rw [callsWithin_succ]
    refine .bind (stays_openCall closure known) fun scope _ => ?_
    refine .bind (ih.evalBlock .nothing closure.body inside nofun) fun flow known => ?_
    cases flow with
    | normal value => exact .pure nofun
    | returned value => exact .pure known.1

/-- A program stays, as it is evaluated by its own statements. -/
theorem Program.stays_eval (p : Program) (limit : Nat) (scope : ScopeId) :
    (p.eval limit scope).Stays p limit (Value.WrittenIn p) := by
  rw [p.eval_eq]
  have inside : ∀ s ∈ p.statements, p.Contains (.stmt s) := fun s member => ⟨s, member, .root _⟩
  refine .bind ((stay_callsWithin limit).evalBlock .nothing _ inside nofun) fun flow known => ?_
  cases flow with
  | normal value => exact .pure known
  | returned value => exact .throw known.2

/-- **Runtime errors come only from what can cause them.** What a program fails with, in a root
where nothing is bound and with any limit on calls, stems from something that the program has. -/
theorem Session.stemsFrom_of_run (p : Program) (limit : Nat) (e : RuntimeError)
    (failed : ((Session.start limit).run p).1 = .error e) : e.StemsFrom p limit := by
  have nothing : rootHeap.WrittenIn p := by
    intro s name value found
    rcases Heap.find?_newScope found with own | old
    · cases own
    · cases old
  have ended := p.stays_eval limit 0 rootHeap nothing
  unfold Session.run at failed
  split at failed
  · cases failed
  · next heap error =>
    cases failed
    rw [show p.eval limit 0 rootHeap = _ from error] at ended
    exact ended.2

/-- A function that negates another one. -/
def negater : Closure :=
  ⟨0, ⟨some "f", []⟩, [.expression (.unary .minus (.function ⟨none, []⟩ []))], 0⟩

/-- Declares the function and calls it. -/
def callNegater : Program :=
  ⟨[.declaration negater.signature negater.body, .expression (.call "f" [])]⟩

/-- The heap that the declaration leaves, in which the call is made. -/
def negaterHeap : Heap :=
  (rootHeap.newFunction 0 negater.signature negater.body).2.assign 0 "f" (.function negater)

/-- The sign in front of a function fails in the body of the function called. -/
theorem run_callNegater :
    ((Session.start 1).run callNegater).1 = .error (.misuse (.unary .minus .function)) := by
  have declared : evalStmt (callsWithin 1 1) 0 (.declaration negater.signature negater.body)
      rootHeap = .ok (.normal (.function negater)) negaterHeap := rfl
  have found : callee 0 "f" 0 negaterHeap = .ok negater negaterHeap :=
    callee_of_lookup? (Heap.lookup?_assign_self (by decide))
  show (Session.run ⟨rootHeap, 0, 1⟩ callNegater).1 = _
  simp only [Session.run, Program.eval_eq, callNegater, evalBlock_cons, bind_apply, declared,
    Flow.andThen]
  simp only [evalStmt, evalExpr, bind_apply, List.length_nil, found]
  rfl

/-- The error is met in the body of the function. -/
theorem Session.stemsFrom_of_run_callNegater :
    ((Session.start 1).run callNegater).1 = .error (.misuse (.unary .minus .function)) ∧
      (∃ e, callNegater.Contains (.expr (.unary .minus e))) ∧ ValueKind.function ≠ .number :=
  ⟨run_callNegater, stemsFrom_of_run callNegater 1 _ run_callNegater⟩

end Scriptlet
