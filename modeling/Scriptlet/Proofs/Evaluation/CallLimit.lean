import Mathlib.Data.Nat.Find
import Scriptlet.Proofs.Evaluation

/-!
# The limit on calls

The limit on calls that may be open at once is only a cut-off. `UpTo limit x y` says that `x` runs
out of calls, and says so with its own limit, or else `y` does exactly what `x` does. Evaluation
never looks at the limit itself: it keeps `UpTo`, whatever calls do, as long as calls keep it
(`evalBlock_upTo`). So calls with less room are up to their limit like calls with more room
(`callsWithin_upTo`), by induction on the smaller room.

For each program and heap there is then a threshold, or every limit is too low.
-/

namespace Scriptlet

namespace Eval

variable {α β : Type} {limit : Nat}

/-- One computation runs out of the limit on calls and reports it, or it does not report any limit
and the other one does exactly the same. -/
def UpTo (limit : Nat) (x y : Eval α) : Prop :=
  ∀ heap, (∃ left, x heap = .error (.tooManyCalls limit) left) ∨
    y heap = x heap ∧ ∀ other left, x heap ≠ .error (.tooManyCalls other) left

/-- What always ends with a value is up to any limit. -/
theorem UpTo.of_ok {x : Eval α} (ends : ∀ heap, ∃ a left, x heap = .ok a left) :
    UpTo limit x x := by
  intro heap
  obtain ⟨a, left, ended⟩ := ends heap
  exact .inr ⟨rfl, ended ▸ nofun⟩

/-- A value given at once is up to any limit. -/
theorem UpTo.pure (a : α) : UpTo limit (pure a) (pure a) := .of_ok fun heap => ⟨a, heap, rfl⟩

theorem UpTo.throw {e : RuntimeError} (other : ∀ k, e ≠ .tooManyCalls k) :
    UpTo limit (throw e : Eval α) (throw e) := by
  refine fun heap => .inr ⟨rfl, fun k left same => other k ?_⟩
  cases same
  rfl

/-- What comes behind what is up to a limit is so, if it is for every value. -/
theorem UpTo.bind {x y : Eval α} {f g : α → Eval β} (first : UpTo limit x y)
    (next : ∀ a, UpTo limit (f a) (g a)) : UpTo limit (x >>= f) (y >>= g) := by
  intro heap
  rw [bind_apply, bind_apply]
  rcases first heap with ⟨left, out⟩ | ⟨same, never⟩
  · exact .inl ⟨left, by rw [out]⟩
  · rw [same]
    cases ended : x heap with
    | ok a left => exact next a left
    | error e left =>
      refine .inr ⟨rfl, fun k after out => never k after ?_⟩
      cases out
      exact ended

/-- A plain outcome is up to any limit, unless it is an error about calls. -/
theorem UpTo.ofExcept {r : Except RuntimeError α} (other : ∀ k, r ≠ .error (.tooManyCalls k)) :
    UpTo limit (ofExcept r) (ofExcept r) := by
  cases r with
  | ok a => exact .pure a
  | error e => exact .throw fun k same => other k (congrArg _ same)

end Eval

open Eval

/-! ## What does not call -/

section

variable {limit : Nat}

/-- An operator does not run out of calls. -/
theorem BinaryOp.apply_ne_tooManyCalls (op : BinaryOp) (x y : Value) (k : Nat) :
    op.apply x y ≠ .error (.tooManyCalls k) := by
  unfold BinaryOp.apply
  split
  · unfold BinaryOp.onNumbers
    split
    case h_4 => split <;> exact nofun
    all_goals exact nofun
  · exact nofun

theorem UnaryOp.apply_ne_tooManyCalls (op : UnaryOp) (x : Value) (k : Nat) :
    op.apply x ≠ .error (.tooManyCalls k) := by
  unfold UnaryOp.apply
  split <;> exact nofun

/-- To read a name is up to any limit. -/
theorem readName_upTo (scope : ScopeId) (name : String) :
    UpTo limit (readName scope name) (readName scope name) := by
  apply UpTo.bind (.of_ok fun heap => ⟨heap, heap, rfl⟩)
  intro heap
  split
  · exact .pure _
  · exact .throw nofun

theorem callee_upTo (scope : ScopeId) (name : String) (count : Nat) :
    UpTo limit (callee scope name count) (callee scope name count) := by
  apply UpTo.bind (readName_upTo scope name)
  intro value
  split
  · split
    · exact .pure _
    · exact .throw nofun
  · exact .throw nofun

theorem assignName_upTo (scope : ScopeId) (name : String) (value : Value) :
    UpTo limit (assignName scope name value) (assignName scope name value) :=
  .of_ok fun _ => ⟨_, _, rfl⟩

theorem makeFunction_upTo (scope : ScopeId) (signature : Signature) (body : List Stmt) :
    UpTo limit (makeFunction scope signature body) (makeFunction scope signature body) :=
  .of_ok fun _ => ⟨_, _, rfl⟩

end

/-! ## Evaluation -/

/-- Calls that are up to the limit like others. -/
def Calls.UpTo (limit : Nat) (few many : Calls) : Prop :=
  ∀ closure arguments, Eval.UpTo limit (few closure arguments) (many closure arguments)

section

variable {limit : Nat} {few many : Calls}

mutual
/-- Evaluation is up to the limit what it is with calls that are. -/
theorem evalExpr_upTo (calls : few.UpTo limit many) (scope : ScopeId) :
    ∀ e, UpTo limit (evalExpr few scope e) (evalExpr many scope e)
  | .number _ => .pure _
  | .variable name => readName_upTo scope name
  | .assign name e => by
    apply UpTo.bind (evalExpr_upTo calls scope e)
    intro value
    apply UpTo.bind (assignName_upTo scope name value)
    intro _
    exact .pure value
  | .binary op left right => by
    apply UpTo.bind (evalExpr_upTo calls scope left)
    intro x
    apply UpTo.bind (evalExpr_upTo calls scope right)
    intro y
    exact .ofExcept (op.apply_ne_tooManyCalls x y)
  | .unary op operand => by
    apply UpTo.bind (evalExpr_upTo calls scope operand)
    intro x
    exact .ofExcept (op.apply_ne_tooManyCalls x)
  | .call name arguments => by
    apply UpTo.bind (callee_upTo scope name arguments.length)
    intro closure
    apply UpTo.bind (evalArguments_upTo calls scope arguments)
    intro values
    exact calls closure values
  | .function signature body => makeFunction_upTo scope signature body

/-- Arguments are up to the limit that calls are up to. -/
theorem evalArguments_upTo (calls : few.UpTo limit many) (scope : ScopeId) :
    ∀ es, UpTo limit (evalArguments few scope es) (evalArguments many scope es)
  | [] => .pure _
  | e :: rest => by
    apply UpTo.bind (evalExpr_upTo calls scope e)
    intro value
    apply UpTo.bind (evalArguments_upTo calls scope rest)
    intro values
    exact .pure (value :: values)

theorem evalStmt_upTo (calls : few.UpTo limit many) (scope : ScopeId) :
    ∀ s, UpTo limit (evalStmt few scope s) (evalStmt many scope s)
  | .expression e => .bind (evalExpr_upTo calls scope e) fun value => .pure (Flow.normal value)
  | .result e => .bind (evalExpr_upTo calls scope e) fun value => .pure (Flow.returned value)
  | .block body => evalBlock_upTo calls scope .nothing body
  | .conditional condition body => by
    apply UpTo.bind (evalExpr_upTo calls scope condition)
    rintro (_ | (_ | _) | _ | _)
    case boolean.true =>
      apply UpTo.bind (evalBlock_upTo calls scope .nothing body)
      rintro (_ | value)
      · exact .pure (Flow.normal .nothing)
      · exact .pure (Flow.returned value)
    case boolean.false => exact .pure (Flow.normal .nothing)
    all_goals exact .throw nofun
  | .declaration ⟨some name, _⟩ body => by
    apply UpTo.bind (makeFunction_upTo scope _ body)
    intro function
    apply UpTo.bind (assignName_upTo scope name function)
    intro _
    exact .pure (Flow.normal function)
  | .declaration ⟨none, _⟩ body =>
    .bind (makeFunction_upTo scope _ body) fun function => .pure (Flow.normal function)

theorem evalBlock_upTo (calls : few.UpTo limit many) (scope : ScopeId) (last : Value) :
    ∀ body, UpTo limit (evalBlock few scope last body) (evalBlock many scope last body)
  | [] => .pure _
  | s :: rest => by
    apply UpTo.bind (evalStmt_upTo calls scope s)
    rintro (value | value)
    · exact evalBlock_upTo calls scope value rest
    · exact .pure (Flow.returned value)
end

end

/-! ## Calls -/

/-- Less room for calls is up to the limit like more room, whatever the limit is that more room has.
-/
theorem callsWithin_upTo {room more : Nat} (limit other : Nat) (le : room ≤ more) :
    (callsWithin limit room).UpTo limit (callsWithin other more) := by
  induction room generalizing more with
  | zero =>
    intro closure arguments heap
    exact .inl ⟨heap, rfl⟩
  | succ room ih =>
    obtain ⟨more, rfl⟩ : ∃ n, more = n + 1 := ⟨more - 1, by omega⟩
    intro closure arguments
    apply UpTo.bind (.of_ok fun heap => ⟨_, _, rfl⟩)
    intro scope
    refine .bind (evalBlock_upTo (ih (Nat.le_of_succ_le_succ le)) scope .nothing closure.body) ?_
    rintro (value | value)
    · exact .pure _
    · exact .pure value

/-- A run is up to its limit like a run with a limit that is no lower. -/
theorem Program.eval_upTo (p : Program) (scope : ScopeId) {limit other : Nat} (le : limit ≤ other) :
    UpTo limit (p.eval limit scope) (p.eval other scope) := by
  rw [p.eval_eq, p.eval_eq]
  refine .bind (evalBlock_upTo (callsWithin_upTo limit other le) scope .nothing p.statements) ?_
  rintro (value | value)
  · exact .pure value
  · exact .throw nofun

/-- Whether a run ends because too many calls were open. -/
def Program.Overflows (p : Program) (scope : ScopeId) (heap : Heap) (limit : Nat) : Prop :=
  ∃ k left, p.eval limit scope heap = .error (.tooManyCalls k) left

variable {p : Program} {scope : ScopeId} {heap : Heap}

/-- What overflows reports the limit that it has. -/
theorem Program.Overflows.report {limit : Nat} (out : p.Overflows scope heap limit) :
    ∃ left, p.eval limit scope heap = .error (.tooManyCalls limit) left := by
  rcases p.eval_upTo scope (Nat.le_refl limit) heap with reported | ⟨_, never⟩
  · exact reported
  · obtain ⟨k, left, ended⟩ := out
    exact absurd ended (never k left)

/-- What does not overflow ends the same with every limit that is no lower. -/
theorem Program.eval_eq_of_le {limit other : Nat} (le : limit ≤ other)
    (ends : ¬ p.Overflows scope heap limit) :
    p.eval other scope heap = p.eval limit scope heap := by
  rcases p.eval_upTo scope le heap with ⟨left, out⟩ | ⟨same, _⟩
  · exact absurd ⟨limit, left, out⟩ ends
  · exact same

/-- **The limit on calls is only a cut-off.** What a run does within its limit it does with every
limit that is no lower, and a run that overflows reports the limit that it has. So every limit is
too low, or there is a lowest one that is not, from which on all runs end the same. -/
theorem Program.eval_limit_threshold (p : Program) (scope : ScopeId) (heap : Heap) :
    (∀ limit other, limit ≤ other →
      (∀ k left, p.eval limit scope heap ≠ .error (.tooManyCalls k) left) →
      p.eval other scope heap = p.eval limit scope heap) ∧
    ((∀ limit, ∃ left, p.eval limit scope heap = .error (.tooManyCalls limit) left) ∨
      ∃ threshold outcome, (∀ k left, outcome ≠ .error (.tooManyCalls k) left) ∧
        ∀ limit, if limit < threshold
          then ∃ left, p.eval limit scope heap = .error (.tooManyCalls limit) left
          else p.eval limit scope heap = outcome) := by
  refine ⟨fun limit other le never => eval_eq_of_le le ?_, ?_⟩
  · rintro ⟨k, left, out⟩
    exact never k left out
  · by_cases all : ∀ limit, p.Overflows scope heap limit
    · exact .inl fun limit => (all limit).report
    · classical
      -- The lowest limit that is not too low. It is not computed, for all that is needed is that it
      -- is there.
      have some : ∃ limit, ¬ p.Overflows scope heap limit := not_forall.mp all
      refine .inr ⟨Nat.find some, p.eval (Nat.find some) scope heap, ?_, fun limit => ?_⟩
      · intro k left out
        exact Nat.find_spec some ⟨k, left, out⟩
      · split
        · next low => exact (not_not.mp (Nat.find_min some low)).report
        · next high => exact eval_eq_of_le (Nat.le_of_not_lt high) (Nat.find_spec some)

/-! ## A threshold of one -/

/-- A function that does nothing. -/
def idle : Closure := ⟨0, ⟨some "f", []⟩, [], 0⟩

/-- A heap of one scope, which binds the function that does nothing. -/
def idleHeap : Heap := (Heap.empty.newScope none (Bindings.empty.set "f" (.function idle))).2

/-- A call of the function that does nothing. -/
def idleCall : Program := ⟨[.expression (.call "f" [])]⟩

/-- The idle function is found by its name. -/
theorem callee_idle : callee 0 "f" 0 idleHeap = .ok idle idleHeap := by
  have found : idleHeap.lookup? 0 "f" = some (.function idle) := by
    rw [Heap.lookup?, Heap.resolve?, if_pos (show (idleHeap.bindings 0).binds "f" = true from rfl)]
    rfl
  exact callee_of_lookup? found

/-- With room for one call, the idle call gives nothing and leaves the scope it has opened. -/
theorem eval_idleCall (limit : Nat) :
    idleCall.eval (limit + 1) 0 idleHeap
      = .ok .nothing (idleHeap.newScope (some 0) .empty).2 := by
  simp only [idleCall, Program.eval, evalBlock, evalStmt, evalExpr, bind_apply, List.length_nil,
    callee_idle]
  rfl

/-- Without room, it fails and opens none. -/
theorem eval_idleCall_zero :
    idleCall.eval 0 0 idleHeap = .error (.tooManyCalls 0) idleHeap := by
  simp only [idleCall, Program.eval, evalBlock, evalStmt, evalExpr, bind_apply, List.length_nil,
    callee_idle]
  rfl

/-- One call overflows without room, and ends the same with room for one as with room for more. -/
theorem eval_limit_idleCall :
    idleCall.eval 0 0 idleHeap = .error (.tooManyCalls 0) idleHeap ∧ 1 ≤ 3 ∧
      (∀ k left, idleCall.eval 1 0 idleHeap ≠ .error (.tooManyCalls k) left) ∧
      idleCall.eval 3 0 idleHeap = idleCall.eval 1 0 idleHeap := by
  have ends (k : Nat) (left : Heap) :
      idleCall.eval 1 0 idleHeap ≠ .error (.tooManyCalls k) left := by
    rw [eval_idleCall 0]
    exact nofun
  exact ⟨eval_idleCall_zero, by decide, ends,
    (idleCall.eval_limit_threshold 0 idleHeap).1 1 3 (by decide) ends⟩

end Scriptlet
