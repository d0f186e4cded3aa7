import Scriptlet.Proofs.Evaluation.Events
import Scriptlet.Proofs.Heap.Renaming

/-!
# Runs in other names

Two computations are `Alike` if from heaps that are the same they end the same: with values that are
the same or with errors that differ at most in a name, and with heaps that are the same again, where
the scopes opened on the way may be seen too. This composes (`Alike.bind`), and it holds of each step
of an evaluation by the law of heaps for that step. So the same program in other names is evaluated
alike (`SameBlock.alike`), as long as calls are, and calls are by induction on the room for them
(`sameCalls`).
-/

namespace Scriptlet

/-- A name is read by looking it up. -/
theorem readName_apply (scope : ScopeId) (name : String) (heap : Heap) :
    readName scope name heap = match heap.lookup? scope name with
      | some value => .ok value heap
      | none => .error (.unbound name) heap := by
  unfold readName
  rw [Eval.bind_apply, Eval.get_apply]
  cases found : heap.lookup? scope name <;> simp only [found] <;> rfl

namespace Renaming

variable {View : Type} (R : Renaming View)

/-- The same error of two runs. What is called may be called by other names. -/
inductive SameError : RuntimeError → RuntimeError → Prop
  | same (e : RuntimeError) : SameError e e
  | notCallable {a : View} {n m : String} : R.stands a n m →
      SameError (.misuse (.notCallable n)) (.misuse (.notCallable m))
  | arity {a : View} {n m : String} (expected actual : Nat) : R.stands a n m →
      SameError (.arity n expected actual) (.arity m expected actual)

/-- The same flow of two runs. -/
inductive SameFlow (w : Views View) : Flow → Flow → Prop
  | normal {x y : Value} : R.SameValue w x y → SameFlow w (.normal x) (.normal y)
  | returned {x y : Value} : R.SameValue w x y → SameFlow w (.returned x) (.returned y)

variable (first second : Heap) {α β γ δ : Type}

/-- The same end of two computations, where `good` says which values are the same. -/
inductive SameEnd (w : Views View) (good : α → β → Prop) :
    EStateM.Result RuntimeError Heap α → EStateM.Result RuntimeError Heap β → Prop
  | ok {x : α} {y : β} {h k : Heap} :
      R.SameHeap first second w h k → good x y → SameEnd w good (.ok x h) (.ok y k)
  | error {e f : RuntimeError} {h k : Heap} :
      R.SameHeap first second w h k → R.SameError e f → SameEnd w good (.error e h) (.error f k)

/-- Computations that end the same from heaps that are the same. -/
def Alike (w : Views View) (good : Views View → α → β → Prop) (x : Eval α) (y : Eval β) : Prop :=
  ∀ v, w.Le v → ∀ h k, R.SameHeap first second v h k →
    ∃ u, v.Le u ∧ R.SameEnd first second u (good u) (x h) (y k)

/-- Calls that are alike for the same function and the same arguments, as many as it takes. -/
def SameCalls (calls others : Calls) : Prop :=
  ∀ w f g xs ys, R.SameClosure w f g → xs.length = f.signature.parameters.length →
    List.Forall₂ (R.SameValue w) xs ys →
      R.Alike first second w R.SameValue (calls f xs) (others g ys)

variable {R first second} {v w : Views View} {good : Views View → α → β → Prop}
  {last : Views View → γ → δ → Prop}

namespace Alike

/-- Values that are the same in all views to come may be given alike. -/
theorem pure {x : α} {y : β} (same : ∀ v, w.Le v → good v x y) :
    R.Alike first second w good (pure x) (pure y) :=
  fun v le _ _ heaps => ⟨v, .refl v, .ok heaps (same v le)⟩

/-- Errors that are the same may be thrown alike. -/
theorem throw {e f : RuntimeError} (same : R.SameError e f) :
    R.Alike first second w good (throw e) (throw f) :=
  fun v _ _ _ heaps => ⟨v, .refl v, .error heaps same⟩

/-- Computations that are alike may go on alike, in whatever views there are by then. -/
theorem bind {x : Eval α} {y : Eval β} {f : α → Eval γ} {g : β → Eval δ}
    (front : R.Alike first second w good x y)
    (back : ∀ v a b, w.Le v → good v a b → R.Alike first second v last (f a) (g b)) :
    R.Alike first second w last (x >>= f) (y >>= g) := by
  intro v le h k heaps
  obtain ⟨u, later, ends⟩ := front v le h k heaps
  rw [Eval.bind_apply, Eval.bind_apply]
  generalize x h = r, y k = s at ends
  cases ends with
  | ok heaps same =>
    obtain ⟨t, last, ends⟩ := back u _ _ (le.trans later) same u (.refl u) _ _ heaps
    exact ⟨t, later.trans last, ends⟩
  | error heaps same => exact ⟨u, later, .error heaps same⟩

end Alike

/-! ## Steps -/

section

variable {a : View} {s : ScopeId} {n m : String} {x y : Value}

/-- A name is read as the name that it stands for, in a scope that is seen. -/
theorem readName_alike (seen : w s = some a) (names : R.stands a n m) :
    R.Alike first second w R.SameValue (readName s n) (readName s m) := by
  intro v le h k heaps
  obtain ⟨values, unbound⟩ := heaps.lookup? (le s a seen) names
  refine ⟨v, .refl v, ?_⟩
  rw [readName_apply, readName_apply]
  generalize h.lookup? s n = old, k.lookup? s m = new at values unbound
  cases values with
  | none => exact unbound rfl ▸ .error heaps (.same _)
  | some value => exact .ok heaps value

/-- A name is assigned as the name that it stands for. -/
theorem assignName_alike (seen : w s = some a) (names : R.stands a n m)
    (values : R.SameValue w x y) :
    R.Alike first second w (fun _ _ _ => True) (assignName s n x) (assignName s m y) :=
  fun v le _ _ heaps =>
    ⟨v, .refl v, .ok (heaps.assign (le s a seen) names (values.mono le)) trivial⟩

/-- What is called is fetched by the name that it stands for, with as many parameters. -/
theorem callee_alike (seen : w s = some a) (names : R.stands a n m) (count : Nat) :
    R.Alike first second w
      (fun v f g => R.SameClosure v f g ∧ f.signature.parameters.length = count)
      (callee s n count) (callee s m count) := by
  apply Alike.bind (readName_alike seen names)
  intro v x y _ values
  cases values with
  | @function f g closures =>
    obtain ⟨_, _, b, c, _, opened, _⟩ := id closures
    have lengths := (R.parameters opened).length_eq
    by_cases count : f.signature.parameters.length = count
    · simp only [← lengths, count, if_true]
      exact .pure fun u le => ⟨closures.mono le, count⟩
    · simp only [← lengths, count, if_false]
      exact .throw (.arity _ _ names)
  | number | boolean | nothing => exact .throw (.notCallable names)

/-- Functions are made alike, if the bodies are the same in the view that their parameters open. -/
theorem makeFunction_alike (seen : w s = some a) {b : View} {f g : Signature}
    {body other : List Stmt} (opened : R.opens a f g b) (bodies : R.SameBlock b body other) :
    R.Alike first second w R.SameValue (makeFunction s f body) (makeFunction s g other) := by
  intro v le h k heaps
  obtain ⟨after, function⟩ := heaps.newFunction (le s a seen) opened bodies
  exact ⟨v, .refl v, .ok after function⟩

/-- Calls of functions that are the same open scopes with a view of their own. -/
theorem openCall_alike {f g : Closure} {xs ys : List Value} (closures : R.SameClosure w f g)
    (enough : xs.length = f.signature.parameters.length)
    (values : List.Forall₂ (R.SameValue w) xs ys) :
    R.Alike first second w
      (fun v s t => t = s ∧ ∃ b, v s = some b ∧ R.SameBlock b f.body g.body)
      (openCall f xs) (openCall g ys) := by
  intro v le h k heaps
  obtain ⟨u, b, later, after, seen, bodies⟩ :=
    heaps.call (closures.mono le) enough (values.imp fun _ _ value => value.mono le)
  exact ⟨u, later, .ok after ⟨heaps.size_eq, b, seen, bodies⟩⟩

end

/-! ## Operators -/

section

variable {x y l r : Value}

/-- An operator has no function for its value, so what it gives is the same as itself. -/
theorem ofExcept_alike {r : Except RuntimeError Value}
    (plain : ∀ value, r = .ok value → ∀ v, R.SameValue v value value) :
    R.Alike first second w R.SameValue (.ofExcept r) (.ofExcept r) := by
  cases r with
  | ok value => exact .pure fun v _ => plain value rfl v
  | error e => exact .throw (.same e)

/-- A sign does the same to values that are the same, and fails by kinds, which are equal. -/
theorem unaryOp_alike (op : UnaryOp) (operands : R.SameValue w x y) :
    R.Alike first second w R.SameValue (.ofExcept (op.apply x)) (.ofExcept (op.apply y)) := by
  have same : op.apply y = op.apply x := by
    cases operands with
    | function => cases op <;> rfl
    | number | boolean | nothing => rfl
  rw [same]
  refine ofExcept_alike fun value given v => ?_
  cases x <;> cases op <;> cases given <;> exact .number _

theorem binaryOp_alike (op : BinaryOp) (left : R.SameValue w x y) (right : R.SameValue w l r) :
    R.Alike first second w R.SameValue (.ofExcept (op.apply x l)) (.ofExcept (op.apply y r)) := by
  have same : op.apply y r = op.apply x l := by
    cases left <;> cases right <;> rfl
  rw [same]
  refine ofExcept_alike fun value given v => ?_
  cases left with
  | number x =>
    cases right with
    | number y =>
      cases op with
      | divide =>
        rw [BinaryOp.apply, BinaryOp.onNumbers] at given
        split at given <;> cases given
        exact .number _
      | add | subtract | multiply | power => cases given; exact .number _
      | less | lessEqual | equal | greater | greaterEqual => cases given; exact .boolean _
    | boolean | nothing | function => cases given
  | boolean | nothing | function => cases given

end

/-! ## Evaluation -/

section

variable {calls others : Calls} {s : ScopeId}

/-- Arguments that are the same are equally many. -/
theorem SameArguments.length_eq {a : View} {es fs : List Expr} (same : R.SameArguments a es fs) :
    fs.length = es.length := by
  induction es generalizing fs with
  | nil =>
    cases same
    rfl
  | cons e es ih =>
    obtain _ | ⟨_, later⟩ := same
    exact congrArg (· + 1) (ih later)

mutual
/-- Expressions that are the same are evaluated alike. -/
theorem SameExpr.alike (calling : R.SameCalls first second calls others) {a : View} :
    ∀ {e f : Expr}, R.SameExpr a e f → ∀ w : Views View, w s = some a →
      R.Alike first second w R.SameValue (evalExpr calls s e) (evalExpr others s f)
  | _, _, .number numeral, _, _ => .pure fun _ _ => .number _
  | _, _, .variable names, _, seen => readName_alike seen names
  | _, _, .assign names value, w, seen => by
    apply Alike.bind (value.alike calling w seen)
    intro v x y le values
    apply Alike.bind (assignName_alike (le s a seen) names values)
    intro u _ _ later _
    exact .pure fun t last => values.mono (later.trans last)
  | _, _, .binary op left right, w, seen => by
    apply Alike.bind (left.alike calling w seen)
    intro v x y le first
    apply Alike.bind (right.alike calling v (le s a seen))
    intro u l r later second
    exact binaryOp_alike op (first.mono later) second
  | _, _, .unary op operand, w, seen => by
    apply Alike.bind (operand.alike calling w seen)
    intro v x y _ values
    exact unaryOp_alike op values
  | _, _, .call names arguments, w, seen => by
    have count := arguments.length_eq
    simp only [evalExpr, count]
    apply Alike.bind (callee_alike seen names _)
    intro v f g le ⟨closures, enough⟩
    apply Alike.bind (arguments.alike calling v (le s a seen))
    intro u xs ys later ⟨length, values⟩
    exact calling u f g xs ys (closures.mono later) (length.trans enough.symm) values
  | _, _, .function opened body, _, seen => makeFunction_alike seen opened body

theorem SameArguments.alike (calling : R.SameCalls first second calls others) {a : View} :
    ∀ {es fs : List Expr}, R.SameArguments a es fs → ∀ w : Views View, w s = some a →
      R.Alike first second w
        (fun v xs ys => xs.length = es.length ∧ List.Forall₂ (R.SameValue v) xs ys)
        (evalArguments calls s es) (evalArguments others s fs)
  | _, _, .nil, _, _ => .pure fun _ _ => ⟨rfl, .nil⟩
  | _, _, .cons e es, w, seen => by
    apply Alike.bind (e.alike calling w seen)
    intro v x y le value
    apply Alike.bind (es.alike calling v (le s a seen))
    intro u xs ys later ⟨length, values⟩
    refine .pure fun t last => ⟨congrArg (· + 1) length, .cons ?_ ?_⟩
    · exact value.mono (later.trans last)
    · exact values.imp fun _ _ value => value.mono last

theorem SameStmt.alike (calling : R.SameCalls first second calls others) {a : View} :
    ∀ {t t' : Stmt}, R.SameStmt a t t' → ∀ w : Views View, w s = some a →
      R.Alike first second w R.SameFlow (evalStmt calls s t) (evalStmt others s t')
  | _, _, .expression e, w, seen => by
    apply Alike.bind (e.alike calling w seen)
    intro v x y _ values
    exact .pure fun u later => .normal (values.mono later)
  | _, _, .result e, w, seen => by
    apply Alike.bind (e.alike calling w seen)
    intro v x y _ values
    exact .pure fun u later => .returned (values.mono later)
  | _, _, .block body, w, seen => body.alike calling w seen .nothing
  | _, _, .conditional condition body, w, seen => by
    apply Alike.bind (condition.alike calling w seen)
    intro v x y le values
    rcases values with _ | (_ | _) | _ | _
    case boolean.true =>
      apply Alike.bind (body.alike calling v (le s a seen) .nothing)
      intro u f g _ flow
      cases flow with
      | normal => exact .pure fun _ _ => .normal .nothing
      | returned values => exact .pure fun t last => .returned (values.mono last)
    case boolean.false => exact .pure fun _ _ => .normal .nothing
    all_goals exact .throw (.same _)
  | _, _, @SameStmt.declaration _ _ _ _ f g _ _ names opened body, w, seen => by
    apply Alike.bind (makeFunction_alike seen opened body)
    intro v x y le values
    generalize f.name = n, g.name = m at names
    cases names with
    | none => exact .pure fun u later => .normal (values.mono later)
    | some names =>
      apply Alike.bind (assignName_alike (le s a seen) names values)
      intro u _ _ later _
      exact .pure fun t last => .normal (values.mono (later.trans last))

theorem SameBlock.alike (calling : R.SameCalls first second calls others) {a : View} :
    ∀ {body other : List Stmt}, R.SameBlock a body other → ∀ w : Views View, w s = some a →
      ∀ {x y : Value}, R.SameValue w x y →
      R.Alike first second w R.SameFlow (evalBlock calls s x body) (evalBlock others s y other)
  | _, _, .nil, _, _, _, _, values => .pure fun _ le => .normal (values.mono le)
  | _, _, .cons t rest, w, seen, _, _, _ => by
    apply Alike.bind (t.alike calling w seen)
    intro v f g le flow
    cases flow with
    | normal values => exact rest.alike calling v (le s a seen) values
    | returned values => exact .pure fun u later => .returned (values.mono later)
end

/-- **Calls of the same function are alike**, with the same room for further calls. -/
theorem sameCalls (limit room : Nat) :
    R.SameCalls first second (callsWithin limit room) (callsWithin limit room) := by
  induction room with
  | zero => exact fun _ _ _ _ _ _ _ _ => .throw (.same _)
  | succ room ih =>
    intro w f g xs ys closures enough values
    rw [callsWithin_succ, callsWithin_succ]
    apply Alike.bind (openCall_alike closures enough values)
    rintro v s _ _ ⟨rfl, b, seen, body⟩
    apply Alike.bind (body.alike ih v seen .nothing)
    intro u f g _ flow
    cases flow with
    | normal => exact .pure fun _ _ => .nothing
    | returned values => exact .pure fun t last => values.mono last

/-- **The same program in other names runs alike.** -/
theorem SameBlock.run_alike {p q : Program} {a : View}
    (same : R.SameBlock a p.statements q.statements) (limit : Nat) (seen : w s = some a) :
    R.Alike first second w R.SameValue (p.eval limit s) (q.eval limit s) := by
  rw [p.eval_eq, q.eval_eq]
  apply Alike.bind (same.alike (sameCalls limit limit) w seen .nothing)
  intro v f g _ flow
  cases flow with
  | normal values => exact .pure fun u later => values.mono later
  | returned => exact .throw (.same _)

end

end Renaming
end Scriptlet
