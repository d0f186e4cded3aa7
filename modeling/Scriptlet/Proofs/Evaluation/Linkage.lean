import Scriptlet.Proofs.Evaluation.Renaming
import Scriptlet.Proofs.Heap.Linkage

/-!
# Runs from different heaps

Two computations run `InParallel` if from heaps that are the same they end the same: with values that
are the same or with one error, and with heaps that are the same again. This composes (`bind`), and it
holds of each step of an evaluation by the law of heaps for that step. So a program and what it has
been rewritten to are evaluated in parallel, if the rule for rewriting is `Sound`, that is if the two
blocks that it is applied to do the same from every heap (`RewritesBlock.inParallel`).

Functions of the two runs have bodies of which one has been rewritten to the other. So calls run in
parallel too, by induction on the room for them (`callsInParallel`).
-/

namespace Scriptlet

/-- Whether statements do the same, whatever calls do, as those that are written for them. -/
def Sound (rule : List Stmt → List Stmt → Prop) : Prop :=
  ∀ body other, rule body other → ∀ calls scope last,
    evalBlock calls scope last body = evalBlock calls scope last other

namespace Linkage

variable (L : Linkage)

/-- The same flow of two runs. -/
inductive SameFlow (h : Heap) : Flow → Flow → Prop
  | normal {x y : Value} : L.SameValue h x y → SameFlow h (.normal x) (.normal y)
  | returned {x y : Value} : L.SameValue h x y → SameFlow h (.returned x) (.returned y)

variable {α β γ δ : Type}

/-- The same end of two computations that began with `h` in the first run, where `good` says which
values are the same. -/
inductive SameEnd (h : Heap) (good : Heap → α → β → Prop) :
    EStateM.Result RuntimeError Heap α → EStateM.Result RuntimeError Heap β → Prop
  | ok {x : α} {y : β} {l k : Heap} :
      h.Grows l → L.SameHeap l k → good l x y → SameEnd h good (.ok x l) (.ok y k)
  | error {e : RuntimeError} {l k : Heap} :
      h.Grows l → L.SameHeap l k → SameEnd h good (.error e l) (.error e k)

/-- Computations that end the same from heaps that are the same and have grown from `h`. -/
def InParallel (h : Heap) (good : Heap → α → β → Prop) (x : Eval α) (y : Eval β) : Prop :=
  ∀ l k, h.Grows l → L.SameHeap l k → L.SameEnd l good (x l) (y k)

/-- Calls that run in parallel for the same function and the same arguments. -/
def CallsInParallel (calls others : Calls) : Prop :=
  ∀ h f g xs ys, L.SameClosure h f g → List.Forall₂ (L.SameValue h) xs ys →
    L.InParallel h L.SameValue (calls f xs) (others g ys)

variable {L} {h : Heap} {good : Heap → α → β → Prop} {last : Heap → γ → δ → Prop}

/-- What ends the same from a heap that has grown ends the same from the heap before. -/
theorem SameEnd.later {l : Heap} {r : EStateM.Result RuntimeError Heap α}
    {s : EStateM.Result RuntimeError Heap β} (grown : h.Grows l) (ends : L.SameEnd l good r s) :
    L.SameEnd h good r s := by
  cases ends with
  | ok more heaps same => exact .ok (grown.trans more) heaps same
  | error more heaps => exact .error (grown.trans more) heaps

/-- The heaps that two computations leave are the same. -/
theorem SameEnd.left {x : Eval α} {y : Eval β} {l k : Heap}
    (ends : L.SameEnd h good (x l) (y k)) : L.SameHeap (x.left l) (y.left k) := by
  unfold Eval.left
  generalize x l = r, y k = s at ends
  cases ends with
  | ok _ heaps => exact heaps
  | error _ heaps => exact heaps

/-- If one of two computations that end the same gives a value, the other one gives its counterpart.
-/
theorem SameEnd.exists_ok {x : Eval α} {y : Eval β} {l k m : Heap} {a : α}
    (ends : L.SameEnd h good (x l) (y k)) (given : x l = .ok a m) :
    ∃ b n, y k = .ok b n ∧ good m a b := by
  rw [given] at ends
  generalize y k = s at ends
  cases ends with
  | ok _ _ same => exact ⟨_, _, rfl, same⟩

namespace InParallel

/-- Values that are the same in all heaps to come may be given in parallel. -/
theorem pure {x : α} {y : β} (same : ∀ l, h.Grows l → good l x y) :
    L.InParallel h good (pure x) (pure y) :=
  fun l _ grown heaps => .ok (.refl l) heaps (same l grown)

/-- One error may be thrown in parallel. -/
theorem throw (e : RuntimeError) : L.InParallel h good (throw e) (throw e) :=
  fun l _ _ heaps => .error (.refl l) heaps

/-- Computations in parallel may go on in parallel, from any heap that has grown meanwhile. -/
theorem bind {x : Eval α} {y : Eval β} {f : α → Eval γ} {g : β → Eval δ}
    (front : L.InParallel h good x y)
    (back : ∀ l a b, h.Grows l → good l a b → L.InParallel l last (f a) (g b)) :
    L.InParallel h last (x >>= f) (y >>= g) := by
  intro l k grown heaps
  have ends := front l k grown heaps
  rw [Eval.bind_apply, Eval.bind_apply]
  generalize x l = r, y k = s at ends
  cases ends with
  | ok later heaps same =>
    exact (back _ _ _ (grown.trans later) same _ _ (.refl _) heaps).later later
  | error later heaps => exact .error later heaps

end InParallel

/-! ## Steps -/

section

variable {s t : ScopeId} {x y : Value}

/-- A name is read in scopes that go together. -/
theorem readName_inParallel (linked : L.LinksScope h s t) (name : String) :
    L.InParallel h L.SameValue (readName s name) (readName t name) := by
  intro l k grown heaps
  have values := heaps.lookup? (linked.mono grown) name
  rw [readName_apply, readName_apply]
  generalize l.lookup? s name = old, k.lookup? t name = new at values
  cases values with
  | none => exact .error (.refl l) heaps
  | some value => exact .ok (.refl l) heaps value

/-- The same value is assigned in scopes that go together. -/
theorem assignName_inParallel (linked : L.LinksScope h s t) (name : String)
    (values : L.SameValue h x y) :
    L.InParallel h (fun _ _ _ => True) (assignName s name x) (assignName t name y) :=
  fun l _ grown heaps => .ok (.assign l s name x)
    (heaps.assign (linked.mono grown) name (values.mono grown)) trivial

/-- What is called is fetched from scopes that go together. -/
theorem callee_inParallel (linked : L.LinksScope h s t) (name : String) (count : Nat) :
    L.InParallel h L.SameClosure (callee s name count) (callee t name count) := by
  apply InParallel.bind (readName_inParallel linked name)
  intro l x y _ values
  cases values with
  | @function f g closures =>
    simp only [closures.signature]
    split
    · exact .pure fun _ grown => closures.mono grown
    · exact .throw _
  | number | boolean | nothing => exact .throw _

/-- Functions are made in scopes that go together, of bodies one of which is rewritten to the other.
-/
theorem makeFunction_inParallel (linked : L.LinksScope h s t) (signature : Signature)
    {body other : List Stmt} (bodies : RewritesBlock L.rule body other) :
    L.InParallel h L.SameValue (makeFunction s signature body) (makeFunction t signature other) := by
  intro l k grown heaps
  obtain ⟨after, function⟩ := heaps.newFunction (linked.mono grown) signature bodies
  exact .ok (.newFunction l s signature body) after function

/-- Calls of functions that go together open scopes that go together. -/
theorem openCall_inParallel {f g : Closure} {xs ys : List Value} (closures : L.SameClosure h f g)
    (values : List.Forall₂ (L.SameValue h) xs ys) :
    L.InParallel h L.LinksScope (openCall f xs) (openCall g ys) := by
  intro l k grown heaps
  have bindings := SameBindings.ofList f.signature.parameters
    (values.imp fun _ _ value => value.mono grown)
  obtain ⟨after, new⟩ := heaps.newScope (closures.scope.mono grown) bindings
  rw [openCall, openCall, closures.signature]
  exact .ok (.newScope l _ _) after new

/-- An operator has no function for its value, so what it gives is the same as itself. -/
theorem ofExcept_inParallel {r : Except RuntimeError Value}
    (plain : ∀ value, r = .ok value → ∀ closure, value ≠ .function closure) :
    L.InParallel h L.SameValue (.ofExcept r) (.ofExcept r) := by
  cases r with
  | ok value =>
    refine .pure fun l _ => ?_
    cases value with
    | number x => exact .number x
    | boolean b => exact .boolean b
    | nothing => exact .nothing
    | function closure => exact absurd rfl (plain _ rfl closure)
  | error e => exact .throw e

/-- A sign does the same to values that are the same, for functions only differ where it fails. -/
theorem unaryOp_inParallel (op : UnaryOp) (operands : L.SameValue h x y) :
    L.InParallel h L.SameValue (.ofExcept (op.apply x)) (.ofExcept (op.apply y)) := by
  have same : op.apply y = op.apply x := by
    cases operands with
    | function => cases op <;> rfl
    | number | boolean | nothing => rfl
  rw [same]
  exact ofExcept_inParallel fun _ => UnaryOp.ne_function_of_apply

theorem binaryOp_inParallel (op : BinaryOp) {l r : Value} (left : L.SameValue h x y)
    (right : L.SameValue h l r) :
    L.InParallel h L.SameValue (.ofExcept (op.apply x l)) (.ofExcept (op.apply y r)) := by
  have same : op.apply y r = op.apply x l := by
    cases left <;> cases right <;> rfl
  rw [same]
  exact ofExcept_inParallel fun _ => BinaryOp.ne_function_of_apply

end

end Linkage

open Linkage

/-! ## Evaluation -/

variable {L : Linkage} {calls others : Calls} {s t : ScopeId}

mutual
/-- Expressions run in parallel with what they are rewritten to. -/
theorem RewritesExpr.inParallel (sound : Sound L.rule) (calling : L.CallsInParallel calls others) :
    ∀ {e f : Expr}, RewritesExpr L.rule e f → ∀ h : Heap, L.LinksScope h s t →
      L.InParallel h L.SameValue (evalExpr calls s e) (evalExpr others t f)
  | _, _, .number numeral, _, _ => .pure fun _ _ => .number _
  | _, _, .variable name, _, linked => readName_inParallel linked name
  | _, _, .assign name value, h, linked => by
    apply InParallel.bind (value.inParallel sound calling h linked)
    intro l x y grown values
    apply InParallel.bind (assignName_inParallel (linked.mono grown) name values)
    intro m _ _ later _
    exact .pure fun n last => values.mono (later.trans last)
  | _, _, .binary op left right, h, linked => by
    apply InParallel.bind (left.inParallel sound calling h linked)
    intro l x y grown first
    apply InParallel.bind (right.inParallel sound calling l (linked.mono grown))
    intro m _ _ later second
    exact binaryOp_inParallel op (first.mono later) second
  | _, _, .unary op operand, h, linked => by
    apply InParallel.bind (operand.inParallel sound calling h linked)
    intro l x y _ values
    exact unaryOp_inParallel op values
  | _, _, .call name arguments, h, linked => by
    simp only [evalExpr, arguments.length_eq]
    apply InParallel.bind (callee_inParallel linked name _)
    intro l f g grown closures
    apply InParallel.bind (arguments.inParallel sound calling l (linked.mono grown))
    intro m xs ys later values
    exact calling m f g xs ys (closures.mono later) values
  | _, _, .function signature body, _, linked => makeFunction_inParallel linked signature body

theorem RewritesArguments.inParallel (sound : Sound L.rule)
    (calling : L.CallsInParallel calls others) :
    ∀ {es fs : List Expr}, RewritesArguments L.rule es fs → ∀ h : Heap, L.LinksScope h s t →
      L.InParallel h (fun l => List.Forall₂ (L.SameValue l))
        (evalArguments calls s es) (evalArguments others t fs)
  | _, _, .nil, _, _ => .pure fun _ _ => .nil
  | _, _, .cons e es, h, linked => by
    apply InParallel.bind (e.inParallel sound calling h linked)
    intro l x y grown value
    apply InParallel.bind (es.inParallel sound calling l (linked.mono grown))
    intro m xs ys later values
    refine .pure fun n last => .cons (value.mono (later.trans last)) ?_
    exact values.imp fun _ _ value => value.mono last

theorem RewritesStmt.inParallel (sound : Sound L.rule) (calling : L.CallsInParallel calls others) :
    ∀ {a b : Stmt}, RewritesStmt L.rule a b → ∀ h : Heap, L.LinksScope h s t →
      L.InParallel h L.SameFlow (evalStmt calls s a) (evalStmt others t b)
  | _, _, .expression e, h, linked => by
    apply InParallel.bind (e.inParallel sound calling h linked)
    intro l x y _ values
    exact .pure fun m later => .normal (values.mono later)
  | _, _, .result e, h, linked => by
    apply InParallel.bind (e.inParallel sound calling h linked)
    intro l x y _ values
    exact .pure fun m later => .returned (values.mono later)
  | _, _, .block body, h, linked => body.inParallel sound calling h linked .nothing
  | _, _, .conditional condition body, h, linked => by
    apply InParallel.bind (condition.inParallel sound calling h linked)
    intro l x y grown values
    rcases values with _ | (_ | _) | _ | _
    case boolean.true =>
      apply InParallel.bind (body.inParallel sound calling l (linked.mono grown) .nothing)
      intro m f g _ flow
      cases flow with
      | normal => exact .pure fun _ _ => .normal .nothing
      | returned values => exact .pure fun n last => .returned (values.mono last)
    case boolean.false => exact .pure fun _ _ => .normal .nothing
    all_goals exact .throw _
  | _, _, .declaration ⟨name, parameters⟩ body, h, linked => by
    apply InParallel.bind (makeFunction_inParallel linked ⟨name, parameters⟩ body)
    intro l x y grown values
    cases name with
    | none => exact .pure fun m later => .normal (values.mono later)
    | some name =>
      apply InParallel.bind (assignName_inParallel (linked.mono grown) name values)
      intro m _ _ later _
      exact .pure fun n last => .normal (values.mono (later.trans last))

/-- Blocks run in parallel with what they are rewritten to, where the rule itself may have been
applied. -/
theorem RewritesBlock.inParallel (sound : Sound L.rule) (calling : L.CallsInParallel calls others) :
    ∀ {body other : List Stmt}, RewritesBlock L.rule body other →
      ∀ h : Heap, L.LinksScope h s t → ∀ {x y : Value}, L.SameValue h x y →
        L.InParallel h L.SameFlow (evalBlock calls s x body) (evalBlock others t y other)
  | _, _, .nil, _, _, _, _, values => .pure fun _ grown => .normal (values.mono grown)
  | _, _, .cons a rest, h, linked, _, _, _ => by
    apply InParallel.bind (a.inParallel sound calling h linked)
    intro l f g grown flow
    cases flow with
    | normal values => exact rest.inParallel sound calling l (linked.mono grown) values
    | returned values => exact .pure fun m later => .returned (values.mono later)
  | _, _, .step body applied, h, linked, _, _, values => by
    rw [← sound _ _ applied]
    exact body.inParallel sound calling h linked values
end

/-- **Calls of functions that go together run in parallel**, with the same room for further calls. -/
theorem callsInParallel (sound : Sound L.rule) (limit room : Nat) :
    L.CallsInParallel (callsWithin limit room) (callsWithin limit room) := by
  induction room with
  | zero => exact fun _ _ _ _ _ _ _ => .throw _
  | succ room ih =>
    intro h f g xs ys closures values
    rw [callsWithin_succ, callsWithin_succ]
    apply InParallel.bind (openCall_inParallel closures values)
    intro l s t _ linked
    apply InParallel.bind (closures.body.inParallel sound ih l linked .nothing)
    intro m f g _ flow
    cases flow with
    | normal => exact .pure fun _ _ => .nothing
    | returned values => exact .pure fun n last => values.mono last

/-- **Programs run in parallel** with what they have been rewritten to. -/
theorem RewritesBlock.program_inParallel {p q : Program}
    (same : RewritesBlock L.rule p.statements q.statements) (sound : Sound L.rule) (limit : Nat)
    {h : Heap} (linked : L.LinksScope h s t) :
    L.InParallel h L.SameValue (p.eval limit s) (q.eval limit t) := by
  rw [p.eval_eq, q.eval_eq]
  apply InParallel.bind (same.inParallel sound (callsInParallel sound limit limit) h linked .nothing)
  intro l f g _ flow
  cases flow with
  | normal values => exact .pure fun m later => values.mono later
  | returned => exact .throw _

end Scriptlet
