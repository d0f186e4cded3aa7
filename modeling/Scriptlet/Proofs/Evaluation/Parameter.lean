import Scriptlet.Proofs.Evaluation.Renaming
import Scriptlet.Proofs.Session

/-!
# Parameters can be renamed

The parameter of a function can be given another name, if that is written nowhere in the program
(`Session.run_renameParameter`). In the body of the function the name is then another one too, and so
it is in functions within, up to those that have it as a parameter themselves.

Scopes are seen in two views (`Renaming.parameter`): the new name is written in those of the function
and of functions within that have no such parameter, and the old one in all others. Where the view
changes from a scope to the one around it, the function of the inner scope has the name as a
parameter. So the name is bound there, and the search for it never gets to the other view.
-/

namespace Scriptlet

/-! ## Other names -/

/-- A name, with `z` written for `x`. -/
def rename (x z name : String) : String := if name = x then z else name

mutual
/-- An expression with `z` written for `x`, except in functions that have `x` as a parameter. -/
def Expr.rename (x z : String) : Expr → Expr
  | .number numeral => .number numeral
  | .variable name => .variable (Scriptlet.rename x z name)
  | .assign name value => .assign (Scriptlet.rename x z name) (value.rename x z)
  | .binary op left right => .binary op (left.rename x z) (right.rename x z)
  | .unary op operand => .unary op (operand.rename x z)
  | .call name arguments => .call (Scriptlet.rename x z name) (renameArguments x z arguments)
  | .function signature body =>
    .function signature (if x ∈ signature.parameters then body else renameBlock x z body)

/-- Arguments with `z` written for `x`. -/
def renameArguments (x z : String) : List Expr → List Expr
  | [] => []
  | e :: rest => e.rename x z :: renameArguments x z rest

/-- A statement with `z` written for `x`. The name that a declaration gives its function is one of
the names around the function. -/
def Stmt.rename (x z : String) : Stmt → Stmt
  | .expression e => .expression (e.rename x z)
  | .result e => .result (e.rename x z)
  | .block body => .block (renameBlock x z body)
  | .conditional condition body => .conditional (condition.rename x z) (renameBlock x z body)
  | .declaration signature body =>
    .declaration { signature with name := signature.name.map (Scriptlet.rename x z) }
      (if x ∈ signature.parameters then body else renameBlock x z body)

/-- Statements with `z` written for `x`. -/
def renameBlock (x z : String) : List Stmt → List Stmt
  | [] => []
  | s :: rest => s.rename x z :: renameBlock x z rest
end

/-- A signature with every parameter `x` called `z`. -/
def Signature.renameParameter (x z : String) (signature : Signature) : Signature :=
  { signature with parameters := signature.parameters.map (rename x z) }

mutual
/-- One expression is another one in which the parameter `x` of one function is called `z`. -/
inductive RenamesInExpr (x z : String) : Expr → Expr → Prop
  | here {f : Signature} {body : List Stmt} : x ∈ f.parameters →
      RenamesInExpr x z (.function f body)
        (.function (f.renameParameter x z) (renameBlock x z body))
  | body {f : Signature} {body other : List Stmt} :
      RenamesInBlock x z body other → RenamesInExpr x z (.function f body) (.function f other)
  | assign {name : String} {e f : Expr} :
      RenamesInExpr x z e f → RenamesInExpr x z (.assign name e) (.assign name f)
  | left {op : BinaryOp} {e f right : Expr} :
      RenamesInExpr x z e f → RenamesInExpr x z (.binary op e right) (.binary op f right)
  | right {op : BinaryOp} {left e f : Expr} :
      RenamesInExpr x z e f → RenamesInExpr x z (.binary op left e) (.binary op left f)
  | unary {op : UnaryOp} {e f : Expr} :
      RenamesInExpr x z e f → RenamesInExpr x z (.unary op e) (.unary op f)
  | call {name : String} {es fs : List Expr} :
      RenamesInArguments x z es fs → RenamesInExpr x z (.call name es) (.call name fs)

/-- The same of arguments. -/
inductive RenamesInArguments (x z : String) : List Expr → List Expr → Prop
  | first {e f : Expr} {rest : List Expr} :
      RenamesInExpr x z e f → RenamesInArguments x z (e :: rest) (f :: rest)
  | later {e : Expr} {rest others : List Expr} :
      RenamesInArguments x z rest others → RenamesInArguments x z (e :: rest) (e :: others)

/-- The same of a statement. -/
inductive RenamesInStmt (x z : String) : Stmt → Stmt → Prop
  | here {f : Signature} {body : List Stmt} : x ∈ f.parameters →
      RenamesInStmt x z (.declaration f body)
        (.declaration (f.renameParameter x z) (renameBlock x z body))
  | body {f : Signature} {body other : List Stmt} :
      RenamesInBlock x z body other → RenamesInStmt x z (.declaration f body) (.declaration f other)
  | expression {e f : Expr} :
      RenamesInExpr x z e f → RenamesInStmt x z (.expression e) (.expression f)
  | result {e f : Expr} : RenamesInExpr x z e f → RenamesInStmt x z (.result e) (.result f)
  | block {body other : List Stmt} :
      RenamesInBlock x z body other → RenamesInStmt x z (.block body) (.block other)
  | condition {e f : Expr} {body : List Stmt} :
      RenamesInExpr x z e f → RenamesInStmt x z (.conditional e body) (.conditional f body)
  | conditional {e : Expr} {body other : List Stmt} :
      RenamesInBlock x z body other → RenamesInStmt x z (.conditional e body) (.conditional e other)

/-- The same of statements one behind the other. -/
inductive RenamesInBlock (x z : String) : List Stmt → List Stmt → Prop
  | first {s t : Stmt} {rest : List Stmt} :
      RenamesInStmt x z s t → RenamesInBlock x z (s :: rest) (t :: rest)
  | later {s : Stmt} {rest others : List Stmt} :
      RenamesInBlock x z rest others → RenamesInBlock x z (s :: rest) (s :: others)
end

/-- One program is another one in which the parameter `x` of one function, declared anywhere in it,
is called `z`, and so in the body of the function. -/
def Program.RenamesParameter (x z : String) (p q : Program) : Prop :=
  RenamesInBlock x z p.statements q.statements

/-! ## Two views -/

/-- How a name is written in a view: with `z` for `x`, or as it is. -/
def written (x z : String) : Bool → String → String
  | true, name => rename x z name
  | false, name => name

/-- Every other name is written as it is, in either view. -/
theorem written_of_ne {x z name : String} (other : name ≠ x) (a : Bool) :
    written x z a name = name := by
  cases a with
  | true => exact if_neg other
  | false => rfl

/-- In one view, different names are written differently, as long as neither is the new one. -/
theorem written_inj {x z n m : String} {a : Bool} (named : n ≠ z) (other : m ≠ z)
    (same : written x z a n = written x z a m) : n = m := by
  cases a with
  | false => exact same
  | true =>
    by_cases first : n = x
    · by_cases second : m = x
      · exact first.trans second.symm
      · rw [written_of_ne second, written, rename, if_pos first] at same
        exact absurd same.symm other
    · by_cases second : m = x
      · rw [written_of_ne first, written, rename, if_pos second] at same
        exact absurd same named
      · rwa [written_of_ne first, written_of_ne second] at same

/-- Names as they are written in the two views. A function goes over to the other view only if it has
`x` as a parameter. -/
def Renaming.parameter (x z : String) : Renaming Bool where
  stands a n m := n ≠ z ∧ m = written x z a n
  opens a f g b := g.parameters = f.parameters.map (written x z b) ∧ z ∉ f.parameters ∧
    (a = b ∨ x ∈ f.parameters)
  exact := by
    rintro a n _ k _ ⟨named, rfl⟩ ⟨other, rfl⟩
    exact ⟨congrArg _, written_inj named other⟩
  parameters := by
    rintro a f g b ⟨same, unnamed, _⟩
    rw [same]
    refine List.forall₂_map_right_iff.mpr (List.forall₂_same.mpr fun n member => ⟨?_, rfl⟩)
    rintro rfl
    exact unnamed member
  around := by
    rintro a f g b n _ ⟨_, _, kept⟩ ⟨named, rfl⟩
    rcases kept with rfl | parameter
    · exact .inl ⟨named, rfl⟩
    · by_cases same : n = x
      · exact .inr (same ▸ parameter)
      · exact .inl ⟨named, by rw [written_of_ne same, written_of_ne same]⟩

namespace Renaming

variable {x z : String}

/-- The view of the root leaves all names as they are, except for the new one, which nothing has. -/
theorem fixes_parameter (x z : String) : (parameter x z).Fixes false z where
  names _ other := ⟨other, rfl⟩
  functions _ unnamed := ⟨(List.map_id _).symm, unnamed, .inl rfl⟩

/-- A function without the parameter stays in its view. -/
theorem opens_of_notMem {f g : Signature} (same : g.parameters = f.parameters)
    (other : x ∉ f.parameters) (unnamed : z ∉ f.parameters) :
    (parameter x z).opens true f g true := by
  refine ⟨?_, unnamed, .inl rfl⟩
  rw [same]
  refine (List.map_id _).symm.trans (List.map_congr_left fun n member => ?_)
  have different : n ≠ x := by
    rintro rfl
    exact other member
  exact (written_of_ne different true).symm

/-- A function with the parameter opens the view in which that is not renamed. -/
theorem opens_of_mem {f g : Signature} {a : Bool} (same : g.parameters = f.parameters)
    (member : x ∈ f.parameters) (unnamed : z ∉ f.parameters) :
    (parameter x z).opens a f g false :=
  ⟨same.trans (List.map_id _).symm, unnamed, .inr member⟩

/-- In the view of the function, a name stands for what it is renamed to. -/
theorem stands_rename {name : String} {others : List String} (other : z ∉ name :: others) :
    (parameter x z).stands true name (rename x z name) :=
  ⟨(List.ne_of_not_mem_cons other).symm, rfl⟩

theorem rel_rename {name : Option String} (other : z ∉ name.toList) :
    Option.Rel ((parameter x z).stands true) name (name.map (Scriptlet.rename x z)) := by
  cases name with
  | none => exact .none
  | some n => exact .some (stands_rename other)

mutual
/-- What is renamed is the same in the view of the new name. -/
theorem sameExpr_rename : ∀ e : Expr, Tree.Avoids z (.expr e) →
    (parameter x z).SameExpr true e (e.rename x z)
  | .number numeral, _ => .number numeral
  | .variable _, avoids => .variable (stands_rename avoids.root)
  | .assign _ e, avoids => .assign (stands_rename avoids.root) (sameExpr_rename e (avoids.only rfl))
  | .binary op left right, avoids =>
    .binary op (sameExpr_rename left avoids.operands.1) (sameExpr_rename right avoids.operands.2)
  | .unary op e, avoids => .unary op (sameExpr_rename e (avoids.only rfl))
  | .call _ es, avoids =>
    .call (stands_rename avoids.root) (sameArguments_rename es (avoids.arguments rfl))
  | .function f body, avoids => by
    have unused : z ∉ f.parameters := (avoids.signature rfl).2
    have inside : blockAvoids z body := avoids.body rfl
    rw [Expr.rename]
    split
    · next member =>
      exact .function (opens_of_mem rfl member unused) ((fixes_parameter x z).block body inside)
    · next other =>
      exact .function (opens_of_notMem rfl other unused) (sameBlock_rename body inside)

/-- Arguments stand for what they are renamed to. -/
theorem sameArguments_rename : ∀ es : List Expr, (∀ e ∈ es, Tree.Avoids z (.expr e)) →
    (parameter x z).SameArguments true es (renameArguments x z es)
  | [], _ => .nil
  | e :: rest, avoids => by
    obtain ⟨first, others⟩ := List.forall_mem_cons.mp avoids
    exact .cons (sameExpr_rename e first) (sameArguments_rename rest others)

theorem sameStmt_rename : ∀ s : Stmt, Tree.Avoids z (.stmt s) →
    (parameter x z).SameStmt true s (s.rename x z)
  | .expression e, avoids => .expression (sameExpr_rename e (avoids.only rfl))
  | .result e, avoids => .result (sameExpr_rename e (avoids.only rfl))
  | .block body, avoids => .block (sameBlock_rename body (avoids.body rfl))
  | .conditional e body, avoids =>
    .conditional (sameExpr_rename e avoids.conditional.1)
      (sameBlock_rename body avoids.conditional.2)
  | .declaration f body, avoids => by
    obtain ⟨unnamed, unused⟩ := avoids.signature rfl
    have name := rel_rename (x := x) unnamed
    have inside : blockAvoids z body := avoids.body rfl
    rw [Stmt.rename]
    split
    · next member =>
      exact .declaration name (opens_of_mem rfl member unused)
        ((fixes_parameter x z).block body inside)
    · next other =>
      exact .declaration name (opens_of_notMem rfl other unused) (sameBlock_rename body inside)

theorem sameBlock_rename : ∀ body : List Stmt, blockAvoids z body →
    (parameter x z).SameBlock true body (renameBlock x z body)
  | [], _ => .nil
  | s :: rest, avoids => by
    obtain ⟨first, others⟩ := List.forall_mem_cons.mp avoids
    exact .cons (sameStmt_rename s first) (sameBlock_rename rest others)
end

mutual
/-- With the parameter of a function renamed, all that is around the function is the same in the view
of the old name. -/
theorem sameExpr_of_renames : ∀ {e f : Expr}, RenamesInExpr x z e f → Tree.Avoids z (.expr e) →
    (parameter x z).SameExpr false e f
  | _, _, .here member, avoids =>
    .function ⟨rfl, (avoids.signature rfl).2, .inr member⟩ (sameBlock_rename _ (avoids.body rfl))
  | _, _, .body inside, avoids =>
    .function ((fixes_parameter x z).functions _ (avoids.signature rfl).2)
      (sameBlock_of_renames inside (avoids.body rfl))
  | _, _, .assign inside, avoids =>
    .assign ((fixes_parameter x z).written avoids.root)
      (sameExpr_of_renames inside (avoids.only rfl))
  | _, _, .left inside, avoids =>
    .binary _ (sameExpr_of_renames inside avoids.operands.1)
      ((fixes_parameter x z).expr _ avoids.operands.2)
  | _, _, .right inside, avoids =>
    .binary _ ((fixes_parameter x z).expr _ avoids.operands.1)
      (sameExpr_of_renames inside avoids.operands.2)
  | _, _, .unary inside, avoids => .unary _ (sameExpr_of_renames inside (avoids.only rfl))
  | _, _, .call inside, avoids =>
    .call ((fixes_parameter x z).written avoids.root)
      (sameArguments_of_renames inside (avoids.arguments rfl))

/-- Arguments in which a parameter is renamed stand for the ones they were, in the view around it.
-/
theorem sameArguments_of_renames : ∀ {es fs : List Expr}, RenamesInArguments x z es fs →
    (∀ e ∈ es, Tree.Avoids z (.expr e)) → (parameter x z).SameArguments false es fs
  | _, _, .first inside, avoids => by
    obtain ⟨first, others⟩ := List.forall_mem_cons.mp avoids
    exact .cons (sameExpr_of_renames inside first) ((fixes_parameter x z).arguments _ others)
  | _, _, .later inside, avoids => by
    obtain ⟨first, others⟩ := List.forall_mem_cons.mp avoids
    exact .cons ((fixes_parameter x z).expr _ first) (sameArguments_of_renames inside others)

theorem sameStmt_of_renames : ∀ {s t : Stmt}, RenamesInStmt x z s t → Tree.Avoids z (.stmt s) →
    (parameter x z).SameStmt false s t
  | _, _, .here member, avoids => by
    obtain ⟨unnamed, unused⟩ := avoids.signature rfl
    exact .declaration ((fixes_parameter x z).name unnamed) ⟨rfl, unused, .inr member⟩
      (sameBlock_rename _ (avoids.body rfl))
  | _, _, .body inside, avoids => by
    obtain ⟨unnamed, unused⟩ := avoids.signature rfl
    exact .declaration ((fixes_parameter x z).name unnamed)
      ((fixes_parameter x z).functions _ unused) (sameBlock_of_renames inside (avoids.body rfl))
  | _, _, .expression inside, avoids => .expression (sameExpr_of_renames inside (avoids.only rfl))
  | _, _, .result inside, avoids => .result (sameExpr_of_renames inside (avoids.only rfl))
  | _, _, .block inside, avoids => .block (sameBlock_of_renames inside (avoids.body rfl))
  | _, _, .condition inside, avoids =>
    .conditional (sameExpr_of_renames inside avoids.conditional.1)
      ((fixes_parameter x z).block _ avoids.conditional.2)
  | _, _, .conditional inside, avoids =>
    .conditional ((fixes_parameter x z).expr _ avoids.conditional.1)
      (sameBlock_of_renames inside avoids.conditional.2)

theorem sameBlock_of_renames : ∀ {body other : List Stmt}, RenamesInBlock x z body other →
    blockAvoids z body → (parameter x z).SameBlock false body other
  | _, _, .first inside, avoids => by
    obtain ⟨first, others⟩ := List.forall_mem_cons.mp avoids
    exact .cons (sameStmt_of_renames inside first) ((fixes_parameter x z).block _ others)
  | _, _, .later inside, avoids => by
    obtain ⟨first, others⟩ := List.forall_mem_cons.mp avoids
    exact .cons ((fixes_parameter x z).stmt _ first) (sameBlock_of_renames inside others)
end

/-! ## The root -/

/-- Nothing is bound at the start. -/
theorem find?_start (limit : Nat) (s : ScopeId) (name : String) :
    ((Session.start limit).heap.bindings s).find? name = none := by
  rw [Session.start, Heap.bindings_newScope]
  split <;> rfl

/-- No scope lies within another one at the start. -/
theorem outer?_start (limit : Nat) (s : ScopeId) :
    (Session.start limit).heap.outer? s = none := by
  rw [Session.start, Heap.outer?_newScope]
  split <;> rfl

/-- Where only the root is seen. -/
def rootView : Views Bool := fun s => if s = 0 then some false else none

/-- Where nothing is bound and only the root is seen, heaps are the same. -/
theorem sameHeap_start (x z : String) (limit : Nat) :
    (parameter x z).SameHeap (Session.start limit).heap (Session.start limit).heap rootView
      (Session.start limit).heap (Session.start limit).heap where
  size_eq := rfl
  functions_eq := rfl
  outer?_eq _ := rfl
  bound s _ _ n m _ := by
    rw [find?_start, find?_start]
    exact .none
  outward s _ _ _ _ _ _ o link := by
    cases (outer?_start limit s).symm.trans link
  outermost s a n m seen names _ _ := by
    unfold rootView at seen
    split at seen <;> cases seen
    exact names.2.symm
  ahead s a outside seen := by
    have size : (Session.start limit).heap.scopes.size = 1 := rfl
    -- Only the root is there at the start, and it is the only scope that is seen.
    have later : s ≠ 0 := by omega
    cases (if_neg later).symm.trans seen
  left _ _ _ := rfl
  right _ _ _ := rfl

end Renaming

/-! ## Outcomes -/

/-- Values that only differ in the code of functions. -/
inductive Value.Corresponds : Value → Value → Prop
  | number (x : Float) : Corresponds (.number x) (.number x)
  | boolean (b : Bool) : Corresponds (.boolean b) (.boolean b)
  | nothing : Corresponds .nothing .nothing
  | function {f g : Closure} : g.identity = f.identity → g.scope = f.scope →
      Corresponds (.function f) (.function g)

/-- An error with `z` written for `x` where it names what was called. -/
def RuntimeError.renameCalled (x z : String) : RuntimeError → RuntimeError
  | misuse (.notCallable name) => .misuse (.notCallable (rename x z name))
  | arity function expected actual => .arity (rename x z function) expected actual
  | e => e

/-- Outcomes that only differ in the code of functions, and in the name of what was called. -/
inductive OutcomesCorrespond (x z : String) :
    Except RuntimeError Value → Except RuntimeError Value → Prop
  | ok {v w : Value} : v.Corresponds w → OutcomesCorrespond x z (.ok v) (.ok w)
  | same (e : RuntimeError) : OutcomesCorrespond x z (.error e) (.error e)
  | renamed (e : RuntimeError) : OutcomesCorrespond x z (.error e) (.error (e.renameCalled x z))

namespace Renaming

variable {x z : String} {w : Views Bool}

/-- Values that are the same in two views correspond. -/
theorem SameValue.corresponds {v v' : Value} (same : (parameter x z).SameValue w v v') :
    v.Corresponds v' := by
  cases same with
  | number x => exact .number x
  | boolean b => exact .boolean b
  | nothing => exact .nothing
  | function closures => exact .function closures.identity_eq closures.scope_eq

/-- Errors that are the same in two views differ in the name that was renamed at most. -/
theorem SameError.correspond {e f : RuntimeError} (same : (parameter x z).SameError e f) :
    OutcomesCorrespond x z (.error e) (.error f) := by
  cases same with
  | same => exact .same e
  | @notCallable a n m names =>
    obtain ⟨_, rfl⟩ := names
    cases a with
    | false => exact .same _
    | true => exact .renamed (.misuse (.notCallable n))
  | @arity a n m expected actual names =>
    obtain ⟨_, rfl⟩ := names
    cases a with
    | false => exact .same _
    | true => exact .renamed (.arity n expected actual)

/-- A scope seen with the old name binds all names to values that correspond, and the new name not at
all if it did not at the start. -/
theorem SameHeap.correspond {first second h k : Heap}
    (same : (parameter x z).SameHeap first second w h k) {s : ScopeId} (seen : w s = some false)
    (unbound : (first.bindings s).find? z = none) (unbound' : (second.bindings s).find? z = none)
    (name : String) :
    Option.Rel Value.Corresponds ((h.bindings s).find? name) ((k.bindings s).find? name) := by
  by_cases new : name = z
  -- The new name stands for nothing in this view, so no run has touched it.
  · subst new
    have one : (h.bindings s).find? name = none := by
      refine (same.left s name ?_).trans unbound
      rintro ⟨_, _, _, other, _⟩
      exact other rfl
    have two : (k.bindings s).find? name = none := by
      refine (same.right s name ?_).trans unbound'
      rintro ⟨a, n, there, other, written⟩
      cases seen.symm.trans there
      exact other written.symm
    rw [one, two]
    exact .none
  · have values := same.bound s false seen name name ⟨new, rfl⟩
    generalize (h.bindings s).find? name = old, (k.bindings s).find? name = young at values
    cases values with
    | none => exact .none
    | some value => exact .some value.corresponds

end Renaming

/-- **Parameters can be renamed.** Where the parameter of a function is given a name that is written
nowhere in a program, the program comes to the same from the start of a session, with any limit on
calls: the same number or boolean, nothing, or a function that is the same but for its code, or the
same error, but for the name of what was called. And in the root the same names are bound, to values
that correspond in the same way. -/
theorem Session.run_renameParameter (x z : String) (p q : Program) (limit : Nat)
    (renames : p.RenamesParameter x z q) (unmentioned : ∀ t, p.Contains t → z ∉ t.names) :
    OutcomesCorrespond x z ((start limit).run p).1 ((start limit).run q).1 ∧
      ∀ name, Option.Rel Value.Corresponds
        ((((start limit).run p).2.heap.bindings (start limit).root).find? name)
        ((((start limit).run q).2.heap.bindings (start limit).root).find? name) := by
  have same : (Renaming.parameter x z).SameBlock false p.statements q.statements :=
    Renaming.sameBlock_of_renames renames fun s member t inside =>
      unmentioned t ⟨s, member, inside⟩
  have root : Renaming.rootView (start limit).root = some false := rfl
  obtain ⟨u, le, ends⟩ := same.run_alike (start limit).limit root _ (.refl _) _ _
    (Renaming.sameHeap_start x z limit)
  have unbound := Renaming.find?_start limit (start limit).root z
  rw [run_eq, run_eq]
  generalize p.eval (start limit).limit (start limit).root (start limit).heap = one,
    q.eval (start limit).limit (start limit).root (start limit).heap = two at ends
  cases ends with
  | ok heaps values =>
    exact ⟨.ok values.corresponds, heaps.correspond (le _ _ root) unbound unbound⟩
  | error heaps errors =>
    exact ⟨errors.correspond, heaps.correspond (le _ _ root) unbound unbound⟩

/-! ## A parameter that is called -/

/-- A function that calls its parameter with a function that has the same parameter, and a call of it
with a number. -/
def callParameter : Program :=
  ⟨[.expression (.assign "f" (.function ⟨none, ["x"]⟩
      [.result (.call "x" [.function ⟨none, ["x"]⟩ [.result (.variable "x")]])])),
    .expression (.call "f" [.number (.ofLexeme "1")])]⟩

/-- The same with another name for the parameter of the outer function. -/
def callRenamed : Program :=
  ⟨[.expression (.assign "f" (.function ⟨none, ["z"]⟩
      [.result (.call "z" [.function ⟨none, ["x"]⟩ [.result (.variable "x")]])])),
    .expression (.call "f" [.number (.ofLexeme "1")])]⟩

/-- The example does not mention the new name. -/
theorem avoids_callParameter : blockAvoids "z" callParameter.statements := by
  refine List.forall_mem_cons.mpr ⟨?_, List.forall_mem_cons.mpr ⟨?_, nofun⟩⟩
  · repeat refine Tree.Avoids.of_only rfl (by decide) ?_
    exact .of_leaf rfl (by decide)
  · refine .of_only rfl (by decide) (.of_only rfl (by decide) ?_)
    exact .of_leaf rfl (by decide)

/-- What is called is the number, under the name of the parameter. The parameter of the inner function
keeps its name. -/
theorem run_renameParameter_callParameter :
    callParameter.RenamesParameter "x" "z" callRenamed ∧
      (∀ t, callParameter.Contains t → "z" ∉ t.names) ∧
      OutcomesCorrespond "x" "z" ((Session.start 5).run callParameter).1
        ((Session.start 5).run callRenamed).1 ∧
      ∀ name, Option.Rel Value.Corresponds
        ((((Session.start 5).run callParameter).2.heap.bindings 0).find? name)
        ((((Session.start 5).run callRenamed).2.heap.bindings 0).find? name) := by
  have renames : callParameter.RenamesParameter "x" "z" callRenamed :=
    .first (.expression (.assign (.here List.mem_cons_self)))
  have unmentioned : ∀ t, callParameter.Contains t → "z" ∉ t.names :=
    fun t ⟨s, member, contains⟩ => avoids_callParameter s member t contains
  exact ⟨renames, unmentioned, Session.run_renameParameter "x" "z" callParameter callRenamed 5
    renames unmentioned⟩

end Scriptlet
