import Mathlib.Data.List.Forall2
import Scriptlet.Proofs.Grammar.WellFormed

/-!
# Programs in other names

Two programs can be the same but for their names. Which name stands for which depends on where it
stands: a scope is seen in some view, and the body of a function may be seen in another view than
the function itself. A `Renaming` says which names stand for each other in a view, and which
parameters open which view. The parameters of a function stand for each other in the view that they
open, and the names that come to stand for each other in a body are among its parameters.

`SameBlock` says that two blocks are the same in other names, and so on for the other parts of a
program. A part that does not mention a name (`Tree.Avoids`) is the same as itself when that name is
the only one that may stand for another.
-/

namespace Scriptlet

/-- Which names of one program stand for which of another one. -/
structure Renaming (View : Type) where
  /-- In a view a name of the first program stands for a name of the second one. -/
  stands : View → String → String → Prop
  /-- A function in a view is one with another signature, and its body is seen in a view. -/
  opens : View → Signature → Signature → View → Prop
  exact : ∀ {a n m k l}, stands a n m → stands a k l → (n = k ↔ m = l)
  parameters : ∀ {a f g b}, opens a f g b → List.Forall₂ (stands b) f.parameters g.parameters
  around : ∀ {a f g b n m}, opens a f g b → stands b n m → stands a n m ∨ n ∈ f.parameters

namespace Renaming

variable {View : Type} (R : Renaming View)

variable {R} in
/-- Each of the first names stands for one of the second. -/
theorem exists_stands_left {a : View} {ns ms : List String}
    (names : List.Forall₂ (R.stands a) ns ms) {n : String} (member : n ∈ ns) :
    ∃ m, R.stands a n m := by
  induction names with
  | nil => cases member
  | cons name _ ih =>
    rcases List.mem_cons.mp member with rfl | later
    · exact ⟨_, name⟩
    · exact ih later

variable {R} in
/-- Each of the second names is stood for by one of the first. -/
theorem exists_stands_right {a : View} {ns ms : List String}
    (names : List.Forall₂ (R.stands a) ns ms) {m : String} (member : m ∈ ms) :
    ∃ n, R.stands a n m := by
  induction names with
  | nil => cases member
  | cons name _ ih =>
    rcases List.mem_cons.mp member with rfl | later
    · exact ⟨_, name⟩
    · exact ih later

mutual
/-- The same expression in other names. -/
inductive SameExpr : View → Expr → Expr → Prop
  | number {a : View} (numeral : Numeral) : SameExpr a (.number numeral) (.number numeral)
  | variable {a : View} {n m : String} : R.stands a n m → SameExpr a (.variable n) (.variable m)
  | assign {a : View} {n m : String} {e f : Expr} :
      R.stands a n m → SameExpr a e f → SameExpr a (.assign n e) (.assign m f)
  | binary {a : View} (op : BinaryOp) {l r m s : Expr} :
      SameExpr a l m → SameExpr a r s → SameExpr a (.binary op l r) (.binary op m s)
  | unary {a : View} (op : UnaryOp) {e f : Expr} :
      SameExpr a e f → SameExpr a (.unary op e) (.unary op f)
  | call {a : View} {n m : String} {es fs : List Expr} :
      R.stands a n m → SameArguments a es fs → SameExpr a (.call n es) (.call m fs)
  | function {a b : View} {f g : Signature} {body other : List Stmt} :
      R.opens a f g b → SameBlock b body other → SameExpr a (.function f body) (.function g other)

/-- The same arguments in other names. -/
inductive SameArguments : View → List Expr → List Expr → Prop
  | nil {a : View} : SameArguments a [] []
  | cons {a : View} {e f : Expr} {es fs : List Expr} :
      SameExpr a e f → SameArguments a es fs → SameArguments a (e :: es) (f :: fs)

/-- The same statement in other names. -/
inductive SameStmt : View → Stmt → Stmt → Prop
  | expression {a : View} {e f : Expr} :
      SameExpr a e f → SameStmt a (.expression e) (.expression f)
  | result {a : View} {e f : Expr} : SameExpr a e f → SameStmt a (.result e) (.result f)
  | block {a : View} {body other : List Stmt} :
      SameBlock a body other → SameStmt a (.block body) (.block other)
  | conditional {a : View} {e f : Expr} {body other : List Stmt} :
      SameExpr a e f → SameBlock a body other →
        SameStmt a (.conditional e body) (.conditional f other)
  | declaration {a b : View} {f g : Signature} {body other : List Stmt} :
      Option.Rel (R.stands a) f.name g.name → R.opens a f g b → SameBlock b body other →
        SameStmt a (.declaration f body) (.declaration g other)

/-- The same statements in other names. -/
inductive SameBlock : View → List Stmt → List Stmt → Prop
  | nil {a : View} : SameBlock a [] []
  | cons {a : View} {s t : Stmt} {rest others : List Stmt} :
      SameStmt a s t → SameBlock a rest others → SameBlock a (s :: rest) (t :: others)
end

end Renaming

/-! ## Names that are not mentioned -/

/-- The names written at a node. -/
def Tree.names : Tree → List String
  | .expr (.variable name) | .expr (.assign name _) | .expr (.call name _) => [name]
  | .expr (.function signature _) | .stmt (.declaration signature _) =>
    signature.name.toList ++ signature.parameters
  | _ => []

/-- Whether a name is written nowhere in a tree. -/
def Tree.Avoids (z : String) (t : Tree) : Prop := t.All fun u => z ∉ u.names

/-- Whether a name is written nowhere in statements. -/
def blockAvoids (z : String) (body : List Stmt) : Prop := ∀ s ∈ body, Tree.Avoids z (.stmt s)

/-- A leaf that does not mention a name. -/
theorem Tree.Avoids.of_leaf {z : String} {t : Tree} (leaf : t.parts = []) (other : z ∉ t.names) :
    t.Avoids z :=
  all_iff.mpr ⟨other, leaf ▸ nofun⟩

/-- A node with one part below it that does not mention a name either. -/
theorem Tree.Avoids.of_only {z : String} {t u : Tree} {hold : Hold}
    (only : t.parts = [(hold, u)]) (other : z ∉ t.names) (part : u.Avoids z) : t.Avoids z :=
  all_iff.mpr ⟨other, only ▸ List.forall_mem_cons.mpr ⟨part, nofun⟩⟩

/-- A tree that does not mention a name does not have it in its signature. -/
theorem Tree.Avoids.signature {z : String} {t : Tree} {f : Signature} (h : t.Avoids z)
    (names : t.names = f.name.toList ++ f.parameters) : z ∉ f.name.toList ∧ z ∉ f.parameters :=
  not_or.mp fun member => h.root (names ▸ List.mem_append.mpr member)

namespace Renaming

section

variable {View : Type} {R : Renaming View} {a : View} {z : String}

/-- A view in which all names but one stand for themselves, as do the functions without that name
among their parameters. -/
structure Fixes (R : Renaming View) (a : View) (z : String) : Prop where
  names : ∀ n ≠ z, R.stands a n n
  functions : ∀ f : Signature, z ∉ f.parameters → R.opens a f f a

/-- A name that is not mentioned stands for itself. -/
theorem Fixes.written (fixes : R.Fixes a z) {n : String} {others : List String}
    (other : z ∉ n :: others) : R.stands a n n :=
  fixes.names n (List.ne_of_not_mem_cons other).symm

theorem Fixes.name (fixes : R.Fixes a z) {name : Option String} (other : z ∉ name.toList) :
    Option.Rel (R.stands a) name name := by
  cases name with
  | none => exact .none
  | some n => exact .some (fixes.written other)

mutual
/-- An expression that does not mention the name is the same as itself. -/
theorem Fixes.expr (fixes : R.Fixes a z) :
    ∀ e : Expr, Tree.Avoids z (.expr e) → R.SameExpr a e e
  | .number numeral, _ => .number numeral
  | .variable _, avoids => .variable (fixes.written avoids.root)
  | .assign _ e, avoids => .assign (fixes.written avoids.root) (fixes.expr e (avoids.only rfl))
  | .binary op left right, avoids =>
    .binary op (fixes.expr left avoids.operands.1) (fixes.expr right avoids.operands.2)
  | .unary op e, avoids => .unary op (fixes.expr e (avoids.only rfl))
  | .call _ es, avoids =>
    .call (fixes.written avoids.root) (fixes.arguments es (avoids.arguments rfl))
  | .function f body, avoids =>
    .function (fixes.functions f (avoids.signature rfl).2) (fixes.block body (avoids.body rfl))

theorem Fixes.arguments (fixes : R.Fixes a z) :
    ∀ es : List Expr, (∀ e ∈ es, Tree.Avoids z (.expr e)) → R.SameArguments a es es
  | [], _ => .nil
  | e :: es, avoids => by
    obtain ⟨first, others⟩ := List.forall_mem_cons.mp avoids
    exact .cons (fixes.expr e first) (fixes.arguments es others)

theorem Fixes.stmt (fixes : R.Fixes a z) :
    ∀ s : Stmt, Tree.Avoids z (.stmt s) → R.SameStmt a s s
  | .expression e, avoids => .expression (fixes.expr e (avoids.only rfl))
  | .result e, avoids => .result (fixes.expr e (avoids.only rfl))
  | .block body, avoids => .block (fixes.block body (avoids.body rfl))
  | .conditional e body, avoids =>
    .conditional (fixes.expr e avoids.conditional.1) (fixes.block body avoids.conditional.2)
  | .declaration f body, avoids => by
    obtain ⟨unnamed, unused⟩ := avoids.signature rfl
    exact .declaration (fixes.name unnamed) (fixes.functions f unused)
      (fixes.block body (avoids.body rfl))

theorem Fixes.block (fixes : R.Fixes a z) :
    ∀ body : List Stmt, blockAvoids z body → R.SameBlock a body body
  | [], _ => .nil
  | s :: rest, avoids => by
    obtain ⟨first, others⟩ := List.forall_mem_cons.mp avoids
    exact .cons (fixes.stmt s first) (fixes.block rest others)
end

end

/-! ## Nothing renamed -/

/-- There is only one view, and in it names and functions stand only for themselves. -/
structure Plain {View : Type} (R : Renaming View) : Prop where
  views : ∀ a b : View, a = b
  names : ∀ {a n m}, R.stands a n m → n = m
  functions : ∀ {a f g b}, R.opens a f g b → f = g

section

variable {View : Type} {R : Renaming View}

mutual
/-- Where all names stand for themselves, expressions that are the same are equal. -/
theorem SameExpr.eq (plain : R.Plain) : ∀ {a : View} {e f : Expr}, R.SameExpr a e f → e = f
  | _, _, _, .number _ => rfl
  | _, _, _, .variable named => congrArg Expr.variable (plain.names named)
  | _, _, _, .assign named value => by rw [plain.names named, value.eq plain]
  | _, _, _, .binary op left right => by rw [left.eq plain, right.eq plain]
  | _, _, _, .unary op operand => by rw [operand.eq plain]
  | _, _, _, .call named arguments => by rw [plain.names named, arguments.eq plain]
  | _, _, _, .function opened body => by rw [plain.functions opened, body.eq plain]

theorem SameArguments.eq (plain : R.Plain) :
    ∀ {a : View} {es fs : List Expr}, R.SameArguments a es fs → es = fs
  | _, _, _, .nil => rfl
  | _, _, _, .cons first others => by rw [first.eq plain, others.eq plain]

theorem SameStmt.eq (plain : R.Plain) : ∀ {a : View} {s t : Stmt}, R.SameStmt a s t → s = t
  | _, _, _, .expression e => by rw [e.eq plain]
  | _, _, _, .result e => by rw [e.eq plain]
  | _, _, _, .block body => by rw [body.eq plain]
  | _, _, _, .conditional e body => by rw [e.eq plain, body.eq plain]
  | _, _, _, .declaration _ opened body => by rw [plain.functions opened, body.eq plain]

theorem SameBlock.eq (plain : R.Plain) :
    ∀ {a : View} {body other : List Stmt}, R.SameBlock a body other → body = other
  | _, _, _, .nil => rfl
  | _, _, _, .cons first others => by rw [first.eq plain, others.eq plain]
end

end

end Renaming
end Scriptlet
