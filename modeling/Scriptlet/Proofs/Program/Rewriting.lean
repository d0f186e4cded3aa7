import Scriptlet.Program

/-!
# Programs rewritten

A rule says which statements may be written for which others, in the same place. A program is
rewritten by applying it any number of times, to any of its blocks: the program itself, the blocks and
conditionals in it, and the bodies of its functions. `RewritesBlock` is that relation on blocks, and
so on for the other parts of a program. A part is rewritten by rewriting what it is made of, and a
block may then be rewritten as a whole as well.

Nothing has to be rewritten (`RewritesBlock.refl`), and a rule that changes nothing rewrites a program
to itself (`RewritesBlock.eq`).
-/

namespace Scriptlet

section

variable (rule : List Stmt → List Stmt → Prop)

mutual
/-- An expression in which blocks are rewritten. -/
inductive RewritesExpr : Expr → Expr → Prop
  | number (numeral : Numeral) : RewritesExpr (.number numeral) (.number numeral)
  | variable (name : String) : RewritesExpr (.variable name) (.variable name)
  | assign (name : String) {e f : Expr} :
      RewritesExpr e f → RewritesExpr (.assign name e) (.assign name f)
  | binary (op : BinaryOp) {l r m s : Expr} :
      RewritesExpr l m → RewritesExpr r s → RewritesExpr (.binary op l r) (.binary op m s)
  | unary (op : UnaryOp) {e f : Expr} : RewritesExpr e f → RewritesExpr (.unary op e) (.unary op f)
  | call (name : String) {es fs : List Expr} :
      RewritesArguments es fs → RewritesExpr (.call name es) (.call name fs)
  | function (signature : Signature) {body other : List Stmt} :
      RewritesBlock body other → RewritesExpr (.function signature body) (.function signature other)

/-- Arguments in which blocks are rewritten. -/
inductive RewritesArguments : List Expr → List Expr → Prop
  | nil : RewritesArguments [] []
  | cons {e f : Expr} {es fs : List Expr} :
      RewritesExpr e f → RewritesArguments es fs → RewritesArguments (e :: es) (f :: fs)

/-- A statement in which blocks are rewritten. -/
inductive RewritesStmt : Stmt → Stmt → Prop
  | expression {e f : Expr} : RewritesExpr e f → RewritesStmt (.expression e) (.expression f)
  | result {e f : Expr} : RewritesExpr e f → RewritesStmt (.result e) (.result f)
  | block {body other : List Stmt} :
      RewritesBlock body other → RewritesStmt (.block body) (.block other)
  | conditional {e f : Expr} {body other : List Stmt} :
      RewritesExpr e f → RewritesBlock body other →
        RewritesStmt (.conditional e body) (.conditional f other)
  | declaration (signature : Signature) {body other : List Stmt} :
      RewritesBlock body other →
        RewritesStmt (.declaration signature body) (.declaration signature other)

/-- Statements that are rewritten one by one, and then as a whole any number of times. -/
inductive RewritesBlock : List Stmt → List Stmt → Prop
  | nil : RewritesBlock [] []
  | cons {s t : Stmt} {rest others : List Stmt} :
      RewritesStmt s t → RewritesBlock rest others → RewritesBlock (s :: rest) (t :: others)
  | step {body mid other : List Stmt} :
      RewritesBlock body mid → rule mid other → RewritesBlock body other
end

end

variable {rule : List Stmt → List Stmt → Prop}

/-- Arguments are rewritten to as many. -/
theorem RewritesArguments.length_eq {es fs : List Expr} (h : RewritesArguments rule es fs) :
    fs.length = es.length := by
  induction es generalizing fs with
  | nil =>
    cases h
    rfl
  | cons e es ih =>
    obtain _ | ⟨_, later⟩ := h
    exact congrArg (· + 1) (ih later)

/-! ## Nothing rewritten -/

mutual
/-- Every expression is rewritten to itself. -/
theorem RewritesExpr.refl : ∀ e : Expr, RewritesExpr rule e e
  | .number numeral => .number numeral
  | .variable name => .variable name
  | .assign name e => .assign name (.refl e)
  | .binary op left right => .binary op (.refl left) (.refl right)
  | .unary op e => .unary op (.refl e)
  | .call name es => .call name (.refl es)
  | .function signature body => .function signature (.refl body)

theorem RewritesArguments.refl : ∀ es : List Expr, RewritesArguments rule es es
  | [] => .nil
  | e :: es => .cons (.refl e) (.refl es)

theorem RewritesStmt.refl : ∀ s : Stmt, RewritesStmt rule s s
  | .expression e => .expression (.refl e)
  | .result e => .result (.refl e)
  | .block body => .block (.refl body)
  | .conditional e body => .conditional (.refl e) (.refl body)
  | .declaration signature body => .declaration signature (.refl body)

theorem RewritesBlock.refl : ∀ body : List Stmt, RewritesBlock rule body body
  | [] => .nil
  | s :: rest => .cons (.refl s) (.refl rest)
end

/-- Whether a rule writes only statements for themselves. -/
def ChangesNothing (rule : List Stmt → List Stmt → Prop) : Prop :=
  ∀ body other, rule body other → body = other

mutual
/-- By a rule that changes nothing, an expression is only rewritten to itself. -/
theorem RewritesExpr.eq (plain : ChangesNothing rule) :
    ∀ {e f : Expr}, RewritesExpr rule e f → e = f
  | _, _, .number _ => rfl
  | _, _, .variable _ => rfl
  | _, _, .assign _ value => by rw [value.eq plain]
  | _, _, .binary _ left right => by rw [left.eq plain, right.eq plain]
  | _, _, .unary _ operand => by rw [operand.eq plain]
  | _, _, .call _ arguments => by rw [arguments.eq plain]
  | _, _, .function _ body => by rw [body.eq plain]

theorem RewritesArguments.eq (plain : ChangesNothing rule) :
    ∀ {es fs : List Expr}, RewritesArguments rule es fs → es = fs
  | _, _, .nil => rfl
  | _, _, .cons first others => by rw [first.eq plain, others.eq plain]

theorem RewritesStmt.eq (plain : ChangesNothing rule) :
    ∀ {s t : Stmt}, RewritesStmt rule s t → s = t
  | _, _, .expression e => by rw [e.eq plain]
  | _, _, .result e => by rw [e.eq plain]
  | _, _, .block body => by rw [body.eq plain]
  | _, _, .conditional e body => by rw [e.eq plain, body.eq plain]
  | _, _, .declaration _ body => by rw [body.eq plain]

theorem RewritesBlock.eq (plain : ChangesNothing rule) :
    ∀ {body other : List Stmt}, RewritesBlock rule body other → body = other
  | _, _, .nil => rfl
  | _, _, .cons first others => by rw [first.eq plain, others.eq plain]
  | _, _, .step front applied => (front.eq plain).trans (plain _ _ applied)
end

end Scriptlet
