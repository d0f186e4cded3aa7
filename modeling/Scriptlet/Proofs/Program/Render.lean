import Scriptlet.Program.Render
import Scriptlet.Proofs.Grammar.Neighbours
import Scriptlet.Proofs.Grammar.WellFormed

/-!
# Reading back what is displayed

The display of a tree spells certain kinds (`Expr.kinds`, `Expr.spells`), and these kinds derive the
tree again (`Expr.derives`), for everything that stands between operators is a number, a name, a
call or in parentheses. There is one exception: functions are displayed without parentheses, also
where they are operands. A display with such an operand has an operator next to the border of a
function, and what derives has not (`Derivation.fits`). So such a display is refused.
-/

namespace Scriptlet

/-! ## The kinds of a display -/

/-- The kinds of a function's head. -/
def Signature.kinds (s : Signature) : List TokenKind :=
  .functionWord :: ((s.name.map TokenKind.identifier).toList ++
    .leftParen :: (parameterKinds s.parameters ++ [.rightParen]))

mutual
/-- The kinds of an expression's text. -/
def Expr.kinds : Expr → List TokenKind
  | .number numeral => [.number numeral.text]
  | .variable name => [.identifier name]
  | .assign name value =>
    .leftParen :: .identifier name :: .assign :: (value.kinds ++ [.rightParen])
  | .binary op left right =>
    .leftParen :: (left.kinds ++ op.token :: (right.kinds ++ [.rightParen]))
  | .unary op operand => .leftParen :: op.token :: (operand.kinds ++ [.rightParen])
  | .call name arguments =>
    .identifier name :: .leftParen :: (argumentKinds arguments ++ [.rightParen])
  | .function signature body =>
    signature.kinds ++ .leftBrace :: (statementKinds body ++ [.rightBrace])

/-- The kinds of a statement's text. -/
def Stmt.kinds : Stmt → List TokenKind
  | .expression e => e.kinds
  | .result value => .returnWord :: value.kinds
  | .block body => .leftBrace :: (statementKinds body ++ [.rightBrace])
  | .conditional condition body =>
    .ifWord :: .leftParen :: (condition.kinds ++
      .rightParen :: .leftBrace :: (statementKinds body ++ [.rightBrace]))
  | .declaration signature body =>
    signature.kinds ++ .leftBrace :: (statementKinds body ++ [.rightBrace])

/-- The kinds of arguments with commas between them. -/
def argumentKinds : List Expr → List TokenKind
  | [] => []
  | [e] => e.kinds
  | e :: rest => e.kinds ++ .comma :: argumentKinds rest

/-- The kinds of statements with a line end behind each. -/
def statementKinds : List Stmt → List TokenKind
  | [] => []
  | s :: rest => s.kinds ++ .newLine :: statementKinds rest
end

/-- The kinds of a program's text; behind each statement there are a semicolon and a line feed. -/
def Program.kinds (p : Program) : List TokenKind :=
  p.statements.flatMap fun s => s.kinds ++ [.newLine, .newLine]

/-! ## What a display spells -/

/-- The characters that stand right behind a word or a number in a display. -/
inductive Separates : Char → Prop
  | blank : Separates ' '
  | opening : Separates '('
  | closing : Separates ')'
  | comma : Separates ','
  | semicolon : Separates ';'

/-- No token goes on with a separating character. -/
theorem Separates.goesOn_eq_false {c : Char} (h : Separates c) (kind : TokenKind) :
    kind.goesOn c = false := by
  cases h <;> cases kind <;> rfl

/-- The token of an operator is spelled in one way only. -/
theorem BinaryOp.isSpelled_token (op : BinaryOp) : op.token.IsSpelled := by
  cases op <;> trivial

/-- That is the operator's symbol. -/
theorem BinaryOp.spelling_token (op : BinaryOp) : op.token.spelling = op.symbol := by
  cases op <;> rfl

namespace Source

variable {c : Char} {rest : List Char} {kind : TokenKind} {ks : List TokenKind} {name : String}

/-- A kind may be written in front of what separates it. -/
theorem Spells.before (kind : TokenKind) (spelled : kind.IsSpelled) (ends : Separates c)
    (h : Spells (c :: rest) ks) : Spells (kind.spelling.toList ++ c :: rest) (kind :: ks) := by
  refine .spelling spelled ?_ h
  rintro _ ⟨⟩
  exact ends.goesOn_eq_false kind

/-- A name may be written in front of what separates it. -/
theorem Spells.identifier (spelled : IsIdentifier name) (ends : Separates c)
    (h : Spells (c :: rest) ks) : Spells (name.toList ++ c :: rest) (.identifier name :: ks) :=
  .before (.identifier name) spelled ends h

/-- A sign ends before whatever stands behind it. -/
theorem Spells.sign (op : UnaryOp) (h : Spells rest ks) :
    Spells (op.symbol.toList ++ rest) (op.token :: ks) := by
  cases op with
  | plus => exact .symbol '+' rfl (fun _ _ => rfl) h
  | minus => exact .symbol '-' rfl (fun _ _ => rfl) h

end Source

open Source (Spells)

variable {c : Char} {rest : List Char} {ks : List TokenKind}

/-- Parameters between commas spell their kinds, up to the closing parenthesis. -/
theorem spells_parameters {parameters : List String}
    (spelled : ∀ name ∈ parameters, IsIdentifier name) (h : Spells (')' :: rest) ks) :
    Spells ((String.intercalate ", " parameters).toList ++ ')' :: rest)
      (parameterKinds parameters ++ ks) := by
  rw [String.toList_intercalate]
  induction parameters with
  | nil => exact h
  | cons name more ih =>
    obtain ⟨here, later⟩ := List.forall_mem_cons.mp spelled
    cases more with
    | nil =>
      rw [List.map_singleton, List.intercalate_singleton]
      exact .identifier here .closing h
    | cons next more =>
      rw [List.map_cons, List.map_cons, List.intercalate_cons_cons, List.append_assoc,
        List.append_assoc]
      exact .identifier here .comma
        (.symbol ',' rfl (fun _ _ => rfl) (.blank ' ' rfl (ih later)))

/-- The head of a function spells its kinds. -/
theorem Signature.spells {s : Signature} (named : ∀ name ∈ s.name, IsIdentifier name)
    (spelled : ∀ name ∈ s.parameters, IsIdentifier name) (h : Spells (' ' :: rest) ks) :
    Spells (s.render.toList ++ ' ' :: rest) (s.kinds ++ ks) := by
  have parameters := Spells.symbol '(' rfl (fun _ _ => rfl)
    (spells_parameters spelled (.symbol ')' rfl (fun _ _ => rfl) h))
  obtain ⟨name, ps⟩ := s
  cases name with
  | none =>
    simpa [Signature.render, Signature.kinds, TokenKind.spelling] using
      Spells.before .functionWord trivial .opening parameters
  | some name =>
    have name := Spells.identifier (named name rfl) .opening parameters
    simpa [Signature.render, Signature.kinds, TokenKind.spelling] using
      Spells.before .functionWord trivial .blank (.blank ' ' rfl name)

mutual
/-- The text of an expression spells its kinds. -/
theorem Expr.spells (e : Expr) (wf : Tree.All Tree.WellFormed (.expr e)) {c : Char}
    {rest : List Char} {ks : List TokenKind} (ends : Separates c) (h : Spells (c :: rest) ks) :
    Spells (e.render.toList ++ c :: rest) (e.kinds ++ ks) := by
  -- Everything but a function is displayed in parentheses or ends with one, and a function with its
  -- brace.
  have closing := Spells.symbol ')' rfl (fun _ _ => rfl) h
  match e with
  | .number numeral => exact .before (.number numeral.text) wf.root.1 ends h
  | .variable name => exact .identifier wf.root ends h
  | .assign name value =>
    have value := value.spells (wf.only rfl) .closing closing
    have assigned := Spells.before .assign trivial .blank
      (.blank ' ' rfl value)
    have name := Spells.identifier wf.root .blank (.blank ' ' rfl assigned)
    simpa [Expr.render, Expr.kinds, TokenKind.spelling] using
      Spells.symbol '(' rfl (fun _ _ => rfl) name
  | .binary op left right =>
    have right := right.spells wf.operands.2 .closing closing
    have operator := Spells.before op.token op.isSpelled_token .blank
      (.blank ' ' rfl right)
    have left := left.spells wf.operands.1 .blank
      (.blank ' ' rfl operator)
    simpa [Expr.render, Expr.kinds, op.spelling_token] using
      Spells.symbol '(' rfl (fun _ _ => rfl) left
  | .unary op operand =>
    have operand := operand.spells (wf.only rfl) .closing closing
    have sign := Spells.sign op operand
    simpa [Expr.render, Expr.kinds] using Spells.symbol '(' rfl (fun _ _ => rfl) sign
  | .call name arguments =>
    have arguments := spells_arguments arguments (wf.arguments rfl) closing
    have called := Spells.identifier wf.root .opening
      (.symbol '(' rfl (fun _ _ => rfl) arguments)
    simpa [Expr.render, Expr.kinds] using called
  | .function signature body =>
    have body := Spells.symbol '{' rfl (fun _ _ => rfl)
      (spells_statements body (wf.body rfl) (.symbol '}' rfl (fun _ _ => rfl) h))
    have signature := signature.spells (by simp [wf.root.1]) wf.root.2 (.blank ' ' rfl body)
    simpa [Expr.render, Expr.kinds, braced] using signature

/-- The text of a statement spells its kinds. -/
theorem Stmt.spells (s : Stmt) (wf : Tree.All Tree.WellFormed (.stmt s)) {rest : List Char}
    {ks : List TokenKind} (h : Spells (';' :: rest) ks) :
    Spells (s.render.toList ++ ';' :: rest) (s.kinds ++ ks) := by
  match s with
  | .expression e =>
    exact e.spells (wf.only rfl) .semicolon h
  | .result value =>
    have value := value.spells (wf.only rfl) .semicolon h
    simpa [Stmt.render, Stmt.kinds, TokenKind.spelling] using
      Spells.before .returnWord trivial .blank (.blank ' ' rfl value)
  | .block body =>
    have body := Spells.symbol '{' rfl (fun _ _ => rfl)
      (spells_statements body (wf.body rfl) (.symbol '}' rfl (fun _ _ => rfl) h))
    simpa [Stmt.render, Stmt.kinds, braced] using body
  | .conditional condition body =>
    have body := Spells.symbol '{' rfl (fun _ _ => rfl)
      (spells_statements body wf.conditional.2 (.symbol '}' rfl (fun _ _ => rfl) h))
    have condition := condition.spells wf.conditional.1 .closing
      (.symbol ')' rfl (fun _ _ => rfl) (.blank ' ' rfl body))
    simpa [Stmt.render, Stmt.kinds, TokenKind.spelling, braced] using
      Spells.before .ifWord trivial .blank
        (.blank ' ' rfl (.symbol '(' rfl (fun _ _ => rfl) condition))
  | .declaration signature body =>
    obtain ⟨⟨name, named, spelled⟩, parameters⟩ := wf.root
    have body := Spells.symbol '{' rfl (fun _ _ => rfl)
      (spells_statements body (wf.body rfl) (.symbol '}' rfl (fun _ _ => rfl) h))
    have signature := signature.spells (by simpa [named] using spelled) parameters
      (.blank ' ' rfl body)
    simpa [Stmt.render, Stmt.kinds, braced] using signature

/-- The text of arguments spells their kinds. -/
theorem spells_arguments (es : List Expr) (wf : ∀ e ∈ es, Tree.All Tree.WellFormed (.expr e))
    {rest : List Char} {ks : List TokenKind} (h : Spells (')' :: rest) ks) :
    Spells ((renderArguments es).toList ++ ')' :: rest) (argumentKinds es ++ ks) := by
  match es with
  | [] => exact h
  | [e] => exact e.spells (wf e List.mem_cons_self) .closing h
  | e :: f :: more =>
    obtain ⟨here, later⟩ := List.forall_mem_cons.mp wf
    have more := spells_arguments (f :: more) later h
    simpa [renderArguments, argumentKinds] using e.spells here .comma
      (.symbol ',' rfl (fun _ _ => rfl) (.blank ' ' rfl more))

/-- The text of statements spells their kinds. -/
theorem spells_statements (ss : List Stmt) (wf : ∀ s ∈ ss, Tree.All Tree.WellFormed (.stmt s))
    {rest : List Char} {ks : List TokenKind} (h : Spells rest ks) :
    Spells ((renderStatements ss).toList ++ rest) (statementKinds ss ++ ks) := by
  match ss with
  | [] => exact h
  | s :: more =>
    obtain ⟨here, later⟩ := List.forall_mem_cons.mp wf
    have more := spells_statements more later h
    simpa [renderStatements, statementKinds] using
      s.spells here (.symbol ';' rfl (fun _ _ => rfl) more)
end

/-- The text of a program spells its kinds. -/
theorem Program.spells (p : Program) (wf : ∀ s ∈ p.statements, Tree.All Tree.WellFormed (.stmt s)) :
    Spells p.render.toList p.kinds := by
  obtain ⟨ss⟩ := p
  unfold render kinds
  induction ss with
  | nil => exact .nil
  | cons s rest ih =>
    obtain ⟨here, later⟩ := List.forall_mem_cons.mp wf
    have ends := Spells.symbol ';' rfl (fun _ _ => rfl)
      (.symbol '\n' rfl (fun _ _ => rfl) (ih later))
    simpa using s.spells here ends

/-! ## What a display derives -/

/-- Whether an expression is a function. -/
def Expr.IsFunction : Expr → Prop
  | .function _ _ => True
  | _ => False

namespace Tree

/-- Whether a node is an operation on a function. -/
def HasFunctionOperand : Tree → Prop
  | .expr (.binary _ left right) => left.IsFunction ∨ right.IsFunction
  | .expr (.unary _ operand) => operand.IsFunction
  | _ => False

/-- Whether the display of a node, as far as the node goes, is read as the node. -/
structure ReadsBack (t : Tree) : Prop where
  wellFormed : t.WellFormed
  noFunctionOperand : ¬ t.HasFunctionOperand

end Tree

/-- What the display of an expression derives: a function stands for itself only as a whole
expression, and everything else wherever an operand may stand. -/
def Expr.displayed (e : Expr) : Phrase :=
  match e with
  | .function _ _ => .expression e
  | _ => .atom e

/-- Whatever is no function is displayed as an atom. -/
theorem Expr.displayed_eq {e : Expr} (other : ¬ e.IsFunction) : e.displayed = .atom e := by
  cases e <;> first | rfl | exact absurd trivial other

namespace Derivation

variable {ls : List TokenKind} {e f : Expr}

/-- An atom stands between the operators of every level. -/
def operand (r : Derivation ks (.atom e)) : (level : Level) → Derivation ks (.operand level e)
  | .power => r
  | .multiplicative => .unsigned (.base r)
  | .additive => .single Level.multiplicative_ne_power (.unsigned (.base r))
  | .comparison => .single Level.additive_ne_power
    (.single Level.multiplicative_ne_power (.unsigned (.base r)))

/-- A chain of any level is an expression. -/
def ofChain : {level : Level} → Derivation ks (.chain level e) → Derivation ks (.expression e)
  | .comparison, r => .comparison r
  | .additive, r => .comparison (.single Level.comparison_ne_power r)
  | .multiplicative, r => .comparison (.single Level.comparison_ne_power
    (.single Level.additive_ne_power r))
  | .power, r => .comparison (.single Level.comparison_ne_power (.single Level.additive_ne_power
    (.single Level.multiplicative_ne_power (.unsigned r))))

/-- Two atoms and the operator between them derive an operation. -/
theorem exists_binary (op : BinaryOp) (r : Derivation ks (.atom e)) (s : Derivation ls (.atom f)) :
    Nonempty (Derivation (ks ++ op.token :: ls) (.expression (.binary op e f))) := by
  by_cases power : op.level = .power
  · cases op.eq_power_of_level power
    exact ⟨ofChain (.power r (.unsigned (.base s)))⟩
  · exact ⟨ofChain (.fold op power rfl (.single power (r.operand _)) (s.operand _))⟩

/-- The head and the body of a function without a name derive an expression. -/
theorem exists_function {s : Signature} {body : List Stmt} (anonymous : s.name = none)
    (r : Derivation ks (.statements body)) :
    Nonempty (Derivation (s.kinds ++ .leftBrace :: (ks ++ [.rightBrace]))
      (.expression (.function s body))) := by
  obtain ⟨name, parameters⟩ := s
  cases anonymous
  have whole := Derivation.anonymous (.function parameters r.block)
  exact ⟨by simpa [Signature.kinds] using whole⟩

/-- With a name they derive a declaration. -/
theorem exists_declaration {s : Signature} {body : List Stmt} {name : String}
    (named : s.name = some name) (r : Derivation ks (.statements body)) :
    Nonempty (Derivation (s.kinds ++ .leftBrace :: (ks ++ [.rightBrace]))
      (.statement (.declaration s body))) := by
  obtain ⟨_, parameters⟩ := s
  cases named
  have whole := Derivation.declaration name (.function parameters r.block)
  exact ⟨by simpa [Signature.kinds] using whole⟩

end Derivation

/-- What is displayed stands as a whole expression. -/
theorem Expr.exists_expression {e : Expr} (r : Nonempty (Derivation ks e.displayed)) :
    Nonempty (Derivation ks (.expression e)) := by
  by_cases function : e.IsFunction
  · cases e <;> first | exact r | exact function.elim
  · rw [e.displayed_eq function] at r
    exact r.map fun r => .ofChain (.base r)

mutual
/-- The kinds of an expression derive it. -/
theorem Expr.derives (e : Expr) (fine : Tree.All Tree.ReadsBack (.expr e)) :
    Nonempty (Derivation e.kinds e.displayed) := by
  match e with
  | .number numeral =>
    obtain ⟨recognized, same⟩ := fine.root.wellFormed
    rw [same]
    exact ⟨.number recognized⟩
  | .variable name => exact ⟨.name name⟩
  | .assign name value =>
    obtain ⟨r⟩ := Expr.exists_expression (value.derives (fine.only rfl))
    exact ⟨.group (.assign name r)⟩
  | .binary op left right =>
    -- The operands are no functions, so they are displayed as atoms, which is what the grammar asks
    -- for.
    obtain ⟨first, second⟩ := not_or.mp fine.root.noFunctionOperand
    obtain ⟨r⟩ := left.displayed_eq first ▸ left.derives fine.operands.1
    obtain ⟨s⟩ := right.displayed_eq second ▸ right.derives fine.operands.2
    obtain ⟨whole⟩ := Derivation.exists_binary op r s
    exact ⟨by simpa [Expr.kinds, Expr.displayed] using whole.group⟩
  | .unary op operand =>
    -- A sign asks for a signed operand, and an atom is one by way of a power without an exponent.
    obtain ⟨r⟩ := operand.displayed_eq fine.root.noFunctionOperand ▸ operand.derives (fine.only rfl)
    have signed : Derivation _ (.chain .multiplicative (.unary op operand)) :=
      .single Level.multiplicative_ne_power (.sign op (.unsigned (.base r)))
    exact ⟨.group signed.ofChain⟩
  | .call name arguments =>
    obtain ⟨r⟩ := derives_arguments arguments (fine.arguments rfl)
    exact ⟨.call name r⟩
  | .function signature body =>
    obtain ⟨r⟩ := derives_statements body (fine.body rfl)
    exact r.exists_function fine.root.wellFormed.1

/-- The kinds of a statement derive it. -/
theorem Stmt.derives (s : Stmt) (fine : Tree.All Tree.ReadsBack (.stmt s)) :
    Nonempty (Derivation s.kinds (.statement s)) := by
  match s with
  | .expression e => exact (Expr.exists_expression (e.derives (fine.only rfl))).map .bare
  | .result value => exact (Expr.exists_expression (value.derives (fine.only rfl))).map .result
  | .block body =>
    obtain ⟨r⟩ := derives_statements body (fine.body rfl)
    exact ⟨.braces r.block⟩
  | .conditional condition body =>
    obtain ⟨r⟩ := Expr.exists_expression (condition.derives fine.conditional.1)
    obtain ⟨s⟩ := derives_statements body fine.conditional.2
    exact ⟨.conditional r s.block⟩
  | .declaration signature body =>
    obtain ⟨⟨name, named, _⟩, _⟩ := fine.root.wellFormed
    obtain ⟨r⟩ := derives_statements body (fine.body rfl)
    exact r.exists_declaration named

/-- The kinds of arguments derive them. -/
theorem derives_arguments (es : List Expr) (fine : ∀ e ∈ es, Tree.All Tree.ReadsBack (.expr e)) :
    Nonempty (Derivation (argumentKinds es) (.arguments es)) := by
  match es with
  | [] => exact ⟨.noArguments⟩
  | [e] =>
    exact (Expr.exists_expression (e.derives (fine e List.mem_cons_self))).map .lastArgument
  | e :: f :: more =>
    obtain ⟨here, later⟩ := List.forall_mem_cons.mp fine
    obtain ⟨r⟩ := Expr.exists_expression (e.derives here)
    obtain ⟨s⟩ := derives_arguments (f :: more) later
    exact ⟨.nextArgument r s⟩

/-- The kinds of statements derive them. -/
theorem derives_statements (ss : List Stmt) (fine : ∀ s ∈ ss, Tree.All Tree.ReadsBack (.stmt s)) :
    Nonempty (Derivation (statementKinds ss) (.statements ss)) := by
  match ss with
  | [] => exact ⟨.noStatements⟩
  | s :: more =>
    obtain ⟨here, later⟩ := List.forall_mem_cons.mp fine
    obtain ⟨r⟩ := s.derives here
    obtain ⟨t⟩ := derives_statements more later
    exact ⟨.nextStatement r t⟩
end

/-- The kinds of a program derive its statements, if everything in it reads back. -/
theorem Program.derives (p : Program)
    (fine : ∀ s ∈ p.statements, Tree.All Tree.ReadsBack (.stmt s)) :
    Derives p.kinds p.statements := by
  obtain ⟨ss⟩ := p
  unfold kinds
  induction ss with
  | nil => exact ⟨.noStatements⟩
  | cons s rest ih =>
    obtain ⟨here, later⟩ := List.forall_mem_cons.mp fine
    obtain ⟨r⟩ := s.derives here
    obtain ⟨t⟩ := ih later
    have whole := Derivation.nextStatement r t.newLine
    exact ⟨by simpa using whole⟩

/-! ## Functions as operands -/

/-- The kinds of a node's text. -/
def Tree.kinds : Tree → List TokenKind
  | .expr e => e.kinds
  | .stmt s => s.kinds

/-- The kinds of an argument stand among those of all arguments. -/
theorem infix_argumentKinds {e : Expr} {es : List Expr} (member : e ∈ es) :
    e.kinds <:+: argumentKinds es := by
  induction es with
  | nil => cases member
  | cons f rest ih =>
    cases rest with
    | nil =>
      cases List.mem_singleton.mp member
      exact List.infix_rfl
    | cons g rest =>
      rcases List.mem_cons.mp member with rfl | member
      · exact (List.prefix_append ..).isInfix
      · have behind := (ih member).trans (List.suffix_cons .comma _).isInfix
        exact behind.trans (List.suffix_append ..).isInfix

/-- The kinds of a statement stand among those of its block. -/
theorem infix_statementKinds {s : Stmt} {ss : List Stmt} (member : s ∈ ss) :
    s.kinds <:+: statementKinds ss := by
  induction ss with
  | nil => cases member
  | cons t rest ih =>
    rcases List.mem_cons.mp member with rfl | member
    · exact (List.prefix_append ..).isInfix
    · exact ((ih member).trans (List.suffix_cons ..).isInfix).trans (List.suffix_append ..).isInfix

/-- The text of a part stands in the text of the whole. -/
theorem Tree.infix_of_mem_parts {t u : Tree} {hold : Hold} (member : (hold, u) ∈ t.parts) :
    u.kinds <:+: t.kinds := by
  cases t with
  | expr e =>
    cases e with
    | number numeral => cases member
    | «variable» name => cases member
    | assign name value =>
      cases List.mem_singleton.mp member
      exact ⟨[.leftParen, .identifier name, .assign], [.rightParen], by simp [kinds, Expr.kinds]⟩
    | binary op left right =>
      rcases List.mem_cons.mp member with same | member
      · cases same
        exact ⟨[.leftParen], op.token :: (right.kinds ++ [.rightParen]),
          by simp [kinds, Expr.kinds]⟩
      · cases List.mem_singleton.mp member
        exact ⟨.leftParen :: (left.kinds ++ [op.token]), [.rightParen],
          by simp [kinds, Expr.kinds]⟩
    | unary op operand =>
      cases List.mem_singleton.mp member
      exact ⟨[.leftParen, op.token], [.rightParen], by simp [kinds, Expr.kinds]⟩
    | call name arguments =>
      obtain ⟨e, inside, same⟩ := List.mem_map.mp member
      cases same
      exact (infix_argumentKinds inside).trans
        ⟨[.identifier name, .leftParen], [.rightParen], by simp [kinds, Expr.kinds]⟩
    | function signature body =>
      obtain ⟨s, inside, same⟩ := List.mem_map.mp member
      cases same
      exact (infix_statementKinds inside).trans
        ⟨signature.kinds ++ [.leftBrace], [.rightBrace], by simp [kinds, Expr.kinds]⟩
  | stmt s =>
    cases s with
    | expression e =>
      cases List.mem_singleton.mp member
      exact List.infix_rfl
    | result value =>
      cases List.mem_singleton.mp member
      exact (List.suffix_cons ..).isInfix
    | block body =>
      obtain ⟨s, inside, same⟩ := List.mem_map.mp member
      cases same
      exact (infix_statementKinds inside).trans
        ⟨[.leftBrace], [.rightBrace], by simp [kinds, Stmt.kinds]⟩
    | conditional condition body =>
      rcases List.mem_cons.mp member with same | member
      · cases same
        exact ⟨[.ifWord, .leftParen],
          .rightParen :: .leftBrace :: (statementKinds body ++ [.rightBrace]),
          by simp [kinds, Stmt.kinds]⟩
      · obtain ⟨s, inside, same⟩ := List.mem_map.mp member
        cases same
        exact (infix_statementKinds inside).trans
          ⟨.ifWord :: .leftParen :: (condition.kinds ++ [.rightParen, .leftBrace]), [.rightBrace],
            by simp [kinds, Stmt.kinds]⟩
    | declaration signature body =>
      obtain ⟨s, inside, same⟩ := List.mem_map.mp member
      cases same
      exact (infix_statementKinds inside).trans
        ⟨signature.kinds ++ [.leftBrace], [.rightBrace], by simp [kinds, Stmt.kinds]⟩

/-- What is contained in a tree has its kinds among those of the tree. -/
theorem Tree.Contains.isInfix {t u : Tree} (inside : t.Contains u) : u.kinds <:+: t.kinds := by
  induction inside with
  | root => exact List.infix_rfl
  | part member _ ih => exact ih.trans (infix_of_mem_parts member)

theorem Program.Contains.isInfix {p : Program} {t : Tree} (inside : p.Contains t) :
    t.kinds <:+: p.kinds := by
  obtain ⟨s, member, inside⟩ := inside
  obtain ⟨before, after, same⟩ := List.append_of_mem member
  have whole : s.kinds <:+: p.kinds :=
    ⟨kinds ⟨before⟩, .newLine :: .newLine :: kinds ⟨after⟩, by simp [kinds, same]⟩
  exact inside.isInfix.trans whole

/-- The text of a function begins with its word and ends with a brace. -/
theorem Expr.IsFunction.kinds_eq {e : Expr} (function : e.IsFunction) :
    ∃ ks, e.kinds = .functionWord :: (ks ++ [.rightBrace]) := by
  cases e with
  | function s body =>
    exact ⟨(s.name.map TokenKind.identifier).toList ++ .leftParen ::
      (parameterKinds s.parameters ++ .rightParen :: .leftBrace :: statementKinds body),
      by simp [Expr.kinds, Signature.kinds]⟩
  | _ => exact function.elim

/-- The token of a sign is an operator. -/
theorem UnaryOp.isOperator_token (op : UnaryOp) : op.token.IsOperator := by
  cases op with
  | plus => exact ⟨.add, rfl⟩
  | minus => exact ⟨.subtract, rfl⟩

/-- In the text of an operation on a function, the operator stands at the border of the function. -/
theorem Tree.HasFunctionOperand.not_isChain {t : Tree} (h : t.HasFunctionOperand) :
    ¬ t.kinds.IsChain TokenKind.Fits := by
  -- Two kinds next to each other cannot stand there, an operator before a function and one behind
  -- it.
  have before {op : TokenKind} (operator : op.IsOperator) {ks ls : List TokenKind} :
      ¬ (ks ++ op :: .functionWord :: ls).IsChain TokenKind.Fits := by
    intro chain
    exact (List.isChain_append_cons_cons.mp chain).2.1.beforeFunction rfl operator
  have behind (op : BinaryOp) {ks ls : List TokenKind} :
      ¬ (ks ++ .rightBrace :: op.token :: ls).IsChain TokenKind.Fits := by
    intro chain
    exact (List.isChain_append_cons_cons.mp chain).2.1.behindBrace rfl ⟨op, rfl⟩
  match t with
  | .expr (.binary op left right) =>
    rcases h with function | function
    · obtain ⟨ks, same⟩ := function.kinds_eq
      rw [kinds, Expr.kinds, same]
      simpa using @behind op (.leftParen :: .functionWord :: ks) (right.kinds ++ [.rightParen])
    · obtain ⟨ks, same⟩ := function.kinds_eq
      rw [kinds, Expr.kinds, same]
      exact @before op.token ⟨op, rfl⟩ (.leftParen :: left.kinds) _
  | .expr (.unary op operand) =>
    obtain ⟨ks, same⟩ := Expr.IsFunction.kinds_eq h
    rw [kinds, Expr.kinds, same]
    exact @before op.token op.isOperator_token [.leftParen] _

/-! ## Reading back -/

/-- A display with a function as an operand derives nothing. -/
theorem Program.not_derives {p : Program} {t : Tree} (inside : p.Contains t)
    (function : t.HasFunctionOperand) (body : List Stmt) : ¬ Derives p.kinds body :=
  fun ⟨r⟩ => function.not_isChain <| List.IsChain.infix r.fits inside.isInfix

/-- **Reading undoes display.** What has been read is read again from its display, as far as the
levels allow, unless a function is an operand in it. Then the display is refused. -/
theorem parse_render (source : String) (p : Program) (read : parse source = .ok p) :
    ((¬ ∃ t, p.Contains t ∧ t.HasFunctionOperand) →
      (parse p.render = .ok p ∨
        ∃ location, parse p.render = .error (.nestingTooDeep maxNesting location)) ∧
      ∃ tokens, tokenize p.render = .ok tokens ∧
        (tokens.length ≤ 1000 → parse p.render = .ok p)) ∧
    ((∃ t, p.Contains t ∧ t.HasFunctionOperand) → ∃ e, parse p.render = .error e) := by
  have wf := parse_wellFormed read
  have spells := p.spells wf
  constructor
  · intro free
    -- Free of such operands, every node reads back, for all of it is well formed already.
    have fine (s : Stmt) (member : s ∈ p.statements) : Tree.All Tree.ReadsBack (.stmt s) :=
      fun t inside =>
        ⟨wf s member t inside, fun function => free ⟨t, ⟨s, member, inside⟩, function⟩⟩
    obtain ⟨r⟩ := p.derives fine
    have accepted (enough : r.levels ≤ maxNesting) : parse p.render = .ok p :=
      parse_eq_ok_iff.mpr ⟨p.kinds, spells, r, enough⟩
    constructor
    · by_cases enough : r.levels ≤ maxNesting
      · exact .inl (accepted enough)
      · exact .inr (parse_tooDeep spells r (Nat.lt_of_not_le enough))
    -- The display has no more levels than tokens, so a short one is within the levels there are.
    · obtain ⟨ts, finish, found, same⟩ := spells.tokenize
      refine ⟨_, found, fun short => accepted ?_⟩
      have count : p.kinds.length = ts.length := by rw [← same, List.length_map]
      rw [List.length_append, ← count] at short
      exact r.levels_le_length.trans ((Nat.le_add_right ..).trans short)
  · rintro ⟨t, inside, function⟩
    cases again : parse p.render with
    | error e => exact ⟨e, rfl⟩
    | ok q =>
      -- The display is read in one way only, so whatever came of it would derive from these kinds.
      obtain ⟨kinds, other, r, _⟩ := parse_eq_ok_iff.mp again
      cases other.unique spells
      exact absurd ⟨r⟩ (Program.not_derives inside function q.statements)

/-- The program of `y=-x`. -/
def negated : Program := ⟨[.expression (.assign "y" (.unary .minus (.variable "x")))]⟩

/-- The text of a negated name is accepted. -/
theorem parse_negated : parse "y=-x" = .ok negated := by
  have spells : Source.Spells ['y', '=', '-', 'x']
      [.identifier "y", .assign, .minus, .identifier "x"] :=
    .cons nofun (fun _ => ⟨_, _, rfl⟩) (.cons nofun (fun _ => ⟨_, _, rfl⟩)
      (.cons nofun (fun _ => ⟨_, _, rfl⟩) (.cons nofun (fun _ => ⟨_, _, rfl⟩) .nil)))
  have sign : Derivation [.minus, .identifier "x"]
      (.chain .multiplicative (.unary .minus (.variable "x"))) :=
    .single nofun (.sign .minus (.unsigned (.base (.name "x"))))
  have r : Derivation _ (.statements negated.statements) :=
    .lastStatement (.bare (.assign "y" sign.ofChain))
  exact parse_eq_ok_iff.mpr ⟨_, spells, r, r.levels_le_length.trans (by decide)⟩

/-- The program of `-(function(){})`. -/
def negatedFunction : Program := ⟨[.expression (.unary .minus (.function ⟨none, []⟩ []))]⟩

/-- The text of a negated function is accepted too. -/
theorem parse_negatedFunction :
    parse "-(function()\x7b\x7d)" = .ok negatedFunction := by
  have spells : Source.Spells "-(function()\x7b\x7d)".toList [.minus, .leftParen, .functionWord,
      .leftParen, .rightParen, .leftBrace, .rightBrace, .rightParen] :=
    .cons nofun (fun _ => ⟨_, _, rfl⟩) (.cons nofun (fun _ => ⟨_, _, rfl⟩)
      (.cons nofun (fun _ => ⟨_, _, rfl⟩) (.cons nofun (fun _ => ⟨_, _, rfl⟩)
      (.cons nofun (fun _ => ⟨_, _, rfl⟩) (.cons nofun (fun _ => ⟨_, _, rfl⟩)
      (.cons nofun (fun _ => ⟨_, _, rfl⟩) (.cons nofun (fun _ => ⟨_, _, rfl⟩) .nil)))))))
  have function : Derivation [.functionWord, .leftParen, .rightParen, .leftBrace, .rightBrace]
      (.expression (.function ⟨none, []⟩ [])) :=
    .anonymous (.function [] (.block .noStatements))
  have sign : Derivation
      [.minus, .leftParen, .functionWord, .leftParen, .rightParen, .leftBrace, .rightBrace,
        .rightParen]
      (.chain .multiplicative (.unary .minus (.function ⟨none, []⟩ []))) :=
    .single nofun (.sign .minus (.unsigned (.base (.group function))))
  have r : Derivation _ (.statements negatedFunction.statements) :=
    .lastStatement (.bare sign.ofChain)
  exact parse_eq_ok_iff.mpr ⟨_, spells, r, r.levels_le_length.trans (by decide)⟩

/-- A display that is read again, and one that is refused for the function in it. -/
theorem parse_render_negated :
    (parse "y=-x" = .ok negated ∧ parse negated.render = .ok negated) ∧
      parse "-(function()\x7b\x7d)" = .ok negatedFunction ∧
        ∃ e, parse negatedFunction.render = .error e := by
  have free : Tree.All (¬ ·.HasFunctionOperand)
      (.stmt (.expression (.assign "y" (.unary .minus (.variable "x"))))) :=
    Tree.all_iff.mpr ⟨id, List.forall_mem_singleton.mpr
      (Tree.all_iff.mpr ⟨id, List.forall_mem_singleton.mpr
        (Tree.all_iff.mpr ⟨id, List.forall_mem_singleton.mpr (Tree.all_iff.mpr ⟨id, nofun⟩)⟩)⟩)⟩
  have short {tokens : List Token} (found : tokenize negated.render = .ok tokens) :
      tokens.length ≤ 1000 := by
    obtain ⟨ts, finish, same, kinds⟩ := (negated.spells (parse_wellFormed parse_negated)).tokenize
    cases found.symm.trans same
    rw [List.length_append, ← List.length_map Token.kind, kinds]
    show negated.kinds.length + 1 ≤ 1000
    decide
  have again := (parse_render "y=-x" negated parse_negated).1 (by
    rintro ⟨t, ⟨s, member, inside⟩, function⟩
    cases List.mem_singleton.mp member
    exact free t inside function)
  obtain ⟨tokens, found, same⟩ := again.2
  refine ⟨⟨parse_negated, same (short found)⟩, parse_negatedFunction, ?_⟩
  exact (parse_render _ negatedFunction parse_negatedFunction).2
    ⟨_, ⟨_, List.mem_cons_self, .part List.mem_cons_self (.root _)⟩, trivial⟩

end Scriptlet
