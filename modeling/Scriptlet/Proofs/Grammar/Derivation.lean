import Scriptlet.Proofs.Numeral
import Scriptlet.Grammar

/-!
# The grammar

Which token kinds make up a program, and which tree the program is, said without a reader. A
`Derivation` is a concrete tree: each constructor is one rule of the grammar, and the index says
which kinds the rule covers and what they mean.

Comparisons, sums and products are left recursive, so their trees lean to the left. A power is an
atom and perhaps a signed exponent, so powers lean to the right, and a sign stands outside the power
behind it. `BinaryOp.level` and `BinaryOp.token` are the table of precedences.

`levels` counts how many levels of nesting a reader of the derivation has open at once. It is never
more than the number of tokens (`levels_le_length`).
-/

namespace Scriptlet

/-! ## The table of operators -/

namespace BinaryOp

/-- The kind of chain that an operator makes. -/
def level : BinaryOp → Level
  | less | lessEqual | equal | greater | greaterEqual => .comparison
  | add | subtract => .additive
  | multiply | divide => .multiplicative
  | power => .power

/-- The token that an operator is written as. -/
def token : BinaryOp → TokenKind
  | add => .plus
  | subtract => .minus
  | multiply => .asterisk
  | divide => .slash
  | power => .power
  | less => .less
  | lessEqual => .lessEqual
  | equal => .equal
  | greater => .greater
  | greaterEqual => .greaterEqual

end BinaryOp

namespace UnaryOp

/-- The token that a sign is written as. -/
def token : UnaryOp → TokenKind
  | plus => .plus
  | minus => .minus

end UnaryOp

/-- A kind is read as an operator on the operator's own level, by its token. -/
theorem Level.operator?_eq_some_iff {level : Level} {kind : TokenKind} {op : BinaryOp} :
    level.operator? kind = some op ↔ op.level = level ∧ kind = op.token := by
  constructor
  · intro found
    cases level <;> cases kind <;> cases found <;> exact ⟨rfl, rfl⟩
  · rintro ⟨rfl, rfl⟩
    cases op <;> rfl

/-- The level of powers has a single operator. -/
theorem Level.power_operator?_eq_none_iff {kind : TokenKind} :
    Level.power.operator? kind = none ↔ kind ≠ .power := by
  cases kind <;> simp [Level.operator?]

theorem Level.comparison_ne_power : Level.comparison ≠ .power := nofun

theorem Level.additive_ne_power : Level.additive ≠ .power := nofun

theorem Level.multiplicative_ne_power : Level.multiplicative ≠ .power := nofun

/-- That operator is the power. -/
theorem BinaryOp.eq_power_of_level {op : BinaryOp} (h : op.level = .power) : op = .power := by
  cases op <;> first | rfl | cases h

/-- No operator is written as the end. -/
theorem BinaryOp.token_ne_endOfText (op : BinaryOp) : op.token ≠ .endOfText := by
  cases op <;> exact nofun

/-- No sign is either. -/
theorem UnaryOp.token_ne_endOfText (op : UnaryOp) : op.token ≠ .endOfText := by
  cases op <;> exact nofun

/-! ## Derivations -/

/-- What a stretch of tokens means, and as what it stands there. -/
inductive Phrase where
  | atom (e : Expr)
  | chain (level : Level) (e : Expr)
  | signed (e : Expr)
  | arguments (es : List Expr)
  | expression (e : Expr)
  | block (body : List Stmt)
  | function (parameters : List String) (body : List Stmt)
  | statement (s : Stmt)
  | statements (body : List Stmt)

/-- What stands between the operators of a chain. -/
def Phrase.operand : Level → Expr → Phrase
  | .comparison, e => .chain .additive e
  | .additive, e => .chain .multiplicative e
  | .multiplicative, e => .signed e
  | .power, e => .atom e

/-- The kinds of a list of parameters, with commas between them. -/
def parameterKinds (parameters : List String) : List TokenKind :=
  (parameters.map TokenKind.identifier).intersperse .comma

/-- The rules of the grammar. -/
inductive Derivation : List TokenKind → Phrase → Type where
  | number {text : String} (numeral : IsNumeral text) :
      Derivation [.number text] (.atom (.number (.ofLexeme text)))
  | name (x : String) : Derivation [.identifier x] (.atom (.variable x))
  | call (name : String) {ks : List TokenKind} {es : List Expr} :
      Derivation ks (.arguments es) →
      Derivation (.identifier name :: .leftParen :: (ks ++ [.rightParen])) (.atom (.call name es))
  | group {ks : List TokenKind} {e : Expr} :
      Derivation ks (.expression e) → Derivation (.leftParen :: (ks ++ [.rightParen])) (.atom e)
  /-- An atom without an exponent. -/
  | base {ks : List TokenKind} {e : Expr} :
      Derivation ks (.atom e) → Derivation ks (.chain .power e)
  | power {ks ls : List TokenKind} {e f : Expr} :
      Derivation ks (.atom e) → Derivation ls (.signed f) →
      Derivation (ks ++ .power :: ls) (.chain .power (.binary .power e f))
  | unsigned {ks : List TokenKind} {e : Expr} :
      Derivation ks (.chain .power e) → Derivation ks (.signed e)
  | sign (op : UnaryOp) {ks : List TokenKind} {e : Expr} :
      Derivation ks (.signed e) → Derivation (op.token :: ks) (.signed (.unary op e))
  /-- A chain of one operand. -/
  | single {level : Level} {ks : List TokenKind} {e : Expr} :
      level ≠ .power → Derivation ks (.operand level e) → Derivation ks (.chain level e)
  /-- A chain with one more operator and operand behind it. -/
  | fold {level : Level} {ks ls : List TokenKind} {e f : Expr} (op : BinaryOp) :
      level ≠ .power → op.level = level →
      Derivation ks (.chain level e) → Derivation ls (.operand level f) →
      Derivation (ks ++ op.token :: ls) (.chain level (.binary op e f))
  | noArguments : Derivation [] (.arguments [])
  | lastArgument {ks : List TokenKind} {e : Expr} :
      Derivation ks (.expression e) → Derivation ks (.arguments [e])
  | nextArgument {ks ls : List TokenKind} {e f : Expr} {es : List Expr} :
      Derivation ks (.expression e) → Derivation ls (.arguments (f :: es)) →
      Derivation (ks ++ .comma :: ls) (.arguments (e :: f :: es))
  | assign (name : String) {ks : List TokenKind} {e : Expr} :
      Derivation ks (.expression e) →
      Derivation (.identifier name :: .assign :: ks) (.expression (.assign name e))
  | anonymous {ks : List TokenKind} {parameters : List String} {body : List Stmt} :
      Derivation ks (.function parameters body) →
      Derivation (.functionWord :: ks) (.expression (.function ⟨none, parameters⟩ body))
  | comparison {ks : List TokenKind} {e : Expr} :
      Derivation ks (.chain .comparison e) → Derivation ks (.expression e)
  | block {ks : List TokenKind} {body : List Stmt} :
      Derivation ks (.statements body) →
      Derivation (.leftBrace :: (ks ++ [.rightBrace])) (.block body)
  | function (parameters : List String) {ks : List TokenKind} {body : List Stmt} :
      Derivation ks (.block body) →
      Derivation (.leftParen :: (parameterKinds parameters ++ .rightParen :: ks))
        (.function parameters body)
  | declaration (name : String) {ks : List TokenKind} {parameters : List String}
      {body : List Stmt} :
      Derivation ks (.function parameters body) →
      Derivation (.functionWord :: .identifier name :: ks)
        (.statement (.declaration ⟨some name, parameters⟩ body))
  | conditional {ks ls : List TokenKind} {e : Expr} {body : List Stmt} :
      Derivation ks (.expression e) → Derivation ls (.block body) →
      Derivation (.ifWord :: .leftParen :: (ks ++ .rightParen :: ls))
        (.statement (.conditional e body))
  | result {ks : List TokenKind} {e : Expr} :
      Derivation ks (.expression e) → Derivation (.returnWord :: ks) (.statement (.result e))
  | braces {ks : List TokenKind} {body : List Stmt} :
      Derivation ks (.block body) → Derivation ks (.statement (.block body))
  | bare {ks : List TokenKind} {e : Expr} :
      Derivation ks (.expression e) → Derivation ks (.statement (.expression e))
  | noStatements : Derivation [] (.statements [])
  | newLine {ks : List TokenKind} {body : List Stmt} :
      Derivation ks (.statements body) → Derivation (.newLine :: ks) (.statements body)
  | lastStatement {ks : List TokenKind} {s : Stmt} :
      Derivation ks (.statement s) → Derivation ks (.statements [s])
  | nextStatement {ks ls : List TokenKind} {s : Stmt} {body : List Stmt} :
      Derivation ks (.statement s) → Derivation ls (.statements body) →
      Derivation (ks ++ .newLine :: ls) (.statements (s :: body))

/-- Whether token kinds make up the statements of a program. -/
def Derives (kinds : List TokenKind) (body : List Stmt) : Prop :=
  Nonempty (Derivation kinds (.statements body))

/-- Among parameters there are only identifiers and commas. -/
theorem notMem_parameterKinds {kind : TokenKind} (name : ∀ x, kind ≠ .identifier x)
    (comma : kind ≠ .comma) (parameters : List String) : kind ∉ parameterKinds parameters := by
  induction parameters with
  | nil => exact List.not_mem_nil
  | cons first rest ih =>
    cases rest with
    | nil => exact fun member => name first (List.mem_singleton.mp member)
    | cons next rest =>
      intro member
      rcases List.mem_cons.mp member with same | member
      · exact name first same
      · exact (List.mem_cons.mp member).elim comma ih

/-- No phrase takes an end. -/
theorem Derivation.endOfText_notMem {ks : List TokenKind} {phrase : Phrase}
    (d : Derivation ks phrase) : .endOfText ∉ ks := by
  induction d with
  | fold op _ _ _ _ first second =>
    simp only [List.mem_append, List.mem_cons, op.token_ne_endOfText.symm, false_or]
    intro member
    exact member.elim first second
  | sign op _ ih =>
    simp only [List.mem_cons, op.token_ne_endOfText.symm, false_or]
    exact ih
  | _ => simp_all [notMem_parameterKinds]

/-- The numbers that a phrase takes are numerals. -/
theorem Derivation.isNumeral {ks : List TokenKind} {phrase : Phrase} (d : Derivation ks phrase) :
    ∀ text, .number text ∈ ks → IsNumeral text := by
  induction d with
  | number numeral =>
    intro text member
    cases List.mem_singleton.mp member
    exact numeral
  | fold op _ _ _ _ first second =>
    intro text member
    rcases List.mem_append.mp member with member | member
    · exact first text member
    · rcases List.mem_cons.mp member with same | member
      · cases op <;> cases same
      · exact second text member
  | sign op _ ih =>
    intro text member
    rcases List.mem_cons.mp member with same | member
    · cases op <;> cases same
    · exact ih text member
  | _ => simp_all [notMem_parameterKinds, or_imp]

/-! ## Levels -/

namespace Derivation

/-- The number of operators of the outermost chain. A reader keeps a level open for each of them
until the chain ends. -/
def operators : {ks : List TokenKind} → {phrase : Phrase} → Derivation ks phrase → Nat
  | _, _, .fold _ _ _ d _ => d.operators + 1
  | _, _, _ => 0

/-- The number of levels that a reader has open at once, besides those open where it begins. -/
def levels : {ks : List TokenKind} → {phrase : Phrase} → Derivation ks phrase → Nat
  | _, _, .number _ => 0
  | _, _, .name _ => 0
  | _, _, .call _ d => d.levels
  | _, _, .group d => d.levels
  | _, _, .base d => d.levels
  | _, _, .power d f => max d.levels (f.levels + 1)
  | _, _, .unsigned d => d.levels
  | _, _, .sign _ d => d.levels + 1
  | _, _, .single _ d => d.levels
  | _, _, .fold _ _ _ d f => max d.levels (d.operators + 1 + f.levels)
  | _, _, .noArguments => 0
  | _, _, .lastArgument d => d.levels
  | _, _, .nextArgument d f => max d.levels f.levels
  | _, _, .assign _ d => d.levels + 1
  | _, _, .anonymous d => d.levels + 1
  | _, _, .comparison d => d.levels + 1
  | _, _, .block d => d.levels + 1
  | _, _, .function _ d => d.levels
  | _, _, .declaration _ d => d.levels
  | _, _, .conditional d f => max d.levels f.levels
  | _, _, .result d => d.levels
  | _, _, .braces d => d.levels
  | _, _, .bare d => d.levels
  | _, _, .noStatements => 0
  | _, _, .newLine d => d.levels
  | _, _, .lastStatement d => d.levels
  | _, _, .nextStatement d f => max d.levels f.levels

variable {ks : List TokenKind} {phrase : Phrase}

/-- How many tokens more than levels a phrase has at least. A chain and what stands in it are read
within the level that their expression has opened before it takes a token. -/
def slack : Phrase → Nat
  | .atom _ | .chain _ _ | .signed _ => 1
  | _ => 0

/-- An operand has one token to spare, whatever its level. -/
theorem slack_operand (level : Level) (e : Expr) : slack (.operand level e) = 1 := by
  cases level <;> rfl

/-- A derivation has fewer levels and operators than tokens, by its slack. -/
theorem levels_add_slack_le (d : Derivation ks phrase) :
    d.levels + slack phrase ≤ ks.length ∧ d.operators + slack phrase ≤ ks.length := by
  induction d with
  | single _ _ ih =>
    rw [slack_operand] at ih
    exact ih.imp_right fun _ => Nat.le_trans (Nat.le_add_left ..) ih.1
  | fold _ _ _ _ _ first second =>
    rw [slack_operand] at second
    simp only [levels, operators, slack, List.length_append, List.length_cons] at *
    omega
  | _ =>
    simp only [levels, operators, slack, List.length_append, List.length_cons,
      List.length_nil] at *
    omega

/-- A reader never has more levels open than there are tokens. -/
theorem levels_le_length (d : Derivation ks phrase) : d.levels ≤ ks.length :=
  Nat.le_trans (Nat.le_add_right ..) d.levels_add_slack_le.1

end Derivation
end Scriptlet
