import Scriptlet.Proofs.Grammar.Soundness

/-!
# What derives is read

A reader that stands before tokens that derive a phrase, with nothing behind them that would go on
with the phrase, reads exactly that phrase; or it opens one level too many, and this depends on the
derivation alone (`Within`).

What may follow is a matter of `strength`: a kind holds the operand before it as tightly as the
operator it stands for, not at all when it ends every expression, and more than any operator when it
turns an identifier into something else.

The loop over the operators of a chain keeps a level open for each of them. So a chain that has been
read in part is the loop, at its last operand and that many levels deeper, with the levels closed
behind it (`Reply.closes`). That is what the induction on a left-recursive chain carries.
-/

namespace Scriptlet

/-! ## What may follow -/

/-- How tightly the operators of a level hold their operands. -/
def Level.strength : Level → Nat
  | comparison => 1
  | additive => 2
  | multiplicative => 3
  | power => 4

/-- How tightly a token holds what stands before it. -/
def TokenKind.strength : TokenKind → Nat
  | rightParen | comma | newLine | rightBrace | endOfText => 0
  | less | lessEqual | equal | greater | greaterEqual => 1
  | plus | minus => 2
  | asterisk | slash => 3
  | power => 4
  | _ => 5

/-- The token of an operator holds as tightly as the operator's level. -/
theorem BinaryOp.strength_token (op : BinaryOp) : op.token.strength = op.level.strength := by
  cases op <;> rfl

/-- An operator's token is read as that operator on the operator's own level. -/
theorem Level.operator?_token (op : BinaryOp) : op.level.operator? op.token = some op :=
  operator?_eq_some_iff.mpr ⟨rfl, rfl⟩

/-- A token too weak for a level is none of that level's operators. -/
theorem Level.operator?_eq_none {level : Level} {kind : TokenKind}
    (weak : kind.strength < level.strength) : level.operator? kind = none := by
  cases found : level.operator? kind with
  | none => rfl
  | some op =>
    obtain ⟨rfl, rfl⟩ := operator?_eq_some_iff.mp found
    rw [op.strength_token] at weak
    omega

/-- The kinds that an operand begins with. -/
def TokenKind.BeginsOperand : TokenKind → Prop
  | number _ | identifier _ | leftParen | plus | minus => True
  | _ => False

/-- A kind that no operand begins with is not the first of an operand. -/
theorem TokenKind.BeginsOperand.ne {k l : TokenKind} (begins : k.BeginsOperand)
    (other : ¬ l.BeginsOperand) : k ≠ l := fun same => other (same ▸ begins)

namespace Derivation

variable {ks : List TokenKind} {phrase : Phrase}

/-- Every phrase with an operand in front begins as an operand does. -/
theorem begins_operand (r : Derivation ks phrase) (operand : slack phrase = 1) :
    ∃ k ls, ks = k :: ls ∧ k.BeginsOperand := by
  induction r with
  | number | name | call | group => exact ⟨_, _, rfl, trivial⟩
  | base _ ih | unsigned _ ih => exact ih rfl
  | single _ _ ih => exact ih (slack_operand ..)
  | sign op => cases op <;> exact ⟨_, _, rfl, trivial⟩
  | power _ _ ih | fold _ _ _ _ _ ih =>
    obtain ⟨k, ls, rfl, begins⟩ := ih rfl
    exact ⟨k, _, rfl, begins⟩
  | _ => cases operand

/-- An expression begins like an operand, or as a function without a name. -/
theorem begins_expression {e : Expr} (r : Derivation ks (.expression e)) :
    ∃ k ls, ks = k :: ls ∧
      (k.BeginsOperand ∨ k = .functionWord ∧ ∃ ms, ls = .leftParen :: ms) := by
  cases r with
  | assign => exact ⟨_, _, rfl, .inl trivial⟩
  | anonymous r =>
    cases r with
    | function => exact ⟨_, _, rfl, .inr ⟨rfl, _, rfl⟩⟩
  | comparison r =>
    obtain ⟨k, ls, rfl, begins⟩ := r.begins_operand rfl
    exact ⟨k, ls, rfl, .inl begins⟩

/-- Arguments that are there do not begin with the closing parenthesis. -/
theorem begins_arguments {e : Expr} {es : List Expr} (r : Derivation ks (.arguments (e :: es))) :
    ∃ k ls, ks = k :: ls ∧ k ≠ .rightParen := by
  have expression {ks : List TokenKind} {e : Expr} (r : Derivation ks (.expression e)) :
      ∃ k ls, ks = k :: ls ∧ k ≠ .rightParen := by
    obtain ⟨k, ls, rfl, begins | ⟨rfl, _⟩⟩ := r.begins_expression
    · exact ⟨k, ls, rfl, begins.ne id⟩
    · exact ⟨_, _, rfl, nofun⟩
  cases r with
  | lastArgument r => exact expression r
  | nextArgument r _ =>
    obtain ⟨k, ls, rfl, other⟩ := expression r
    exact ⟨k, _, rfl, other⟩

/-- What stands between the operators of a power, and a power itself, begins without a sign. -/
theorem begins_unsigned {e : Expr} (r : Derivation ks (.chain .power e)) :
    ∃ k ls, ks = k :: ls ∧ k ≠ .plus ∧ k ≠ .minus := by
  have atom {ks : List TokenKind} {e : Expr} (r : Derivation ks (.atom e)) :
      ∃ k ls, ks = k :: ls ∧ k ≠ .plus ∧ k ≠ .minus := by
    cases r <;> exact ⟨_, _, rfl, nofun, nofun⟩
  cases r with
  | base r => exact atom r
  | power r _ =>
    obtain ⟨k, ls, rfl, unsigned⟩ := atom r
    exact ⟨k, _, rfl, unsigned⟩
  | single left => exact absurd rfl left
  | fold _ left => exact absurd rfl left

/-- A statement begins with neither a line end nor what closes statements. -/
theorem begins_statement {s : Stmt} (r : Derivation ks (.statement s)) :
    ∃ k ls, ks = k :: ls ∧ k ≠ .newLine ∧ k ≠ .rightBrace ∧ k ≠ .endOfText := by
  cases r with
  | braces r =>
    cases r
    exact ⟨_, _, rfl, nofun, nofun, nofun⟩
  | bare r =>
    obtain ⟨k, ls, rfl, begins | ⟨rfl, _⟩⟩ := r.begins_expression
    · exact ⟨k, ls, rfl, begins.ne id, begins.ne id, begins.ne id⟩
    · exact ⟨_, _, rfl, nofun, nofun, nofun⟩
  | _ => exact ⟨_, _, rfl, nofun, nofun, nofun⟩

/-- An operand that begins with an identifier does not go on with `=`, unless that stands behind
it. -/
theorem following_ne_assign {c d : Cursor} {name : String} (r : Derivation ks phrase)
    (operand : slack phrase = 1) (front : Cursor.Passes ks c d) (last : d.current.kind ≠ .assign)
    (first : c.current.kind = .identifier name) : c.following.kind ≠ .assign := by
  induction r generalizing d with
  | number => cases first.symm.trans front.1
  | name =>
    obtain ⟨_, _, rfl⟩ := front
    exact last
  | call => exact front.2.2.1 ▸ nofun
  | group => cases first.symm.trans front.1
  | base _ ih | unsigned _ ih => exact ih rfl front last
  | single _ _ ih => exact ih (slack_operand ..) front last
  | sign op => cases op <;> cases first.symm.trans front.1
  | power _ _ ih =>
    obtain ⟨m, front, token, _⟩ := Cursor.passes_append.mp front
    exact ih rfl front (token ▸ nofun)
  | fold op _ _ _ _ ih =>
    obtain ⟨m, front, token, _⟩ := Cursor.passes_append.mp front
    exact ih rfl front (token ▸ by cases op <;> exact nofun)
  | _ => cases operand

/-- Each operator of a derivation opens a level. -/
theorem operators_le_levels (r : Derivation ks phrase) : r.operators ≤ r.levels := by
  cases r with
  | fold =>
    simp only [operators, levels]
    omega
  | _ => exact Nat.zero_le _

end Derivation

/-! ## Reading within levels -/

/-- Closes the levels opened last. -/
def Reply.closes {α : Type} : Nat → Reply α → Reply α
  | 0, r => r
  | n + 1, r => closes n r.close

/-- Closing the levels that were opened gives the cursor of before. -/
theorem Reply.closes_ok {α : Type} (n : Nat) (a : α) (d : Cursor) :
    Reply.closes n (.ok a (d.under n)) = .ok a d := by
  induction n with
  | zero => rfl
  | succ n ih => exact ih

/-- An error stays the same error whatever levels are closed. -/
theorem Reply.closes_error {α : Type} (n : Nat) (e : SyntaxError) (d : Cursor) :
    ∃ f, Reply.closes (α := α) n (.error e d) = .error e f := by
  induction n generalizing d with
  | zero => exact ⟨d, rfl⟩
  | succ n ih => exact ih d.closed

/-- A reader that opens `levels` levels gives the answer if so many may be opened, and else reports
that they may not. -/
structure Within {α : Type} (c : Cursor) (levels : Nat) (r answer : Reply α) : Prop where
  enough : c.depth + levels ≤ c.limit → r = answer
  tooDeep : c.depth ≤ c.limit → c.limit < c.depth + levels →
    ∃ location d, r = .error (.nestingTooDeep c.limit location) d

namespace Within

variable {α β : Type} {c d m : Cursor} {k l : Nat} {r answer : Reply α}

/-- A reply lies within itself, with no level open. -/
theorem refl (c : Cursor) (r : Reply α) : Within c 0 r r :=
  ⟨fun _ => rfl, fun few many => absurd few (Nat.not_le.mpr many)⟩

/-- Of two readers in turn, the deeper one says how many levels are opened. -/
theorem andThen {a : α} {next : α → Cursor → Reply β} {answer : Reply β}
    (first : Within c l r (.ok a m)) (same : m.depth = c.depth ∧ m.limit = c.limit)
    (second : Within m k (next a m) answer) : Within c (max l k) (r.andThen next) answer := by
  obtain ⟨depth, limit⟩ := same
  constructor
  · intro enough
    rw [first.enough (by omega)]
    exact second.enough (by omega)
  · intro few many
    by_cases enough : c.depth + l ≤ c.limit
    · rw [first.enough enough, ← limit]
      exact second.tooDeep (by omega) (by omega)
    · obtain ⟨location, d, failed⟩ := first.tooDeep few (by omega)
      exact ⟨location, d, failed ▸ rfl⟩

/-- Goes on from a value without opening more levels. -/
theorem followed {a : α} {next : α → Cursor → Reply β} {answer : Reply β}
    (first : Within c l r (.ok a m)) (second : next a m = answer) :
    Within c l (r.andThen next) answer := by
  constructor
  · intro enough
    rw [first.enough enough]
    exact second
  · intro few many
    obtain ⟨location, d, failed⟩ := first.tooDeep few many
    exact ⟨location, d, failed ▸ rfl⟩

/-- What is done to the answer opens no level. -/
theorem map {a : α} (f : α → β) (h : Within c l r (.ok a d)) :
    Within c l (r.map f) (.ok (f a) d) := h.followed rfl

/-- A reader one level deeper opens one level more. -/
theorem deeper {body : Cursor → Reply α} (h : Within (c.under 1) l (body (c.under 1)) r) :
    Within c (l + 1) (c.deeper body) r.close := by
  have deeper : (c.under 1).depth = c.depth + 1 := rfl
  constructor
  · intro enough
    rw [Cursor.deeper, if_neg (by omega), h.enough (by rw [deeper, Cursor.limit_under]; omega)]
  · intro few many
    rw [Cursor.deeper]
    split
    · exact ⟨_, _, rfl⟩
    · obtain ⟨location, d, failed⟩ := h.tooDeep (by rw [deeper, Cursor.limit_under]; omega)
        (by rw [deeper, Cursor.limit_under]; omega)
      exact ⟨location, d.closed, failed ▸ rfl⟩

/-- The same for a reader that accepts, which closes the level again. -/
theorem deeper_ok {a : α} {body : Cursor → Reply α}
    (h : Within (c.under 1) l (body (c.under 1)) (.ok a (d.under 1))) :
    Within c (l + 1) (c.deeper body) (.ok a d) := h.deeper

/-- Goes on in a reader that has levels open, which are closed behind it. -/
theorem resume {n : Nat} {next : Reply α} (opened : n ≤ l)
    (same : m.depth = c.depth ∧ m.limit = c.limit)
    (first : Within c l r (.closes n next)) (second : Within (m.under n) k next answer) :
    Within c (max l (n + k)) r (.closes n answer) := by
  obtain ⟨depth, limit⟩ := same
  have deep : (m.under n).depth = m.depth + n := rfl
  have wide : (m.under n).limit = m.limit := rfl
  constructor
  · intro enough
    rw [first.enough (by omega), second.enough (by omega)]
  · intro few many
    by_cases enough : c.depth + l ≤ c.limit
    · obtain ⟨location, d, failed⟩ := second.tooDeep (by omega) (by omega)
      obtain ⟨e, closed⟩ := Reply.closes_error (α := α) n (.nestingTooDeep c.limit location) d
      rw [wide, limit] at failed
      exact ⟨location, e, by rw [first.enough enough, failed, closed]⟩
    · exact first.tooDeep few (by omega)

/-- Only the number of levels open and the bound matter of a cursor. -/
theorem congr (h : Within d l r answer) (same : d.depth = c.depth ∧ d.limit = c.limit) :
    Within c l r answer := by
  obtain ⟨depth, limit⟩ := same
  exact ⟨fun enough => h.enough (by omega), fun few many => limit ▸ h.tooDeep (by omega) (by omega)⟩

/-- Where the tokens behind are read, those from here on are. -/
theorem of_advance (h : Within c.advance l r answer) : Within c l r answer := h.congr ⟨rfl, rfl⟩

end Within

/-! ## Readers in front of a phrase -/

namespace Cursor

variable {c d m : Cursor} {ks ls : List TokenKind} {k l : Nat} {e f : Expr} {body : List Stmt}

/-- The first of the kinds that are passed is the cursor's. -/
theorem Passes.first {kind : TokenKind} (front : Passes (kind :: ks) c d) :
    c.current.kind = kind := front.1

/-- Names with commas between them are read as the parameters behind those read before. -/
theorem parametersFrom_complete {name : String} {names before : List String}
    (front : Passes (parameterKinds (name :: names)) c d) (last : d.current.kind = .rightParen) :
    (c.parametersFrom before).val = .ok (before.reverse ++ name :: names) d.advance := by
  induction names generalizing c name before with
  | nil =>
    obtain ⟨first, _, rfl⟩ := front
    rw [val_parametersFrom, expectingIdentifier, first]
    simp only [last, reduceCtorEq, if_false, expecting, if_true, List.reverse_cons]
  | cons next names ih =>
    obtain ⟨first, _, comma, _, front⟩ := front
    rw [val_parametersFrom, expectingIdentifier, first]
    simp only [comma, if_true]
    rw [ih front, List.reverse_cons, List.append_assoc, List.singleton_append]

/-- The parameters of a function are read, up to the closing parenthesis. -/
theorem parameters_complete {names : List String} (front : Passes (parameterKinds names) c d)
    (last : d.current.kind = .rightParen) : c.parameters.val = .ok names d.advance := by
  rw [val_parameters]
  cases names with
  | nil => rw [show c = d from front, if_pos last]
  | cons name names =>
    have first : c.current.kind = .identifier name := by
      cases names <;> exact front.1
    rw [if_neg (first ▸ nofun), parametersFrom_complete front last]
    rfl

/-- What is expected and there is taken. -/
theorem expecting_eq {α : Type} {kind : TokenKind} (next : Cursor → Reply α)
    (first : c.current.kind = kind) : c.expecting kind next = next c.advance := if_pos first

/-- Passing over tokens leaves the levels as they are. -/
theorem Passes.advance_same (front : Passes ks c.advance m) :
    m.advance.depth = c.depth ∧ m.advance.limit = c.limit := front.same

/-- What the reader of a phrase answers when the tokens between two cursors derive the phrase, with
so many levels and operators, and nothing behind them goes on with it. -/
def Completes (c d : Cursor) (levels operators : Nat) : Phrase → Prop
  | .atom e => d.current.kind.strength ≤ 4 → Within c levels c.atom.val (.ok e d)
  | .chain .power e => d.current.kind.strength ≤ 3 →
    Within c levels (c.chain .power).val (.ok e d)
  | .chain level e => d.current.kind.strength ≤ level.strength →
    Within c levels (c.chain level).val
      (.closes operators ((d.under operators).folds level e).val)
  | .signed e => d.current.kind.strength ≤ 3 → Within c levels c.signed.val (.ok e d)
  | .arguments es => d.current.kind = .rightParen →
    Within c levels c.arguments.val (.ok es d.advance) ∧
      (es ≠ [] → ∀ before,
        Within c levels (c.argumentsFrom before).val (.ok (before.reverse ++ es) d.advance))
  | .expression e => d.current.kind.strength = 0 → Within c levels c.expression.val (.ok e d)
  | .block body => Within c levels c.block.val (.ok body d)
  | .function parameters body => ∀ name,
    Within c levels (c.functionRest name).val (.ok (⟨name, parameters⟩, body) d)
  | .statement s => d.current.kind.strength = 0 → Within c levels c.statement.val (.ok s d)
  | .statements body => ∀ stop before, stop = .rightBrace ∨ stop = .endOfText →
    d.current.kind = stop →
    Within c levels (c.skipNewLines.statementsFrom stop before).val
      (.ok (before.reverse ++ body) d)

theorem completes_chain {level : Level} (left : level ≠ .power) :
    Completes c d k l (.chain level e) ↔ (d.current.kind.strength ≤ level.strength →
      Within c k (c.chain level).val (.closes l ((d.under l).folds level e).val)) := by
  cases level <;> first | exact absurd rfl left | exact Iff.rfl

/-- A chain that nothing goes on with has been read in whole. -/
theorem Completes.whole {level : Level} (left : level ≠ .power)
    (h : Completes c d k l (.chain level e)) (last : d.current.kind.strength < level.strength) :
    Within c k (c.chain level).val (.ok e d) := by
  have read := (completes_chain left).mp h (Nat.le_of_lt last)
  rw [val_folds, current_under, Level.operator?_eq_none last, Reply.closes_ok] at read
  exact read

/-- An operand is the same in front of a chain and behind an operator of it. -/
theorem Completes.operand {level : Level} (left : level ≠ .power)
    (h : Completes c d k l (.operand level e)) (last : d.current.kind.strength ≤ level.strength) :
    Within c k (c.firstOperand level).val (.ok e d) ∧
      Within c k (c.laterOperand level).val (.ok e d) := by
  rw [val_firstOperand, val_laterOperand]
  cases level with
  | comparison => exact and_self_iff.mpr (h.whole nofun (Nat.lt_succ_of_le last))
  | additive => exact and_self_iff.mpr (h.whole nofun (Nat.lt_succ_of_le last))
  | multiplicative => exact and_self_iff.mpr (h last)
  | power => exact absurd rfl left

/-- A name with a parenthesis behind it is read as a call of its arguments. -/
theorem within_call {name : String} {es : List Expr} (first : c.current.kind = .identifier name)
    (called : c.following.kind = .leftParen)
    (h : Within c.advance.advance l c.advance.advance.arguments.val (.ok es d)) :
    Within c l c.atom.val (.ok (.call name es) d) := by
  rw [val_atom]
  simp only [first, called, if_true]
  exact h.of_advance.of_advance.map (Expr.call name)

/-- What stands in parentheses is read as the expression inside. -/
theorem within_group (first : c.current.kind = .leftParen)
    (h : Within c.advance l c.advance.expression.val (.ok e d))
    (last : d.current.kind = .rightParen) : Within c l c.atom.val (.ok e d.advance) := by
  rw [val_atom]
  simp only [first]
  exact h.of_advance.followed (expecting_eq _ last)

/-- An atom with nothing behind it is a power without an exponent. -/
theorem within_base (h : Within c l c.atom.val (.ok e d)) (last : d.current.kind.strength ≤ 3) :
    Within c l (c.chain .power).val (.ok e d) := by
  rw [val_chain, val_firstOperand]
  apply h.followed
  rw [val_folds, Level.operator?_eq_none (Nat.lt_succ_of_le last)]

/-- A power is read with its exponent one level deeper. -/
theorem within_power (same : m.depth = c.depth ∧ m.limit = c.limit)
    (h : Within c k c.atom.val (.ok e m)) (token : m.current.kind = .power)
    (exponent : Within (m.advance.under 1) l (m.advance.under 1).signed.val (.ok f (d.under 1)))
    (last : d.current.kind.strength ≤ 3) :
    Within c (max k (l + 1)) (c.chain .power).val (.ok (.binary .power e f) d) := by
  rw [val_chain, val_firstOperand]
  apply h.andThen same
  rw [val_folds, token]
  have rest : ((d.under 1).folds .power (.binary .power e f)).val
      = .ok (.binary .power e f) (d.under 1) := by
    rw [val_folds, current_under, Level.operator?_eq_none (Nat.lt_succ_of_le last)]
  rw [← advance_under] at exponent
  apply Within.deeper_ok
  rw [val_laterOperand]
  exact exponent.of_advance.followed rest

/-- Without a sign in front, a power is read. -/
theorem within_unsigned (h : Within c l (c.chain .power).val (.ok e d))
    (plus : c.current.kind ≠ .plus) (minus : c.current.kind ≠ .minus) :
    Within c l c.signed.val (.ok e d) := by
  rw [val_signed]
  split
  · next first => exact absurd first plus
  · next first => exact absurd first minus
  · exact h

/-- A sign is read with its operand one level deeper. -/
theorem within_sign (op : UnaryOp) (first : c.current.kind = op.token)
    (h : Within (c.advance.under 1) l (c.advance.under 1).signed.val (.ok e (d.under 1))) :
    Within c (l + 1) c.signed.val (.ok (.unary op e) d) := by
  have read : Within c (l + 1) (c.advance.deeper fun d => d.signed.val.map (Expr.unary op))
      (.ok (.unary op e) d) :=
    (h.map (Expr.unary op)).deeper_ok.of_advance
  rw [val_signed, first]
  cases op <;> exact read

/-- The first operand of a chain is read as the chain's beginning, with no operator folded yet. -/
theorem within_single {level : Level} (h : Within c l (c.firstOperand level).val (.ok e d)) :
    Within c l (c.chain level).val (.closes 0 ((d.under 0).folds level e).val) := by
  rw [val_chain]
  exact h.followed rfl

/-- One operator more. The chain up to it has `n` levels open. -/
theorem within_fold {n : Nat} (op : BinaryOp) (same : m.depth = c.depth ∧ m.limit = c.limit)
    (opened : n ≤ k)
    (h : Within c k (c.chain op.level).val (.closes n ((m.under n).folds op.level e).val))
    (token : m.current.kind = op.token)
    (operand : Within (m.advance.under (n + 1)) l
      ((m.advance.under (n + 1)).laterOperand op.level).val (.ok f (d.under (n + 1)))) :
    Within c (max k (n + 1 + l)) (c.chain op.level).val
      (.closes (n + 1) ((d.under (n + 1)).folds op.level (.binary op e f)).val) := by
  have more : Within (m.under n) (l + 1) ((m.under n).folds op.level e).val
      ((d.under (n + 1)).folds op.level (.binary op e f)).val.close := by
    rw [val_folds, current_under, token, Level.operator?_token]
    apply Within.deeper
    rw [under_under]
    rw [← advance_under] at operand
    exact operand.of_advance.followed rfl
  rw [show n + 1 + l = n + (l + 1) by omega]
  exact h.resume opened same more

/-- Arguments that are not empty do not begin with what closes them. -/
theorem within_arguments {es : List Expr} (r : Derivation ks (.arguments (e :: es)))
    (front : Passes ks c d) (h : Within c l (c.argumentsFrom []).val (.ok (e :: es) d.advance)) :
    Within c l c.arguments.val (.ok (e :: es) d.advance) := by
  have more : c.current.kind ≠ .rightParen := by
    obtain ⟨k, ls, rfl, other⟩ := r.begins_arguments
    exact front.first ▸ other
  rw [val_arguments, if_neg more]
  exact h

/-- The last argument is read up to the closing parenthesis. -/
theorem within_lastArgument (before : List Expr) (h : Within c l c.expression.val (.ok e d))
    (last : d.current.kind = .rightParen) :
    Within c l (c.argumentsFrom before).val (.ok (before.reverse ++ [e]) d.advance) := by
  rw [val_argumentsFrom]
  apply h.followed
  rw [if_neg (last ▸ nofun), expecting_eq _ last, List.reverse_cons]

/-- An argument with a comma behind it is read, and so are the ones that follow. -/
theorem within_nextArgument (before : List Expr) {es : List Expr}
    (same : m.depth = c.depth ∧ m.limit = c.limit)
    (h : Within c k c.expression.val (.ok e m)) (comma : m.current.kind = .comma)
    (rest : Within m.advance l (m.advance.argumentsFrom (e :: before)).val
      (.ok ((e :: before).reverse ++ es) d)) :
    Within c (max k l) (c.argumentsFrom before).val (.ok (before.reverse ++ e :: es) d) := by
  rw [List.reverse_cons, List.append_assoc, List.singleton_append] at rest
  rw [val_argumentsFrom]
  apply h.andThen same
  rw [if_pos comma]
  exact rest.of_advance

/-- An expression that begins neither as an assignment nor as a function is a comparison. -/
theorem within_comparison
    (h : Within (c.under 1) l ((c.under 1).chain .comparison).val (.ok e (d.under 1)))
    (function : c.current.kind ≠ .functionWord)
    (assign : ∀ {name}, c.current.kind = .identifier name → c.following.kind ≠ .assign) :
    Within c (l + 1) c.expression.val (.ok e d) := by
  rw [val_expression]
  apply Within.deeper_ok
  split
  · next first second => exact absurd second (assign first)
  · next first => exact absurd first function
  · exact h

/-- An assignment is read with its value one level deeper. -/
theorem within_assign {name : String} (first : c.current.kind = .identifier name)
    (second : c.following.kind = .assign)
    (h : Within (c.advance.advance.under 1) l (c.advance.advance.under 1).expression.val
      (.ok e (d.under 1))) :
    Within c (l + 1) c.expression.val (.ok (.assign name e) d) := by
  rw [val_expression]
  apply Within.deeper_ok
  simp only [current_under, following_under, first, second]
  rw [expecting_eq (c := (c.under 1).advance) _ second]
  exact (h.map (Expr.assign name)).congr ⟨rfl, rfl⟩

/-- A literal function is read one level deeper. -/
theorem within_anonymous {parameters : List String} (first : c.current.kind = .functionWord)
    (h : Within (c.advance.under 1) l ((c.advance.under 1).functionRest none).val
      (.ok (⟨none, parameters⟩, body) (d.under 1))) :
    Within c (l + 1) c.expression.val (.ok (.function ⟨none, parameters⟩ body) d) := by
  rw [val_expression]
  apply Within.deeper_ok
  simp only [current_under, first]
  rw [← advance_under] at h
  exact (h.map fun rest => Expr.function rest.1 rest.2).of_advance

/-- A block is read one level deeper, up to its closing brace. -/
theorem within_block (opening : c.current.kind = .leftBrace)
    (h : Within (c.advance.under 1) l
      ((c.advance.under 1).skipNewLines.statementsFrom .rightBrace []).val (.ok body (d.under 1)))
    (closing : d.current.kind = .rightBrace) :
    Within c (l + 1) c.block.val (.ok body d.advance) := by
  rw [val_block, expecting_eq _ opening]
  exact (Within.deeper_ok h).of_advance.followed (expecting_eq _ closing)

/-- The parameters and the body of a function are read one behind the other. -/
theorem within_functionRest {name : Option String} {parameters : List String}
    (opening : c.current.kind = .leftParen) (front : Passes (parameterKinds parameters) c.advance m)
    (closing : m.current.kind = .rightParen)
    (h : Within m.advance l m.advance.block.val (.ok body d)) :
    Within c l (c.functionRest name).val (.ok (⟨name, parameters⟩, body) d) := by
  rw [val_functionRest, expecting_eq _ opening, parameters_complete front closing]
  exact (h.map (Prod.mk _)).congr front.advance_same

/-- A declaration is read as its name and the rest of the function. -/
theorem within_declaration {name : String} {parameters : List String}
    (first : c.current.kind = .functionWord) (second : c.following.kind = .identifier name)
    (h : Within c.advance.advance l (c.advance.advance.functionRest (some name)).val
      (.ok (⟨some name, parameters⟩, body) d)) :
    Within c l c.statement.val (.ok (.declaration ⟨some name, parameters⟩ body) d) := by
  rw [val_statement]
  simp only [first, second, expectingIdentifier, current_advance]
  exact (h.map fun rest => Stmt.declaration rest.1 rest.2).of_advance.of_advance

/-- A conditional is read as its condition and its block. -/
theorem within_conditional (first : c.current.kind = .ifWord)
    (opening : c.following.kind = .leftParen)
    (same : m.depth = c.depth ∧ m.limit = c.limit)
    (h : Within c.advance.advance k c.advance.advance.expression.val (.ok e m))
    (closing : m.current.kind = .rightParen)
    (rest : Within m.advance l m.advance.block.val (.ok body d)) :
    Within c (max k l) c.statement.val (.ok (.conditional e body) d) := by
  rw [val_statement]
  simp only [first]
  rw [expecting_eq (c := c.advance) _ opening]
  apply h.of_advance.of_advance.andThen same
  rw [expecting_eq _ closing]
  exact (rest.map (Stmt.conditional e)).of_advance

/-- A result is read as the expression behind the word. -/
theorem within_result (first : c.current.kind = .returnWord)
    (h : Within c.advance l c.advance.expression.val (.ok e d)) :
    Within c l c.statement.val (.ok (.result e) d) := by
  rw [val_statement]
  simp only [first]
  exact (h.map Stmt.result).of_advance

/-- A brace where a statement begins is read as a block. -/
theorem within_braces (first : c.current.kind = .leftBrace)
    (h : Within c l c.block.val (.ok body d)) :
    Within c l c.statement.val (.ok (.block body) d) := by
  rw [val_statement]
  simp only [first]
  exact h.map Stmt.block

/-- An expression stands as a statement, for it begins like no other one. -/
theorem within_bare (r : Derivation ks (.expression e)) (front : Passes ks c d)
    (h : Within c l c.expression.val (.ok e d)) :
    Within c l c.statement.val (.ok (.expression e) d) := by
  obtain ⟨k, ls, rfl, begins⟩ := r.begins_expression
  have other {kind : TokenKind} (free : ¬ kind.BeginsOperand) (word : kind ≠ .functionWord) :
      c.current.kind ≠ kind := by
    rw [front.first]
    rcases begins with begins | ⟨rfl, _⟩
    · exact begins.ne free
    · exact word.symm
  rw [val_statement]
  split
  · next name first second =>
    rcases begins with begins | ⟨rfl, ms, rfl⟩
    · cases front.first.symm.trans first
      cases begins
    · cases front.2.2.first.symm.trans second
  · next first => exact absurd first (other id nofun)
  · next first => exact absurd first (other id nofun)
  · next first => exact absurd first (other id nofun)
  · exact h.map Stmt.expression

/-- What may close statements is no line end, and nothing goes on in front of it. -/
theorem ne_newLine_of_stop {stop : TokenKind} (closes : stop = .rightBrace ∨ stop = .endOfText) :
    stop ≠ .newLine ∧ stop.strength = 0 := by
  rcases closes with rfl | rfl <;> exact ⟨nofun, rfl⟩

/-- Before the token they stop at, there are no more statements to read. -/
theorem statementsFrom_stop {stop : TokenKind} (before : List Stmt)
    (closes : stop = .rightBrace ∨ stop = .endOfText) (here : c.current.kind = stop) :
    (c.skipNewLines.statementsFrom stop before).val = .ok before.reverse c := by
  rw [skipNewLines_of_ne (here ▸ (ne_newLine_of_stop closes).1), val_statementsFrom, if_pos here]

/-- A reader of statements in front of one reads that one first. -/
theorem statementsFrom_statement {stop : TokenKind} {s : Stmt} (before : List Stmt)
    (r : Derivation ks (.statement s)) (front : Passes ks c d)
    (closes : stop = .rightBrace ∨ stop = .endOfText) :
    (c.skipNewLines.statementsFrom stop before).val = c.statement.val.andThen fun s d =>
      if d.current.kind = stop then .ok (s :: before).reverse d
      else d.expecting .newLine fun e =>
        (e.skipNewLines.statementsFrom stop (s :: before)).val := by
  obtain ⟨k, ls, rfl, line, brace, finish⟩ := r.begins_statement
  have more : c.current.kind ≠ stop := by
    rw [front.first]
    rcases closes with rfl | rfl
    · exact brace
    · exact finish
  rw [skipNewLines_of_ne (front.first ▸ line), val_statementsFrom, if_neg more]

end Cursor

/-- **What derives is read.** A reader before tokens that derive its phrase answers the phrase, if
as many levels may be opened as the derivation has. -/
theorem Derivation.completes {ks : List TokenKind} {phrase : Phrase} {c d : Cursor}
    (r : Derivation ks phrase) (front : Cursor.Passes ks c d) :
    Cursor.Completes c d r.levels r.operators phrase := by
  induction r generalizing c d with
  | number numeral =>
    obtain ⟨first, _, rfl⟩ := front
    intro last
    rw [Cursor.val_atom]
    simp only [first, Numeral.ofText?_of_isNumeral numeral]
    exact .refl ..
  | name x =>
    obtain ⟨first, _, rfl⟩ := front
    intro last
    -- A parenthesis would make the name a call, and it holds too tightly to stand behind an atom.
    have other : c.following.kind ≠ .leftParen := by
      intro called
      rw [Cursor.current_advance, called] at last
      exact absurd last (by decide)
    rw [Cursor.val_atom]
    simp only [first, other, if_false]
    exact .refl ..
  | call name r ih =>
    obtain ⟨first, _, called, _, rest⟩ := front
    obtain ⟨m, inner, closing, _, rfl⟩ := Cursor.passes_append.mp rest
    intro last
    exact Cursor.within_call first called (ih inner closing).1
  | group r ih =>
    obtain ⟨first, _, rest⟩ := front
    obtain ⟨m, inner, closing, _, rfl⟩ := Cursor.passes_append.mp rest
    intro last
    exact Cursor.within_group first (ih inner (closing ▸ rfl)) closing
  | base r ih =>
    intro last
    exact Cursor.within_base (ih front (Nat.le_succ_of_le last)) last
  | power r s base exponent =>
    obtain ⟨m, front, token, _, back⟩ := Cursor.passes_append.mp front
    intro last
    exact Cursor.within_power front.same (base front (token ▸ Nat.le_refl _)) token
      (exponent (back.under 1) last) last
  | unsigned r ih =>
    obtain ⟨k, ls, rfl, plus, minus⟩ := r.begins_unsigned
    intro last
    exact Cursor.within_unsigned (ih front last) (front.first ▸ plus) (front.first ▸ minus)
  | sign op r ih =>
    obtain ⟨first, _, front⟩ := front
    intro last
    exact Cursor.within_sign op first (ih (front.under 1) last)
  -- For a chain the hypothesis is about the loop: its operators' levels are still open behind it.
  | single left r ih =>
    apply (Cursor.completes_chain left).mpr
    intro last
    exact Cursor.within_single ((ih front).operand left last).1
  | fold op left same r s chain operand =>
    obtain ⟨m, front, token, _, back⟩ := Cursor.passes_append.mp front
    cases same
    apply (Cursor.completes_chain left).mpr
    intro last
    have start := (Cursor.completes_chain left).mp (chain front) (token ▸ op.strength_token.le)
    exact Cursor.within_fold op front.same r.operators_le_levels start token
      ((operand (back.under _)).operand left last).2
  | noArguments =>
    intro last
    cases show c = d from front
    rw [Cursor.val_arguments, if_pos last]
    exact ⟨.refl .., fun some => absurd rfl some⟩
  | lastArgument r ih =>
    intro last
    -- The arguments read before are still in the loop, so what is shown is for any of them.
    have read (before : List Expr) :=
      Cursor.within_lastArgument before (ih front (last ▸ rfl)) last
    exact ⟨Cursor.within_arguments r.lastArgument front (read []), fun _ => read⟩
  | nextArgument r s first rest =>
    intro last
    obtain ⟨m, head, comma, _, tail⟩ := Cursor.passes_append.mp front
    have read (before : List Expr) := Cursor.within_nextArgument before head.same
      (first head (comma ▸ rfl)) comma ((rest tail last).2 (List.cons_ne_nil _ _) _)
    exact ⟨Cursor.within_arguments (r.nextArgument s) front (read []), fun _ => read⟩
  | assign name r ih =>
    obtain ⟨first, _, second, _, rest⟩ := front
    intro last
    exact Cursor.within_assign first second (ih (rest.under 1) last)
  | anonymous r ih =>
    obtain ⟨first, _, rest⟩ := front
    intro _
    exact Cursor.within_anonymous first (ih (rest.under 1) none)
  | comparison r ih =>
    intro last
    obtain ⟨k, ls, rfl, begins⟩ := r.begins_operand rfl
    refine Cursor.within_comparison ?_ (front.first ▸ begins.ne id) ?_
    · exact (ih (front.under 1)).whole (by simp) (last ▸ Nat.one_pos)
    -- A name with an equals sign behind it would be read as an assignment instead.
    · exact r.following_ne_assign rfl front fun assign => by
        rw [assign] at last
        cases last
  | block r ih =>
    obtain ⟨opening, _, rest⟩ := front
    obtain ⟨m, inner, closing, _, rfl⟩ := Cursor.passes_append.mp rest
    exact Cursor.within_block opening (ih (inner.under 1) _ [] (.inl rfl) closing) closing
  | function parameters r ih =>
    obtain ⟨opening, _, rest⟩ := front
    obtain ⟨m, inner, closing, _, back⟩ := Cursor.passes_append.mp rest
    intro _
    exact Cursor.within_functionRest opening inner closing (ih back)
  | declaration name r ih =>
    obtain ⟨first, _, second, _, rest⟩ := front
    intro _
    exact Cursor.within_declaration first second (ih rest _)
  | conditional r s condition body =>
    obtain ⟨first, _, opening, _, rest⟩ := front
    obtain ⟨m, inner, closing, _, back⟩ := Cursor.passes_append.mp rest
    intro _
    exact Cursor.within_conditional first opening inner.same
      (condition inner (closing ▸ rfl)) closing (body back)
  | result r ih =>
    obtain ⟨first, _, rest⟩ := front
    intro last
    exact Cursor.within_result first (ih rest last)
  | braces r ih =>
    have first : c.current.kind = .leftBrace := by
      cases r
      exact front.first
    intro _
    exact Cursor.within_braces first (ih front)
  | bare r ih =>
    intro last
    exact Cursor.within_bare r front (ih front last)
  -- Statements are read by a loop that stops at a token which is not theirs, so stop and statements
  -- before stay general.
  | noStatements =>
    intro stop before closes here
    cases show c = d from front
    rw [Cursor.statementsFrom_stop before closes here, List.append_nil]
    exact .refl ..
  | newLine r ih =>
    obtain ⟨first, _, rest⟩ := front
    intro stop before closes here
    rw [Cursor.skipNewLines_of_newLine first]
    exact (ih rest stop before closes here).of_advance
  | lastStatement r ih =>
    intro stop before closes here
    rw [Cursor.statementsFrom_statement before r front closes]
    apply (ih front (here ▸ (Cursor.ne_newLine_of_stop closes).2)).followed
    rw [if_pos here, List.reverse_cons]
  | @nextStatement _ _ s _ r t first rest =>
    intro stop before closes here
    obtain ⟨m, head, line, _, tail⟩ := Cursor.passes_append.mp front
    rw [Cursor.statementsFrom_statement before r head closes]
    apply (first head (line ▸ rfl)).andThen head.same
    rw [if_neg (line ▸ (Cursor.ne_newLine_of_stop closes).1.symm), Cursor.expecting_eq _ line]
    have read := rest tail stop (s :: before) closes here
    rw [List.reverse_cons, List.append_assoc, List.singleton_append] at read
    exact read.of_advance

end Scriptlet
