import Scriptlet.Proofs.Grammar.Derivation
import Scriptlet.Proofs.Grammar.Reply

/-!
# What is read derives

A reader that answers a value has passed over tokens that derive it, and has had no more levels open
than the derivation has. `Passes` says which kinds lie between two cursors, and `Reads` that these
kinds derive a phrase within the levels that were left.

The readers are sound together, by induction on the number of tokens: `Sound` collects what is known
of all cursors with fewer tokens, and each reader is proved from that and from the readers that it
calls before it takes a token.

A reader of numbers takes some texts that no source text has as numerals, so soundness is stated for
tokens whose numbers are numerals (`Proper`).
-/

namespace Scriptlet
namespace Cursor

/-! ## Passing over tokens -/

/-- Tokens of the kinds `ks` lie between two cursors, none of them an end. -/
def Passes : List TokenKind → Cursor → Cursor → Prop
  | [], c, d => c = d
  | k :: ks, c, d => c.current.kind = k ∧ k ≠ .endOfText ∧ Passes ks c.advance d

/-- The numbers among the tokens to come are numerals, and no more levels are open than may be. -/
structure Proper (c : Cursor) : Prop where
  lexed : ∀ t ∈ c.tokens, ∀ text, t.kind = .number text → IsNumeral text
  depth_le : c.depth ≤ c.limit

variable {c d m : Cursor} {ks ls : List TokenKind} {phrase : Phrase}

/-- Kinds in two parts are passed over by way of a cursor between them. -/
theorem passes_append : Passes (ks ++ ls) c d ↔ ∃ m, Passes ks c m ∧ Passes ls m d := by
  induction ks generalizing c with
  | nil => exact ⟨fun h => ⟨c, rfl, h⟩, fun ⟨_, same, h⟩ => same ▸ h⟩
  | cons k ks ih =>
    simp only [List.cons_append, Passes, ih]
    constructor
    · rintro ⟨first, more, m, front, back⟩
      exact ⟨m, ⟨first, more, front⟩, back⟩
    · rintro ⟨m, ⟨first, more, front⟩, back⟩
      exact ⟨first, more, m, front, back⟩

/-- What passes over a first part and then a second passes over both. -/
theorem Passes.append (front : Passes ks c m) (back : Passes ls m d) : Passes (ks ++ ls) c d :=
  passes_append.mpr ⟨m, front, back⟩

/-- One token is passed over by moving on. -/
theorem Passes.one {k : TokenKind} (first : c.current.kind = k)
    (more : k ≠ .endOfText) : Passes [k] c c.advance := ⟨first, more, rfl⟩

/-- Levels opened before tokens are passed over are open behind them. -/
theorem passes_under {n : Nat} :
    Passes ks (c.under n) d ↔ ∃ e, d = e.under n ∧ Passes ks c e := by
  induction ks generalizing c with
  | nil =>
    constructor
    · intro h
      exact ⟨c, h.symm, rfl⟩
    · rintro ⟨e, rfl, h⟩
      exact congrArg (Cursor.under n) h
  | cons k ks ih =>
    simp only [Passes, advance_under, ih, current_under]
    constructor
    · rintro ⟨first, more, e, same, rest⟩
      exact ⟨e, same, first, more, rest⟩
    · rintro ⟨e, same, first, more, rest⟩
      exact ⟨first, more, e, same, rest⟩

/-- Levels may be opened on either side of the tokens passed over. -/
theorem Passes.under (n : Nat) (h : Passes ks c d) : Passes ks (c.under n) (d.under n) :=
  passes_under.mpr ⟨d, rfl, h⟩

/-- Each kind passed over leaves one token fewer. -/
theorem Passes.left (h : Passes ks c d) : d.left + ks.length = c.left := by
  induction ks generalizing c with
  | nil => exact congrArg Cursor.left (show c = d from h).symm
  | cons k ks ih =>
    obtain ⟨first, more, rest⟩ := h
    have shorter := left_advance_lt (first ▸ more)
    have := ih rest
    have : c.advance.left + 1 = c.left := by
      simp only [Cursor.left, advance, List.length_tail] at *
      omega
    simp only [List.length_cons]
    omega

/-- Passing over tokens opens no level and closes none. -/
theorem Passes.same (h : Passes ks c d) : d.depth = c.depth ∧ d.limit = c.limit := by
  induction ks generalizing c with
  | nil => exact (show c = d from h) ▸ ⟨rfl, rfl⟩
  | cons k ks ih =>
    have rest := ih h.2.2
    exact rest

/-- Behind a token the numbers are still numerals. -/
theorem Proper.advance (h : Proper c) : Proper c.advance :=
  ⟨fun t member => h.lexed t (List.mem_of_mem_tail member), h.depth_le⟩

/-- Behind line breaks they are too. -/
theorem Proper.skipNewLines (h : Proper c) : Proper c.skipNewLines :=
  ⟨fun t member => h.lexed t ((List.dropWhile_sublist _).mem member), h.depth_le⟩

/-- Opening a level that there is room for keeps a cursor proper. -/
theorem Proper.under (h : Proper c) (room : c.depth < c.limit) : Proper (c.under 1) :=
  ⟨h.lexed, room⟩

/-- Passing over tokens keeps a cursor proper. -/
theorem Proper.passes (h : Proper c) (front : Passes ks c d) : Proper d := by
  induction ks generalizing c with
  | nil => exact (show c = d from front) ▸ h
  | cons k ks ih => exact ih h.advance front.2.2

/-- A number that a proper cursor stands at is a numeral. -/
theorem Proper.numeral {text : String} (h : Proper c) (first : c.current.kind = .number text) :
    IsNumeral text := by
  obtain ⟨tokens, finish, depth, limit⟩ := c
  cases tokens with
  | nil => cases first
  | cons t rest => exact h.lexed t List.mem_cons_self text first

/-- The tokens between two cursors derive a phrase, within the levels that may still be opened. -/
def Reads (c : Cursor) (phrase : Phrase) (d : Cursor) : Prop :=
  ∃ ks, ∃ r : Derivation ks phrase, Passes ks c d ∧ c.depth + r.levels ≤ c.limit

/-- What is read some levels deeper lies between the same tokens. -/
theorem Reads.of_under {n : Nat} (h : Reads (c.under n) phrase d) :
    ∃ ks, ∃ r : Derivation ks phrase, ∃ e, d = e.under n ∧ Passes ks c e ∧
      c.depth + n + r.levels ≤ c.limit := by
  obtain ⟨ks, r, front, within⟩ := h
  obtain ⟨e, same, lower⟩ := passes_under.mp front
  exact ⟨ks, r, e, same, lower, within⟩

/-! ## Readers without recursion -/

/-- Line ends in front of statements mean nothing. -/
theorem Reads.ofSkipNewLines {body : List Stmt} (h : Reads c.skipNewLines (.statements body) d) :
    Reads c (.statements body) d := by
  induction left : c.left using Nat.strong_induction_on generalizing c with
  | _ n ih =>
    subst left
    by_cases first : c.current.kind = .newLine
    · rw [skipNewLines_of_newLine first] at h
      obtain ⟨ks, r, front, within⟩ := ih _ (left_advance_lt (by simp [first])) h rfl
      exact ⟨_, r.newLine, ⟨first, by simp, front⟩, within⟩
    · rwa [skipNewLines_of_ne first] at h

/-- The names read for parameters are those before and the ones passed over up to the parenthesis.
-/
theorem parametersFrom_sound {before all : List String}
    (read : (c.parametersFrom before).val = .ok all d) :
    ∃ name names m, all = before.reverse ++ name :: names ∧
      Passes (parameterKinds (name :: names)) c m ∧ m.current.kind = .rightParen ∧
        d = m.advance := by
  induction h : c.left using Nat.strong_induction_on generalizing c before with
  | _ n ih =>
    subst h
    rw [val_parametersFrom] at read
    obtain ⟨name, first, read⟩ := expectingIdentifier_eq_ok.mp read
    have shorter : c.advance.left < c.left := left_advance_lt (by simp [first])
    split at read
    · next comma =>
      have less : c.advance.advance.left < c.left :=
        Nat.lt_of_le_of_lt (left_advance_le _) shorter
      obtain ⟨next, names, m, rfl, front, closing, rfl⟩ := ih _ less read rfl
      refine ⟨name, next :: names, m, ?_, ⟨first, by simp, comma, by simp, front⟩, closing, rfl⟩
      simp
    · obtain ⟨closing, read⟩ := expecting_eq_ok.mp read
      cases read
      exact ⟨name, [], c.advance, by simp, ⟨first, by simp, rfl⟩, closing, rfl⟩

/-- The parameters of a function are the names passed over. -/
theorem parameters_sound {all : List String} (read : c.parameters.val = .ok all d) :
    ∃ m, Passes (parameterKinds all) c m ∧ m.current.kind = .rightParen ∧ d = m.advance := by
  rw [val_parameters] at read
  split at read
  · next closing =>
    cases read
    exact ⟨c, rfl, closing, rfl⟩
  · obtain ⟨name, names, m, rfl, front, closing, rfl⟩ := parametersFrom_sound read
    exact ⟨m, front, closing, rfl⟩

/-! ## Readers that call each other -/

/-- What is known of the readers at a cursor. Behind a signed operand no power follows, for it would
have been read as the exponent. -/
structure Sound (c : Cursor) : Prop where
  signed : ∀ {e d}, c.signed.val = .ok e d → Reads c (.signed e) d ∧ d.current.kind ≠ .power
  chain : ∀ {level e d}, level ≠ .power → (c.chain level).val = .ok e d →
    Reads c (.chain level e) d
  /-- The chain so far lies between `b` and `m`, and each of its operators has a level open. -/
  folds : ∀ {level left e d b m ks} (r : Derivation ks (.chain level left)), level ≠ .power →
    Passes ks b m → b.depth + r.levels ≤ b.limit → c = m.under r.operators →
    (c.folds level left).val = .ok e d →
    ∃ n, d = n.under r.operators ∧ Reads b (.chain level e) n
  arguments : ∀ {es d}, c.arguments.val = .ok es d →
    ∃ m, Reads c (.arguments es) m ∧ m.current.kind = .rightParen ∧ d = m.advance
  argumentsFrom : ∀ {before es d}, (c.argumentsFrom before).val = .ok es d →
    ∃ f fs m, es = before.reverse ++ f :: fs ∧ Reads c (.arguments (f :: fs)) m ∧
      m.current.kind = .rightParen ∧ d = m.advance
  expression : ∀ {e d}, c.expression.val = .ok e d → Reads c (.expression e) d
  block : ∀ {body d}, c.block.val = .ok body d → Reads c (.block body) d
  functionRest : ∀ {name signature body d}, (c.functionRest name).val = .ok (signature, body) d →
    ∃ parameters, signature = ⟨name, parameters⟩ ∧ Reads c (.function parameters body) d
  statementsFrom : ∀ {stop before body d}, (c.statementsFrom stop before).val = .ok body d →
    ∃ rest, body = before.reverse ++ rest ∧ Reads c (.statements rest) d ∧ d.current.kind = stop

/-- A later operand derives as the operand of its level. -/
theorem Sound.laterOperand {level : Level} {e : Expr} (h : Sound c) (left : level ≠ .power)
    (read : (c.laterOperand level).val = .ok e d) : Reads c (.operand level e) d := by
  rw [val_laterOperand] at read
  cases level with
  | comparison => exact h.chain (by simp) read
  | additive => exact h.chain (by simp) read
  | multiplicative => exact (h.signed read).1
  | power => exact absurd rfl left

/-- The first operand of a chain derives as the operand of its level. -/
theorem Sound.firstOperand {level : Level} {e : Expr} (h : Sound c) (left : level ≠ .power)
    (read : (c.firstOperand level).val = .ok e d) : Reads c (.operand level e) d := by
  refine h.laterOperand left ?_
  rw [val_firstOperand] at read
  rw [val_laterOperand]
  cases level with
  | power => exact absurd rfl left
  | _ => exact read

section

variable {n : Nat} (fewer : ∀ c : Cursor, c.left < n → c.Proper → c.Sound)
include fewer

/-- An atom derives; its parentheses take an expression with fewer tokens. -/
theorem atom_sound {e : Expr} (few : c.left ≤ n) (proper : c.Proper)
    (read : c.atom.val = .ok e d) : Reads c (.atom e) d := by
  rw [val_atom] at read
  split at read
  · next text first =>
    have numeral := proper.numeral first
    rw [Numeral.ofText?_of_isNumeral numeral] at read
    cases read
    exact ⟨_, .number numeral, .one first (by simp), proper.depth_le⟩
  · next name first =>
    have shorter : c.advance.left < c.left := left_advance_lt (by simp [first])
    split at read
    -- The name and the parenthesis are taken first, so the arguments have fewer tokens and the
    -- induction covers them.
    · next called =>
      obtain ⟨es, inner, rfl⟩ := Reply.map_eq_ok.mp read
      have less : c.advance.advance.left < n := by
        have := c.advance.left_advance_le
        omega
      obtain ⟨m, ⟨ks, r, front, within⟩, closing, rfl⟩ :=
        (fewer _ less proper.advance.advance).arguments inner
      exact ⟨_, .call name r, ⟨first, by simp, called, by simp,
        front.append (.one closing nofun)⟩, within⟩
    · cases read
      exact ⟨_, .name name, .one first (by simp), proper.depth_le⟩
  · next first =>
    have shorter : c.advance.left < c.left := left_advance_lt (by simp [first])
    obtain ⟨e, m, inner, read⟩ := Reply.andThen_eq_ok.mp read
    obtain ⟨closing, read⟩ := expecting_eq_ok.mp read
    cases read
    obtain ⟨ks, r, front, within⟩ := (fewer _ (by omega) proper.advance).expression inner
    exact ⟨_, .group r, ⟨first, by simp, front.append (.one closing nofun)⟩, within⟩
  · cases read

/-- A power derives, and no further power operator stands behind it. -/
theorem power_sound {e : Expr} (few : c.left ≤ n) (proper : c.Proper)
    (read : (c.chain .power).val = .ok e d) :
    Reads c (.chain .power e) d ∧ d.current.kind ≠ .power := by
  rw [val_chain] at read
  obtain ⟨base, m, first, read⟩ := Reply.andThen_eq_ok.mp read
  rw [val_firstOperand] at first
  obtain ⟨ks, r, front, within⟩ := atom_sound fewer few proper first
  rw [val_folds] at read
  split at read
  · next last =>
    cases read
    exact ⟨⟨_, .base r, front, within⟩, Level.power_operator?_eq_none_iff.mp last⟩
  · next op found =>
    obtain ⟨level, token⟩ := Level.operator?_eq_some_iff.mp found
    cases BinaryOp.eq_power_of_level level
    obtain ⟨room, e', inner, rfl⟩ := deeper_eq_ok.mp read
    obtain ⟨exponent, f, second, last⟩ := Reply.andThen_eq_ok.mp inner
    rw [val_laterOperand] at second
    -- The operator has been taken, so the exponent is read with fewer tokens.
    have less : (m.under 1).advance.left < n := by
      have := left_advance_lt (c := m) (by simp [token, BinaryOp.token])
      have := front.left
      simp only [advance_under, left_under]
      omega
    obtain ⟨reads, other⟩ := (fewer _ less ((proper.passes front).under room).advance).signed second
    -- The exponent took every power operator that followed, so the loop ends here.
    rw [val_folds, Level.power_operator?_eq_none_iff.mpr other] at last
    cases last
    obtain ⟨ls, s, f, rfl, back, deep⟩ := Reads.of_under (c := m.advance) reads
    refine ⟨⟨_, .power r s, front.append ⟨token, by simp, back⟩, ?_⟩, other⟩
    obtain ⟨depth, limit⟩ := front.same
    simp only [Derivation.levels, depth_advance, limit_advance] at deep ⊢
    omega

/-- A signed operand derives, with a level for its sign. -/
theorem signed_sound {e : Expr} (few : c.left ≤ n) (proper : c.Proper)
    (read : c.signed.val = .ok e d) :
    Reads c (.signed e) d ∧ d.current.kind ≠ .power := by
  -- Both signs are read in the same way, so they are dealt with together.
  have sign (op : UnaryOp) (first : c.current.kind = op.token)
      (read : (c.advance.deeper fun d => d.signed.val.map (.unary op)) = .ok e d) :
      Reads c (.signed e) d ∧ d.current.kind ≠ .power := by
    obtain ⟨room, e', inner, rfl⟩ := deeper_eq_ok.mp read
    obtain ⟨operand, second, rfl⟩ := Reply.map_eq_ok.mp inner
    have less : (c.advance.under 1).left < n := by
      have := left_advance_lt (c := c) (first ▸ op.token_ne_endOfText)
      rw [left_under]
      omega
    obtain ⟨reads, other⟩ := (fewer _ less (proper.advance.under room)).signed second
    obtain ⟨ks, r, f, rfl, front, within⟩ := reads.of_under
    refine ⟨⟨_, .sign op r, ⟨first, op.token_ne_endOfText, front⟩, ?_⟩, other⟩
    simp only [Derivation.levels, depth_advance, limit_advance] at within ⊢
    omega
  rw [val_signed] at read
  split at read
  · next first => exact sign .plus first read
  · next first => exact sign .minus first read
  · obtain ⟨⟨ks, r, front, within⟩, other⟩ := power_sound fewer few proper read
    exact ⟨⟨_, .unsigned r, front, within⟩, other⟩

/-- A chain derives if its first operand does. -/
theorem chain_sound_of_operand {level : Level} {e : Expr} (left : level ≠ .power) (few : c.left ≤ n)
    (proper : c.Proper)
    (operand : ∀ {e d}, (c.firstOperand level).val = .ok e d → Reads c (.operand level e) d)
    (read : (c.chain level).val = .ok e d) : Reads c (.chain level e) d := by
  rw [val_chain] at read
  obtain ⟨start, m, first, read⟩ := Reply.andThen_eq_ok.mp read
  obtain ⟨ks, r, front, within⟩ := operand first
  -- An operand has a token at least, so the loop starts with fewer of them.
  have less : m.left < n := by
    have long := r.levels_add_slack_le.1
    have := front.left
    rw [Derivation.slack_operand] at long
    omega
  obtain ⟨d, rfl, reads⟩ :=
    (fewer _ less (proper.passes front)).folds (.single left r) left front within rfl read
  exact reads

/-- Chains of every level derive, each level from the tighter one. -/
theorem chain_sound {level : Level} {e : Expr} (left : level ≠ .power) (few : c.left ≤ n)
    (proper : c.Proper) (read : (c.chain level).val = .ok e d) :
    Reads c (.chain level e) d := by
  have products {e d} : (c.chain .multiplicative).val = .ok e d →
      Reads c (.chain .multiplicative e) d :=
    chain_sound_of_operand fewer (by decide) few proper fun first => by
      rw [val_firstOperand] at first
      exact (signed_sound fewer few proper first).1
  have sums {e d} : (c.chain .additive).val = .ok e d → Reads c (.chain .additive e) d :=
    chain_sound_of_operand fewer (by decide) few proper fun first => by
      rw [val_firstOperand] at first
      exact products first
  cases level with
  | comparison =>
    refine chain_sound_of_operand fewer (by decide) few proper (fun first => ?_) read
    rw [val_firstOperand] at first
    exact sums first
  | additive => exact sums read
  | multiplicative => exact products read
  | power => exact absurd rfl left

/-- What was read of a chain and what is folded into it derive together; the levels of the folds
stay open. -/
theorem folds_sound {level : Level} {start e : Expr} {b m : Cursor} {ks : List TokenKind}
    (r : Derivation ks (.chain level start)) (left : level ≠ .power) (front : Passes ks b m)
    (within : b.depth + r.levels ≤ b.limit) (few : c.left ≤ n) (proper : c.Proper)
    (here : c = m.under r.operators) (read : (c.folds level start).val = .ok e d) :
    ∃ n, d = n.under r.operators ∧ Reads b (.chain level e) n := by
  subst here
  rw [val_folds] at read
  split at read
  · cases read
    exact ⟨m, rfl, ks, r, front, within⟩
  · next op found =>
    obtain ⟨same, token⟩ := Level.operator?_eq_some_iff.mp found
    obtain ⟨room, e', inner, rfl⟩ := deeper_eq_ok.mp read
    obtain ⟨right, f, second, last⟩ := Reply.andThen_eq_ok.mp inner
    -- The loop runs with the levels of the operators so far still open, and this operator opens one
    -- more.
    rw [under_under, advance_under] at second
    have less : (m.advance.under (r.operators + 1)).left < n := by
      have more : m.current.kind ≠ .endOfText := token ▸ op.token_ne_endOfText
      have := left_advance_lt more
      rw [left_under] at few ⊢
      omega
    have deeper : (m.advance.under (r.operators + 1)).Proper := proper.advance.under room
    obtain ⟨ls, s, f, rfl, back, deep⟩ := ((fewer _ less deeper).laterOperand left second).of_under
    have longer : (f.under (r.operators + 1)).left < n := by
      have := back.left
      rw [left_under] at less ⊢
      omega
    have rest : Passes (op.token :: ls) m f := ⟨token, op.token_ne_endOfText, back⟩
    obtain ⟨depth, limit⟩ := front.same
    -- The levels of the derivation are those open at its deepest point, which the reader has had
    -- room for.
    have enough : b.depth + (r.fold op left same s).levels ≤ b.limit := by
      simp only [Derivation.levels, depth_advance, limit_advance] at deep ⊢
      omega
    obtain ⟨d, rfl, reads⟩ := (fewer _ longer (deeper.passes (back.under _))).folds
      (r.fold op left same s) left (front.append rest) enough rfl last
    exact ⟨d, rfl, reads⟩

/-- The arguments are those read before and the ones passed over up to the parenthesis. -/
theorem argumentsFrom_sound {before es : List Expr} (few : c.left ≤ n) (proper : c.Proper)
    (expression : ∀ {e d}, c.expression.val = .ok e d → Reads c (.expression e) d)
    (read : (c.argumentsFrom before).val = .ok es d) :
    ∃ f fs m, es = before.reverse ++ f :: fs ∧ Reads c (.arguments (f :: fs)) m ∧
      m.current.kind = .rightParen ∧ d = m.advance := by
  rw [val_argumentsFrom] at read
  obtain ⟨e, m, first, read⟩ := Reply.andThen_eq_ok.mp read
  obtain ⟨ks, r, front, within⟩ := expression first
  split at read
  · next comma =>
    have less : m.advance.left < n := by
      have := left_advance_lt (c := m) (by simp [comma])
      have := front.left
      omega
    obtain ⟨f, fs, l, rfl, ⟨ls, s, back, deep⟩, closing, rfl⟩ :=
      (fewer _ less (proper.passes front).advance).argumentsFrom read
    refine ⟨e, f :: fs, l, by simp, ⟨_, .nextArgument r s, front.append ⟨comma, by simp, back⟩, ?_⟩,
      closing, rfl⟩
    obtain ⟨depth, limit⟩ := front.same
    simp only [Derivation.levels, depth_advance, limit_advance] at deep ⊢
    omega
  · obtain ⟨closing, read⟩ := expecting_eq_ok.mp read
    cases read
    exact ⟨e, [], m, by simp, ⟨_, .lastArgument r, front, within⟩, closing, rfl⟩

/-- The arguments of a call derive, empty ones as well. -/
theorem arguments_sound {es : List Expr} (few : c.left ≤ n) (proper : c.Proper)
    (expression : ∀ {e d}, c.expression.val = .ok e d → Reads c (.expression e) d)
    (read : c.arguments.val = .ok es d) :
    ∃ m, Reads c (.arguments es) m ∧ m.current.kind = .rightParen ∧ d = m.advance := by
  rw [val_arguments] at read
  split at read
  · next closing =>
    cases read
    exact ⟨c, ⟨_, .noArguments, rfl, proper.depth_le⟩, closing, rfl⟩
  · obtain ⟨f, fs, m, rfl, reads, closing, rfl⟩ :=
      argumentsFrom_sound fewer few proper expression read
    exact ⟨m, reads, closing, rfl⟩

/-- An expression derives as an assignment, a function or a comparison. -/
theorem expression_sound {e : Expr} (few : c.left ≤ n) (proper : c.Proper)
    (read : c.expression.val = .ok e d) : Reads c (.expression e) d := by
  rw [val_expression] at read
  obtain ⟨room, e', inner, rfl⟩ := deeper_eq_ok.mp read
  simp only [current_under, following_under, advance_under] at inner
  split at inner
  · next name first second =>
    obtain ⟨_, last⟩ := expecting_eq_ok.mp inner
    obtain ⟨value, assigned, rfl⟩ := Reply.map_eq_ok.mp last
    have less : (c.advance.advance.under 1).left < n := by
      have := left_advance_lt (c := c) (by simp [first])
      have := c.advance.left_advance_le
      rw [left_under]
      omega
    obtain ⟨ks, r, f, rfl, front, within⟩ :=
      ((fewer _ less (proper.advance.advance.under room)).expression assigned).of_under
    refine ⟨_, .assign name r, ⟨first, by simp, second, by simp, front⟩, ?_⟩
    simp only [Derivation.levels, depth_advance, limit_advance] at within ⊢
    omega
  · next first =>
    obtain ⟨⟨signature, body⟩, rest, rfl⟩ := Reply.map_eq_ok.mp inner
    have less : (c.advance.under 1).left < n := by
      have := left_advance_lt (c := c) (by simp [first])
      rw [left_under]
      omega
    obtain ⟨parameters, rfl, reads⟩ := (fewer _ less (proper.advance.under room)).functionRest rest
    obtain ⟨ks, r, f, rfl, front, within⟩ := reads.of_under
    refine ⟨_, .anonymous r, ⟨first, by simp, front⟩, ?_⟩
    simp only [Derivation.levels, depth_advance, limit_advance] at within ⊢
    omega
  -- An expression in the third case takes no token of its own, so it is the chain that derives.
  · obtain ⟨ks, r, f, rfl, front, within⟩ :=
      (chain_sound fewer (by decide) (by simpa using few) (proper.under room) inner).of_under
    refine ⟨_, .comparison r, front, ?_⟩
    simp only [Derivation.levels]
    omega

/-- A block derives, with a level for its statements. -/
theorem block_sound {body : List Stmt} (few : c.left ≤ n) (proper : c.Proper)
    (read : c.block.val = .ok body d) : Reads c (.block body) d := by
  rw [val_block] at read
  obtain ⟨opening, read⟩ := expecting_eq_ok.mp read
  obtain ⟨body, m, inner, read⟩ := Reply.andThen_eq_ok.mp read
  obtain ⟨closing, read⟩ := expecting_eq_ok.mp read
  cases read
  obtain ⟨room, f, deep, rfl⟩ := deeper_eq_ok.mp inner
  have less : (c.advance.under 1).skipNewLines.left < n := by
    have := left_advance_lt (c := c) (by simp [opening])
    have := (c.advance.under 1).left_skipNewLines_le
    rw [left_under] at this
    omega
  obtain ⟨body, rfl, reads, _⟩ :=
    (fewer _ less (proper.advance.under room).skipNewLines).statementsFrom deep
  obtain ⟨ks, r, f, rfl, front, within⟩ := reads.ofSkipNewLines.of_under
  refine ⟨_, .block r, ⟨opening, by simp, front.append (.one closing nofun)⟩, ?_⟩
  simp only [Derivation.levels, depth_advance, limit_advance] at within ⊢
  omega

/-- What is read behind a function's name are its parameters and its block. -/
theorem functionRest_sound {name : Option String} {signature : Signature} {body : List Stmt}
    (few : c.left ≤ n) (proper : c.Proper)
    (read : (c.functionRest name).val = .ok (signature, body) d) :
    ∃ parameters, signature = ⟨name, parameters⟩ ∧ Reads c (.function parameters body) d := by
  rw [val_functionRest] at read
  obtain ⟨opening, read⟩ := expecting_eq_ok.mp read
  obtain ⟨parameters, m, inner, read⟩ := Reply.andThen_eq_ok.mp read
  obtain ⟨body, read, same⟩ := Reply.map_eq_ok.mp read
  cases same
  obtain ⟨m, front, closing, rfl⟩ := parameters_sound inner
  have less : m.advance.left < n := by
    have := left_advance_lt (c := c) (by simp [opening])
    have := left_advance_lt (c := m) (by simp [closing])
    have := front.left
    omega
  have proper := (proper.advance.passes front).advance
  obtain ⟨ks, r, back, within⟩ := (fewer _ less proper).block read
  obtain ⟨depth, limit⟩ := front.same
  refine ⟨parameters, rfl, _, .function parameters r,
    ⟨opening, by simp, front.append ⟨closing, by simp, back⟩⟩, ?_⟩
  simp only [Derivation.levels, depth_advance, limit_advance] at within depth limit ⊢
  omega

/-- A statement derives, as the word it begins with says. -/
theorem statement_sound {s : Stmt} (few : c.left ≤ n) (proper : c.Proper)
    (read : c.statement.val = .ok s d) : Reads c (.statement s) d := by
  rw [val_statement] at read
  split at read
  · next name first second =>
    obtain ⟨name, named, read⟩ := expectingIdentifier_eq_ok.mp read
    obtain ⟨⟨signature, body⟩, inner, rfl⟩ := Reply.map_eq_ok.mp read
    have less : c.advance.advance.left < n := by
      have := left_advance_lt (c := c) (by simp [first])
      have := c.advance.left_advance_le
      omega
    obtain ⟨parameters, rfl, ks, r, front, within⟩ :=
      (fewer _ less proper.advance.advance).functionRest inner
    exact ⟨_, .declaration name r, ⟨first, by simp, named, by simp, front⟩, within⟩
  · next first =>
    obtain ⟨opening, read⟩ := expecting_eq_ok.mp read
    obtain ⟨condition, m, inner, read⟩ := Reply.andThen_eq_ok.mp read
    obtain ⟨closing, read⟩ := expecting_eq_ok.mp read
    obtain ⟨body, last, rfl⟩ := Reply.map_eq_ok.mp read
    have less : c.advance.advance.left < n := by
      have := left_advance_lt (c := c) (by simp [first])
      have := c.advance.left_advance_le
      omega
    obtain ⟨ks, r, front, within⟩ := (fewer _ less proper.advance.advance).expression inner
    -- The block stands behind the condition, so it has fewer tokens than that.
    have later : m.advance.left < n := by
      have := front.left
      have := m.left_advance_le
      omega
    obtain ⟨ls, s, back, deep⟩ :=
      (fewer _ later (proper.advance.advance.passes front).advance).block last
    refine ⟨_, .conditional r s, ⟨first, by simp, opening, by simp,
      front.append ⟨closing, by simp, back⟩⟩, ?_⟩
    obtain ⟨depth, limit⟩ := front.same
    simp only [Derivation.levels, depth_advance, limit_advance] at within deep depth limit ⊢
    omega
  · next first =>
    obtain ⟨value, inner, rfl⟩ := Reply.map_eq_ok.mp read
    have less : c.advance.left < n := by
      have := left_advance_lt (c := c) (by simp [first])
      omega
    obtain ⟨ks, r, front, within⟩ := (fewer _ less proper.advance).expression inner
    exact ⟨_, .result r, ⟨first, by simp, front⟩, within⟩
  · obtain ⟨body, inner, rfl⟩ := Reply.map_eq_ok.mp read
    obtain ⟨ks, r, front, within⟩ := block_sound fewer few proper inner
    exact ⟨_, .braces r, front, within⟩
  · obtain ⟨e, inner, rfl⟩ := Reply.map_eq_ok.mp read
    obtain ⟨ks, r, front, within⟩ := expression_sound fewer few proper inner
    exact ⟨_, .bare r, front, within⟩

/-- The statements are those read before and the ones passed over up to the token they stop at. -/
theorem statementsFrom_sound {stop : TokenKind} {before body : List Stmt} (few : c.left ≤ n)
    (proper : c.Proper) (read : (c.statementsFrom stop before).val = .ok body d) :
    ∃ rest, body = before.reverse ++ rest ∧ Reads c (.statements rest) d ∧
      d.current.kind = stop := by
  rw [val_statementsFrom] at read
  split at read
  · next here =>
    cases read
    exact ⟨[], by simp, ⟨_, .noStatements, rfl, proper.depth_le⟩, here⟩
  · obtain ⟨s, m, inner, read⟩ := Reply.andThen_eq_ok.mp read
    obtain ⟨ks, r, front, within⟩ := statement_sound fewer few proper inner
    split at read
    · next here =>
      cases read
      exact ⟨[s], by simp, ⟨_, .lastStatement r, front, within⟩, here⟩
    · obtain ⟨ends, read⟩ := expecting_eq_ok.mp read
      have less : m.advance.skipNewLines.left < n := by
        have := front.left
        have := left_advance_lt (c := m) (by simp [ends])
        have := m.advance.left_skipNewLines_le
        omega
      obtain ⟨rest, rfl, reads, here⟩ :=
        (fewer _ less (proper.passes front).advance.skipNewLines).statementsFrom read
      obtain ⟨ls, t, back, deep⟩ := reads.ofSkipNewLines
      refine ⟨s :: rest, by simp, ⟨_, .nextStatement r t, front.append ⟨ends, by simp, back⟩, ?_⟩,
        here⟩
      obtain ⟨depth, limit⟩ := front.same
      simp only [Derivation.levels, depth_advance, limit_advance] at deep ⊢
      omega

end

/-- Every reader is sound at every cursor. -/
theorem sound (c : Cursor) (proper : c.Proper) : c.Sound := by
  induction h : c.left using Nat.strong_induction_on generalizing c with
  | _ n ih =>
    subst h
    have fewer (d : Cursor) (less : d.left < c.left) (proper : d.Proper) : d.Sound :=
      ih _ less d proper rfl
    exact {
      signed := signed_sound fewer (Nat.le_refl _) proper
      chain := fun left => chain_sound fewer left (Nat.le_refl _) proper
      folds := fun r left front within =>
        folds_sound fewer r left front within (Nat.le_refl _) proper
      arguments := arguments_sound fewer (Nat.le_refl _) proper
        (expression_sound fewer (Nat.le_refl _) proper)
      argumentsFrom := argumentsFrom_sound fewer (Nat.le_refl _) proper
        (expression_sound fewer (Nat.le_refl _) proper)
      expression := expression_sound fewer (Nat.le_refl _) proper
      block := block_sound fewer (Nat.le_refl _) proper
      functionRest := functionRest_sound fewer (Nat.le_refl _) proper
      statementsFrom := statementsFrom_sound fewer (Nat.le_refl _) proper }

end Cursor
end Scriptlet
