import Scriptlet.Proofs.Grammar.Acceptance
import Scriptlet.Proofs.Grammar.Locality

/-!
# What is expected can stand there

Where a reader refuses a token, the tokens in front of it and any token of the expected sort begin
something that derives (`Resumable`). So nothing is refused too late: what has been taken was the
beginning of a program. And nothing is refused too early or for a bad reason, for readers look no
further than they stop.

The proof goes through the readers once more, as for soundness. A reader that has read something
leaves a derivation of it, a refused token stands at a place of a rule, and the rest of the rule is
filled up with what is shortest.
-/

namespace Scriptlet

/-- Whether a token of a kind is what was expected; a numeral is an expression. -/
def Expected.Admits : Expected → TokenKind → Prop
  | .token kind, k => k = kind
  | .identifier, k => ∃ name, k = .identifier name
  | .expression, k => ∃ text, IsNumeral text ∧ k = .number text

/-- Whether kinds derive some phrase of a shape. -/
def Derivable {α : Type} (shape : α → Phrase) (ks : List TokenKind) : Prop :=
  ∃ a, Nonempty (Derivation ks (shape a))

/-! ## What fills up a rule -/

/-- A numeral alone is an expression. -/
def Derivation.zero : Derivation [.number "0"] (.expression (.number (.ofLexeme "0"))) :=
  .comparison (.single Level.comparison_ne_power (.single Level.additive_ne_power
    (.single Level.multiplicative_ne_power (.unsigned (.base (.number (by decide)))))))

/-- Braces alone are a block. -/
def Derivation.emptyBlock : Derivation [.leftBrace, .rightBrace] (.block []) :=
  .block .noStatements

/-- What stands behind the word and the name of a function. -/
def Phrase.functionRest (rest : List String × List Stmt) : Phrase := .function rest.1 rest.2

/-- What a list in parentheses takes up to the closing one, which is taken too. -/
def UpToParen (part : List TokenKind → Prop) (ks : List TokenKind) : Prop :=
  ∃ ls, ks = ls ++ [.rightParen] ∧ part ls

/-- Parameters, at least one, as there must be behind a comma. -/
def SomeParameters (ks : List TokenKind) : Prop :=
  ∃ name names, ks = parameterKinds (name :: names)

/-- Arguments, at least one, as there must be behind a comma. -/
def SomeArguments (ks : List TokenKind) : Prop :=
  ∃ e es, Nonempty (Derivation ks (.arguments (e :: es)))

namespace Cursor

variable {α β γ : Type} {c d m : Cursor} {ks ls : List TokenKind} {kind : TokenKind}
  {goal : List TokenKind → Prop}

/-! ## Refused tokens -/

/-- Tokens of the kinds `ks` lie between two cursors, whatever levels are open at them. -/
def Between (ks : List TokenKind) (c d : Cursor) : Prop :=
  ∃ front, c.tokens = front ++ d.tokens ∧ front.map Token.kind = ks

/-- Nothing lies between a cursor and itself. -/
theorem Between.refl (c : Cursor) : Between [] c c := ⟨[], rfl, rfl⟩

/-- What lies up to a cursor and what lies from there on lie behind one another. -/
theorem Between.append (front : Between ks c m) (back : Between ls m d) :
    Between (ks ++ ls) c d := by
  obtain ⟨ts, first, rfl⟩ := front
  obtain ⟨us, second, rfl⟩ := back
  exact ⟨ts ++ us, by rw [first, second, List.append_assoc], List.map_append⟩

/-- One token lies between a cursor and the next, unless it is the end. -/
theorem Between.one (first : c.current.kind = kind) (more : kind ≠ .endOfText) :
    Between [kind] c c.advance := by
  obtain ⟨tokens, finish, depth, limit⟩ := c
  cases tokens with
  | nil => exact absurd first.symm more
  | cons t rest => exact ⟨[t], rfl, congrArg (fun k => [k]) first⟩

/-- Kinds that are passed over lie between the cursors. -/
theorem Passes.between (h : Passes ks c d) : Between ks c d := by
  induction ks generalizing c with
  | nil => exact (show c = d from h) ▸ .refl c
  | cons k ks ih => exact (Between.one h.1 h.2.1).append (ih h.2.2)

/-- Whether, in case an answer refuses a token, what lies in front of the token goes on with
whatever was expected to what is to be read. -/
structure Resumable (goal : List TokenKind → Prop) (c : Cursor) (r : Reply α) : Prop where
  resume : ∀ {expected found location d}, r = .error (.unexpectedToken expected found location) d →
    d.current = ⟨found, location⟩ ∧
      ∃ ks, Between ks c d ∧ ∀ k, expected.Admits k → ∃ ls, goal (ks ++ k :: ls)

namespace Resumable

variable {r : Reply α}

/-- A reader that accepts has refused nothing. -/
theorem ok (a : α) (d : Cursor) : Resumable goal c (.ok a d) := ⟨nofun⟩

/-- A refusal can be resumed if every token of the expected sort could stand there. -/
theorem refusal {expected : Expected} (front : Between ks c d)
    (here : ∀ k, expected.Admits k → ∃ ls, goal (ks ++ k :: ls)) :
    Resumable goal c (d.refusal (α := α) expected) := by
  constructor
  rintro _ _ _ _ ⟨⟩
  exact ⟨rfl, ks, front, here⟩

/-- What is read behind some tokens is part of what is read from them on. -/
theorem within {part : List TokenKind → Prop} (front : Between ks c m) (h : Resumable part m r)
    (whole : ∀ ls, part ls → ∃ more, goal (ks ++ (ls ++ more))) : Resumable goal c r := by
  constructor
  intro expected found location d failed
  obtain ⟨here, ls, back, next⟩ := h.resume failed
  refine ⟨here, ks ++ ls, front.append back, fun k admitted => ?_⟩
  obtain ⟨rest, part⟩ := next k admitted
  obtain ⟨more, whole⟩ := whole _ part
  exact ⟨rest ++ more, by simpa using whole⟩

/-- What begins a part begins the whole that the part fills up to. -/
theorem mono {part : List TokenKind → Prop} (h : Resumable part c r)
    (whole : ∀ ls, part ls → goal ls) : Resumable goal c r :=
  h.within (.refl c) fun ls part => ⟨[], by simpa using whole ls part⟩

/-- What begins a phrase begins all that a rule makes of it, with what stands around it. -/
theorem rule {shape : γ → Phrase} (front : Between ks c m) (h : Resumable (Derivable shape) m r)
    (rest : List TokenKind)
    (covers : ∀ {a ls}, Derivation ls (shape a) → goal (ks ++ (ls ++ rest))) :
    Resumable goal c r := by
  refine h.within front fun ls derived => ?_
  obtain ⟨a, ⟨s⟩⟩ := derived
  exact ⟨rest, covers s⟩

/-- Of two readers in turn, whichever refuses has to be resumed, the second only where the first
accepts. -/
theorem andThen {next : α → Cursor → Reply β} (first : Resumable goal c r)
    (second : ∀ a d, r = .ok a d → Resumable goal c (next a d)) :
    Resumable goal c (r.andThen next) := by
  cases r with
  | ok a d => exact second a d rfl
  | error e d =>
    constructor
    rintro _ _ _ _ ⟨⟩
    exact first.resume rfl

/-- What is done to the answer changes no refusal. -/
theorem map (f : α → β) (h : Resumable goal c r) : Resumable goal c (r.map f) :=
  h.andThen fun a d _ => ok (f a) d

/-- An expected token is resumed with itself, and behind it the next reader has to be. -/
theorem expecting {next : Cursor → Reply α} (front : Between ks c d)
    (here : ∃ ls, goal (ks ++ kind :: ls))
    (second : d.current.kind = kind → Resumable goal c (next d.advance)) :
    Resumable goal c (d.expecting kind next) := by
  unfold Cursor.expecting
  split
  · next found => exact second found
  · exact refusal front fun k same => same ▸ here

/-- An expected identifier is resumed with any name. -/
theorem expectingIdentifier {next : String → Cursor → Reply α} (front : Between ks c d)
    (here : ∀ name, ∃ ls, goal (ks ++ .identifier name :: ls))
    (second : ∀ name, d.current.kind = .identifier name →
      Resumable goal c (next name d.advance)) :
    Resumable goal c (d.expectingIdentifier next) := by
  unfold Cursor.expectingIdentifier
  split
  · next name found => exact second name found
  · exact refusal front fun k ⟨name, same⟩ => same ▸ here name

/-- A refused level is no refused token. -/
theorem deeper {body : Cursor → Reply α}
    (h : d.depth < d.limit → Resumable goal c (body (d.under 1))) :
    Resumable goal c (d.deeper body) := by
  unfold Cursor.deeper
  split
  · exact ⟨nofun⟩
  · next room =>
    have h := h (Nat.lt_of_not_le room)
    cases answer : body (d.under 1) with
    | ok a e => exact ⟨nofun⟩
    | error e f =>
      constructor
      rintro expected found location _ ⟨⟩
      have resumed := h.resume answer
      exact resumed

end Resumable

/-! ## Readers -/

/-- Line breaks skipped in front belong to the statements. -/
theorem Resumable.ofSkipNewLines {r : Reply α}
    (h : Resumable (Derivable .statements) c.skipNewLines r) :
    Resumable (Derivable .statements) c r := by
  induction left : c.left using Nat.strong_induction_on generalizing c with
  | _ n ih =>
    subst left
    by_cases first : c.current.kind = .newLine
    · rw [skipNewLines_of_newLine first] at h
      refine (ih _ (left_advance_lt (by simp [first])) h rfl).rule (.one first nofun) []
        fun r => ?_
      exact ⟨_, ⟨by simpa using r.newLine⟩⟩
    · rwa [skipNewLines_of_ne first] at h

/-- The names of parameters go on up to a parenthesis, whatever was read before. -/
theorem parametersFrom_resumable (before : List String) (c : Cursor) :
    Resumable (UpToParen SomeParameters) c (c.parametersFrom before).val := by
  generalize read : (c.parametersFrom before).val = r
  induction left : c.left using Nat.strong_induction_on generalizing c before r with
  | _ n ih =>
    subst left
    -- A name by itself closes the list, so a single name is what fills it up.
    have closed (name : String) : UpToParen SomeParameters [.identifier name, .rightParen] :=
      ⟨[.identifier name], rfl, name, [], rfl⟩
    rw [← read, val_parametersFrom]
    refine .expectingIdentifier (.refl c) (fun name => ⟨[.rightParen], closed name⟩) ?_
    intro name first
    have less : c.advance.advance.left < c.left :=
      Nat.lt_of_le_of_lt (left_advance_le _) (left_advance_lt (by simp [first]))
    split
    · next comma =>
      refine (ih _ less _ _ _ rfl rfl).within
        ((Between.one first nofun).append (.one comma nofun)) ?_
      rintro _ ⟨_, rfl, next, names, rfl⟩
      exact ⟨[], .identifier name :: .comma :: parameterKinds (next :: names), by simp,
        name, next :: names, rfl⟩
    · exact .expecting (.one first nofun) ⟨[], closed name⟩ fun _ => .ok ..

/-- A refusal among the parameters is resumed up to their parenthesis. -/
theorem parameters_resumable (c : Cursor) :
    Resumable (UpToParen fun ks => ∃ names, ks = parameterKinds names) c c.parameters.val := by
  rw [val_parameters]
  split
  · exact .ok ..
  · refine (parametersFrom_resumable [] c).mono ?_
    rintro _ ⟨ls, rfl, name, names, rfl⟩
    exact ⟨_, rfl, name :: names, rfl⟩

/-- What has been taken by the readers at a cursor goes on to what they read. -/
structure Viable (c : Cursor) : Prop where
  signed : Resumable (Derivable .signed) c c.signed.val
  chain : ∀ {level}, level ≠ .power → Resumable (Derivable (.chain level)) c (c.chain level).val
  folds : ∀ {level left ks}, Derivation ks (.chain level left) → level ≠ .power →
    Resumable (fun ls => Derivable (.chain level) (ks ++ ls)) c (c.folds level left).val
  arguments : Resumable (UpToParen (Derivable .arguments)) c c.arguments.val
  argumentsFrom : ∀ before, Resumable (UpToParen SomeArguments) c (c.argumentsFrom before).val
  expression : Resumable (Derivable .expression) c c.expression.val
  block : Resumable (Derivable .block) c c.block.val
  functionRest : ∀ name, Resumable (Derivable Phrase.functionRest) c (c.functionRest name).val
  statementsFrom : ∀ stop before, Resumable (Derivable .statements) c
    (c.statementsFrom stop before).val

/-- A later operand is an operand whether it is a factor or a chain of the next level. -/
theorem Viable.laterOperand {level : Level} (h : Viable c) (left : level ≠ .power) :
    Resumable (Derivable (.operand level)) c (c.laterOperand level).val := by
  rw [val_laterOperand]
  cases level with
  | comparison => exact h.chain nofun
  | additive => exact h.chain nofun
  | multiplicative => exact h.signed
  | power => exact absurd rfl left

section

variable {n : Nat} (fewer : ∀ c : Cursor, c.left < n → c.Proper → c.Viable)
include fewer

/-- A refusal within an atom: in its arguments, in its parentheses or at its first token. -/
theorem atom_resumable (few : c.left ≤ n) (proper : c.Proper) :
    Resumable (Derivable .atom) c c.atom.val := by
  have less {kind : TokenKind} (first : c.current.kind = kind) (more : kind ≠ .endOfText) :
      c.advance.left < n := Nat.lt_of_lt_of_le (left_advance_lt (first ▸ more)) few
  rw [val_atom]
  split
  · split
    · exact .ok ..
    -- A number whose text has no value is refused for that, and not for being unexpected.
    · refine ⟨fun other => ?_⟩
      cases other
  · next name first =>
    split
    · next called =>
      have later := Nat.lt_of_le_of_lt c.advance.left_advance_le (less first (by simp))
      refine .map _ ((fewer _ later proper.advance.advance).arguments.within
        ((Between.one first (by simp)).append (.one called (by simp))) ?_)
      rintro _ ⟨ks, rfl, es, ⟨r⟩⟩
      exact ⟨[], _, ⟨by simpa using Derivation.call name r⟩⟩
    · exact .ok ..
  · next first =>
    refine .andThen ((fewer _ (less first (by simp)) proper.advance).expression.rule
      (.one first (by simp)) [.rightParen] fun r => ?_) fun e d read => ?_
    · exact ⟨_, ⟨r.group⟩⟩
    -- The expression has been read, so its own derivation stands in front of the closing
    -- parenthesis.
    · obtain ⟨ks, r, front, _⟩ := (sound _ proper.advance).expression read
      exact .expecting ((Between.one first (by simp)).append front.between) ⟨[], e, ⟨r.group⟩⟩
        fun _ => .ok ..
  · refine .refusal (.refl c) ?_
    rintro _ ⟨text, numeral, rfl⟩
    exact ⟨[], _, ⟨.number numeral⟩⟩

/-- A refusal within a power: in its base, or in its exponent behind the operator. -/
theorem power_resumable (few : c.left ≤ n) (proper : c.Proper) :
    Resumable (Derivable (.chain .power)) c (c.chain .power).val := by
  rw [val_chain]
  refine .andThen ?_ fun e d read => ?_
  · rw [val_firstOperand]
    refine (atom_resumable fewer few proper).mono ?_
    rintro ks ⟨e, ⟨r⟩⟩
    exact ⟨e, ⟨r.base⟩⟩
  · rw [val_firstOperand] at read
    obtain ⟨ks, r, front, _⟩ := atom_sound (fun c _ proper => sound c proper) few proper read
    rw [val_folds]
    split
    · exact .ok ..
    · next op found =>
      obtain ⟨same, token⟩ := Level.operator?_eq_some_iff.mp found
      cases op.eq_power_of_level same
      refine .deeper fun room => ?_
      have less : (d.under 1).advance.left < n := by
        have := left_advance_lt (c := d) (token ▸ BinaryOp.power.token_ne_endOfText)
        have := front.left
        rw [advance_under, left_under]
        omega
      have deep : (d.under 1).advance.Proper := ((proper.passes front).under room).advance
      have operator : Between [.power] d (d.under 1).advance := .one token nofun
      refine .andThen ?_ fun f m second => ?_
      · rw [val_laterOperand]
        refine (fewer _ less deep).signed.rule (front.between.append operator) [] fun s => ?_
        exact ⟨_, ⟨by simpa using r.power s⟩⟩
      · rw [val_laterOperand] at second
        -- the exponent has taken every power behind it, so there is no second fold
        have other := ((sound _ deep).signed second).2
        rw [val_folds, Level.power_operator?_eq_none_iff.mpr other]
        exact .ok ..

/-- A refusal within a signed operand: behind its sign, or in the power it is. -/
theorem signed_resumable (few : c.left ≤ n) (proper : c.Proper) :
    Resumable (Derivable .signed) c c.signed.val := by
  have sign (op : UnaryOp) (first : c.current.kind = op.token) : Resumable (Derivable .signed) c
      (c.advance.deeper fun d => d.signed.val.map (Expr.unary op)) := by
    have less := Nat.lt_of_lt_of_le (left_advance_lt (first ▸ op.token_ne_endOfText)) few
    have front : Between [op.token] c (c.advance.under 1) := .one first op.token_ne_endOfText
    refine .deeper fun room => .map _
      ((fewer (c.advance.under 1) less (proper.advance.under room)).signed.rule front []
        fun r => ?_)
    exact ⟨_, ⟨by simpa using r.sign op⟩⟩
  rw [val_signed]
  split
  · next first => exact sign .plus first
  · next first => exact sign .minus first
  · refine (power_resumable fewer few proper).mono ?_
    rintro ks ⟨e, ⟨r⟩⟩
    exact ⟨e, ⟨r.unsigned⟩⟩

/-- A refusal among the further operands leaves the operands before it as a chain of their own. -/
theorem folds_resumable {level : Level} {left : Expr} (r : Derivation ks (.chain level left))
    (below : level ≠ .power) (few : c.left ≤ n) (proper : c.Proper) :
    Resumable (fun ls => Derivable (.chain level) (ks ++ ls)) c (c.folds level left).val := by
  rw [val_folds]
  split
  · exact .ok ..
  · next op found =>
    obtain ⟨same, token⟩ := Level.operator?_eq_some_iff.mp found
    have less : (c.under 1).advance.left < n :=
      Nat.lt_of_lt_of_le (left_advance_lt (c := c) (Level.ne_endOfText found)) few
    refine .deeper fun room => ?_
    have deep : (c.under 1).advance.Proper := (proper.under room).advance
    have operator : Between [op.token] c (c.under 1).advance := .one token op.token_ne_endOfText
    refine .andThen (((fewer _ less deep).laterOperand below).rule operator [] fun s => ?_)
      fun right m second => ?_
    · exact ⟨_, ⟨by simpa using r.fold op below same s⟩⟩
    · obtain ⟨ls, s, front, _⟩ := (sound _ deep).laterOperand below second
      have later : m.left < n := by
        have := front.left
        omega
      -- the chain so far now ends with the new operand
      refine ((fewer _ later (deep.passes front)).folds (r.fold op below same s) below).within
        (operator.append front.between) ?_
      rintro ms ⟨e, ⟨t⟩⟩
      exact ⟨[], e, ⟨by simpa using t⟩⟩

/-- A chain is resumed as its first operand is, and as the operands behind that are. -/
theorem chain_resumable_of_operand {level : Level} (below : level ≠ .power) (few : c.left ≤ n)
    (proper : c.Proper)
    (operand : Resumable (Derivable (.operand level)) c (c.firstOperand level).val) :
    Resumable (Derivable (.chain level)) c (c.chain level).val := by
  rw [val_chain]
  refine .andThen (operand.mono ?_) fun left d read => ?_
  · rintro ks ⟨e, ⟨r⟩⟩
    exact ⟨e, ⟨r.single below⟩⟩
  · obtain ⟨ks, r, front, _⟩ := (sound c proper).firstOperand below read
    have fewer' : d.left ≤ n := by
      have := front.left
      omega
    refine (folds_resumable fewer (r.single below) below fewer' (proper.passes front)).within
      front.between ?_
    rintro ls ⟨e, ⟨s⟩⟩
    exact ⟨[], e, ⟨by simpa using s⟩⟩

/-- Chains of every level are resumed, by the levels from the tightest down. -/
theorem chain_resumable {level : Level} (below : level ≠ .power) (few : c.left ≤ n)
    (proper : c.Proper) : Resumable (Derivable (.chain level)) c (c.chain level).val := by
  have products : Resumable (Derivable (.chain .multiplicative)) c
      (c.chain .multiplicative).val := by
    refine chain_resumable_of_operand fewer (by decide) few proper ?_
    rw [val_firstOperand]
    exact signed_resumable fewer few proper
  have sums : Resumable (Derivable (.chain .additive)) c (c.chain .additive).val := by
    refine chain_resumable_of_operand fewer (by decide) few proper ?_
    rw [val_firstOperand]
    exact products
  cases level with
  | comparison =>
    refine chain_resumable_of_operand fewer (by decide) few proper ?_
    rw [val_firstOperand]
    exact sums
  | additive => exact sums
  | multiplicative => exact products
  | power => exact absurd rfl below

/-- A refusal within an expression: in the value assigned, in the function or in the comparison. -/
theorem expression_resumable (few : c.left ≤ n) (proper : c.Proper) :
    Resumable (Derivable .expression) c c.expression.val := by
  rw [val_expression]
  -- An expression opens its level before it takes a token, so each case is about the cursor below.
  refine .deeper fun room => ?_
  have deep := proper.under room
  have less {kind : TokenKind} (first : (c.under 1).current.kind = kind)
      (more : kind ≠ .endOfText) : (c.under 1).advance.left < n :=
    Nat.lt_of_lt_of_le (left_advance_lt (first ▸ more)) few
  split
  · next name first second =>
    have front : Between [.identifier name] c (c.under 1).advance := .one first nofun
    refine .expecting front ⟨_, _, ⟨Derivation.zero.assign name⟩⟩ fun assign => .map _ ?_
    have later := Nat.lt_of_le_of_lt (c.under 1).advance.left_advance_le (less first nofun)
    refine (fewer _ later deep.advance.advance).expression.rule
      (front.append (.one assign nofun)) [] fun r => ?_
    exact ⟨_, ⟨by simpa using r.assign name⟩⟩
  · next first =>
    have front : Between [.functionWord] c (c.under 1).advance := .one first nofun
    refine .map _ (((fewer _ (less first nofun) deep.advance).functionRest none).rule front []
      fun r => ?_)
    exact ⟨_, ⟨by simpa using r.anonymous⟩⟩
  · have same : Between [] c (c.under 1) := .refl c
    have chain : Resumable (Derivable (.chain .comparison)) (c.under 1) _ :=
      chain_resumable fewer (by decide) few deep
    refine chain.rule same [] fun r => ?_
    exact ⟨_, ⟨by simpa using r.comparison⟩⟩

/-- The arguments behind some others go on up to a parenthesis. -/
theorem argumentsFrom_resumable (before : List Expr) (few : c.left ≤ n) (proper : c.Proper) :
    Resumable (UpToParen SomeArguments) c (c.argumentsFrom before).val := by
  rw [val_argumentsFrom]
  refine .andThen ((expression_resumable fewer few proper).rule (.refl c) [.rightParen]
    fun r => ?_) fun e d read => ?_
  · exact ⟨_, rfl, _, [], ⟨r.lastArgument⟩⟩
  · obtain ⟨ks, r, front, _⟩ := (sound c proper).expression read
    split
    · next comma =>
      -- The expression has taken a token at least, or the comma has.
      have less : d.advance.left < n := by
        have := left_advance_lt (c := d) (by simp [comma])
        have := front.left
        omega
      refine ((fewer _ less (proper.passes front).advance).argumentsFrom _).within
        (front.between.append (.one comma nofun)) ?_
      rintro _ ⟨ls, rfl, f, fs, ⟨s⟩⟩
      exact ⟨[], ks ++ .comma :: ls, by simp, e, f :: fs, ⟨r.nextArgument s⟩⟩
    · exact .expecting front.between ⟨[], ks, rfl, e, [], ⟨r.lastArgument⟩⟩ fun _ => .ok ..

/-- A refusal among the arguments is resumed up to their parenthesis. -/
theorem arguments_resumable (few : c.left ≤ n) (proper : c.Proper) :
    Resumable (UpToParen (Derivable .arguments)) c c.arguments.val := by
  rw [val_arguments]
  split
  · exact .ok ..
  · refine (argumentsFrom_resumable fewer [] few proper).mono ?_
    rintro _ ⟨ks, rfl, e, es, r⟩
    exact ⟨ks, rfl, e :: es, r⟩

/-- A refusal within a block is resumed up to its brace. -/
theorem block_resumable (few : c.left ≤ n) (proper : c.Proper) :
    Resumable (Derivable .block) c c.block.val := by
  rw [val_block]
  refine .expecting (.refl c) ⟨_, _, ⟨.emptyBlock⟩⟩ fun opening => ?_
  have inside {d : Cursor} (h : d.left ≤ c.advance.left) : d.left < n := by
    have := left_advance_lt (c := c) (by simp [opening])
    omega
  have front : Between [.leftBrace] c c.advance := .one opening nofun
  refine .andThen (.deeper fun room => ?_) fun body d read => ?_
  · have less := inside (c.advance.under 1).left_skipNewLines_le
    have deep := (proper.advance.under room).skipNewLines
    have front : Between [.leftBrace] c (c.advance.under 1) := .one opening nofun
    refine ((fewer _ less deep).statementsFrom .rightBrace []).ofSkipNewLines.rule front
      [.rightBrace] fun r => ?_
    exact ⟨_, ⟨r.block⟩⟩
  · obtain ⟨room, e, inner, rfl⟩ := deeper_eq_ok.mp read
    obtain ⟨rest, rfl, reads, _⟩ :=
      (sound _ (proper.advance.under room).skipNewLines).statementsFrom inner
    obtain ⟨ks, r, m, rfl, back, _⟩ := reads.ofSkipNewLines.of_under
    exact .expecting (front.append back.between) ⟨[], _, ⟨r.block⟩⟩ fun _ => .ok ..

/-- A refusal within the rest of a function: in its parameters or in its block. -/
theorem functionRest_resumable (name : Option String) (few : c.left ≤ n) (proper : c.Proper) :
    Resumable (Derivable Phrase.functionRest) c (c.functionRest name).val := by
  rw [val_functionRest]
  refine .expecting (.refl c) ⟨_, ([], []), ⟨.function [] .emptyBlock⟩⟩ fun opening => ?_
  have front : Between [.leftParen] c c.advance := .one opening nofun
  refine .andThen ((parameters_resumable c.advance).within front ?_) fun parameters d read => ?_
  · rintro _ ⟨_, rfl, names, rfl⟩
    exact ⟨[.leftBrace, .rightBrace], (names, []), ⟨by simpa using .function names .emptyBlock⟩⟩
  · obtain ⟨m, between, closing, rfl⟩ := parameters_sound read
    have less : m.advance.left < n := by
      have := left_advance_lt (c := c) (by simp [opening])
      have := between.left
      have := m.left_advance_le
      omega
    have later := (proper.advance.passes between).advance
    refine .map _ ((fewer _ less later).block.rule
      ((front.append between.between).append (.one closing nofun)) [] fun {body ks} r => ?_)
    exact ⟨(parameters, body), ⟨by simpa [Phrase.functionRest] using r.function parameters⟩⟩

/-- A refusal within a statement, for each word a statement begins with. -/
theorem statement_resumable (few : c.left ≤ n) (proper : c.Proper) :
    Resumable (Derivable .statement) c c.statement.val := by
  have less {kind : TokenKind} (first : c.current.kind = kind) (more : kind ≠ .endOfText) :
      c.advance.left < n := Nat.lt_of_lt_of_le (left_advance_lt (first ▸ more)) few
  rw [val_statement]
  split
  · next name first second =>
    have word : Between [.functionWord] c c.advance := .one first nofun
    refine .expectingIdentifier word
      (fun name => ⟨_, _, ⟨.declaration name (.function [] .emptyBlock)⟩⟩) fun name named => ?_
    have later := Nat.lt_of_le_of_lt c.advance.left_advance_le (less first nofun)
    refine .map _ (((fewer _ later proper.advance.advance).functionRest _).rule
      (word.append (.one named nofun)) [] fun r => ?_)
    exact ⟨_, ⟨by simpa using r.declaration name⟩⟩
  · next first =>
    have word : Between [.ifWord] c c.advance := .one first nofun
    refine .expecting word ⟨_, _, ⟨Derivation.zero.conditional .emptyBlock⟩⟩ fun opening => ?_
    have later := Nat.lt_of_le_of_lt c.advance.left_advance_le (less first nofun)
    have proper := proper.advance.advance
    have opened := word.append (.one opening nofun)
    refine .andThen ((fewer _ later proper).expression.rule opened
      [.rightParen, .leftBrace, .rightBrace] fun r => ?_) fun e d read => ?_
    · exact ⟨_, ⟨r.conditional .emptyBlock⟩⟩
    -- The block is empty in what fills up the rule, for only its braces are still missing.
    · obtain ⟨ks, r, front, _⟩ := (sound _ proper).expression read
      have condition := opened.append front.between
      refine .expecting condition ⟨_, _, ⟨r.conditional .emptyBlock⟩⟩ fun closing => ?_
      have last : d.advance.left < n := by
        have := front.left
        have := d.left_advance_le
        omega
      refine .map _ ((fewer _ last (proper.passes front).advance).block.rule
        (condition.append (.one closing nofun)) [] fun s => ?_)
      exact ⟨_, ⟨by simpa using r.conditional s⟩⟩
  · next first =>
    refine .map _ ((fewer _ (less first nofun) proper.advance).expression.rule
      (.one first nofun) [] fun r => ?_)
    exact ⟨_, ⟨by simpa using r.result⟩⟩
  · refine .map _ ((block_resumable fewer few proper).mono ?_)
    intro ks derived
    obtain ⟨body, ⟨r⟩⟩ := derived
    exact ⟨_, ⟨r.braces⟩⟩
  · refine .map _ ((expression_resumable fewer few proper).mono ?_)
    intro ks derived
    obtain ⟨e, ⟨r⟩⟩ := derived
    exact ⟨_, ⟨r.bare⟩⟩

/-- A refusal among statements leaves the statements before it as they are. -/
theorem statementsFrom_resumable (stop : TokenKind) (before : List Stmt) (few : c.left ≤ n)
    (proper : c.Proper) :
    Resumable (Derivable .statements) c (c.statementsFrom stop before).val := by
  rw [val_statementsFrom]
  split
  · exact .ok ..
  · refine .andThen ((statement_resumable fewer few proper).mono ?_) fun s d read => ?_
    · intro ks derived
      obtain ⟨s, ⟨r⟩⟩ := derived
      exact ⟨[s], ⟨r.lastStatement⟩⟩
    · obtain ⟨ks, r, front, _⟩ :=
        statement_sound (fun c _ proper => sound c proper) few proper read
      split
      · exact .ok ..
      -- Behind the line end there need not be another statement.
      · refine .expecting front.between ⟨[], [s], ⟨r.nextStatement .noStatements⟩⟩ fun line => ?_
        have less : d.advance.skipNewLines.left < n := by
          have := front.left
          have := left_advance_lt (c := d) (by simp [line])
          have := d.advance.left_skipNewLines_le
          omega
        have later := (proper.passes front).advance.skipNewLines
        refine ((fewer _ less later).statementsFrom stop _).ofSkipNewLines.rule
          (front.between.append (.one line nofun)) [] fun t => ?_
        exact ⟨_, ⟨by simpa using r.nextStatement t⟩⟩

end

/-- What the readers at any cursor have taken goes on to what they read. -/
theorem viable (c : Cursor) (proper : c.Proper) : c.Viable := by
  induction h : c.left using Nat.strong_induction_on generalizing c with
  | _ n ih =>
    subst h
    have fewer (d : Cursor) (less : d.left < c.left) (proper : d.Proper) : d.Viable :=
      ih _ less d proper rfl
    exact {
      signed := signed_resumable fewer (Nat.le_refl _) proper
      chain := fun below => chain_resumable fewer below (Nat.le_refl _) proper
      folds := fun r below => folds_resumable fewer r below (Nat.le_refl _) proper
      arguments := arguments_resumable fewer (Nat.le_refl _) proper
      argumentsFrom := fun before => argumentsFrom_resumable fewer before (Nat.le_refl _) proper
      expression := expression_resumable fewer (Nat.le_refl _) proper
      block := block_resumable fewer (Nat.le_refl _) proper
      functionRest := fun name => functionRest_resumable fewer name (Nat.le_refl _) proper
      statementsFrom := fun stop before =>
        statementsFrom_resumable fewer stop before (Nat.le_refl _) proper }

end Cursor

/-! ## Whole programs -/

open Cursor

variable {tokens : List Token} {expected : Expected} {found : TokenKind} {location : Location}
  {d : Cursor}

/-- The tokens of a text are proper if their numbers are numerals. -/
theorem ofTokens_proper
    (numerals : ∀ t ∈ tokens, ∀ text, t.kind = .number text → IsNumeral text) :
    (ofTokens tokens).Proper := ⟨numerals, Nat.zero_le _⟩

/-- In front of the token at which a reader has stopped, other tokens behind do not matter. -/
theorem parseTokens_take_append {i : Nat} (failed : (ofTokens tokens).program
      = .error (.unexpectedToken expected found location) d)
    (raised : i + d.left = tokens.length) (inside : i < tokens.length) (more : List Token) :
    parseTokens (tokens.take (i + 1) ++ more)
      = .error (.unexpectedToken expected found location) := by
  let g : Graft := ⟨tokens.length - (i + 1), more, (ofTokens (tokens.take (i + 1) ++ more)).finish⟩
  have same : (ofTokens tokens).graft g = ofTokens (tokens.take (i + 1) ++ more) := by
    have kept : tokens.length - (tokens.length - (i + 1)) = i + 1 := by omega
    show Cursor.mk (tokens.take (tokens.length - (tokens.length - (i + 1))) ++ more) _ _ _ = _
    rw [kept]
    rfl
  have reader := ((locals g (ofTokens tokens).skipNewLines).statementsFrom .endOfText
    []).skipNewLines
  have failed := program_eq_error_iff.mp failed
  have settled : g.replaced < d.left := by
    show tokens.length - (i + 1) < d.left
    omega
  have again := reader.grafts (failed ▸ settled)
  rw [same, failed] at again
  rw [parseTokens, program_eq_error_iff.mpr again]

/-- What derives is accepted, or refused for its levels. -/
theorem Derives.accepted {body : List Stmt} (derives : Derives (tokens.map Token.kind) body)
    (finish : Location) : (∃ p, parseTokens (tokens ++ [⟨.endOfText, finish⟩]) = .ok p) ∨
      ∃ place, parseTokens (tokens ++ [⟨.endOfText, finish⟩])
        = .error (.nestingTooDeep maxNesting place) := by
  obtain ⟨r⟩ := derives
  by_cases enough : r.levels ≤ maxNesting
  · exact .inl ⟨⟨body⟩, (parseTokens_eq_ok_iff r.lexed finish _).mpr ⟨r, enough⟩⟩
  · exact .inr (parseTokens_tooDeep r.lexed finish r (Nat.lt_of_not_le enough))

/-- **A refusal is about the first offending token, and what was expected can stand there.** With
`i` tokens taken, the token behind them is refused, whatever follows it. And with any token of the
expected sort instead, these tokens begin a program. -/
theorem program_unexpectedToken (tokens : List Token) (i : Nat) (expected : Expected)
    (found : TokenKind) (location : Location) (d : Cursor)
    (numerals : ∀ t ∈ tokens, ∀ text, t.kind = .number text → IsNumeral text)
    (failed : (ofTokens tokens).program = .error (.unexpectedToken expected found location) d)
    (raised : i + d.left = tokens.length) (inside : i < tokens.length) :
    tokens[i]? = some ⟨found, location⟩ ∧
    (∀ more, parseTokens (tokens.take (i + 1) ++ more)
      = .error (.unexpectedToken expected found location)) ∧
    ∀ t : Token, expected.Admits t.kind → ∃ more, ∀ finish,
      (∃ p, parseTokens (tokens.take i ++ t :: more ++ [⟨.endOfText, finish⟩]) = .ok p) ∨
        ∃ place, parseTokens (tokens.take i ++ t :: more ++ [⟨.endOfText, finish⟩])
          = .error (.nestingTooDeep maxNesting place) := by
  have proper := (ofTokens_proper numerals).skipNewLines
  have resumable := ((viable _ proper).statementsFrom .endOfText []).ofSkipNewLines
  obtain ⟨here, _, ⟨front, split, rfl⟩, next⟩ :=
    resumable.resume (program_eq_error_iff.mp failed)
  have split : tokens = front ++ d.tokens := split
  have length : front.length = i := by
    have total := congrArg List.length split
    rw [List.length_append] at total
    exact Nat.add_right_cancel (total.symm.trans raised.symm)
  have taken : tokens.take i = front := by rw [split, ← length, List.take_left]
  refine ⟨?_, parseTokens_take_append failed raised inside, fun t admitted => ?_⟩
  -- The refused token is the one the reader has stopped at.
  · cases rest : d.tokens with
    | nil =>
      have none : d.left = 0 := congrArg List.length rest
      omega
    | cons u others =>
      have first : d.current = u := by rw [current, rest]; rfl
      rw [split, ← length, List.getElem?_append_right (Nat.le_refl _), Nat.sub_self, rest, ← here,
        first]
      rfl
  -- What the readers ask for derives, with tokens that stand anywhere, and what derives is
  -- accepted.
  · obtain ⟨ls, body, r⟩ := next t.kind admitted
    refine ⟨ls.map (⟨·, .start⟩), fun finish => ?_⟩
    have kinds : (tokens.take i ++ t :: ls.map (⟨·, .start⟩)).map Token.kind
        = front.map Token.kind ++ t.kind :: ls := by
      simp [taken, Function.comp_def]
    have derives : Derives ((tokens.take i ++ t :: ls.map (⟨·, .start⟩)).map Token.kind) body :=
      kinds ▸ r
    exact derives.accepted finish

/-- The tokens of `function f(x y) {}`. -/
def parametersWithoutComma : List Token :=
  [.functionWord, .identifier "f", .leftParen, .identifier "x", .identifier "y", .rightParen,
    .leftBrace, .rightBrace, .endOfText].map (⟨·, .start⟩)

/-- The second parameter is refused, for the list might be closed there. -/
theorem program_unexpectedToken_secondParameter :
    (∀ t ∈ parametersWithoutComma, ∀ text, t.kind = .number text → IsNumeral text) ∧
    (∃ d, (ofTokens parametersWithoutComma).program = .error
        (.unexpectedToken (.token .rightParen) (.identifier "y") .start) d ∧
      4 + d.left = parametersWithoutComma.length) ∧
    4 < parametersWithoutComma.length ∧
    parametersWithoutComma[4]? = some ⟨.identifier "y", .start⟩ ∧
    (∀ more, parseTokens (parametersWithoutComma.take 5 ++ more)
      = .error (.unexpectedToken (.token .rightParen) (.identifier "y") .start)) ∧
    ∀ t : Token, (Expected.token .rightParen).Admits t.kind → ∃ more, ∀ finish,
      (∃ p, parseTokens
        (parametersWithoutComma.take 4 ++ t :: more ++ [⟨.endOfText, finish⟩]) = .ok p) ∨
        ∃ place, parseTokens
          (parametersWithoutComma.take 4 ++ t :: more ++ [⟨.endOfText, finish⟩])
            = .error (.nestingTooDeep maxNesting place) := by
  have numerals : ∀ t ∈ parametersWithoutComma, ∀ text, t.kind = .number text → IsNumeral text := by
    simp [parametersWithoutComma]
  have failed : (ofTokens parametersWithoutComma).program = .error
      (.unexpectedToken (.token .rightParen) (.identifier "y") .start)
      { ofTokens parametersWithoutComma with tokens := parametersWithoutComma.drop 4 } := by
    rw [program_eq_error_iff, val_statementsFrom, if_neg (by decide), val_statement]
    -- behind the word and the name
    show Reply.andThen (Reply.map _ _) _ = _
    rw [val_functionRest]
    -- behind the opening parenthesis
    show Reply.andThen (Reply.map _ (Reply.andThen (parameters _).val _)) _ = _
    rw [val_parameters, if_neg (by decide), val_parametersFrom]
    rfl
  exact ⟨numerals, ⟨_, failed, rfl⟩, by decide,
    program_unexpectedToken _ 4 _ _ _ _ numerals failed rfl (by decide)⟩

end Scriptlet
