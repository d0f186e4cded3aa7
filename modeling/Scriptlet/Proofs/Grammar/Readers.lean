import Scriptlet.Proofs.Grammar.Derivation
import Scriptlet.Proofs.Grammar.Reply

/-!
# What holds of all readers

The readers are put together in a few ways: one goes on behind another, one runs a level deeper, one
looks at the tokens in front of it, and single tokens are taken or refused. A property of readers
that is kept by each of these holds of every reader of the grammar. `Pervades` lists what there is to
show. The property may compare what one reader answers at several cursors, as long as they show the
same tokens. `Persists` is the case of a property of single replies.

`PervadesLines` asks for less. Readers look at kinds only, and behind a token that opens a line they
pass over line ends before they look further, so the cursors compared may differ in such line ends.
The induction over the readers, on the number of tokens left, is `PervadesLines.readers`.
-/

namespace Scriptlet

/-- Whether line ends directly behind a token of this kind mean nothing. -/
def TokenKind.opensLine : TokenKind → Bool
  | newLine | leftBrace => true
  | _ => false

/-- No operator opens a line. -/
theorem Level.opensLine_eq_false {level : Level} {kind : TokenKind} {op : BinaryOp}
    (found : level.operator? kind = some op) : kind.opensLine = false := by
  cases kind with
  | newLine | leftBrace => cases level <;> cases found
  | _ => rfl

namespace Cursor

/-- Whether readers see the same at another cursor: a token of the same kind, and behind it another
one of the same kind, unless the first one opens a line. -/
structure Resembles (c d : Cursor) : Prop where
  current : d.current.kind = c.current.kind
  following : c.current.kind.opensLine = false → d.following.kind = c.following.kind

/-- What there is to show of a property, of a reader at a cursor, for it to hold of all readers. -/
structure Pervades (Q : {α : Type} → (Cursor → Reply α) → Cursor → Prop) : Prop where
  ok : ∀ {α : Type} (a : α) (c : Cursor), Q (fun c => .ok a c) c
  refusal : ∀ {α : Type} (expected : Expected) (c : Cursor),
    Q (fun c => c.refusal (α := α) expected) c
  noNumeral : ∀ {c : Cursor} {text : String}, c.current.kind = .number text →
    Numeral.ofText? text = none →
      Q (α := Expr) (fun d => .error (.invalidNumeral text c.current.location) d.advance) c
  lookahead : ∀ {α : Type} (read : Token → Token → Cursor → Reply α) {c : Cursor},
    Q (read c.current c.following) c → Q (fun c => read c.current c.following c) c
  advance : ∀ {α : Type} {c : Cursor} {read : Cursor → Reply α}, c.current.kind ≠ .endOfText →
    Q read c.advance → Q (fun c => read c.advance) c
  andThen : ∀ {α β : Type} {c : Cursor} {read : Cursor → Reply α} {next : α → Cursor → Reply β},
    Q read c → (∀ a d, read c = .ok a d → Q (next a) d) → Q (fun c => (read c).andThen next) c
  deeper : ∀ {α : Type} {c : Cursor} {body : Cursor → Reply α},
    Q body (c.under 1) → Q (fun c => c.deeper body) c

/-- What there is to show when the line ends behind a token that opens a line are passed over
together with it. -/
structure PervadesLines (Q : {α : Type} → (Cursor → Reply α) → Cursor → Prop) : Prop where
  ok : ∀ {α : Type} (a : α) (c : Cursor), Q (fun c => .ok a c) c
  refusal : ∀ {α : Type} (expected : Expected) (c : Cursor),
    Q (fun c => c.refusal (α := α) expected) c
  noNumeral : ∀ {c : Cursor} {text : String}, c.current.kind = .number text →
    Numeral.ofText? text = none →
      Q (α := Expr) (fun c => .error (.invalidNumeral text c.current.location) c.advance) c
  lookahead : ∀ {α : Type} {read other : Cursor → Reply α} {c : Cursor},
    (∀ d, c.Resembles d → read d = other d) → Q other c → Q read c
  advance : ∀ {α : Type} {c : Cursor} {read : Cursor → Reply α}, c.current.kind ≠ .endOfText →
    c.current.kind.opensLine = false → Q read c.advance → Q (fun c => read c.advance) c
  newLine : ∀ {α : Type} {c : Cursor} {read : Cursor → Reply α}, c.current.kind = .newLine →
    Q read c.advance.skipNewLines → Q (fun c => read c.advance.skipNewLines) c
  leftBrace : ∀ {α : Type} {c : Cursor} {body : Cursor → Reply α}, c.current.kind = .leftBrace →
    Q body (c.advance.under 1).skipNewLines →
      Q (fun c => c.advance.deeper fun d => body d.skipNewLines) c
  andThen : ∀ {α β : Type} {c : Cursor} {read : Cursor → Reply α} {next : α → Cursor → Reply β},
    Q read c → (∀ a d, read c = .ok a d → Q (next a) d) → Q (fun c => (read c).andThen next) c
  deeper : ∀ {α : Type} {c : Cursor} {body : Cursor → Reply α},
    Q body (c.under 1) → Q (fun c => c.deeper body) c

/-- A property of the readers at a cursor. -/
structure Readers (Q : {α : Type} → (Cursor → Reply α) → Cursor → Prop) (c : Cursor) : Prop where
  signed : Q (fun c => c.signed.val) c
  chain : ∀ level, Q (fun c => (c.chain level).val) c
  folds : ∀ level left, Q (fun c => (c.folds level left).val) c
  arguments : Q (fun c => c.arguments.val) c
  argumentsFrom : ∀ before, Q (fun c => (c.argumentsFrom before).val) c
  expression : Q (fun c => c.expression.val) c
  block : Q (fun c => c.block.val) c
  functionRest : ∀ name, Q (fun c => (c.functionRest name).val) c
  statement : Q (fun c => c.statement.val) c
  statementsFrom : ∀ stop before, Q (fun c => (c.statementsFrom stop before).val) c

variable {Q : {α : Type} → (Cursor → Reply α) → Cursor → Prop}

/-- Readers that answer the same are the same. -/
theorem of_eq {α : Type} {read other : Cursor → Reply α} {c : Cursor}
    (same : ∀ c, read c = other c) (h : Q other c) : Q read c := by
  cases funext same
  exact h

/-- A later operand is read by a reader that the property holds of. -/
theorem Readers.laterOperand {c : Cursor} (h : Readers Q c) (level : Level) :
    Q (fun c => (c.laterOperand level).val) c := by
  refine of_eq (val_laterOperand level) ?_
  cases level with
  | comparison => exact h.chain .additive
  | additive => exact h.chain .multiplicative
  | multiplicative | power => exact h.signed

/-- A reader that accepts has no more tokens left than it may. -/
theorem left_le_of_val_eq_ok {α : Type} {n : Nat} {r : Onward n α} {a : α} {d : Cursor}
    (read : r.val = .ok a d) : d.left ≤ n := by
  have few := r.property
  rw [read] at few
  exact few

/-! ## What is seen -/

section

variable {c d : Cursor}

/-- The location of a text that is no number is the one thing that readers ask of a token besides
its kind. -/
theorem Resembles.atomAt_eq (same : c.Resembles d) : atomAt d.current d.following d
    = atomAt ⟨c.current.kind, d.current.location⟩ c.following d := by
  simp only [atomAt, same.current]
  cases first : c.current.kind with
  | identifier => rw [same.following (first ▸ rfl)]
  | _ => rfl

/-- Cursors that show the same open the same sort of expression. -/
theorem Resembles.openedAt_eq (same : c.Resembles d) :
    openedAt d.current d.following d = openedAt c.current c.following d := by
  unfold openedAt
  rw [same.current]
  cases first : c.current.kind with
  | identifier => rw [same.following (first ▸ rfl)]
  | _ => rfl

/-- Cursors that show the same begin the same sort of statement. -/
theorem Resembles.statementAt_eq (same : c.Resembles d) :
    statementAt d.current d.following d = statementAt c.current c.following d := by
  unfold statementAt
  rw [same.current]
  cases first : c.current.kind with
  | functionWord => rw [same.following (first ▸ rfl)]
  | _ => rfl

end

/-! ## Line ends passed over -/

namespace Pervades

variable {α : Type} {c : Cursor} (k : Pervades Q)
include k

/-- Readers that answer the same where the same is seen need not be told apart. -/
theorem resembling {read other : Cursor → Reply α}
    (same : ∀ d, c.Resembles d → read d = other d) (h : Q other c) : Q read c := by
  classical
  -- The current token and the next one tell whether the same is seen, so the choice between the two
  -- readers is a look ahead.
  let seen (t u : Token) : Prop := t.kind = c.current.kind ∧
    (c.current.kind.opensLine = false → u.kind = c.following.kind)
  let either (t u : Token) (d : Cursor) : Reply α := if seen t u then other d else read d
  have whole (d : Cursor) : read d = either d.current d.following d := by
    by_cases there : seen d.current d.following
    · exact (same d ⟨there.1, there.2⟩).trans (if_pos there).symm
    · exact (if_neg there).symm
  have here : either c.current c.following = other := funext fun d => if_pos ⟨rfl, fun _ => rfl⟩
  exact of_eq whole (k.lookahead either (here ▸ h))

/-- Line ends may be passed over in front of a reader. -/
theorem skipNewLines {read : Cursor → Reply α} (h : Q read c.skipNewLines) :
    Q (fun c => read c.skipNewLines) c := by
  induction left : c.left using Nat.strong_induction_on generalizing c with
  | _ n ih =>
    subst left
    by_cases first : c.current.kind = .newLine
    · have more : c.current.kind ≠ .endOfText := first ▸ nofun
      rw [skipNewLines_of_newLine first] at h
      have later : Q (fun c => read c.skipNewLines) c.advance := ih _ (left_advance_lt more) h rfl
      refine k.resembling (fun d same => ?_) (k.advance more later)
      rw [skipNewLines_of_newLine (same.current.trans first)]
    · rw [skipNewLines_of_ne first] at h
      refine k.resembling (fun d same => ?_) h
      rw [skipNewLines_of_ne (same.current ▸ first)]

/-- What holds of readers at any cursors holds where these may differ in line ends. -/
theorem lines : PervadesLines Q where
  ok := k.ok
  refusal := k.refusal
  noNumeral {_ text} first unread :=
    k.lookahead (fun t _ c => .error (.invalidNumeral text t.location) c.advance)
      (k.noNumeral first unread)
  lookahead := k.resembling
  advance more _ := k.advance more
  newLine first h := k.advance (first ▸ nofun) (k.skipNewLines h)
  leftBrace first h := k.advance (first ▸ nofun) (k.deeper (k.skipNewLines h))
  andThen := k.andThen
  deeper := k.deeper

end Pervades

namespace PervadesLines

variable {α β : Type} {c : Cursor} {kind : TokenKind} (k : PervadesLines Q)
include k

/-! ## Steps -/

/-- What is done to the answer keeps the property. -/
theorem map (f : α → β) {read : Cursor → Reply α} (h : Q read c) :
    Q (fun c => (read c).map f) c :=
  k.andThen h fun a d _ => k.ok (f a) d

/-- Takes a token of a kind. -/
theorem take {read : Cursor → Reply α} (first : c.current.kind = kind) (more : kind ≠ .endOfText)
    (plain : kind.opensLine = false) (h : Q read c.advance) : Q (fun c => read c.advance) c :=
  k.advance (first ▸ more) (first ▸ plain) h

/-- A reader may go one of two ways, as the token here is of a kind or not. -/
theorem ifCurrent {yes no : Cursor → Reply α} (first : c.current.kind = kind → Q yes c)
    (second : c.current.kind ≠ kind → Q no c) :
    Q (fun c => if c.current.kind = kind then yes c else no c) c := by
  by_cases found : c.current.kind = kind
  · exact k.lookahead (fun d same => if_pos (same.current.trans found)) (first found)
  · exact k.lookahead (fun d same => if_neg (same.current ▸ found)) (second found)

/-- A token that is expected may be taken, unless line ends mean nothing behind it. -/
theorem expecting {next : Cursor → Reply α} (more : kind ≠ .endOfText)
    (plain : kind.opensLine = false) (h : c.current.kind = kind → Q next c.advance) :
    Q (fun c => c.expecting kind next) c :=
  k.ifCurrent (fun found => k.take found more plain (h found)) fun _ => k.refusal ..

/-- An identifier that is expected may be taken. -/
theorem expectingIdentifier {next : String → Cursor → Reply α}
    (h : ∀ name, c.current.kind = .identifier name → Q (next name) c.advance) :
    Q (fun c => c.expectingIdentifier next) c := by
  refine k.lookahead (fun d same => ?_) (?_ : Q (identifierAt next c.current) c)
  · simp only [Cursor.expectingIdentifier, identifierAt, same.current]
  unfold identifierAt
  cases found : c.current.kind with
  | identifier name => exact k.take found nofun rfl (h name found)
  | _ => exact k.refusal ..

/-! ## Readers -/

/-- The names of parameters, one behind the other. -/
theorem parametersFrom (before : List String) (c : Cursor) :
    Q (fun c => (c.parametersFrom before).val) c := by
  induction left : c.left using Nat.strong_induction_on generalizing c before with
  | _ n ih =>
    subst left
    refine of_eq (val_parametersFrom before) (k.expectingIdentifier fun name first => ?_)
    have less : c.advance.advance.left < c.left :=
      Nat.lt_of_le_of_lt (left_advance_le _) (left_advance_lt (first ▸ nofun))
    refine k.ifCurrent (fun comma => ?_) fun _ => k.expecting nofun rfl fun _ => k.ok ..
    exact k.take comma nofun rfl (ih _ less _ _ rfl)

/-- All parameters of a function. -/
theorem parameters (c : Cursor) : Q (fun c => c.parameters.val) c := by
  refine of_eq val_parameters (k.ifCurrent (fun closing => ?_) fun _ => k.parametersFrom ..)
  exact k.take closing nofun rfl (k.ok ..)

section

variable {n : Nat} (fewer : ∀ c : Cursor, c.left < n → Readers Q c)
include fewer

/-- Atoms, with the expressions of their parentheses and arguments by induction. -/
theorem atom (few : c.left ≤ n) : Q (fun c => c.atom.val) c := by
  have less {kind : TokenKind} (first : c.current.kind = kind) (more : kind ≠ .endOfText) :
      c.advance.left < n := Nat.lt_of_lt_of_le (left_advance_lt (first ▸ more)) few
  refine of_eq val_atom (k.lookahead (fun d same => same.atomAt_eq) ?_)
  unfold atomAt
  cases first : c.current.kind with
  | number text =>
    cases read : Numeral.ofText? text with
    | some numeral =>
      simp only [read]
      exact k.take first nofun rfl (k.ok ..)
    | none =>
      simp only [read]
      exact k.noNumeral first read
  | identifier name =>
    by_cases called : c.following.kind = .leftParen
    · have later := Nat.lt_of_le_of_lt c.advance.left_advance_le (less first nofun)
      simp only [called, if_true]
      exact k.take first nofun rfl (k.take called nofun rfl (k.map _ (fewer _ later).arguments))
    · simp only [called, if_false]
      exact k.take first nofun rfl (k.ok ..)
  | leftParen =>
    refine k.take first nofun rfl (k.andThen (fewer _ (less first nofun)).expression ?_)
    exact fun e d _ => k.expecting nofun rfl fun _ => k.ok ..
  | _ => exact k.refusal ..

/-- Further operands of a chain; each fold takes its operator, so fewer tokens are left. -/
theorem folds (level : Level) (left : Expr) (few : c.left ≤ n) :
    Q (fun c => (c.folds level left).val) c := by
  refine of_eq (val_folds level left)
    (k.lookahead (fun d same => ?_) (?_ : Q (foldsAt level left c.current) c))
  · simp only [foldsAt, same.current]
  unfold foldsAt
  cases found : level.operator? c.current.kind with
  | none => exact k.ok ..
  | some op =>
    have more : (c.under 1).current.kind ≠ .endOfText := Level.ne_endOfText found
    have less : (c.under 1).advance.left < n := Nat.lt_of_lt_of_le (left_advance_lt more) few
    refine k.deeper (k.advance more (Level.opensLine_eq_false found)
      (k.andThen ((fewer _ less).laterOperand level) ?_))
    intro right d read
    exact (fewer d (Nat.lt_of_le_of_lt (left_le_of_val_eq_ok read) less)).folds ..

/-- A chain, if its first operand keeps the property. -/
theorem chainOfOperand (level : Level) (few : c.left ≤ n)
    (operand : Q (fun c => (c.firstOperand level).val) c) :
    Q (fun c => (c.chain level).val) c := by
  refine of_eq (val_chain level) (k.andThen operand fun left d read => ?_)
  exact k.folds fewer level left (Nat.le_trans (left_le_of_val_eq_ok read) few)

/-- Signed operands, with the operand behind a sign by induction. -/
theorem signed (few : c.left ≤ n) : Q (fun c => c.signed.val) c := by
  have sign (op : UnaryOp) (first : c.current.kind = op.token) :
      Q (fun c => c.advance.deeper fun d => d.signed.val.map (Expr.unary op)) c := by
    have more : c.current.kind ≠ .endOfText := first ▸ op.token_ne_endOfText
    have less : (c.advance.under 1).left < n := Nat.lt_of_lt_of_le (left_advance_lt more) few
    have plain : op.token.opensLine = false := by cases op <;> rfl
    exact k.take first op.token_ne_endOfText plain (k.deeper (k.map _ (fewer _ less).signed))
  refine of_eq val_signed
    (k.lookahead (fun d same => ?_) (?_ : Q (signedAt c.current) c))
  · simp only [signedAt, same.current]
  unfold signedAt
  cases first : c.current.kind with
  | plus => exact sign .plus first
  | minus => exact sign .minus first
  | _ =>
    exact k.chainOfOperand fewer .power few (of_eq (val_firstOperand .power) (k.atom fewer few))

/-- Chains of every level, from the tightest down. -/
theorem chain (level : Level) (few : c.left ≤ n) : Q (fun c => (c.chain level).val) c := by
  have products : Q (fun c => (c.chain .multiplicative).val) c :=
    k.chainOfOperand fewer _ few (of_eq (val_firstOperand _) (k.signed fewer few))
  have sums : Q (fun c => (c.chain .additive).val) c :=
    k.chainOfOperand fewer _ few (of_eq (val_firstOperand _) products)
  cases level with
  | comparison => exact k.chainOfOperand fewer _ few (of_eq (val_firstOperand _) sums)
  | additive => exact sums
  | multiplicative => exact products
  | power => exact k.chainOfOperand fewer _ few (of_eq (val_firstOperand _) (k.atom fewer few))

/-- Expressions, each sort by what opens it. -/
theorem expression (few : c.left ≤ n) : Q (fun c => c.expression.val) c := by
  refine of_eq val_expression (k.deeper (k.lookahead (fun d same => same.openedAt_eq) ?_))
  have less {kind : TokenKind} (first : (c.under 1).current.kind = kind)
      (more : kind ≠ .endOfText) : (c.under 1).advance.left < n :=
    Nat.lt_of_lt_of_le (left_advance_lt (first ▸ more)) few
  unfold openedAt
  cases first : (c.under 1).current.kind with
  | identifier name =>
    cases (c.under 1).following.kind with
    | assign =>
      have later := Nat.lt_of_le_of_lt (c.under 1).advance.left_advance_le (less first nofun)
      exact k.take first nofun rfl
        (k.expecting (by nofun) (by rfl) fun _ => k.map _ (fewer _ later).expression)
    | _ => exact k.chain fewer .comparison few
  | functionWord =>
    exact k.take first nofun rfl (k.map _ ((fewer _ (less first nofun)).functionRest none))
  | _ => exact k.chain fewer .comparison few

/-- Arguments, one behind the other. -/
theorem argumentsFrom (before : List Expr) (few : c.left ≤ n) :
    Q (fun c => (c.argumentsFrom before).val) c := by
  refine of_eq (val_argumentsFrom before) (k.andThen (k.expression fewer few) ?_)
  intro e d read
  refine k.ifCurrent (fun comma => ?_) fun _ => k.expecting nofun rfl fun _ => k.ok ..
  have more : d.current.kind ≠ .endOfText := comma ▸ nofun
  have less : d.advance.left < n := Nat.lt_of_lt_of_le (left_advance_lt more)
    (Nat.le_trans (left_le_of_val_eq_ok read) few)
  exact k.take comma nofun rfl ((fewer _ less).argumentsFrom _)

/-- All arguments of a call, or none. -/
theorem arguments (few : c.left ≤ n) : Q (fun c => c.arguments.val) c := by
  refine of_eq val_arguments
    (k.ifCurrent (fun closing => ?_) fun _ => k.argumentsFrom fewer _ few)
  exact k.take closing nofun rfl (k.ok ..)

/-- Blocks, with the statements behind the brace by induction. -/
theorem block (few : c.left ≤ n) : Q (fun c => c.block.val) c := by
  refine of_eq val_block (k.ifCurrent (fun opening => ?_) fun _ => k.refusal ..)
  have less : (c.advance.under 1).skipNewLines.left < n :=
    Nat.lt_of_le_of_lt (c.advance.under 1).left_skipNewLines_le
      (Nat.lt_of_lt_of_le (left_advance_lt (opening ▸ nofun)) few)
  refine k.andThen (k.leftBrace opening ((fewer _ less).statementsFrom .rightBrace [])) ?_
  exact fun body d _ => k.expecting nofun rfl fun _ => k.ok ..

/-- What comes behind the name of a function. -/
theorem functionRest (name : Option String) (few : c.left ≤ n) :
    Q (fun c => (c.functionRest name).val) c := by
  refine of_eq (val_functionRest name) (k.expecting nofun rfl fun opening => ?_)
  refine k.andThen (k.parameters _) fun parameters d read => ?_
  have less : d.left < n := Nat.lt_of_le_of_lt (left_le_of_val_eq_ok read)
    (Nat.lt_of_lt_of_le (left_advance_lt (opening ▸ nofun)) few)
  exact k.map _ (fewer d less).block

/-- Statements, each sort by what begins it. -/
theorem statement (few : c.left ≤ n) : Q (fun c => c.statement.val) c := by
  have less {kind : TokenKind} (first : c.current.kind = kind) (more : kind ≠ .endOfText) :
      c.advance.left < n := Nat.lt_of_lt_of_le (left_advance_lt (first ▸ more)) few
  have bare : Q (fun c => c.expression.val.map Stmt.expression) c :=
    k.map _ (k.expression fewer few)
  refine of_eq val_statement (k.lookahead (fun d same => same.statementAt_eq) ?_)
  unfold statementAt
  cases first : c.current.kind with
  | functionWord =>
    cases c.following.kind with
    | identifier =>
      refine k.take first nofun rfl (k.expectingIdentifier fun name _ => ?_)
      have later := Nat.lt_of_le_of_lt c.advance.left_advance_le (less first nofun)
      exact k.map _ ((fewer _ later).functionRest _)
    | _ => exact bare
  | ifWord =>
    have later := Nat.lt_of_le_of_lt c.advance.left_advance_le (less first nofun)
    refine k.take first nofun rfl (k.expecting (by nofun) (by rfl) fun _ =>
      k.andThen (fewer _ later).expression fun condition d read =>
        k.expecting (by nofun) (by rfl) fun _ => k.map _ (fewer _ ?_).block)
    exact Nat.lt_of_le_of_lt
      (Nat.le_trans d.left_advance_le (left_le_of_val_eq_ok read)) later
  | returnWord =>
    exact k.take first nofun rfl (k.map _ (fewer _ (less first nofun)).expression)
  | leftBrace => exact k.map _ (k.block fewer few)
  | _ => exact bare

/-- Statements one behind the other, up to the token they stop at. -/
theorem statementsFrom (stop : TokenKind) (before : List Stmt) (few : c.left ≤ n) :
    Q (fun c => (c.statementsFrom stop before).val) c := by
  refine of_eq (val_statementsFrom stop before) (k.ifCurrent (fun _ => k.ok ..) fun _ => ?_)
  refine k.andThen (k.statement fewer few) fun s d read => ?_
  -- Behind a statement comes the stop, a line end with more statements, or a refusal.
  refine k.ifCurrent (fun _ => k.ok ..) fun _ =>
    k.ifCurrent (fun line => ?_) fun _ => k.refusal ..
  have less : d.advance.skipNewLines.left < n :=
    Nat.lt_of_le_of_lt d.advance.left_skipNewLines_le (Nat.lt_of_lt_of_le
      (left_advance_lt (line ▸ nofun)) (Nat.le_trans (left_le_of_val_eq_ok read) few))
  exact k.newLine line ((fewer _ less).statementsFrom ..)

end

/-- **What pervades holds of all readers**, line ends being passed over together. -/
theorem readers (c : Cursor) : Readers Q c := by
  induction h : c.left using Nat.strong_induction_on generalizing c with
  | _ n ih =>
    subst h
    have fewer (d : Cursor) (less : d.left < c.left) : Readers Q d := ih _ less d rfl
    exact {
      signed := k.signed fewer (Nat.le_refl _)
      chain := fun level => k.chain fewer level (Nat.le_refl _)
      folds := fun level left => k.folds fewer level left (Nat.le_refl _)
      arguments := k.arguments fewer (Nat.le_refl _)
      argumentsFrom := fun before => k.argumentsFrom fewer before (Nat.le_refl _)
      expression := k.expression fewer (Nat.le_refl _)
      block := k.block fewer (Nat.le_refl _)
      functionRest := fun name => k.functionRest fewer name (Nat.le_refl _)
      statement := k.statement fewer (Nat.le_refl _)
      statementsFrom := fun stop before => k.statementsFrom fewer stop before (Nat.le_refl _) }

end PervadesLines

/-- **What pervades holds of all readers.** -/
theorem Pervades.readers (k : Pervades Q) (c : Cursor) : Readers Q c := k.lines.readers c

/-- What pervades holds of a list of statements. -/
theorem Pervades.statements (k : Pervades Q) (stop : TokenKind) (c : Cursor) :
    Q (fun c => c.statements stop) c :=
  k.skipNewLines ((k.readers _).statementsFrom stop [])

/-! ## Properties of single replies -/

/-- What there is to show of a property, of a reply together with the cursor that reading began at,
for it to hold of all readers. -/
structure Persists (P : {α : Type} → Cursor → Reply α → Prop) : Prop where
  ok : ∀ {α : Type} (a : α) (c : Cursor), P c (.ok a c)
  refusal : ∀ {α : Type} (expected : Expected) (c : Cursor), P c (c.refusal (α := α) expected)
  noNumeral : ∀ {c : Cursor} {text : String}, c.current.kind = .number text →
    Numeral.ofText? text = none →
      P (α := Expr) c (.error (.invalidNumeral text c.current.location) c.advance)
  advance : ∀ {α : Type} {c : Cursor} {r : Reply α}, c.current.kind ≠ .endOfText →
    P c.advance r → P c r
  andThen : ∀ {α β : Type} {c : Cursor} {r : Reply α} {next : α → Cursor → Reply β}, P c r →
    (∀ a d, r = .ok a d → P d (next a d)) → P c (r.andThen next)
  deeper : ∀ {α : Type} {c : Cursor} {body : Cursor → Reply α},
    P (c.under 1) (body (c.under 1)) → P c (c.deeper body)

/-- **What persists holds of all readers.** -/
theorem Persists.pervades {P : {α : Type} → Cursor → Reply α → Prop} (k : Persists P) :
    Pervades fun read c => P c (read c) where
  ok := k.ok
  refusal := k.refusal
  noNumeral := k.noNumeral
  lookahead _ _ := id
  advance := k.advance
  andThen := k.andThen
  deeper := k.deeper

/-- A property of errors, each with the cursor that it leaves, persists when it holds of the errors
that readers begin, and closing a level keeps it. -/
theorem persists_errors {E : SyntaxError → Cursor → Prop}
    (unexpected : ∀ expected found l d, E (.unexpectedToken expected found l) d)
    (noNumeral : ∀ text l d, Numeral.ofText? text = none → E (.invalidNumeral text l) d)
    (tooDeep : ∀ l d, E (.nestingTooDeep d.limit l) d) (closed : ∀ e d, E e d → E e d.closed) :
    Persists fun _ r => ∀ e d, r = .error e d → E e d where
  ok _ _ := by
    rintro _ _ ⟨⟩
  refusal _ _ := by
    rintro _ _ ⟨⟩
    exact unexpected ..
  noNumeral _ none := by
    rintro _ _ ⟨⟩
    exact noNumeral _ _ _ none
  advance _ h := h
  -- An error of the first reader is the error of both, at the cursor that it has left.
  andThen {_ _ _ r _} first later := by
    cases r with
    | ok a d => exact later a d rfl
    | error e d =>
      rintro _ _ ⟨⟩
      exact first e d rfl
  deeper {_ c body} h := by
    unfold Cursor.deeper
    split
    · rintro _ _ ⟨⟩
      exact tooDeep ..
    · cases answer : body (c.under 1) with
      | ok a d => rintro _ _ ⟨⟩
      | error e d =>
        rintro _ _ ⟨⟩
        exact closed e d (h e d answer)

end Cursor
end Scriptlet
