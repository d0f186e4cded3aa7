import Scriptlet.Proofs.Grammar.Derivation
import Scriptlet.Proofs.Grammar.Reply

/-!
# Readers look no further than they stop

Where a reader stops before the last tokens, other tokens in their place do not change what it
answers (`Local`). It may have looked at one of them, for a reader looks two tokens ahead. But it
decides by the second token only in front of an identifier or of the word `function`, and it takes
these, whatever stands behind them. The one exception is a report of too many levels: it is made
before a token is taken, so what stands behind may well matter for it (`Settled`).
-/

namespace Scriptlet

variable {α β : Type}

/-! ## Other tokens behind -/

/-- Tokens and an end behind them that stand in for the last tokens of a cursor. -/
structure Graft where
  replaced : Nat
  tokens : List Token
  finish : Location

variable {g : Graft}

/-- The cursor with other tokens in place of the last ones. -/
def Cursor.graft (g : Graft) (c : Cursor) : Cursor :=
  { c with tokens := c.tokens.take (c.left - g.replaced) ++ g.tokens, finish := g.finish }

/-- The same answer, at the cursor with other tokens behind. -/
def Reply.graft (g : Graft) (r : Reply α) : Reply α :=
  match r with
  | .ok a d => .ok a (d.graft g)
  | .error e d => .error e (d.graft g)

/-- Whether a reader has stopped before the tokens that are replaced, other than for lack of
levels. -/
def Reply.Settled (g : Graft) : Reply α → Prop
  | .ok _ d => g.replaced < d.left
  | .error (.nestingTooDeep _ _) _ => False
  | .error _ d => g.replaced < d.left

/-- A reader that is settled has stopped before the tokens that are replaced. -/
theorem Reply.Settled.lt {r : Reply α} (h : r.Settled g) : g.replaced < r.cursor.left := by
  match r with
  | .ok _ _ => exact h
  | .error (.illegalSymbol _ _) _ => exact h
  | .error (.unterminatedLiteral _ _) _ => exact h
  | .error (.unexpectedToken _ _ _) _ => exact h
  | .error (.invalidNumeral _ _) _ => exact h

theorem Reply.left_close (r : Reply α) : r.close.cursor.left = r.cursor.left := by
  cases r <;> rfl

theorem Reply.settled_close {r : Reply α} : r.close.Settled g ↔ r.Settled g := by
  rcases r with _ | ⟨e, d⟩
  · rfl
  · cases e <;> rfl

/-- A level is closed in the same way whatever stands behind. -/
theorem Reply.close_graft (r : Reply α) : (r.graft g).close = r.close.graft g := by
  cases r <;> rfl

namespace Cursor

variable {c : Cursor}

/-- A cursor in front of the replaced tokens keeps its first token. -/
theorem exists_graft_eq_cons (inside : g.replaced < c.left) : ∃ t rest, c.tokens = t :: rest ∧
    (c.graft g).tokens = t :: (rest.take (rest.length - g.replaced) ++ g.tokens) := by
  obtain ⟨tokens, place, depth, limit⟩ := c
  cases tokens with
  | nil => exact absurd inside (Nat.not_lt_zero _)
  | cons t rest =>
    have inside : g.replaced < rest.length + 1 := inside
    refine ⟨t, rest, rfl, ?_⟩
    show (t :: rest).take (rest.length + 1 - g.replaced) ++ g.tokens = _
    rw [Nat.succ_sub (Nat.le_of_lt_succ inside), List.take_succ_cons, List.cons_append]

theorem current_graft (inside : g.replaced < c.left) : (c.graft g).current = c.current := by
  obtain ⟨t, rest, front, same⟩ := exists_graft_eq_cons inside
  rw [current, current, front, same]
  rfl

/-- To go on by a token keeps the replaced tokens where they are. -/
theorem advance_graft (inside : g.replaced < c.left) :
    (c.graft g).advance = c.advance.graft g := by
  obtain ⟨t, rest, front, same⟩ := exists_graft_eq_cons inside
  obtain ⟨tokens, place, depth, limit⟩ := c
  cases show tokens = t :: rest from front
  unfold advance
  rw [same]
  rfl

/-- The token behind the current one is kept if it is not replaced. -/
theorem following_graft (inside : g.replaced + 1 < c.left) :
    (c.graft g).following = c.following := by
  have later : g.replaced < c.advance.left := by
    simp only [left, advance, List.length_tail] at inside ⊢
    omega
  rw [← current_advance, advance_graft (Nat.lt_of_succ_lt inside), current_graft later,
    current_advance]

/-- Line ends are skipped in the same way if they end before the replaced tokens. -/
theorem skipNewLines_graft (inside : g.replaced < c.skipNewLines.left) :
    (c.graft g).skipNewLines = c.skipNewLines.graft g := by
  induction left : c.left using Nat.strongRecOn generalizing c with
  | ind n ih =>
    subst left
    have here := Nat.lt_of_lt_of_le inside c.left_skipNewLines_le
    by_cases first : c.current.kind = .newLine
    · rw [skipNewLines_of_newLine first] at inside ⊢
      rw [skipNewLines_of_newLine (by rwa [current_graft here]), advance_graft here]
      exact ih _ (left_advance_lt (by simp [first])) inside rfl
    · rw [skipNewLines_of_ne first, skipNewLines_of_ne (by rwa [current_graft here])]

end Cursor

/-! ## Steps -/

/-- Whether a reader leaves no more tokens than it has found, and answers the same with other tokens
behind those at which it stops. -/
structure Local (g : Graft) (read : Cursor → Reply α) (c : Cursor) : Prop where
  falls : (read c).cursor.left ≤ c.left
  grafts : (read c).Settled g → read (c.graft g) = (read c).graft g

namespace Local

variable {c : Cursor} {read : Cursor → Reply α}

/-- A settled reader has begun before the replaced tokens. -/
theorem inside (h : Local g read c) (settled : (read c).Settled g) : g.replaced < c.left :=
  Nat.lt_of_lt_of_le settled.lt h.falls

/-- Readers with the same answers are local together. -/
theorem of_eq {other : Cursor → Reply α} (same : ∀ c, read c = other c) (h : Local g other c) :
    Local g read c := by
  cases funext same
  exact h

/-- An error without a look at any token is local. -/
theorem error (e : SyntaxError) (c : Cursor) : Local g (fun c => .error (α := α) e c) c :=
  ⟨Nat.le_refl _, fun _ => rfl⟩

theorem ok (a : α) (c : Cursor) : Local g (fun c => .ok a c) c := ⟨Nat.le_refl _, fun _ => rfl⟩

theorem refusal (expected : Expected) (c : Cursor) :
    Local g (fun c => c.refusal (α := α) expected) c := by
  refine ⟨Nat.le_refl _, fun settled => ?_⟩
  rw [Cursor.refusal, Cursor.current_graft settled]
  rfl

/-- What is local behind a token is local in front of it. -/
theorem advance (h : Local g read c.advance) : Local g (fun c => read c.advance) c := by
  refine ⟨Nat.le_trans h.falls c.left_advance_le, fun settled => ?_⟩
  rw [Cursor.advance_graft (Nat.lt_of_lt_of_le (h.inside settled) c.left_advance_le)]
  exact h.grafts settled

/-- Line ends may be skipped in front of a reader that is local. -/
theorem skipNewLines (h : Local g read c.skipNewLines) :
    Local g (fun c => read c.skipNewLines) c := by
  refine ⟨Nat.le_trans h.falls c.left_skipNewLines_le, fun settled => ?_⟩
  rw [Cursor.skipNewLines_graft (h.inside settled)]
  exact h.grafts settled

/-- A reader may decide by the current token, and by the one behind it if it would not stop in front
of the current one for another choice. -/
theorem lookahead (read : Token → Token → Cursor → Reply α)
    (each : ∀ t, Local g (read c.current t) c)
    (stops : c.left = g.replaced + 1 → (read c.current c.following c).Settled g →
      ∀ t, read c.current t c = read c.current c.following c) :
    Local g (fun c => read c.current c.following c) c := by
  refine ⟨(each c.following).falls, fun settled => ?_⟩
  have inside := (each c.following).inside settled
  rw [Cursor.current_graft inside]
  by_cases last : c.left = g.replaced + 1
  · have same := stops last settled (c.graft g).following
    rw [← same] at settled ⊢
    exact (each _).grafts settled
  · rw [Cursor.following_graft (by omega)]
    exact (each _).grafts settled

/-- A reader may look at the current token. -/
theorem current (read : Token → Cursor → Reply α) (h : Local g (read c.current) c) :
    Local g (fun c => read c.current c) c :=
  lookahead (fun t _ => read t) (fun _ => h) fun _ _ _ => rfl

/-- Two readers in a row are local when both are. The first one is settled if the whole is, since
the second leaves no more tokens than it finds. -/
theorem andThen {next : α → Cursor → Reply β} (first : Local g read c)
    (second : ∀ a d, d.left ≤ c.left → Local g (next a) d) :
    Local g (fun c => (read c).andThen next) c := by
  obtain ⟨falls, grafts⟩ := first
  cases answer : read c with
  | ok a d =>
    rw [answer] at falls grafts
    -- The second reader is looked at only where the first one has left fewer tokens or as many.
    have later := second a d falls
    have whole : (read c).andThen next = next a d := by rw [answer]; rfl
    constructor
    · show ((read c).andThen next).cursor.left ≤ c.left
      rw [whole]
      exact Nat.le_trans later.falls falls
    · show ((read c).andThen next).Settled g → (read (c.graft g)).andThen next = _
      rw [whole]
      intro settled
      rw [grafts (later.inside settled)]
      exact later.grafts settled
  | error e d =>
    rw [answer] at falls grafts
    have whole : (read c).andThen next = .error e d := by rw [answer]; rfl
    constructor
    · show ((read c).andThen next).cursor.left ≤ c.left
      rw [whole]
      exact falls
    · show ((read c).andThen next).Settled g → (read (c.graft g)).andThen next = _
      rw [whole]
      intro settled
      -- An error is the same error whatever type the answer would have had.
      have same : @Reply.Settled α g (.error e d) := by cases e <;> exact settled
      rw [grafts same]
      rfl

/-- What is done to the answer keeps a reader local. -/
theorem map (f : α → β) (h : Local g read c) : Local g (fun c => (read c).map f) c :=
  h.andThen fun a d _ => ok (f a) d

/-- A reader may choose by the kind of the current token. -/
theorem ifCurrent {kind : TokenKind} {yes no : Cursor → Reply α}
    (first : c.current.kind = kind → Local g yes c) (second : Local g no c) :
    Local g (fun c => if c.current.kind = kind then yes c else no c) c := by
  refine current (fun t c => if t.kind = kind then yes c else no c) ?_
  by_cases found : c.current.kind = kind
  · simp only [found, if_true]
    exact first found
  · simp only [found, if_false]
    exact second

/-- A reader behind an expected token is local when it is local there. -/
theorem expecting {kind : TokenKind} {next : Cursor → Reply α}
    (h : c.current.kind = kind → Local g next c.advance) :
    Local g (fun c => c.expecting kind next) c :=
  ifCurrent (fun found => (h found).advance) (refusal ..)

theorem expectingIdentifier {next : String → Cursor → Reply α}
    (h : ∀ name, c.current.kind = .identifier name → Local g (next name) c.advance) :
    Local g (fun c => c.expectingIdentifier next) c := by
  refine current (Cursor.identifierAt next) ?_
  unfold Cursor.identifierAt
  cases found : c.current.kind with
  | identifier name => exact (h name found).advance
  | _ => exact refusal ..

/-- A reader within a level is local when it is local one level deeper. -/
theorem deeper {body : Cursor → Reply α} (h : Local g body (c.under 1)) :
    Local g (fun c => c.deeper body) c := by
  by_cases full : c.limit ≤ c.depth
  -- Whether there is room for a level does not depend on the tokens, so the graft does not change
  -- it.
  · have whole : c.deeper body = .error (.nestingTooDeep c.limit c.current.location) c :=
      if_pos full
    constructor
    · show (c.deeper body).cursor.left ≤ c.left
      rw [whole]
      exact Nat.le_refl _
    · show (c.deeper body).Settled g → _
      rw [whole]
      exact False.elim
  · have whole : c.deeper body = (body (c.under 1)).close := if_neg full
    have other : (c.graft g).deeper body = (body ((c.under 1).graft g)).close := if_neg full
    constructor
    · show (c.deeper body).cursor.left ≤ c.left
      rw [whole, Reply.left_close]
      exact h.falls
    · show (c.deeper body).Settled g → (c.graft g).deeper body = (c.deeper body).graft g
      rw [whole, other, Reply.settled_close]
      intro settled
      rw [h.grafts settled, Reply.close_graft]

end Local

/-! ## Readers -/

namespace Cursor

variable {c : Cursor}

/-- By induction on the tokens left, which a name makes fewer. -/
theorem parametersFrom_local (before : List String) (c : Cursor) :
    Local g (fun c => (c.parametersFrom before).val) c := by
  induction left : c.left using Nat.strongRecOn generalizing c before with
  | ind n ih =>
    subst left
    refine .of_eq (val_parametersFrom before) (.expectingIdentifier fun name first => ?_)
    have less : c.advance.advance.left < c.left :=
      Nat.lt_of_le_of_lt (left_advance_le _) (left_advance_lt (by simp [first]))
    exact .ifCurrent (fun _ => (ih _ less _ _ rfl).advance) (.expecting fun _ => .ok ..)

/-- Parameters are read by what is local. -/
theorem parameters_local (c : Cursor) : Local g (fun c => c.parameters.val) c :=
  .of_eq val_parameters (.ifCurrent (fun _ => (Local.ok ..).advance) (parametersFrom_local ..))

/-! ## In front of an identifier -/

/-- What follows a reader leaves no more than the reader does if it leaves no more than it finds. -/
theorem left_andThen_le {r : Reply α} {next : α → Cursor → Reply β}
    (falls : ∀ a d, (next a d).cursor.left ≤ d.left) :
    (r.andThen next).cursor.left ≤ r.cursor.left := by
  cases r with
  | ok a d => exact falls a d
  | error e d => exact Nat.le_refl _

/-- A name in front is taken by every atom that begins with it. -/
theorem left_atom_le {name : String} (first : c.current.kind = .identifier name) :
    c.atom.val.cursor.left ≤ c.advance.left := by
  rw [val_atom]
  simp only [first]
  split
  · refine Nat.le_trans (left_andThen_le fun _ _ => Nat.le_refl _) ?_
    exact Nat.le_trans c.advance.advance.arguments.property c.advance.left_advance_le
  · exact Nat.le_refl _

/-- A chain takes at least its first operand. -/
theorem left_chain_le_left_firstOperand (level : Level) (c : Cursor) :
    (c.chain level).val.cursor.left ≤ (c.firstOperand level).val.cursor.left := by
  rw [val_chain]
  exact left_andThen_le fun left d => (d.folds level left).property

/-- A chain takes the identifier that it begins with. -/
theorem left_chain_le {name : String} (first : c.current.kind = .identifier name) :
    (c.chain .comparison).val.cursor.left ≤ c.advance.left := by
  have powers : (c.chain .power).val.cursor.left ≤ c.advance.left := by
    refine Nat.le_trans (left_chain_le_left_firstOperand ..) ?_
    rw [val_firstOperand]
    exact left_atom_le first
  have products : (c.chain .multiplicative).val.cursor.left ≤ c.advance.left := by
    refine Nat.le_trans (left_chain_le_left_firstOperand ..) ?_
    rw [val_firstOperand, val_signed]
    simp only [first]
    exact powers
  have sums : (c.chain .additive).val.cursor.left ≤ c.advance.left := by
    refine Nat.le_trans (left_chain_le_left_firstOperand ..) ?_
    rw [val_firstOperand]
    exact products
  refine Nat.le_trans (left_chain_le_left_firstOperand ..) ?_
  rw [val_firstOperand]
  exact sums

/-- A reader that takes the last token not replaced has not stopped before those replaced. -/
theorem not_settled_of_taken {r : Reply α} (last : c.left = g.replaced + 1)
    (taken : r.cursor.left ≤ c.advance.left) : ¬ r.Settled g := by
  intro settled
  have inside := settled.lt
  simp only [left, advance, List.length_tail] at last taken inside
  omega

/-- To make something of a value takes no tokens. -/
theorem left_map_le (f : α → β) (r : Reply α) : (r.map f).cursor.left ≤ r.cursor.left :=
  left_andThen_le fun _ _ => Nat.le_refl _

/-- An expression takes the word of a function that it begins with, or reports too many levels. -/
theorem not_settled_function (first : c.current.kind = .functionWord)
    (last : c.left = g.replaced + 1) (f : Expr → β) : ¬ (c.expression.val.map f).Settled g := by
  rw [val_expression, deeper]
  split
  · exact id
  · refine not_settled_of_taken last (Nat.le_trans (left_map_le ..) ?_)
    simp only [current_under, first, Reply.left_close]
    exact Nat.le_trans (left_map_le ..) ((c.under 1).advance.functionRest none).property

/-! ## Readers that call each other -/

/-- All readers at a cursor look no further than they stop. -/
structure Locals (g : Graft) (c : Cursor) : Prop where
  signed : Local g (fun c => c.signed.val) c
  chain : ∀ level, Local g (fun c => (c.chain level).val) c
  folds : ∀ level left, Local g (fun c => (c.folds level left).val) c
  arguments : Local g (fun c => c.arguments.val) c
  argumentsFrom : ∀ before, Local g (fun c => (c.argumentsFrom before).val) c
  expression : Local g (fun c => c.expression.val) c
  block : Local g (fun c => c.block.val) c
  functionRest : ∀ name, Local g (fun c => (c.functionRest name).val) c
  statementsFrom : ∀ stop before, Local g (fun c => (c.statementsFrom stop before).val) c

/-- A later operand is one of the readers that are local already. -/
theorem Locals.laterOperand (h : Locals g c) (level : Level) :
    Local g (fun c => (c.laterOperand level).val) c := by
  refine .of_eq (val_laterOperand level) ?_
  cases level with
  | comparison => exact h.chain .additive
  | additive => exact h.chain .multiplicative
  | multiplicative | power => exact h.signed

section

variable {n : Nat} (fewer : ∀ c : Cursor, c.left < n → Locals g c)
include fewer

/-- An atom looks one token ahead behind a name only, and there the name has been taken. -/
theorem atom_local (few : c.left ≤ n) : Local g (fun c => c.atom.val) c := by
  refine .of_eq val_atom (.lookahead atomAt ?_ ?_)
  · intro u
    unfold atomAt
    cases first : c.current.kind with
    | number text =>
      cases read : Numeral.ofText? text with
      | some numeral =>
        simp only [read]
        exact (Local.ok ..).advance
      | none =>
        simp only [read]
        exact (Local.error ..).advance
    | identifier name =>
      have less : c.advance.advance.left < n := by
        have := left_advance_lt (c := c) (by simp [first])
        have := c.advance.left_advance_le
        omega
      by_cases called : u.kind = .leftParen
      · simp only [called, if_true]
        exact ((fewer _ less).arguments.map _).advance.advance
      · simp only [called, if_false]
        exact (Local.ok ..).advance
    | leftParen =>
      have less : c.advance.left < n := by
        have := left_advance_lt (c := c) (by simp [first])
        omega
      exact ((fewer _ less).expression.andThen fun e d _ => .expecting fun _ => .ok ..).advance
    | _ => exact .refusal ..
  -- Only behind a name does the next token matter, and an atom that is a name has taken it.
  · intro last settled u
    unfold atomAt at settled ⊢
    cases first : c.current.kind with
    | identifier name =>
      refine absurd settled (not_settled_of_taken last ?_)
      have taken := left_atom_le first
      rw [val_atom] at taken
      exact taken
    | _ => rfl

/-- A fold is local when what stands behind its operator is, which is one token further on. -/
theorem folds_local (level : Level) (left : Expr) (few : c.left ≤ n) :
    Local g (fun c => (c.folds level left).val) c := by
  refine .of_eq (val_folds level left) (.current (foldsAt level left) ?_)
  unfold foldsAt
  cases found : level.operator? c.current.kind with
  | none => exact .ok ..
  | some op =>
    have less : (c.under 1).advance.left < n :=
      Nat.lt_of_lt_of_le (left_advance_lt (c := c) (Level.ne_endOfText found)) few
    have rest : Local g (fun d => (d.laterOperand level).val.andThen fun right e =>
        (e.folds level (.binary op left right)).val) (c.under 1).advance :=
      ((fewer _ less).laterOperand level).andThen fun right d le =>
        (fewer d (Nat.lt_of_le_of_lt le less)).folds ..
    exact .deeper rest.advance

/-- A chain is local when its first operand is. -/
theorem chain_local_of_operand (level : Level) (few : c.left ≤ n)
    (operand : Local g (fun c => (c.firstOperand level).val) c) :
    Local g (fun c => (c.chain level).val) c :=
  .of_eq (val_chain level) (operand.andThen fun left _ le =>
    folds_local fewer level left (Nat.le_trans le few))

/-- A sign takes its token, so what it stands in front of is local by induction. -/
theorem signed_local (few : c.left ≤ n) : Local g (fun c => c.signed.val) c := by
  have sign (op : UnaryOp) (first : c.current.kind = op.token) :
      Local g (fun c => c.advance.deeper fun d => d.signed.val.map (Expr.unary op)) c := by
    have less : (c.advance.under 1).left < n :=
      Nat.lt_of_lt_of_le (left_advance_lt (c := c) (first ▸ op.token_ne_endOfText)) few
    exact (Local.deeper ((fewer _ less).signed.map _)).advance
  refine .of_eq val_signed (.current signedAt ?_)
  unfold signedAt
  cases first : c.current.kind with
  | plus => exact sign .plus first
  | minus => exact sign .minus first
  | _ =>
    exact chain_local_of_operand fewer .power few
      (.of_eq (val_firstOperand .power) (atom_local fewer few))

/-- Chains are local level by level, from the powers up. -/
theorem chain_local (level : Level) (few : c.left ≤ n) :
    Local g (fun c => (c.chain level).val) c := by
  have products : Local g (fun c => (c.chain .multiplicative).val) c :=
    chain_local_of_operand fewer _ few (.of_eq (val_firstOperand _) (signed_local fewer few))
  have sums : Local g (fun c => (c.chain .additive).val) c :=
    chain_local_of_operand fewer _ few (.of_eq (val_firstOperand _) products)
  cases level with
  | comparison => exact chain_local_of_operand fewer _ few (.of_eq (val_firstOperand _) sums)
  | additive => exact sums
  | multiplicative => exact products
  | power =>
    exact chain_local_of_operand fewer _ few
      (.of_eq (val_firstOperand _) (atom_local fewer few))

/-- What an expression is read as once its level is open. -/
theorem opened_local (few : c.left ≤ n) :
    Local g (fun c => openedAt c.current c.following c) c := by
  have assignment {name : String} (first : c.current.kind = .identifier name) :
      Local g (fun c => c.expecting .assign fun d => d.expression.val.map (Expr.assign name))
        c.advance := by
    have less : c.advance.advance.left < n := by
      have := left_advance_lt (c := c) (by simp [first])
      have := c.advance.left_advance_le
      omega
    exact .expecting fun _ => (fewer _ less).expression.map _
  refine .lookahead openedAt (fun u => ?_) fun last settled u => ?_
  · unfold openedAt
    cases first : c.current.kind with
    | identifier name =>
      cases u.kind with
      | assign => exact (assignment first).advance
      | _ => exact chain_local fewer .comparison few
    | functionWord =>
      have less := Nat.lt_of_lt_of_le (left_advance_lt (c := c) (by simp [first])) few
      exact (((fewer _ less).functionRest none).map _).advance
    | _ => exact chain_local fewer .comparison few
  · unfold openedAt at settled ⊢
    cases first : c.current.kind with
    | identifier name =>
      refine absurd settled (not_settled_of_taken last ?_)
      rw [first]
      cases c.following.kind with
      | assign => exact (assignment first).falls
      | _ => exact left_chain_le first
    | _ => rfl

/-- An expression is local when what it opens a level for is. -/
theorem expression_local (few : c.left ≤ n) : Local g (fun c => c.expression.val) c :=
  .of_eq val_expression (.deeper (opened_local fewer few))

/-- Each argument makes the tokens left fewer. -/
theorem argumentsFrom_local (before : List Expr) (few : c.left ≤ n) :
    Local g (fun c => (c.argumentsFrom before).val) c := by
  refine .of_eq (val_argumentsFrom before) (.andThen (expression_local fewer few) ?_)
  intro e d le
  refine .ifCurrent (fun comma => ?_) (.expecting fun _ => .ok ..)
  have less : d.advance.left < n := by
    have := left_advance_lt (c := d) (by simp [comma])
    omega
  exact ((fewer _ less).argumentsFrom _).advance

theorem arguments_local (few : c.left ≤ n) : Local g (fun c => c.arguments.val) c :=
  .of_eq val_arguments
    (.ifCurrent (fun _ => (Local.ok ..).advance) (argumentsFrom_local fewer _ few))

/-- A block takes its brace before it reads statements. -/
theorem block_local (few : c.left ≤ n) : Local g (fun c => c.block.val) c := by
  refine .of_eq val_block (.expecting fun opening => ?_)
  have less : (c.advance.under 1).skipNewLines.left < n := by
    have := left_advance_lt (c := c) (by simp [opening])
    have := (c.advance.under 1).left_skipNewLines_le
    rw [left_under] at this
    omega
  have body := ((fewer _ less).statementsFrom .rightBrace []).skipNewLines
  exact body.deeper.andThen fun body d _ => .expecting fun _ => .ok ..

/-- What a function has behind its name takes its parenthesis before it reads a block. -/
theorem functionRest_local (name : Option String) (few : c.left ≤ n) :
    Local g (fun c => (c.functionRest name).val) c := by
  refine .of_eq (val_functionRest name) (.expecting fun opening => ?_)
  refine (parameters_local _).andThen fun parameters d le => ?_
  have less : d.left < n := by
    have := left_advance_lt (c := c) (by simp [opening])
    omega
  exact (fewer _ less).block.map _

/-- A statement takes its first word before it reads the rest, or is an expression or a block. -/
theorem statement_local (few : c.left ≤ n) : Local g (fun c => c.statement.val) c := by
  have bare : Local g (fun c => c.expression.val.map Stmt.expression) c :=
    (expression_local fewer few).map _
  have less {kind : TokenKind} (first : c.current.kind = kind) (more : kind ≠ .endOfText) :
      c.advance.left < n := Nat.lt_of_lt_of_le (left_advance_lt (first ▸ more)) few
  have declaration (first : c.current.kind = .functionWord) : Local g declared c.advance := by
    refine .expectingIdentifier fun name _ => ?_
    have later := Nat.lt_of_le_of_lt c.advance.left_advance_le (less first nofun)
    exact ((fewer _ later).functionRest _).map _
  refine .of_eq val_statement (.lookahead statementAt (fun u => ?_) fun last settled u => ?_)
  · unfold statementAt
    cases first : c.current.kind with
    | functionWord =>
      cases u.kind with
      | identifier => exact (declaration first).advance
      | _ => exact bare
    | ifWord =>
      have later := Nat.lt_of_le_of_lt c.advance.left_advance_le (less first nofun)
      refine .advance (.expecting fun _ => (fewer _ later).expression.andThen fun condition e le =>
        .expecting fun _ => .map _ (fewer _ ?_).block)
      exact Nat.lt_of_le_of_lt (Nat.le_trans e.left_advance_le le) later
    | returnWord => exact ((fewer _ (less first nofun)).expression.map _).advance
    | leftBrace => exact (block_local fewer few).map _
    | _ => exact bare
  · unfold statementAt at settled ⊢
    cases first : c.current.kind with
    | functionWord =>
      refine absurd settled ?_
      rw [first]
      cases c.following.kind with
      | identifier => exact not_settled_of_taken last (declaration first).falls
      | _ => exact not_settled_function first last _
    | _ => rfl

/-- Statements take a token with each statement or line end. -/
theorem statementsFrom_local (stop : TokenKind) (before : List Stmt) (few : c.left ≤ n) :
    Local g (fun c => (c.statementsFrom stop before).val) c := by
  refine .of_eq (val_statementsFrom stop before) (.ifCurrent (fun _ => .ok ..) ?_)
  refine (statement_local fewer few).andThen fun s d le => ?_
  refine .ifCurrent (fun _ => .ok ..) (.expecting fun line => ?_)
  have less : d.advance.skipNewLines.left < n := by
    have := left_advance_lt (c := d) (by simp [line])
    have := d.advance.left_skipNewLines_le
    omega
  exact ((fewer _ less).statementsFrom ..).skipNewLines

end

/-- Every reader looks no further than it stops. -/
theorem locals (g : Graft) (c : Cursor) : Locals g c := by
  induction h : c.left using Nat.strongRecOn generalizing c with
  | ind n ih =>
    subst h
    have fewer (d : Cursor) (less : d.left < c.left) : Locals g d := ih _ less d rfl
    exact {
      signed := signed_local fewer (Nat.le_refl _)
      chain := fun level => chain_local fewer level (Nat.le_refl _)
      folds := fun level left => folds_local fewer level left (Nat.le_refl _)
      arguments := arguments_local fewer (Nat.le_refl _)
      argumentsFrom := fun before => argumentsFrom_local fewer before (Nat.le_refl _)
      expression := expression_local fewer (Nat.le_refl _)
      block := block_local fewer (Nat.le_refl _)
      functionRest := fun name => functionRest_local fewer name (Nat.le_refl _)
      statementsFrom := fun stop before => statementsFrom_local fewer stop before (Nat.le_refl _) }

end Cursor
end Scriptlet
