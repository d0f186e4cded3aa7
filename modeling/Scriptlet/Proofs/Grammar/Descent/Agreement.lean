import Scriptlet.Proofs.Grammar.Descent.Follows
import Scriptlet.Proofs.Grammar.Readers

/-!
# The descent does what the readers do

Each routine follows its reader with room enough (`Callable`), by induction on the room
(`callable`). A routine at a token calls others at the same token in a fixed order only, and no more
than 32 of them before it takes a token, so the room it needs is bounded by the number of tokens left.
So whatever a parser is asked for, one thing after the other, it answers as the readers do
(`readEach_follows`).
-/

namespace Scriptlet

open Cursor Parse

variable {α : Type} {bound : Nat} {c d e : Cursor}

/-! ## Routines -/

/-- What the loop of a chain does: it ends as the reader answers, but leaves some levels open and says
how many these are, along with those that it has been told of. -/
structure FollowsFolds (bound : Nat) (level : Level) (left : Expr) (count : Nat) (c : Cursor)
    (r : Reply Expr) : Prop where
  does : ∃ more, Does bound (read · (.folds level left count)) c (.ok (r.outcome, count + more))
    (r.cursor.under more)
  depth_eq : r.cursor.depth = c.depth

/-- An operator opens a level, and what the operand behind it comes to decides how the loop goes on. -/
theorem Does.folds {level : Level} {op : BinaryOp}
    (found : level.operator? c.current.kind = some op) (room : c.depth < c.limit) {left : Expr}
    {count : Nat} {o : Except SyntaxError Expr} {result : Except SyntaxError Expr × Nat}
    (operand : Does bound (fun room => laterOperand (read room) level) (c.under 1).advance o d)
    (goesOn : Does bound (fun room => match o with
      | .ok right => read room (.folds level (.binary op left right) (count + 1))
      | .error x => Pure.pure (.error x, count + 1)) d (.ok result) e) :
    Does (bound + 1) (read · (.folds level left count)) c (.ok result) e := by
  refine .body (Does.current.bind ?_)
  simp only [found]
  have more : (c.under 1).current.kind ≠ .endOfText := Level.ne_endOfText found
  refine (Does.enter room).attempt.bind ((Does.advance more).bind (operand.attempt.bind ?_))
  cases o <;> exact goesOn

/-- Routines that may be called with some room do what the readers do. The bounds are in the order in
which routines call each other at the same token. -/
structure Callable (bound : Nat) : Prop where
  newLines : ∀ {c : Cursor}, 32 * c.left < bound →
    Follows bound (read · .newLines) c (.ok () c.skipNewLines)
  parametersFrom : ∀ before {c : Cursor}, 32 * c.left < bound →
    Follows bound (read · (.parametersFrom before)) c (c.parametersFrom before).val
  atom : ∀ {c : Cursor}, 32 * c.left < bound → Follows bound (read · .atom) c c.atom.val
  folds : ∀ level left count {c : Cursor}, 32 * c.left < bound →
    FollowsFolds bound level left count c (c.folds level left).val
  signed : ∀ {c : Cursor}, 32 * c.left + 3 < bound → Follows bound (read · .signed) c c.signed.val
  chain : ∀ level {c : Cursor}, 32 * c.left + level.height + 1 < bound →
    Follows bound (read · (.chain level)) c (c.chain level).val
  expression : ∀ {c : Cursor}, 32 * c.left + 10 < bound →
    Follows bound (read · .expression) c c.expression.val
  argumentsFrom : ∀ before {c : Cursor}, 32 * c.left + 11 < bound →
    Follows bound (read · (.argumentsFrom before)) c (c.argumentsFrom before).val
  block : ∀ {c : Cursor}, 32 * c.left + 11 < bound → Follows bound (read · .block) c c.block.val
  functionRest : ∀ name {c : Cursor}, 32 * c.left + 11 < bound →
    Follows bound (read · (.functionRest name)) c (c.functionRest name).val
  statement : ∀ {c : Cursor}, 32 * c.left + 12 < bound →
    Follows bound (read · .statement) c c.statement.val
  statementsFrom : ∀ stop before {c : Cursor}, 32 * c.left + 13 < bound →
    Follows bound (read · (.statementsFrom stop before)) c (c.statementsFrom stop before).val
  statements : ∀ stop {c : Cursor}, 32 * c.left + 14 < bound →
    Follows bound (read · (.statements stop)) c (c.statements stop)

namespace Callable

variable (k : Callable bound)
include k

/-- Line ends are passed over one by one; each takes a token. -/
theorem newLines_body (within : 32 * c.left ≤ bound) :
    Follows bound (fun room => Routine.newLines.body (read room)) c (.ok () c.skipNewLines) := by
  refine .nextIf nofun (fun first => ?_) fun other => ?_
  · have less := left_advance_lt (c := c) (first ▸ nofun)
    rw [skipNewLines_of_newLine first]
    exact k.newLines (by omega)
  · rw [skipNewLines_of_ne other]
    exact .ok () c

/-- Lines are skipped, and then something else goes on. -/
theorem behindLines {y : Nat → Parse α} {r : Reply α} (within : 32 * c.left < bound)
    (later : Follows bound y c.skipNewLines r) :
    Follows bound (fun room => read room .newLines >>= fun _ => y room) c r :=
  .behind (y := fun _ => y) (k.newLines within).does rfl later

/-- Statements are what is read from the first token that ends no line. -/
theorem statements_body (stop : TokenKind) (within : 32 * c.left + 14 ≤ bound) :
    Follows bound (fun room => (Routine.statements stop).body (read room)) c
      (c.statements stop) := by
  have few := c.left_skipNewLines_le
  exact k.behindLines (by omega) (k.statementsFrom stop [] (by omega))

/-- Each statement is read in turn, and the line ends behind it. -/
theorem statementsFrom_body (stop : TokenKind) (before : List Stmt)
    (within : 32 * c.left + 13 ≤ bound) :
    Follows bound (fun room => (Routine.statementsFrom stop before).body (read room)) c
      (c.statementsFrom stop before).val := by
  rw [val_statementsFrom]
  refine .current ?_
  by_cases ends : c.current.kind = stop
  · simp only [ends, if_true]
    exact .ok _ c
  · simp only [ends, if_false]
    refine (k.statement (by omega)).andThen fun s d read => .current ?_
    have few : d.left ≤ c.left := left_le_of_val_eq_ok read
    by_cases ends : d.current.kind = stop
    · simp only [ends, if_true]
      exact .ok _ d
    · simp only [ends, if_false]
      refine .expecting nofun fun line => ?_
      have less := left_advance_lt (c := d) (line ▸ nofun)
      have fewer := d.advance.left_skipNewLines_le
      exact k.behindLines (by omega) (k.statementsFrom stop _ (by omega))

/-- A block is its statements one level deeper, between the braces. -/
theorem block_body (within : 32 * c.left + 11 ≤ bound) :
    Follows bound (fun room => Routine.block.body (read room)) c c.block.val := by
  rw [val_block]
  refine .expecting nofun fun opening => ?_
  have less := left_advance_lt (c := c) (opening ▸ nofun)
  refine Follows.andThen (.nested (f := fun d => d.statements .rightBrace) ?_) fun body d _ => ?_
  · exact k.statements .rightBrace (by simp only [left_under]; omega)
  · exact .expecting nofun fun _ => .ok body _

/-- A function is its parameters and its block. -/
theorem functionRest_body (name : Option String) (within : 32 * c.left + 11 ≤ bound) :
    Follows bound (fun room => (Routine.functionRest name).body (read room)) c
      (c.functionRest name).val := by
  rw [val_functionRest]
  refine .expecting nofun fun opening => ?_
  have less := left_advance_lt (c := c) (opening ▸ nofun)
  rw [val_parameters]
  refine (Follows.sequence (f := fun d => (d.parametersFrom []).val)
    (k.parametersFrom [] (c := c.advance) (by omega))).andThen fun parameters d read => ?_
  rw [← val_parameters] at read
  have few : d.left ≤ c.advance.left := left_le_of_val_eq_ok read
  exact .map _ (k.block (by omega))

/-- Each name is followed by a comma or by the closing parenthesis. -/
theorem parametersFrom_body (before : List String) (within : 32 * c.left ≤ bound) :
    Follows bound (fun room => (Routine.parametersFrom before).body (read room)) c
      (c.parametersFrom before).val := by
  rw [val_parametersFrom, expectingIdentifier_eq_andThen]
  refine Follows.sequenceFrom (y := fun before room => read room (.parametersFrom before))
    (f := fun before d => (d.parametersFrom before).val) .identifier ?_
  intro name d read comma
  obtain ⟨_, first, ended⟩ := expectingIdentifier_eq_ok.mp read
  cases ended
  have less := left_advance_lt (c := c) (first ▸ nofun)
  have fewer := c.advance.left_advance_le
  exact k.parametersFrom _ (by omega)

/-- Each argument is followed by a comma or by the closing parenthesis. -/
theorem argumentsFrom_body (before : List Expr) (within : 32 * c.left + 11 ≤ bound) :
    Follows bound (fun room => (Routine.argumentsFrom before).body (read room)) c
      (c.argumentsFrom before).val := by
  rw [val_argumentsFrom]
  refine Follows.sequenceFrom (y := fun before room => read room (.argumentsFrom before))
    (f := fun before d => (d.argumentsFrom before).val) (k.expression (c := c) (by omega)) ?_
  intro e d read comma
  have few : d.left ≤ c.left := left_le_of_val_eq_ok read
  have less := left_advance_lt (c := d) (comma ▸ nofun)
  exact k.argumentsFrom _ (by omega)

/-- The first operand of a chain is an atom, a signed operand or a chain of a level less high. -/
theorem firstOperand_follows (level : Level) (within : 32 * c.left + level.height < bound) :
    Follows bound (fun room => firstOperand (read room) level) c (c.firstOperand level).val := by
  rw [val_firstOperand]
  cases level with
  | comparison => exact k.chain .additive (by simp only [Level.height] at within ⊢; omega)
  | additive => exact k.chain .multiplicative (by simp only [Level.height] at within ⊢; omega)
  | multiplicative => exact k.signed (by simp only [Level.height] at within ⊢; omega)
  | power => exact k.atom (by simp only [Level.height] at within ⊢; omega)

/-- A later operand is a signed operand or a chain of a tighter level. -/
theorem laterOperand_follows (level : Level) (within : 32 * c.left + 8 < bound) :
    Follows bound (fun room => laterOperand (read room) level) c (c.laterOperand level).val := by
  rw [val_laterOperand]
  cases level with
  | comparison => exact k.chain .additive (by simp only [Level.height] at within ⊢; omega)
  | additive => exact k.chain .multiplicative (by simp only [Level.height] at within ⊢; omega)
  | multiplicative | power => exact k.signed (by omega)

/-- A chain gives back the levels that its loop has left open. -/
theorem chain_body (level : Level) (within : 32 * c.left + level.height + 1 ≤ bound) :
    Follows bound (fun room => (Routine.chain level).body (read room)) c (c.chain level).val := by
  rw [val_chain]
  refine (k.firstOperand_follows level (by omega)).andThen fun left d read => ?_
  have few : d.left ≤ c.left := left_le_of_val_eq_ok read
  obtain ⟨⟨more, does⟩, same⟩ := k.folds level left 0 (c := d) (by omega)
  rw [Nat.zero_add] at does
  exact ⟨does.bind ((Does.leave more).bind .settle), same⟩

/-- The loop of a chain takes an operator, opens a level and reads an operand each time. -/
theorem folds_body (level : Level) (left : Expr) (count : Nat) (within : 32 * c.left ≤ bound) :
    FollowsFolds (bound + 1) level left count c (c.folds level left).val := by
  rw [val_folds]
  cases found : level.operator? c.current.kind with
  -- No operator, so the loop ends with the levels that it was told of.
  | none =>
    refine ⟨⟨0, .body (Does.current.bind ?_)⟩, rfl⟩
    simp only [found]
    exact .pure _
  | some op =>
    unfold Cursor.deeper
    -- An operator without room for its level is refused, and the refusal is the loop's outcome, not
    -- its failure: the levels opened so far are given back behind it.
    by_cases used : c.limit ≤ c.depth
    · simp only [used, if_true]
      refine ⟨⟨0, .body (Does.current.bind ?_)⟩, rfl⟩
      simp only [found]
      exact (Does.enter_refused used).attempt.bind (.pure _)
    · simp only [used, if_false]
      have room : c.depth < c.limit := Nat.lt_of_not_le used
      have less : (c.under 1).advance.left < c.left := left_advance_lt (Level.ne_endOfText found)
      obtain ⟨operand, same⟩ := k.laterOperand_follows level (c := (c.under 1).advance) (by omega)
      cases read : ((c.under 1).advance.laterOperand level).val with
      -- The operand has failed below one open level, so one is still to be given back.
      | error x d =>
        rw [read] at operand same
        refine ⟨⟨1, .folds found room operand ?_⟩, Nat.sub_eq_of_eq_add same⟩
        exact (closed_under_one (same ▸ Nat.succ_pos _ : 0 < d.depth)).symm ▸ Does.pure _
      | ok right d =>
        rw [read] at operand same
        have few : d.left ≤ (c.under 1).advance.left := left_le_of_val_eq_ok read
        -- The rest of the loop leaves some levels open, and this operator's on top of them.
        obtain ⟨⟨more, does⟩, still⟩ := k.folds level (.binary op left right) (count + 1) (c := d)
          (by omega)
        have deep := still.trans same
        change FollowsFolds _ _ _ _ _ (Reply.close (d.folds level (.binary op left right)).val)
        refine ⟨⟨more + 1, .folds found room operand ?_⟩, ?_⟩
        · rw [Reply.outcome_close, Reply.cursor_close,
            closed_under_succ_of_pos (deep ▸ Nat.succ_pos _), ← Nat.add_assoc,
            Nat.add_right_comm]
          exact does
        · rw [Reply.cursor_close]
          exact Nat.sub_eq_of_eq_add deep

/-- A sign opens a level for its operand; without one, a power is read. -/
theorem signed_body (within : 32 * c.left + 3 ≤ bound) :
    Follows bound (fun room => Routine.signed.body (read room)) c c.signed.val := by
  rw [val_signed]
  refine .current ?_
  have sign (op : UnaryOp) (first : c.current.kind = op.token) :
      Follows bound (fun room => Parse.advance >>= fun _ =>
          Parse.nested (read room .signed) >>= fun operand => Pure.pure (Expr.unary op operand)) c
        (c.advance.deeper fun d => d.signed.val.map (Expr.unary op)) := by
    have more : c.current.kind ≠ .endOfText := first ▸ op.token_ne_endOfText
    have less : (c.advance.under 1).left < c.left := left_advance_lt more
    refine .advance more ?_
    rw [deeper_map]
    exact .map _ (.nested (f := fun d => d.signed.val) (k.signed (by omega)))
  cases first : c.current.kind with
  | plus => exact sign .plus first
  | minus => exact sign .minus first
  | _ => exact k.chain .power (by simp only [Level.height]; omega)

/-- An expression is an assignment, a function or a comparison, by its first two tokens. -/
theorem expression_body (within : 32 * c.left + 10 ≤ bound) :
    Follows bound (fun room => Routine.expression.body (read room)) c c.expression.val := by
  rw [val_expression]
  refine .nested (.peek (fun _ _ => rfl) ?_)
  have same : (c.under 1).left = c.left := rfl
  have chain : Follows bound (read · (.chain .comparison)) (c.under 1)
      ((c.under 1).chain .comparison).val :=
    k.chain .comparison (by simp only [Level.height]; omega)
  cases first : (c.under 1).current.kind with
  | identifier name =>
    have less := left_advance_lt (c := c.under 1) (first ▸ nofun)
    cases second : (c.under 1).following.kind with
    | assign =>
      have fewer := (c.under 1).advance.left_advance_le
      refine .takeIdentifier first (.expecting nofun fun _ => ?_)
      exact .map _ (k.expression (by omega))
    | _ => exact chain
  | functionWord =>
    have less := left_advance_lt (c := c.under 1) (first ▸ nofun)
    exact .take first nofun (.map _ (k.functionRest none (by omega)))
  | _ => exact chain

/-- An atom is a number, a name, a call or an expression in parentheses. -/
theorem atom_body (within : 32 * c.left ≤ bound) :
    Follows bound (fun room => Routine.atom.body (read room)) c c.atom.val := by
  rw [val_atom]
  refine .peek (fun _ _ => rfl) ?_
  cases first : c.current.kind with
  | number text =>
    refine .advance (by simp [first]) ?_
    simp only [first]
    cases Numeral.ofText? text with
    | some numeral => exact .ok _ _
    | none => exact ⟨.refuse _, rfl⟩
  | identifier name =>
    have less := left_advance_lt (c := c) (by simp [first])
    have fewer := c.advance.left_advance_le
    have plain : Follows bound (fun room => Parse.identifier >>= fun name =>
        Pure.pure (Expr.variable name)) c (.ok (.variable name) c.advance) :=
      .takeIdentifier first (.ok _ _)
    cases second : c.following.kind with
    | leftParen =>
      refine .takeIdentifier first (.take second (by simp) (.map _ ?_))
      rw [val_arguments]
      exact .sequence (f := fun d => (d.argumentsFrom []).val) (k.argumentsFrom [] (by omega))
    | _ => exact plain
  | leftParen =>
    have less := left_advance_lt (c := c) (by simp [first])
    refine .take first (by simp) (.andThen (k.expression (by omega)) fun e d _ => ?_)
    exact .expecting (by simp) fun _ => .ok e _
  | _ => exact .refusal ..

/-- A statement is chosen by the word it begins with. -/
theorem statement_body (within : 32 * c.left + 12 ≤ bound) :
    Follows bound (fun room => Routine.statement.body (read room)) c c.statement.val := by
  rw [val_statement]
  refine .peek (fun _ _ => rfl) ?_
  have bare : Follows bound (fun room => read room .expression >>= fun e =>
      Pure.pure (Stmt.expression e)) c (c.expression.val.map .expression) :=
    .map _ (k.expression (by omega))
  cases first : c.current.kind with
  | functionWord =>
    cases second : c.following.kind with
    | identifier name =>
      have less := left_advance_lt (c := c) (first ▸ nofun)
      have fewer := c.advance.left_advance_le
      refine .take first nofun (.expectingIdentifier fun name _ => ?_)
      exact .map _ (k.functionRest (some name) (by omega))
    | _ => exact bare
  | ifWord =>
    have less := left_advance_lt (c := c) (first ▸ nofun)
    have fewer := c.advance.left_advance_le
    refine .take first nofun (.expecting nofun fun _ => ?_)
    refine .andThen (k.expression (by omega)) fun condition d read => .expecting nofun fun _ => ?_
    have few : d.left ≤ c.advance.advance.left := left_le_of_val_eq_ok read
    have later := d.left_advance_le
    exact .map _ (k.block (by omega))
  | returnWord =>
    have less := left_advance_lt (c := c) (first ▸ nofun)
    exact .take first nofun (.map _ (k.expression (by omega)))
  | leftBrace => exact .map _ (k.block (by omega))
  | _ => exact bare

end Callable

/-- Every routine does what its reader does, by induction on the room. -/
theorem callable (bound : Nat) : Callable bound := by
  induction bound with
  | zero => constructor <;> intros <;> omega
  | succ bound k =>
    exact {
      newLines := fun within => .body (k.newLines_body (by omega))
      parametersFrom := fun before _ within => .body (k.parametersFrom_body before (by omega))
      atom := fun within => .body (k.atom_body (by omega))
      folds := fun level left count _ within => k.folds_body level left count (by omega)
      signed := fun within => .body (k.signed_body (by omega))
      chain := fun level _ within => .body (k.chain_body level (by omega))
      expression := fun within => .body (k.expression_body (by omega))
      argumentsFrom := fun before _ within => .body (k.argumentsFrom_body before (by omega))
      block := fun within => .body (k.block_body (by omega))
      functionRest := fun name _ within => .body (k.functionRest_body name (by omega))
      statement := fun within => .body (k.statement_body (by omega))
      statementsFrom := fun stop before _ within =>
        .body (k.statementsFrom_body stop before (by omega))
      statements := fun stop _ within => .body (k.statements_body stop (by omega)) }

/-! ## Calls from outside -/

/-- A program is its statements up to the end. -/
theorem Cursor.program_eq (c : Cursor) :
    c.program = (c.statements .endOfText).map Program.mk := by
  unfold Cursor.program
  cases c.statements .endOfText <;> rfl

/-- What a parser is asked for ends as with a cursor. -/
theorem entry_follows (entry : Entry) (within : 32 * c.left + 14 < bound) :
    Follows bound (fun room => entry.read room) c (c.readEntry entry) := by
  have k := callable bound
  cases entry with
  | program =>
    unfold Cursor.readEntry
    rw [program_eq]
    have whole := (k.statements .endOfText within).map fun body => Parsed.program ⟨body⟩
    cases read : c.statements .endOfText <;> rw [read] at whole <;> exact whole
  | statement => exact .map _ (k.statement (by omega))
  | expression => exact .map _ (k.expression (by omega))
  | statements stop => exact .map _ (k.statements stop within)

/-- Steps that lead on leave no more tokens than there were. -/
theorem Cursor.Leads.left_le {steps : List Step} (leads : c.Leads steps d) : d.left ≤ c.left := by
  induction leads with
  | nil => exact Nat.le_refl _
  | advance _ _ ih => exact Nat.le_trans ih (left_advance_le _)
  | enter _ _ ih => exact ih
  | leave _ _ ih => exact ih

/-- The room that is enough for some tokens. -/
def roomFor (tokens : List Token) : Nat := 32 * tokens.length + 15

/-- An answer of a reader, as one of a parser. -/
def answer (o : Except SyntaxError α) : Except Halt α :=
  match o with
  | .ok a => .ok a
  | .error e => .error (.refused e)

/-- To read entries is to read the first and then, from where that ended, the others. -/
theorem readEach_cons {room : Nat} {entry : Entry} {rest : List Entry} {p q : Parser}
    {o : Except SyntaxError Parsed} (first : entry.read room p = ending o q) :
    readEach room (entry :: rest) p = (readEach room rest q).map (answer o :: ·) id := by
  rw [readEach, first]
  cases o <;> rfl

/-- What a parser is asked for, one thing after the other, ends as with a cursor. -/
theorem readEach_follows (entries : List Entry) (full : c.limit = maxNesting)
    (within : 32 * c.left + 14 < bound) :
    (c.readEach entries).2.depth = c.depth ∧ ∃ steps, c.Leads steps (c.readEach entries).2 ∧
      ∀ room, bound ≤ room → ∀ w record, c.ShownBy w →
        readEach room entries ⟨w, c.depth, record⟩
          = ((c.readEach entries).1.map answer, ⟨w.after steps, c.depth, record ++ steps⟩) := by
  induction entries generalizing c with
  | nil =>
    refine ⟨rfl, [], .nil c, fun room _ w record _ => ?_⟩
    rw [List.append_nil]
    rfl
  | cons entry rest ih =>
    obtain ⟨does, same⟩ := entry_follows entry within
    obtain ⟨steps, leads, runs⟩ := does full
    have few := leads.left_le
    obtain ⟨still, more, later, goesOn⟩ := ih (leads.limit_eq.trans full) (by omega)
    refine ⟨still.trans same, steps ++ more, leads.append later, fun room enough w record shown => ?_⟩
    rw [readEach_cons (runs room enough w record shown),
      goesOn room enough _ _ (leads.shownBy shown), same, Window.after_append, List.append_assoc]
    rfl

end Scriptlet
