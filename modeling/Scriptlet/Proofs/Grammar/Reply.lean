import Scriptlet.Grammar

/-!
# What readers answer

The readers of the grammar carry a bound on the tokens they leave, which lets them call each other
and still end. What they answer does not depend on the bound. Here each reader is given by an
equation between plain replies (`val_expression`, `val_folds` and so on), with the four steps
`expecting`, `expectingIdentifier`, `deeper` and `Reply.andThen` in place of those that carry
bounds. A law of a reader starts from its equation and never opens the reader itself.

A reader that looks at the current token, or at the one behind it too, is given a second time with
those tokens as arguments (`atomAt` and so on), so that a law can fix them and let the cursor vary.
-/

namespace Scriptlet

/-! ## Cursors -/

namespace Cursor

/-- The cursor `n` levels deeper, at the same token. -/
def under (n : Nat) (c : Cursor) : Cursor := { c with depth := c.depth + n }

/-- The cursor behind the level opened last. -/
def closed (c : Cursor) : Cursor := { c with depth := c.depth - 1 }

@[simp] theorem current_under (n : Nat) (c : Cursor) : (c.under n).current = c.current := rfl

@[simp] theorem following_under (n : Nat) (c : Cursor) : (c.under n).following = c.following := rfl

@[simp] theorem left_under (n : Nat) (c : Cursor) : (c.under n).left = c.left := rfl

@[simp] theorem depth_under (n : Nat) (c : Cursor) : (c.under n).depth = c.depth + n := rfl

@[simp] theorem limit_under (n : Nat) (c : Cursor) : (c.under n).limit = c.limit := rfl

@[simp] theorem under_zero (c : Cursor) : c.under 0 = c := rfl

/-- Levels opened one group behind the other add up. -/
theorem under_under (m n : Nat) (c : Cursor) : (c.under m).under n = c.under (m + n) := by
  simp only [under, Nat.add_assoc]

/-- To open levels and to go on by a token can be done in either order. -/
theorem advance_under (n : Nat) (c : Cursor) : (c.under n).advance = c.advance.under n := rfl

/-- Closing takes back the last of the levels that have been opened. -/
@[simp] theorem closed_under_succ (n : Nat) (c : Cursor) :
    (c.under (n + 1)).closed = c.under n := rfl

@[simp] theorem current_advance (c : Cursor) : c.advance.current = c.following := rfl

@[simp] theorem depth_advance (c : Cursor) : c.advance.depth = c.depth := rfl

@[simp] theorem limit_advance (c : Cursor) : c.advance.limit = c.limit := rfl

/-- To go on by a token never leaves more tokens than there were. -/
theorem left_advance_le (c : Cursor) : c.advance.left ≤ c.left := by
  simp only [left, advance, List.length_tail]
  omega

/-- A line end at the front is skipped. -/
theorem skipNewLines_of_newLine {c : Cursor} (first : c.current.kind = .newLine) :
    c.skipNewLines = c.advance.skipNewLines := by
  obtain ⟨tokens, finish, depth, limit⟩ := c
  cases tokens with
  | nil => rfl
  | cons t rest =>
    have first : t.kind = .newLine := first
    simp only [skipNewLines, advance, List.tail_cons, List.dropWhile_cons, first, decide_true,
      if_true]

/-- Where no line end is at the front nothing is skipped. -/
theorem skipNewLines_of_ne {c : Cursor} (first : c.current.kind ≠ .newLine) :
    c.skipNewLines = c := by
  obtain ⟨tokens, finish, depth, limit⟩ := c
  cases tokens with
  | nil => rfl
  | cons t rest =>
    have first : t.kind ≠ .newLine := first
    simp only [skipNewLines, List.dropWhile_cons, first, decide_false, Bool.false_eq_true, if_false]

end Cursor

/-! ## Replies -/

namespace Reply

variable {α β : Type}

/-- Goes on from a value, where the reader that gave it has stopped. -/
def andThen (r : Reply α) (next : α → Cursor → Reply β) : Reply β :=
  match r with
  | .ok a d => next a d
  | .error e d => .error e d

/-- Makes something of the value. -/
def map (f : α → β) (r : Reply α) : Reply β := r.andThen fun a d => .ok (f a) d

/-- Closes the level opened last. -/
def close (r : Reply α) : Reply α :=
  match r with
  | .ok a d => .ok a d.closed
  | .error e d => .error e d.closed

/-- A value behind two readers is the value of the second, and the first has given one too. -/
theorem andThen_eq_ok {r : Reply α} {next : α → Cursor → Reply β} {b : β} {e : Cursor} :
    r.andThen next = .ok b e ↔ ∃ a d, r = .ok a d ∧ next a d = .ok b e := by
  cases r with
  | ok a d =>
    refine ⟨fun read => ⟨a, d, rfl, read⟩, ?_⟩
    rintro ⟨_, _, same, read⟩
    cases same
    exact read
  | error x d =>
    refine ⟨fun read => (nomatch read), ?_⟩
    rintro ⟨_, _, same, _⟩
    cases same

/-- A value that has been made of another one comes with the cursor of that one. -/
theorem map_eq_ok {r : Reply α} {f : α → β} {b : β} {d : Cursor} :
    r.map f = .ok b d ↔ ∃ a, r = .ok a d ∧ f a = b := by
  refine andThen_eq_ok.trans ⟨?_, ?_⟩
  · rintro ⟨a, e, read, made⟩
    cases made
    exact ⟨a, read, rfl⟩
  · rintro ⟨a, read, rfl⟩
    exact ⟨a, d, read, rfl⟩

/-- Closing a level keeps the value, and closes the cursor behind it. -/
theorem close_eq_ok {r : Reply α} {a : α} {d : Cursor} :
    r.close = .ok a d ↔ ∃ e, r = .ok a e ∧ d = e.closed := by
  cases r with
  | ok b e =>
    refine ⟨fun read => ?_, ?_⟩
    · cases read
      exact ⟨e, rfl, rfl⟩
    · rintro ⟨_, same, rfl⟩
      cases same
      rfl
  | error x e =>
    refine ⟨fun read => (nomatch read), ?_⟩
    rintro ⟨_, same, _⟩
    cases same

end Reply

/-! ## Steps -/

namespace Cursor

variable {α : Type}

/-- The answer that something else than the current token was expected. -/
def refusal (c : Cursor) (expected : Expected) : Reply α :=
  .error (.unexpectedToken expected c.current.kind c.current.location) c

/-- Takes the current token if it is of a kind, and else refuses it. -/
def expecting (c : Cursor) (kind : TokenKind) (next : Cursor → Reply α) : Reply α :=
  if c.current.kind = kind then next c.advance else c.refusal (.token kind)

/-- Takes the current token if it is an identifier, and else refuses it. -/
def expectingIdentifier (c : Cursor) (next : String → Cursor → Reply α) : Reply α :=
  match c.current.kind with
  | .identifier name => next name c.advance
  | _ => c.refusal .identifier

/-- Runs a reader one level deeper, if another level may be opened. -/
def deeper (c : Cursor) (body : Cursor → Reply α) : Reply α :=
  if c.limit ≤ c.depth then .error (.nestingTooDeep c.limit c.current.location) c
  else (body (c.under 1)).close

/-- An expected token is there and has been passed when its reader gives a value. -/
theorem expecting_eq_ok {c d : Cursor} {kind : TokenKind} {next : Cursor → Reply α} {a : α} :
    c.expecting kind next = .ok a d ↔ c.current.kind = kind ∧ next c.advance = .ok a d := by
  unfold expecting
  split
  · next found => simp only [found, true_and]
  · next other => simp only [other, false_and, refusal, reduceCtorEq]

/-- The same for a name, which is handed on. -/
theorem expectingIdentifier_eq_ok {c d : Cursor} {next : String → Cursor → Reply α} {a : α} :
    c.expectingIdentifier next = .ok a d ↔
      ∃ name, c.current.kind = .identifier name ∧ next name c.advance = .ok a d := by
  unfold expectingIdentifier
  split
  · next name found =>
    refine ⟨fun read => ⟨name, found, read⟩, ?_⟩
    rintro ⟨_, same, read⟩
    cases found.symm.trans same
    exact read
  · next other =>
    refine ⟨fun read => (nomatch read), ?_⟩
    rintro ⟨name, found, _⟩
    exact absurd found (other name)

/-- A reader that opens a level gives a value when there is room for the level and the reader within
it gives that value, and the level is closed behind it. -/
theorem deeper_eq_ok {c d : Cursor} {body : Cursor → Reply α} {a : α} :
    c.deeper body = .ok a d ↔
      c.depth < c.limit ∧ ∃ e, body (c.under 1) = .ok a e ∧ d = e.closed := by
  unfold deeper
  split
  · next full =>
    refine ⟨fun read => (nomatch read), fun ⟨room, _⟩ => ?_⟩
    omega
  · next room =>
    rw [Reply.close_eq_ok, and_iff_right (by omega)]

end Cursor

/-! ## Replies behind a bound -/

namespace Onward

variable {α β : Type} {n m : Nat}

/-- The value of two readers in a row does not depend on the bounds that they carry. -/
theorem val_andThen (r : Onward m α) (next : (a : α) → (d : Cursor) → d.left ≤ m → Onward n β)
    (h : m ≤ n) (f : α → Cursor → Reply β) (same : ∀ a d few, (next a d few).val = f a d) :
    (r.andThen next h).val = r.val.andThen f := by
  obtain ⟨a | e, few⟩ := r
  · exact same _ _ few
  · rfl

/-- What is done to an answer that goes onward is done to the reply. -/
theorem val_map (f : α → β) (r : Onward m α) (h : m ≤ n) : (r.map f h).val = r.val.map f := by
  obtain ⟨a | e, few⟩ := r <;> rfl

/-- Closing a level of an answer that goes onward closes it for the reply. -/
theorem val_close (r : Onward m α) : r.close.val = r.val.close := by
  obtain ⟨a | e, few⟩ := r <;> rfl

end Onward

namespace Cursor

variable {α : Type} {n : Nat}

theorem val_expect (c : Cursor) (kind : TokenKind)
    (next : (d : Cursor) → d.left < c.left → Onward n α) (h : c.left ≤ n)
    (more : kind ≠ .endOfText) (f : Cursor → Reply α) (same : ∀ d few, (next d few).val = f d) :
    (c.expect kind next h more).val = c.expecting kind f := by
  unfold expect expecting
  split
  · exact same ..
  · rfl

theorem val_expectIdentifier (c : Cursor)
    (next : String → (d : Cursor) → d.left < c.left → Onward n α) (h : c.left ≤ n)
    (f : String → Cursor → Reply α) (same : ∀ name d few, (next name d few).val = f name d) :
    (c.expectIdentifier next h).val = c.expectingIdentifier f := by
  unfold expectIdentifier expectingIdentifier
  split
  · next name found =>
    simp only [found]
    exact same ..
  · next other =>
    split
    · next name found => exact absurd found (other name)
    · rfl

theorem val_nested (c : Cursor)
    (body : (d : Cursor) → d.left = c.left → d.current = c.current → Onward n α) (h : c.left ≤ n)
    (f : Cursor → Reply α) (same : ∀ d few current, (body d few current).val = f d) :
    (c.nested body h).val = c.deeper f := by
  unfold nested deeper
  split
  · rfl
  · exact (Onward.val_close _).trans (congrArg Reply.close (same ..))

/-! ## Readers -/

/-- Parameters: a name, and then a comma and more of them, or the parenthesis that ends them. -/
theorem val_parametersFrom (before : List String) (c : Cursor) :
    (c.parametersFrom before).val = c.expectingIdentifier fun name d =>
      if d.current.kind = .comma then (d.advance.parametersFrom (name :: before)).val
      else d.expecting .rightParen fun e => .ok (name :: before).reverse e := by
  rw [parametersFrom]
  apply val_expectIdentifier
  intro name d few
  split
  · rfl
  · exact val_expect _ _ _ _ _ _ fun _ _ => rfl

/-- A list of parameters may be empty, and then its parenthesis comes at once. -/
theorem val_parameters (c : Cursor) :
    c.parameters.val =
      if c.current.kind = .rightParen then .ok [] c.advance else (c.parametersFrom []).val := by
  rw [parameters]
  split <;> rfl

/-- Statements up to a token that ends them, with line ends between them. -/
theorem val_statementsFrom (stop : TokenKind) (before : List Stmt) (c : Cursor) :
    (c.statementsFrom stop before).val =
      if c.current.kind = stop then .ok before.reverse c
      else c.statement.val.andThen fun s d =>
        if d.current.kind = stop then .ok (s :: before).reverse d
        else d.expecting .newLine fun e =>
          (e.skipNewLines.statementsFrom stop (s :: before)).val := by
  rw [statementsFrom]
  split
  · rfl
  · apply Onward.val_andThen
    intro s d few
    split
    · rfl
    · exact val_expect _ _ _ _ _ _ fun _ _ => rfl

/-- A statement, by its first two tokens: a declaration, a conditional, a return, a block, or else
an expression. -/
theorem val_statement (c : Cursor) :
    c.statement.val =
      match c.current.kind, c.following.kind with
      | .functionWord, .identifier _ => c.advance.expectingIdentifier fun name d =>
        (d.functionRest (some name)).val.map fun (signature, body) => .declaration signature body
      | .ifWord, _ => c.advance.expecting .leftParen fun d =>
        d.expression.val.andThen fun condition e =>
          e.expecting .rightParen fun f => f.block.val.map (.conditional condition)
      | .returnWord, _ => c.advance.expression.val.map .result
      | .leftBrace, _ => c.block.val.map .block
      | _, _ => c.expression.val.map .expression := by
  rw [statement]
  split
  · next name first second =>
    simp only [first, second]
    exact val_expectIdentifier _ _ _ _ fun _ _ _ => Onward.val_map ..
  · next first =>
    simp only [first]
    apply val_expect _ _ _ _ (by decide)
    intro d few
    apply Onward.val_andThen
    intro condition e few
    exact val_expect _ _ _ _ (by decide) _ fun _ _ => Onward.val_map ..
  · next first =>
    simp only [first]
    exact Onward.val_map _ _ c.left_advance_le
  · next first =>
    simp only [first]
    exact Onward.val_map ..
  · split
    · simp_all
    · simp_all
    · simp_all
    · simp_all
    · exact Onward.val_map ..

/-- A block: braces, and statements one level deeper between them. -/
theorem val_block (c : Cursor) :
    c.block.val = c.expecting .leftBrace fun d =>
      (d.deeper fun e => (e.skipNewLines.statementsFrom .rightBrace []).val).andThen fun body f =>
        f.expecting .rightBrace fun g => .ok body g := by
  rw [block]
  apply val_expect _ _ _ _ (by decide)
  intro d few
  rw [Onward.val_andThen _ _ _ (fun body f => f.expecting .rightBrace fun g => .ok body g)
    fun body f few => val_expect _ _ _ _ (by decide) _ fun _ _ => rfl]
  exact congrArg (Reply.andThen · _) (val_nested _ _ _ _ fun _ _ _ => rfl)

/-- What a function has behind its name: a list of parameters and a block. -/
theorem val_functionRest (name : Option String) (c : Cursor) :
    (c.functionRest name).val = c.expecting .leftParen fun d =>
      d.parameters.val.andThen fun parameters e =>
        e.block.val.map fun body => (⟨name, parameters⟩, body) := by
  rw [functionRest]
  apply val_expect _ _ _ _ (by decide)
  intro d few
  exact Onward.val_andThen _ _ _ _ fun parameters e few => Onward.val_map ..

/-- An expression, one level deep: an assignment, a function without a name, or else a comparison.
-/
theorem val_expression (c : Cursor) :
    c.expression.val = c.deeper fun d =>
      match d.current.kind, d.following.kind with
      | .identifier name, .assign =>
        d.advance.expecting .assign fun e => e.expression.val.map (.assign name)
      | .functionWord, _ =>
        (d.advance.functionRest none).val.map fun (signature, body) => .function signature body
      | _, _ => (d.chain .comparison).val := by
  rw [expression]
  apply val_nested
  intro d few current
  split
  · next name first second =>
    simp only [first, second]
    exact val_expect _ _ _ _ (by decide) _ fun _ _ => Onward.val_map ..
  · next first =>
    simp only [first]
    exact Onward.val_map _ _ (few ▸ d.left_advance_le)
  · split
    · simp_all
    · simp_all
    · rfl

/-- A chain: its first operand, and what is folded onto it. -/
theorem val_chain (level : Level) (c : Cursor) :
    (c.chain level).val = (c.firstOperand level).val.andThen fun left d =>
      (d.folds level left).val := by
  rw [chain]
  exact Onward.val_andThen _ _ _ _ fun _ _ _ => rfl

/-- Behind an operator of the level comes one more operand, a level deeper, and more folds behind
that; any other token ends the chain. -/
theorem val_folds (level : Level) (left : Expr) (c : Cursor) :
    (c.folds level left).val =
      match level.operator? c.current.kind with
      | none => .ok left c
      | some op => c.deeper fun d =>
        (d.advance.laterOperand level).val.andThen fun right e =>
          (e.folds level (.binary op left right)).val := by
  rw [folds]
  split
  · next found =>
    simp only [found]
    rfl
  · next op found =>
    simp only [found]
    apply val_nested
    intro d few current
    exact Onward.val_andThen _ _ (few ▸ d.left_advance_le) _ fun _ _ _ => rfl

/-- The first operand of a chain is what binds more tightly. -/
theorem val_firstOperand (level : Level) (c : Cursor) :
    (c.firstOperand level).val =
      match level with
      | .comparison => (c.chain .additive).val
      | .additive => (c.chain .multiplicative).val
      | .multiplicative => c.signed.val
      | .power => c.atom.val := by
  cases level <;> rw [firstOperand]

/-- A later operand is read as the first one is, except that of a power, which may have a sign. -/
theorem val_laterOperand (level : Level) (c : Cursor) :
    (c.laterOperand level).val =
      match level with
      | .comparison => (c.chain .additive).val
      | .additive => (c.chain .multiplicative).val
      | .multiplicative => c.signed.val
      | .power => c.signed.val := by
  cases level <;> rw [laterOperand]

/-- A sign and what it stands in front of, one level deeper, or else a power. -/
theorem val_signed (c : Cursor) :
    c.signed.val =
      match c.current.kind with
      | .plus => c.advance.deeper fun d => d.signed.val.map (.unary .plus)
      | .minus => c.advance.deeper fun d => d.signed.val.map (.unary .minus)
      | _ => (c.chain .power).val := by
  rw [signed]
  split
  · next first =>
    simp only [first, take]
    exact val_nested _ _ c.left_advance_le _ fun _ few _ =>
      Onward.val_map _ _ (few ▸ c.left_advance_le)
  · next first =>
    simp only [first, take]
    exact val_nested _ _ c.left_advance_le _ fun _ few _ =>
      Onward.val_map _ _ (few ▸ c.left_advance_le)
  · split
    · simp_all
    · simp_all
    · rfl

/-- An atom: a number, a call, a name, or an expression in parentheses. -/
theorem val_atom (c : Cursor) :
    c.atom.val =
      match c.current.kind with
      | .number text =>
        match Numeral.ofText? text with
        | some numeral => .ok (.number numeral) c.advance
        | none => .error (.invalidNumeral text c.current.location) c.advance
      | .identifier name =>
        if c.following.kind = .leftParen then c.advance.advance.arguments.val.map (.call name)
        else .ok (.variable name) c.advance
      | .leftParen => c.advance.expression.val.andThen fun e d =>
        d.expecting .rightParen fun f => .ok e f
      | _ => c.refusal .expression := by
  rw [atom]
  split
  · next text first =>
    simp only [first]
    cases read : Numeral.ofText? text <;> rfl
  · next name first =>
    simp only [first]
    by_cases called : c.following.kind = .leftParen
    · simp only [take, current_advance, called, ↓reduceDIte, if_true]
      exact Onward.val_map ..
    · simp only [take, current_advance, called, ↓reduceDIte, if_false]
      rfl
  · next first =>
    simp only [first]
    exact Onward.val_andThen _ _ c.left_advance_le _ fun _ _ _ =>
      val_expect _ _ _ _ (by decide) _ fun _ _ => rfl
  · split
    · simp_all
    · simp_all
    · simp_all
    · rfl

/-- A list of arguments may be empty, and then its parenthesis comes at once. -/
theorem val_arguments (c : Cursor) :
    c.arguments.val =
      if c.current.kind = .rightParen then .ok [] c.advance else (c.argumentsFrom []).val := by
  rw [arguments]
  split <;> rfl

/-- Arguments: an expression, and then a comma and more of them, or the parenthesis that ends them.
-/
theorem val_argumentsFrom (before : List Expr) (c : Cursor) :
    (c.argumentsFrom before).val = c.expression.val.andThen fun e d =>
      if d.current.kind = .comma then (d.advance.argumentsFrom (e :: before)).val
      else d.expecting .rightParen fun f => .ok (e :: before).reverse f := by
  rw [argumentsFrom]
  apply Onward.val_andThen
  intro e d few
  split
  · rfl
  · exact val_expect _ _ _ _ _ _ fun _ _ => rfl

/-! ## What tokens decide -/

/-- What is done with the current token where an identifier has to stand. -/
def identifierAt (next : String → Cursor → Reply α) (t : Token) (c : Cursor) : Reply α :=
  match t.kind with
  | .identifier name => next name c.advance
  | _ => c.refusal .identifier

/-- What is read as an atom when the current token and the one behind it are these. -/
def atomAt (t u : Token) (c : Cursor) : Reply Expr :=
  match t.kind with
  | .number text =>
    match Numeral.ofText? text with
    | some numeral => .ok (.number numeral) c.advance
    | none => .error (.invalidNumeral text t.location) c.advance
  | .identifier name =>
    if u.kind = .leftParen then c.advance.advance.arguments.val.map (.call name)
    else .ok (.variable name) c.advance
  | .leftParen => c.advance.expression.val.andThen fun e d =>
    d.expecting .rightParen fun f => .ok e f
  | _ => c.refusal .expression

/-- How a chain goes on behind an operand at a token. -/
def foldsAt (level : Level) (left : Expr) (t : Token) (c : Cursor) : Reply Expr :=
  match level.operator? t.kind with
  | none => .ok left c
  | some op => c.deeper fun d => (d.advance.laterOperand level).val.andThen fun right e =>
    (e.folds level (.binary op left right)).val

/-- What is read at a token where a sign may stand. -/
def signedAt (t : Token) (c : Cursor) : Reply Expr :=
  match t.kind with
  | .plus => c.advance.deeper fun d => d.signed.val.map (.unary .plus)
  | .minus => c.advance.deeper fun d => d.signed.val.map (.unary .minus)
  | _ => (c.chain .power).val

/-- What is read as an expression, within its level, when the current token and the one behind it are
these. -/
def openedAt (t u : Token) (c : Cursor) : Reply Expr :=
  match t.kind, u.kind with
  | .identifier name, .assign =>
    c.advance.expecting .assign fun d => d.expression.val.map (.assign name)
  | .functionWord, _ =>
    (c.advance.functionRest none).val.map fun (signature, body) => .function signature body
  | _, _ => (c.chain .comparison).val

/-- What is read behind the word of a declaration. -/
def declared (c : Cursor) : Reply Stmt :=
  c.expectingIdentifier fun name d =>
    (d.functionRest (some name)).val.map fun (signature, body) => .declaration signature body

/-- What is read as a statement when the current token and the one behind it are these. -/
def statementAt (t u : Token) (c : Cursor) : Reply Stmt :=
  match t.kind, u.kind with
  | .functionWord, .identifier _ => c.advance.declared
  | .ifWord, _ => c.advance.expecting .leftParen fun d =>
    d.expression.val.andThen fun condition e =>
      e.expecting .rightParen fun f => f.block.val.map (Stmt.conditional condition)
  | .returnWord, _ => c.advance.expression.val.map Stmt.result
  | .leftBrace, _ => c.block.val.map Stmt.block
  | _, _ => c.expression.val.map Stmt.expression

end Cursor
end Scriptlet
