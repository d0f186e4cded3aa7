import Scriptlet.Proofs.Grammar.Descent.Balance

/-!
# The descent ends and gets on

The room that a descent needs is bounded by the number of tokens, so it ends. A statement or an
expression that has been read has taken a token (`Cursor.Shrinks`), which is why the loops end. No end
is ever taken. So what comes behind the first end does not matter, and it does not matter either
whether the end behind the last token is one of the tokens (`descent_ends`).
-/

namespace Scriptlet

/-! ## Readers that take a token -/

namespace Cursor

variable {α β : Type} {n : Nat} {c d : Cursor} {r : Reply α}

/-- Whether fewer than `n` tokens are left behind a value. -/
def Shrinks (n : Nat) (r : Reply α) : Prop := ∀ a d, r = .ok a d → d.left < n

/-- A value leaves as few tokens as are behind it. -/
theorem Shrinks.ok (a : α) (fewer : d.left < n) : Shrinks n (.ok a d) := by
  rintro _ _ ⟨⟩
  exact fewer

/-- An error leaves no value. -/
theorem Shrinks.error (e : SyntaxError) (d : Cursor) : Shrinks n (.error e d : Reply α) := by
  rintro _ _ ⟨⟩

/-- What reads onward leaves no more than it may. -/
theorem Shrinks.onward {m : Nat} (r : Onward m α) (fewer : m < n) : Shrinks n r.val :=
  fun _ _ read => Nat.lt_of_le_of_lt (left_le_of_val_eq_ok read) fewer

/-- A second reader leaves no more than the first. -/
theorem Shrinks.andThen {next : α → Cursor → Reply β} (first : Shrinks n r)
    (later : ∀ a d, Shrinks (d.left + 1) (next a d)) : Shrinks n (r.andThen next) := by
  intro b e read
  obtain ⟨a, d, front, back⟩ := Reply.andThen_eq_ok.mp read
  exact Nat.lt_of_le_of_lt (Nat.le_of_lt_succ (later a d b e back)) (first a d front)

/-- What is done to the answer leaves the tokens as they are. -/
theorem Shrinks.map (f : α → β) (first : Shrinks n r) : Shrinks n (r.map f) :=
  first.andThen fun _ _ => .ok _ (Nat.lt_succ_self _)

/-- Behind a token that is expected, the next reader leaves few enough if it does so there. -/
theorem Shrinks.expecting {kind : TokenKind} {next : Cursor → Reply α}
    (h : c.current.kind = kind → Shrinks n (next c.advance)) :
    Shrinks n (c.expecting kind next) := by
  intro a d read
  obtain ⟨found, later⟩ := expecting_eq_ok.mp read
  exact h found a d later

/-- Behind an identifier that is expected likewise. -/
theorem Shrinks.expectingIdentifier {next : String → Cursor → Reply α}
    (h : ∀ name, c.current.kind = .identifier name → Shrinks n (next name c.advance)) :
    Shrinks n (c.expectingIdentifier next) := by
  intro a d read
  obtain ⟨name, found, later⟩ := expectingIdentifier_eq_ok.mp read
  exact h name found a d later

/-- A reader within a level leaves few enough if it does so one level deeper. -/
theorem Shrinks.deeper {body : Cursor → Reply α} (h : Shrinks n (body (c.under 1))) :
    Shrinks n (c.deeper body) := by
  intro a d read
  obtain ⟨-, e, inner, rfl⟩ := deeper_eq_ok.mp read
  exact h a e inner

/-- An atom takes its first token. -/
theorem atom_shrinks (c : Cursor) : Shrinks c.left c.atom.val := by
  have less {kind : TokenKind} (first : c.current.kind = kind) (more : kind ≠ .endOfText) :
      c.advance.left < c.left := left_advance_lt (first ▸ more)
  rw [val_atom]
  cases first : c.current.kind with
  | number text =>
    cases read : Numeral.ofText? text with
    | some numeral =>
      simp only [read]
      exact .ok _ (less first nofun)
    | none =>
      simp only [read]
      exact .error _ _
  | identifier name =>
    have later := Nat.lt_of_le_of_lt c.advance.left_advance_le (less first nofun)
    by_cases called : c.following.kind = .leftParen
    · simp only [called, if_true]
      exact (Shrinks.onward _ later).map _
    · simp only [called, if_false]
      exact .ok _ (less first nofun)
  | leftParen =>
    refine (Shrinks.onward _ (less first nofun)).andThen fun e d => .expecting fun _ => ?_
    exact .ok _ (Nat.lt_succ_of_le d.left_advance_le)
  | _ => exact .error _ _

/-- A chain takes a token if its first operand does. -/
theorem chain_shrinks {level : Level} (operand : Shrinks c.left (c.firstOperand level).val) :
    Shrinks c.left (c.chain level).val := by
  rw [val_chain]
  exact operand.andThen fun left d => .onward _ (Nat.lt_succ_self _)

/-- A signed operand takes a token, with or without a sign. -/
theorem signed_shrinks (c : Cursor) : Shrinks c.left c.signed.val := by
  have sign (op : UnaryOp) (first : c.current.kind = op.token) :
      Shrinks c.left (c.advance.deeper fun d => d.signed.val.map (Expr.unary op)) := by
    have more : c.current.kind ≠ .endOfText := first ▸ op.token_ne_endOfText
    exact .deeper (.map _ (.onward _ (left_advance_lt more)))
  rw [val_signed]
  cases first : c.current.kind with
  | plus => exact sign .plus first
  | minus => exact sign .minus first
  | _ => exact chain_shrinks (val_firstOperand .power c ▸ atom_shrinks c)

/-- A comparison takes a token, by the levels from the tightest up. -/
theorem comparison_shrinks (c : Cursor) : Shrinks c.left (c.chain .comparison).val := by
  have products : Shrinks c.left (c.chain .multiplicative).val :=
    chain_shrinks (val_firstOperand .multiplicative c ▸ signed_shrinks c)
  have sums : Shrinks c.left (c.chain .additive).val :=
    chain_shrinks (val_firstOperand .additive c ▸ products)
  exact chain_shrinks (val_firstOperand .comparison c ▸ sums)

/-- An expression takes a token. -/
theorem expression_shrinks (c : Cursor) : Shrinks c.left c.expression.val := by
  rw [val_expression]
  refine .deeper ?_
  cases first : (c.under 1).current.kind with
  | identifier name =>
    cases (c.under 1).following.kind with
    | assign =>
      have less : (c.under 1).advance.left < c.left :=
        left_advance_lt (c := c.under 1) (first ▸ nofun)
      refine .expecting fun _ => .map _ (.onward _ ?_)
      exact Nat.lt_of_le_of_lt (left_advance_le _) less
    | _ => exact comparison_shrinks (c.under 1)
  | functionWord =>
    exact .map _ (.onward _ (left_advance_lt (c := c.under 1) (first ▸ nofun)))
  | _ => exact comparison_shrinks (c.under 1)

/-- A block takes its opening brace. -/
theorem block_shrinks (c : Cursor) : Shrinks c.left c.block.val := by
  rw [val_block]
  refine .expecting fun opening => .andThen (.deeper ?_) fun body d => .expecting fun _ => ?_
  · have less : c.advance.left < c.left := left_advance_lt (opening ▸ nofun)
    exact .onward _ (Nat.lt_of_le_of_lt (c.advance.under 1).left_skipNewLines_le less)
  · exact .ok _ (Nat.lt_succ_of_le d.left_advance_le)

/-- A statement takes a token. -/
theorem statement_shrinks (c : Cursor) : Shrinks c.left c.statement.val := by
  have less {kind : TokenKind} (first : c.current.kind = kind) (more : kind ≠ .endOfText) :
      c.advance.left < c.left := left_advance_lt (first ▸ more)
  have bare : Shrinks c.left (c.expression.val.map Stmt.expression) := (expression_shrinks c).map _
  rw [val_statement]
  cases first : c.current.kind with
  | functionWord =>
    cases c.following.kind with
    | identifier =>
      refine .expectingIdentifier fun name _ => .map _ (.onward _ ?_)
      exact Nat.lt_of_le_of_lt (left_advance_le _) (less first nofun)
    | _ => exact bare
  | ifWord =>
    have later := Nat.lt_of_le_of_lt c.advance.left_advance_le (less first nofun)
    refine .expecting fun _ => (Shrinks.onward _ later).andThen fun condition d => ?_
    exact .expecting fun _ => .map _ (.onward _ (Nat.lt_succ_of_le d.left_advance_le))
  | returnWord => exact .map _ (.onward _ (less first nofun))
  | leftBrace => exact (block_shrinks c).map _
  | _ => exact bare

end Cursor

/-! ## Ends -/

variable {c d : Cursor} {w : Window} {steps : List Step}

/-- An end is not taken. -/
theorem Cursor.Leads.ne_endOfText (leads : c.Leads steps d) :
    ∀ t ∈ consumed steps, t.kind ≠ .endOfText := by
  induction leads with
  | nil => exact nofun
  | advance more _ ih => exact List.forall_mem_cons.mpr ⟨more, ih⟩
  | enter _ _ ih => exact ih
  | leave _ _ ih => exact ih

/-- What has been taken lies in front of every end. -/
theorem consumed_prefix {front unread more : List Token} {e : Token}
    (taken : ∀ t ∈ consumed steps, t.kind ≠ .endOfText) (ends : e.kind = .endOfText)
    (split : front ++ e :: more = consumed steps ++ unread) : consumed steps <+: front := by
  rcases List.append_eq_append_iff.mp split with ⟨middle, same, rest⟩ | ⟨middle, rfl, -⟩
  · cases middle with
    | nil => exact ⟨[], (List.append_nil _).trans (same.trans (List.append_nil front))⟩
    | cons other middle =>
      obtain ⟨rfl, -⟩ := List.cons.inj rest
      have mem : e ∈ consumed steps := same ▸ List.mem_append_right _ List.mem_cons_self
      exact absurd ends (taken e mem)
  · exact List.prefix_append ..

open Cursor

/-- A single statement or expression takes a token. -/
theorem readEntry_shrinks (c : Cursor) {entry : Entry}
    (single : entry = .statement ∨ entry = .expression) : Shrinks c.left (c.readEntry entry) := by
  rcases single with rfl | rfl
  · exact (statement_shrinks c).map _
  · exact (expression_shrinks c).map _

/-- Two runs with the same answers and the same steps that end at the same token. -/
structure SameRun (x y : List (Except Halt Parsed) × Parser) : Prop where
  answers : x.1 = y.1
  record : x.2.record = y.2.record
  depth : x.2.depth = y.2.depth
  current : x.2.window.current = y.2.window.current

/-- What two windows show of the same cursor is read in the same way. -/
theorem sameRun_of_shownBy {u w : Window} (entries : List Entry) (full : c.limit = maxNesting)
    {room : Nat} (enough : 32 * c.left + 15 ≤ room) (first : c.ShownBy u) (second : c.ShownBy w) :
    SameRun (readEach room entries ⟨u, c.depth, []⟩) (readEach room entries ⟨w, c.depth, []⟩) := by
  obtain ⟨-, steps, leads, runs⟩ := readEach_follows entries full
    (Nat.lt_succ_self (32 * c.left + 14))
  rw [runs room enough u [] first, runs room enough w [] second]
  refine ⟨rfl, rfl, rfl, ?_⟩
  exact (leads.shownBy first).current_eq.trans (leads.shownBy second).current_eq.symm

/-- What comes behind an end does not matter. -/
theorem sameRun_cut (front : List Token) {e : Token} (ends : e.kind = .endOfText)
    (more : List Token) (entries : List Entry) {room : Nat} (enough : roomFor (front ++ [e]) ≤ room) :
    SameRun (readEach room entries (.ofTokens (front ++ e :: more)))
      (readEach room entries (.ofTokens (front ++ [e]))) :=
  sameRun_of_shownBy entries rfl enough
    ((Window.shownBy_ofTokens (front ++ e :: more)).cut ends) (Window.shownBy_ofTokens _)

/-- An end at the place of the last token may be left out. -/
theorem sameRun_closed (tokens : List Token) (entries : List Entry) {room : Nat}
    (enough : roomFor tokens ≤ room) :
    SameRun (readEach room entries (.ofTokens tokens)) (readEach room entries (.ofTokens
      (tokens ++ [⟨.endOfText, (Cursor.ofTokens tokens).finish⟩]))) :=
  sameRun_of_shownBy entries rfl enough (Window.shownBy_ofTokens tokens)
    (Window.shownBy_ofTokens _).unclosed

/-- A statement or an expression that has been read has taken a token. -/
theorem exists_consumed {entry : Entry} (single : entry = .statement ∨ entry = .expression)
    (full : c.limit = maxNesting) {room : Nat} (enough : 32 * c.left + 15 ≤ room)
    (shown : c.ShownBy w) {a : Parsed} {q : Parser}
    (done : entry.read room ⟨w, c.depth, steps⟩ = .ok a q) :
    ∃ t more, consumed q.record = consumed steps ++ t :: more := by
  obtain ⟨does, -⟩ := entry_follows entry (Nat.lt_succ_self (32 * c.left + 14))
  obtain ⟨more, leads, runs⟩ := does full
  have ended := (runs room enough w steps shown).symm.trans done
  have shrinks := readEntry_shrinks c single
  cases read : c.readEntry entry with
  | error e d =>
    rw [read] at ended
    cases ended
  | ok b d =>
    rw [read] at ended leads
    cases ended
    have less : d.left < c.left := shrinks _ d read
    -- As many tokens have been consumed as there are fewer left, so one at least.
    have split : c.tokens = consumed more ++ d.tokens := leads.tokens_eq
    cases taken : consumed more with
    | nil =>
      rw [taken] at split
      exact absurd (congrArg List.length split) (Nat.ne_of_gt less)
    | cons t rest =>
      refine ⟨t, rest, ?_⟩
      rw [consumed_append, taken]

/-- **Reading tokens ends, gets on, and never goes past an end.** Whatever a parser is asked for, one
thing after the other, it comes to the same with every room from a bound on, to a value or a refusal
each time, and these are what the readers answer. It has taken no end, and a statement or an
expression that it then reads takes a token. Tokens behind an end are neither taken nor looked at. An
end at the place of the last token, or at the start where there is no token, may be left out. -/
theorem descent_ends (tokens : List Token) :
    (∀ entries, ∃ p : Parser, ∀ room, roomFor tokens ≤ room →
      readEach room entries (.ofTokens tokens)
        = (((Cursor.ofTokens tokens).readEach entries).1.map answer, p) ∧
      (∀ t ∈ consumed p.record, t.kind ≠ .endOfText) ∧
      ∀ entry : Entry, entry = .statement ∨ entry = .expression →
        ∀ a q, entry.read room p = .ok a q →
          ∃ t more, consumed q.record = consumed p.record ++ t :: more) ∧
    (∀ front e more, tokens = front ++ e :: more → e.kind = .endOfText →
      ∀ entries room, roomFor (front ++ [e]) ≤ room →
        SameRun (readEach room entries (.ofTokens tokens))
          (readEach room entries (.ofTokens (front ++ [e]))) ∧
        consumed (readEach room entries (.ofTokens tokens)).2.record <+: front) ∧
    ∀ entries room, roomFor tokens ≤ room →
      SameRun (readEach room entries (.ofTokens tokens)) (readEach room entries (.ofTokens
        (tokens ++ [⟨.endOfText, (tokens.getLast?.map Token.location).getD .start⟩]))) := by
  have shown := Window.shownBy_ofTokens tokens
  refine ⟨fun entries => ?_, fun front e more split ends entries room enough => ?_,
    fun entries room enough => ?_⟩
  -- What the readers answer does not depend on the room, so neither does the outcome.
  · obtain ⟨level, steps, leads, runs⟩ := readEach_follows (c := .ofTokens tokens) entries rfl
      (Nat.lt_succ_self (32 * tokens.length + 14))
    refine ⟨_, fun room enough => ⟨runs room enough _ [] shown, leads.ne_endOfText, ?_⟩⟩
    intro entry single a q done
    have few : 32 * (((Cursor.ofTokens tokens).readEach entries).2).left + 15 ≤ room :=
      Nat.le_trans (Nat.add_le_add_right (Nat.mul_le_mul_left 32 leads.left_le) 15) enough
    rw [← level] at done
    exact exists_consumed single leads.limit_eq few (leads.shownBy shown) done
  · subst split
    have same := sameRun_cut front ends more entries enough
    refine ⟨same, ?_⟩
    obtain ⟨-, steps, leads, runs⟩ := readEach_follows (c := .ofTokens (front ++ [e])) entries rfl
      -- The tokens in front of the end are all that the readers see, and they consume no end.
      (Nat.lt_succ_self (32 * (front ++ [e]).length + 14))
    have record : (readEach room entries (.ofTokens (front ++ [e]))).2.record = steps :=
      congrArg (·.2.record) (runs room enough _ [] (Window.shownBy_ofTokens _))
    rw [same.record, record]
    exact consumed_prefix leads.ne_endOfText ends leads.tokens_eq
  -- The end that is put behind is the one that a cursor has by itself.
  · have same : (tokens.getLast?.map Token.location).getD .start = (Cursor.ofTokens tokens).finish := by
      unfold Cursor.ofTokens
      cases tokens.getLast? <;> rfl
    rw [same]
    exact sameRun_closed tokens entries enough

/-- A name, and another one behind an end. -/
def namesAroundEnd : List Token :=
  [⟨.identifier "x", ⟨0, 1, 1⟩⟩, ⟨.endOfText, ⟨1, 1, 2⟩⟩, ⟨.identifier "y", ⟨2, 1, 3⟩⟩]

/-- Of two names around an end the first one is read, and then there is no expression. -/
theorem descent_ends_namesAroundEnd :
    roomFor namesAroundEnd ≤ 111 ∧
      (readEach 111 [.statement, .expression] (.ofTokens namesAroundEnd)).1
        = [.ok (.statement (.expression (.variable "x"))),
          .error (.refused (.unexpectedToken .expression .endOfText ⟨1, 1, 2⟩))] ∧
      consumed (readEach 111 [.statement, .expression] (.ofTokens namesAroundEnd)).2.record
        <+: [⟨.identifier "x", ⟨0, 1, 1⟩⟩] := by
  obtain ⟨_, cut, _⟩ := descent_ends namesAroundEnd
  exact ⟨by decide, rfl, (cut _ _ _ rfl rfl _ 111 (by decide)).2⟩

end Scriptlet
