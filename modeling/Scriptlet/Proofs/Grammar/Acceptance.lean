import Scriptlet.Proofs.Grammar.Completeness
import Scriptlet.Proofs.Source.Lines

/-!
# The grammar is what is accepted

The tokens of a text are accepted exactly when they derive a program within `maxNesting` levels, and
what is answered is the program that they derive (`parseTokens_eq_ok_iff`). Tokens that derive a
program in more levels are refused for that reason alone, which takes at least as many tokens as
there are levels.

No tokens derive two programs. The proof is not about derivations: where the bound on levels is high
enough a reader answers whatever is derived, and a reader answers one thing.
-/

namespace Scriptlet

namespace Cursor

/-- The cursor at some tokens and an end behind them, with a bound on the levels. -/
def before (tokens : List Token) (finish : Location) (limit : Nat) : Cursor where
  tokens := tokens ++ [⟨.endOfText, finish⟩]
  finish := finish
  depth := 0
  limit := limit

variable {tokens : List Token} {finish : Location} {limit : Nat}

/-- Tokens with an end behind them are those in front of it, with every level to open. -/
theorem ofTokens_closed (tokens : List Token) (finish : Location) :
    ofTokens (tokens ++ [⟨.endOfText, finish⟩]) = before tokens finish maxNesting := by
  simp only [ofTokens, before, List.getLast?_concat]

/-- Tokens of a text are proper, whatever the limit. -/
theorem before_proper (lexed : Lexed tokens) (finish : Location) (limit : Nat) :
    (before tokens finish limit).Proper := by
  refine ⟨fun t member text number => ?_, Nat.zero_le _⟩
  rcases (List.mem_append.trans (or_congr_right List.mem_singleton)).mp member with member | rfl
  · exact lexed.numeral t member text number
  · cases number

/-- All tokens in front of the end lie in front of it. -/
theorem passes_before (more : ∀ t ∈ tokens, t.kind ≠ .endOfText) :
    Passes (tokens.map Token.kind) (before tokens finish limit) (before [] finish limit) := by
  induction tokens with
  | nil => rfl
  | cons t rest ih =>
    obtain ⟨here, later⟩ := List.forall_mem_cons.mp more
    exact ⟨rfl, here, ih later⟩

/-- A stretch of tokens up to the end is all of them. -/
theorem Passes.eq_map {ks : List TokenKind} {d : Cursor} (more : ∀ t ∈ tokens, t.kind ≠ .endOfText)
    (front : Passes ks (before tokens finish limit) d) (last : d.current.kind = .endOfText) :
    ks = tokens.map Token.kind := by
  induction tokens generalizing ks with
  | nil =>
    cases ks with
    | nil => rfl
    | cons k ks => exact absurd front.1.symm front.2.1
  | cons t rest ih =>
    obtain ⟨here, later⟩ := List.forall_mem_cons.mp more
    cases ks with
    | nil =>
      cases show before (t :: rest) finish limit = d from front
      exact absurd last here
    | cons k ks =>
      obtain ⟨first, _, front⟩ := front
      rw [List.map_cons, ih later front, ← first]
      rfl

/-- A program is accepted as its statements are. -/
theorem program_eq_ok {c d : Cursor} {p : Program} :
    c.program = .ok p d ↔
      (c.skipNewLines.statementsFrom .endOfText []).val = .ok p.statements d := by
  unfold program statements
  cases (c.skipNewLines.statementsFrom .endOfText []).val with
  | ok body e =>
    constructor
    · rintro ⟨⟩
      rfl
    · intro read
      cases read
      rfl
  | error x e => exact ⟨nofun, nofun⟩

/-- A program is refused as its statements are. -/
theorem program_eq_error_iff {c d : Cursor} {e : SyntaxError} :
    c.program = .error e d ↔
      (c.skipNewLines.statementsFrom .endOfText []).val = .error e d := by
  unfold program statements
  cases (c.skipNewLines.statementsFrom .endOfText []).val with
  | ok body f => exact ⟨nofun, nofun⟩
  | error x f =>
    constructor
    · rintro ⟨⟩
      rfl
    · rintro ⟨⟩
      rfl

section

variable {body : List Stmt} (more : ∀ t ∈ tokens, t.kind ≠ .endOfText)
  (r : Derivation (tokens.map Token.kind) (.statements body)) (finish : Location)
include more

/-- Tokens that derive a program are read as that program, within the levels of the derivation. -/
theorem within_statements : Within (before tokens finish limit) r.levels
    ((before tokens finish limit).skipNewLines.statementsFrom .endOfText []).val
    (.ok body (before [] finish limit)) :=
  r.completes (passes_before more) .endOfText [] (.inr rfl) rfl

/-- What derives with levels enough is read up to the end. -/
theorem statementsFrom_of_levels_le (enough : r.levels ≤ limit) :
    ((before tokens finish limit).skipNewLines.statementsFrom .endOfText []).val
      = .ok body (before [] finish limit) :=
  (within_statements more r finish).enough ((Nat.zero_add _).trans_le enough)

/-- What derives with more levels than there may be is refused as nested too deep. -/
theorem statementsFrom_of_lt_levels (many : limit < r.levels) : ∃ location d,
    ((before tokens finish limit).skipNewLines.statementsFrom .endOfText []).val
      = .error (.nestingTooDeep limit location) d :=
  (within_statements more r finish).tooDeep (Nat.zero_le _) (many.trans_eq (Nat.zero_add _).symm)

end

end Cursor

open Cursor

variable {tokens : List Token}

/-- What is read is a program that the tokens derive within the bound on levels. -/
theorem parseTokens_eq_ok_iff (lexed : Lexed tokens) (finish : Location) (p : Program) :
    parseTokens (tokens ++ [⟨.endOfText, finish⟩]) = .ok p ↔
      ∃ r : Derivation (tokens.map Token.kind) (.statements p.statements),
        r.levels ≤ maxNesting := by
  rw [parseTokens, ofTokens_closed]
  constructor
  · intro read
    split at read
    · next q d answer =>
      cases read
      have proper := (before_proper lexed finish maxNesting).skipNewLines
      obtain ⟨rest, same, reads, last⟩ := (sound _ proper).statementsFrom (program_eq_ok.mp answer)
      obtain ⟨ks, r, front, within⟩ := reads.ofSkipNewLines
      cases front.eq_map lexed.more last
      cases same
      exact ⟨r, Nat.le_trans (Nat.le_add_left ..) within⟩
    · cases read
  · rintro ⟨r, enough⟩
    rw [program_eq_ok.mpr (statementsFrom_of_levels_le lexed.more r finish enough)]

/-- Tokens that derive a program in too many levels are refused for that. -/
theorem parseTokens_tooDeep (lexed : Lexed tokens) (finish : Location) {body : List Stmt}
    (r : Derivation (tokens.map Token.kind) (.statements body)) (many : maxNesting < r.levels) :
    ∃ location, parseTokens (tokens ++ [⟨.endOfText, finish⟩])
      = .error (.nestingTooDeep maxNesting location) := by
  obtain ⟨location, d, failed⟩ := statementsFrom_of_lt_levels lexed.more r finish many
  rw [parseTokens, ofTokens_closed, program_eq_error_iff.mpr failed]
  exact ⟨location, rfl⟩

/-- A text is accepted as a program when it spells kinds that derive the program within the bound on
levels. -/
theorem parse_eq_ok_iff {text : String} {p : Program} :
    parse text = .ok p ↔ ∃ kinds, Source.Spells text.toList kinds ∧
      ∃ r : Derivation kinds (.statements p.statements), r.levels ≤ maxNesting := by
  constructor
  · intro read
    unfold parse at read
    split at read
    · cases read
    · next tokens found =>
      obtain ⟨ts, finish, scanned, rfl⟩ := tokenize_eq_ok_iff.mp found
      exact ⟨_, scanned.spells, (parseTokens_eq_ok_iff scanned.lexed finish p).mp read⟩
  · rintro ⟨kinds, spells, derived⟩
    obtain ⟨ts, finish, scanned, rfl⟩ := spells .start
    have found := tokenize_eq_ok_iff.mpr ⟨ts, finish, scanned, rfl⟩
    rw [parse, found]
    exact (parseTokens_eq_ok_iff scanned.lexed finish p).mpr derived

/-- A text that spells kinds which derive a program in too many levels is refused for that. -/
theorem parse_tooDeep {text : String} {kinds : List TokenKind} {body : List Stmt}
    (spells : Source.Spells text.toList kinds) (r : Derivation kinds (.statements body))
    (many : maxNesting < r.levels) :
    ∃ location, parse text = .error (.nestingTooDeep maxNesting location) := by
  obtain ⟨ts, finish, scanned, rfl⟩ := spells .start
  obtain ⟨location, failed⟩ := parseTokens_tooDeep scanned.lexed finish r many
  have found := tokenize_eq_ok_iff.mpr ⟨ts, finish, scanned, rfl⟩
  rw [parse, found]
  exact ⟨location, failed⟩

/-- Tokens that derive something may stand in front of an end. -/
theorem Derivation.lexed {phrase : Phrase} (r : Derivation (tokens.map Token.kind) phrase) :
    Lexed tokens :=
  ⟨fun _ member last => r.endOfText_notMem (last ▸ List.mem_map_of_mem member),
    fun _ member text number => r.isNumeral text (number ▸ List.mem_map_of_mem member)⟩

/-- Tokens derive one program at most. -/
theorem Derives.unique {kinds : List TokenKind} {body other : List Stmt}
    (one : Derives kinds body) (two : Derives kinds other) : body = other := by
  obtain ⟨⟨r⟩, ⟨s⟩⟩ := one, two
  obtain ⟨tokens, rfl⟩ : ∃ tokens : List Token, kinds = tokens.map Token.kind :=
    ⟨kinds.map (⟨·, .start⟩), by rw [List.map_map]; exact (List.map_id _).symm⟩
  have more := r.lexed.more
  have first := statementsFrom_of_levels_le more r .start (Nat.le_max_left r.levels s.levels)
  have second := statementsFrom_of_levels_le more s .start (Nat.le_max_right r.levels s.levels)
  cases first.symm.trans second
  rfl

/-- **The grammar is what is accepted.** What is read derives. What derives is read, or refused for
its levels, and for less than as many tokens as there may be levels it is read. So the grammar gives
tokens one tree. -/
theorem parseTokens_accepts_grammar (tokens : List Token) (finish : Location)
    (lexed : Lexed tokens) :
    (∀ p, parseTokens (tokens ++ [⟨.endOfText, finish⟩]) = .ok p →
      Derives (tokens.map Token.kind) p.statements) ∧
    (∀ p : Program, Derives (tokens.map Token.kind) p.statements →
      (parseTokens (tokens ++ [⟨.endOfText, finish⟩]) = .ok p ∨
        ∃ location, parseTokens (tokens ++ [⟨.endOfText, finish⟩])
          = .error (.nestingTooDeep maxNesting location)) ∧
      (tokens.length < 1000 → parseTokens (tokens ++ [⟨.endOfText, finish⟩]) = .ok p)) ∧
    (∀ kinds body other, Derives kinds body → Derives kinds other → body = other) := by
  have accepts := parseTokens_eq_ok_iff lexed finish
  refine ⟨fun p read => ?_, fun p ⟨r⟩ => ⟨?_, fun short => ?_⟩, fun _ _ _ => Derives.unique⟩
  · obtain ⟨r, _⟩ := (accepts p).mp read
    exact ⟨r⟩
  · by_cases enough : r.levels ≤ maxNesting
    · exact .inl ((accepts p).mpr ⟨r, enough⟩)
    · exact .inr (parseTokens_tooDeep lexed finish r (Nat.lt_of_not_le enough))
  · refine (accepts p).mpr ⟨r, ?_⟩
    have few := r.levels_le_length
    rw [List.length_map] at few
    exact Nat.le_trans few (Nat.le_of_lt short)

/-- The tokens of `x - 2 ** 3 ** 4 - y`. -/
def powersAndDifferences : List Token :=
  [.identifier "x", .minus, .number "2", .power, .number "3", .power, .number "4", .minus,
    .identifier "y"].map (⟨·, .start⟩)

/-- Powers lean to the right and differences to the left. -/
theorem parseTokens_powersAndDifferences :
    Lexed powersAndDifferences ∧
    Derives (powersAndDifferences.map Token.kind) [.expression (.binary .subtract
      (.binary .subtract (.variable "x") (.binary .power (.number (.ofLexeme "2"))
        (.binary .power (.number (.ofLexeme "3")) (.number (.ofLexeme "4")))))
      (.variable "y"))] ∧
    parseTokens (powersAndDifferences ++ [⟨.endOfText, .start⟩]) = .ok ⟨[.expression
      (.binary .subtract
        (.binary .subtract (.variable "x") (.binary .power (.number (.ofLexeme "2"))
          (.binary .power (.number (.ofLexeme "3")) (.number (.ofLexeme "4")))))
        (.variable "y"))]⟩ := by
  have lexed : Lexed powersAndDifferences := by
    refine ⟨by decide, ?_⟩
    simp only [powersAndDifferences, List.map_cons, List.map_nil, List.forall_mem_cons,
      TokenKind.number.injEq, reduceCtorEq, forall_eq', false_imp_iff, implies_true, true_and]
    exact ⟨by decide, by decide, by decide, nofun⟩
  have term {ks : List TokenKind} {e : Expr} (r : Derivation ks (.chain .power e)) :
      Derivation ks (.chain .multiplicative e) := .single nofun (.unsigned r)
  have numeral (text : String) (numeral : IsNumeral text) :
      Derivation [.number text] (.atom (.number (.ofLexeme text))) := .number numeral
  have difference {ks ls : List TokenKind} {e f : Expr} (r : Derivation ks (.chain .additive e))
      (s : Derivation ls (.chain .multiplicative f)) :
      Derivation (ks ++ .minus :: ls) (.chain .additive (.binary .subtract e f)) :=
    .fold .subtract nofun rfl r s
  have power := Derivation.power (numeral "2" (by decide))
    (.unsigned (.power (numeral "3" (by decide)) (.unsigned (.base (numeral "4" (by decide))))))
  have differences := difference
    (difference (.single nofun (term (.base (.name "x")))) (term power))
    (term (.base (.name "y")))
  have derives : Derives (powersAndDifferences.map Token.kind) [.expression (.binary .subtract
      (.binary .subtract (.variable "x") (.binary .power (.number (.ofLexeme "2"))
        (.binary .power (.number (.ofLexeme "3")) (.number (.ofLexeme "4")))))
      (.variable "y"))] :=
    ⟨.lastStatement (.bare (.comparison (.single nofun differences)))⟩
  exact ⟨lexed, derives,
    ((parseTokens_accepts_grammar _ .start lexed).2.1 ⟨_⟩ derives).2 (by decide)⟩

end Scriptlet
