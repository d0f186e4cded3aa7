import Scriptlet.Proofs.Source

/-!
# Lines

No token but the line end reaches over a line feed: blanks and all machines stop at one, and it
makes a pair with no character. So a text is read line by line (`Scans.line`): the tokens of what
stands in front of a line feed, a line end, and the tokens of what stands behind.

Which kinds are read does not depend on the place where a source begins (`Scans.move`), so a text
`Spells` kinds by itself.
-/

namespace Scriptlet
namespace Source

variable {s left : Source} {kind : TokenKind} {t : Token} {ts us : List Token}
  {finish finish' : Location}

/-! ## Somewhere else -/

/-- The same text at another place. -/
def move (l : Location) (s : Source) : Source := ⟨s.rest, l⟩

/-- Blanks are dropped alike at any place. -/
theorem dropBlanks_move (l : Location) (s : Source) :
    ∃ l', (s.move l).dropBlanks = s.dropBlanks.move l' := by
  suffices same : ∀ rest l l', (dropBlanks.go rest l).rest = (dropBlanks.go rest l').rest from
    ⟨(s.move l).dropBlanks.location, congrArg (Source.mk · _) (same s.rest l s.location)⟩
  intro rest
  induction rest with
  | nil =>
    intro _ _
    exact rfl
  | cons c rest ih =>
    intro l l'
    simp only [dropBlanks.go]
    split
    · exact ih ..
    · rfl

theorem skipGap_move (l : Location) (s : Source) :
    ∃ l', (s.move l).skipGap = s.skipGap.move l' := by
  obtain ⟨l', same⟩ := s.dropBlanks_move l
  refine ⟨(s.move l).skipGap.location, ?_⟩
  unfold skipGap
  rw [same]
  rfl

/-- A lexeme is the same at any place. -/
theorem lexeme_move {σ : Type} {m : Machine σ} {text : String} (l : Location)
    (found : s.lexeme m = .ok text left) : ∃ l', (s.move l).lexeme m = .ok text (left.move l') := by
  obtain ⟨ended, rfl, rfl⟩ := lexeme_eq_ok_iff.mp found
  exact ⟨_, lexeme_eq_ok_iff.mpr ⟨ended, rfl, rfl⟩⟩

/-- A token is in front at any place. -/
theorem Fronts.move (l : Location) (h : s.Fronts kind left) :
    ∃ l', (s.move l).Fronts kind (left.move l') := by
  cases h with
  | finish front => exact ⟨l, .finish front⟩
  | pair front found => exact ⟨_, .pair (s := s.move l) front found⟩
  | symbol front other found => exact ⟨_, .symbol (s := s.move l) front other found⟩
  | word front other strange letter found =>
    obtain ⟨l', found⟩ := lexeme_move l found
    exact ⟨l', .word front other strange letter found⟩
  | number front other strange letter digit found =>
    obtain ⟨l', found⟩ := lexeme_move l found
    exact ⟨l', .number front other strange letter digit found⟩

/-- The next token has the same kind at any place. -/
theorem next_move (l : Location) (read : s.next = .ok t left) :
    ∃ u l', (s.move l).next = .ok u (left.move l') ∧ u.kind = t.kind := by
  obtain ⟨l', same⟩ := s.skipGap_move l
  obtain ⟨l'', fronts⟩ := (next_eq_ok_iff.mp read).1.move l'
  refine ⟨⟨t.kind, l'⟩, l'', next_eq_ok_iff.mpr ?_, rfl⟩
  rw [same]
  exact ⟨fronts, rfl⟩

/-- At another place the same kinds are read. -/
theorem Scans.move (h : Scans s ts finish) (l : Location) :
    ∃ us finish', Scans (s.move l) us finish' ∧ us.map Token.kind = ts.map Token.kind := by
  induction h generalizing l with
  | finish read last =>
    obtain ⟨u, l', read, same⟩ := next_move l read
    exact ⟨[], u.location, .finish read (same.trans last), rfl⟩
  | token read more _ ih =>
    obtain ⟨u, l', read, same⟩ := next_move l read
    obtain ⟨us, finish', rest, kinds⟩ := ih l'
    refine ⟨u :: us, finish', .token read (same ▸ more) rest, ?_⟩
    rw [List.map_cons, List.map_cons, same, kinds]

/-! ## In front of a line feed -/

/-- A source with a line feed and more text behind it. -/
def line (more : List Char) (s : Source) : Source := ⟨s.rest ++ '\n' :: more, s.location⟩

/-- Blanks are dropped in front of a line feed as in front of the end. -/
theorem dropBlanks_line (more : List Char) (s : Source) :
    (s.line more).dropBlanks = s.dropBlanks.line more := by
  suffices same : ∀ rest l,
      dropBlanks.go (rest ++ '\n' :: more) l = (dropBlanks.go rest l).line more from same ..
  intro rest
  induction rest with
  | nil =>
    intro _
    exact rfl
  | cons c rest ih =>
    intro l
    simp only [List.cons_append, dropBlanks.go]
    split
    · exact ih _
    · rfl

/-- A comment stops at a line feed. -/
theorem commentMachine_newLine (state : CommentState) : commentMachine.step state '\n' = none := by
  cases state <;> rfl

theorem identifierMachine_newLine (state : IdentifierState) :
    identifierMachine.step state '\n' = none := by
  cases state <;> rfl

theorem numeralMachine_newLine (state : NumeralState) : numeralMachine.step state '\n' = none := by
  cases state <;> rfl

/-- A gap in front of a line feed ends before it. -/
theorem skipGap_line (more : List Char) (s : Source) :
    (s.line more).skipGap = s.skipGap.line more := by
  unfold skipGap
  rw [dropBlanks_line]
  unfold dropLexeme line
  simp only [Machine.run_append commentMachine_newLine]

/-- A lexeme is the same in front of a line feed, if its machine stops there. -/
theorem lexeme_line {σ : Type} {m : Machine σ} {text : String}
    (stop : ∀ state, m.step state '\n' = none) (more : List Char)
    (found : s.lexeme m = .ok text left) : (s.line more).lexeme m = .ok text (left.line more) := by
  obtain ⟨ended, rfl, rfl⟩ := lexeme_eq_ok_iff.mp found
  apply lexeme_eq_ok_iff.mpr
  simp only [line, Machine.run_append stop, and_self, and_true]
  exact ended

/-- A line feed is the second of no pair. -/
theorem ofPair?_newLine (c : Char) : TokenKind.ofPair? c '\n' = none := by
  unfold TokenKind.ofPair?
  split
  all_goals first | rfl | simp_all

/-- A line feed behind a character makes no pair with it. -/
theorem noPair_line {c : Char} {rest : List Char} (more : List Char)
    (other : rest.head?.bind (TokenKind.ofPair? c) = none) :
    (rest ++ '\n' :: more).head?.bind (TokenKind.ofPair? c) = none := by
  cases rest with
  | nil => exact ofPair?_newLine c
  | cons d rest => exact other

/-- Characters of the line may be taken off in front of a line feed. -/
theorem drop_line {n : Nat} (more : List Char) (few : n ≤ s.rest.length) :
    (s.line more).drop n = (s.drop n).line more := by
  simp only [drop, line, List.drop_append_of_le_length few, List.take_append_of_le_length few]

/-- A token that is in front of the end is in front of a line feed, unless it is the end. -/
theorem Fronts.line (more : List Char) (h : s.Fronts kind left) (some : kind ≠ .endOfText) :
    (s.line more).Fronts kind (left.line more) := by
  cases h with
  | finish => exact absurd rfl some
  | pair front found =>
    rw [← drop_line more (by simp [front])]
    exact .pair (congrArg (· ++ _) front) found
  | symbol front other found =>
    rw [← drop_line more (by simp [front])]
    exact .symbol (congrArg (· ++ _) front) (noPair_line more other) found
  | word front other strange letter found =>
    exact .word (congrArg (· ++ _) front) (noPair_line more other) strange letter
      (lexeme_line identifierMachine_newLine more found)
  | number front other strange letter digit found =>
    exact .number (congrArg (· ++ _) front) (noPair_line more other) strange letter digit
      (lexeme_line numeralMachine_newLine more found)

/-- A token is read from the line it stands on. -/
theorem next_line (more : List Char) (read : s.next = .ok t left) (some : t.kind ≠ .endOfText) :
    (s.line more).next = .ok t (left.line more) := by
  obtain ⟨fronts, place⟩ := next_eq_ok_iff.mp read
  apply next_eq_ok_iff.mpr
  rw [skipGap_line]
  exact ⟨fronts.line more some, place⟩

/-- Where a line has no more tokens, the line end is read. -/
theorem next_line_end (more : List Char) (read : s.next = .ok t left) (last : t.kind = .endOfText) :
    (s.line more).next = .ok ⟨.newLine, t.location⟩ ⟨more, t.location.advance '\n'⟩ := by
  obtain ⟨fronts, place⟩ := next_eq_ok_iff.mp read
  have nothing : s.skipGap.rest = [] := (last ▸ fronts).finished
  have front : (s.skipGap.line more).rest = '\n' :: more := congrArg (· ++ _) nothing
  have behind : (s.skipGap.line more).drop 1 = ⟨more, s.skipGap.location.advance '\n'⟩ := by
    rw [drop, front]
    rfl
  apply next_eq_ok_iff.mpr
  rw [skipGap_line, place, ← behind]
  refine ⟨.symbol front ?_ rfl, rfl⟩
  cases more <;> rfl

/-- **A text is read line by line.** -/
theorem Scans.line {more : List Char} (first : Scans s ts finish)
    (second : Scans ⟨more, finish.advance '\n'⟩ us finish') :
    Scans (s.line more) (ts ++ ⟨.newLine, finish⟩ :: us) finish' := by
  induction first with
  | finish read last => exact .token (next_line_end more read last) nofun second
  | token read some _ ih => exact .token (next_line more read some) some (ih second)

/-! ## Spelling -/

/-- A text is read as tokens of some kinds, wherever it stands. -/
def Spells (text : List Char) (kinds : List TokenKind) : Prop :=
  ∀ l, ∃ ts finish, Scans ⟨text, l⟩ ts finish ∧ ts.map Token.kind = kinds

/-- The tokens of a source are spelled by its text. -/
theorem Scans.spells (h : Scans s ts finish) : Spells s.rest (ts.map Token.kind) := h.move

/-- The empty text spells no kinds. -/
theorem Spells.nil : Spells [] [] := fun l => ⟨[], l, .finish (t := ⟨.endOfText, l⟩) rfl rfl, rfl⟩

/-- A text spells a kind and those behind it, if that is read first wherever the text stands. -/
theorem Spells.cons {text rest : List Char} {kinds : List TokenKind} (some : kind ≠ .endOfText)
    (read : ∀ l, ∃ place left, (⟨text, l⟩ : Source).next = .ok ⟨kind, place⟩ ⟨rest, left⟩)
    (h : Spells rest kinds) : Spells text (kind :: kinds) := by
  intro l
  obtain ⟨place, left, read⟩ := read l
  obtain ⟨ts, finish, scanned, rfl⟩ := h left
  exact ⟨_, finish, .token read some scanned, rfl⟩

/-- Lines spell their kinds with line ends between them. -/
theorem Spells.line {text more : List Char} {kinds others : List TokenKind}
    (first : Spells text kinds) (second : Spells more others) :
    Spells (text ++ '\n' :: more) (kinds ++ .newLine :: others) := by
  intro l
  obtain ⟨ts, middle, front, rfl⟩ := first l
  obtain ⟨us, finish, back, rfl⟩ := second (middle.advance '\n')
  refine ⟨_, finish, front.line back, ?_⟩
  rw [List.map_append, List.map_cons]

end Source
end Scriptlet
