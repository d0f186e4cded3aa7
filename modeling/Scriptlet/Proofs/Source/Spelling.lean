import Scriptlet.Proofs.Source.Lines

/-!
# Reading what has been spelled

A kind that a text can show stands in a text by its spelling. It is read back from there as the same
kind, up to the end of the spelling, unless a character right behind it `goesOn` with the token: a
word with a letter, say, or `<` with `=` (`next_spelling`).

The kinds that are read from any text are such kinds (`Spells.isSpelled`), and a text is read in one
way only (`Spells.unique`).
-/

namespace Scriptlet

/-- Whether a name is one identifier from end to end, and no keyword. -/
def IsIdentifier (name : String) : Prop :=
  identifierMachine.recognize name = (true, name) ∧ TokenKind.ofWord name = .identifier name

instance (name : String) : Decidable (IsIdentifier name) :=
  inferInstanceAs (Decidable (_ ∧ _))

/-- A word begins with a letter. -/
theorem letter_of_accepts {text : List Char}
    (taken : identifierMachine.accepts .start text = true) :
    ∃ c rest, text = c :: rest ∧ c.isAlpha = true := by
  cases text with
  | nil => cases taken
  | cons c rest =>
    obtain ⟨next, moved, _⟩ := Machine.accepts_cons.mp taken
    simp only [identifierMachine] at moved
    split at moved
    · next letter => exact ⟨c, rest, rfl, letter⟩
    · cases moved

/-- What begins a numeral begins no word. -/
theorem not_isAlpha_of_head {c : Char} (head : c.isDigit = true ∨ c = '.') :
    ¬ c.isAlpha = true := by
  rcases head with digit | rfl
  · have small : c.val ≤ '9'.val := of_decide_eq_true (Bool.and_eq_true_iff.mp digit).2
    intro letter
    rcases Bool.or_eq_true_iff.mp letter with upper | lower
    · have large : 'A'.val ≤ c.val ∧ c.val ≤ 'Z'.val := of_decide_eq_true upper
      exact absurd (UInt32.le_trans large.1 small) (by decide)
    · have large : 'a'.val ≤ c.val := of_decide_eq_true (Bool.and_eq_true_iff.mp lower).1
      exact absurd (UInt32.le_trans large small) (by decide)
  · decide

namespace TokenKind

/-- Kinds that a text can show, with such a text as they carry there. -/
def IsSpelled : TokenKind → Prop
  | number text => IsNumeral text
  | identifier name => IsIdentifier name
  | endOfText => False
  | _ => True

/-- Whether a character right behind a token would not stand for itself. -/
def goesOn : TokenKind → Char → Bool
  | number _, c => c.isDigit || c = '_' || c = '.'
  | identifier _, c | functionWord, c | ifWord, c | returnWord, c => c.isAlphanum
  | asterisk, c => c = '*'
  | less, c | greater, c | assign, c => c = '='
  | _, _ => false

/-- Whether a token ends where the rest of a text begins. -/
def EndsBefore (kind : TokenKind) (rest : List Char) : Prop :=
  ∀ c ∈ rest.head?, kind.goesOn c = false

/-- The end of a text is not spelled. -/
theorem IsSpelled.ne_endOfText {kind : TokenKind} (spelled : kind.IsSpelled) :
    kind ≠ .endOfText := by
  rintro rfl
  exact spelled

/-- A symbol goes on with every character that makes a pair of it. -/
theorem goesOn_of_ofPair? {c d : Char} {kind pair : TokenKind} (symbol : ofSymbol? c = some kind)
    (found : ofPair? c d = some pair) : kind.goesOn d = true := by
  unfold ofPair? at found
  split at found <;> cases found <;> cases symbol <;> rfl

/-- A pair of symbols spells its kind. -/
theorem isSpelled_of_ofPair? {c d : Char} {kind : TokenKind} (found : ofPair? c d = some kind) :
    kind.IsSpelled := by
  unfold ofPair? at found
  split at found <;> cases found <;> trivial

/-- A single symbol spells its kind. -/
theorem isSpelled_of_ofSymbol? {c : Char} {kind : TokenKind} (found : ofSymbol? c = some kind) :
    kind.IsSpelled := by
  unfold ofSymbol? at found
  split at found <;> cases found <;> trivial

/-- A whole word spells its kind, a keyword or a name. -/
theorem isSpelled_ofWord {word : String} (whole : identifierMachine.recognize word = (true, word)) :
    (ofWord word).IsSpelled := by
  by_cases keyword : ofWord word = .identifier word
  · rw [keyword]
    exact ⟨whole, keyword⟩
  · unfold ofWord at keyword ⊢
    split_ifs at keyword ⊢ <;> trivial

/-- What begins a word or a numeral is no symbol, so it begins no pair of symbols either. -/
theorem ofSymbol?_eq_none {c : Char} (begins : c.isAlphanum = true ∨ c = '.') :
    ofSymbol? c = none := by
  unfold ofSymbol?
  split <;> first | rfl | exact absurd begins (by decide)

/-- A character that is no symbol is in no pair. -/
theorem ofPair?_eq_none {c : Char} (alone : ofSymbol? c = none) (d : Char) :
    ofPair? c d = none := by
  unfold ofPair?
  split <;> first | rfl | cases alone

end TokenKind

namespace Source

variable {c : Char} {kind : TokenKind} {rest : List Char}

/-! ## One token -/

/-- There is no gap in front of a character that is neither a blank nor a number sign. -/
theorem skipGap_of_head (blank : isBlank c = false) (sign : c ≠ '#') (l : Location) :
    (⟨c :: rest, l⟩ : Source).skipGap = ⟨c :: rest, l⟩ := by
  have stay : dropBlanks ⟨c :: rest, l⟩ = ⟨c :: rest, l⟩ := by
    unfold dropBlanks
    simp only [dropBlanks.go, blank, Bool.false_eq_true, if_false]
  have refused : commentMachine.run commentMachine.fresh (c :: rest)
      = (commentMachine.fresh, c :: rest) := by
    simp only [Machine.run, commentMachine, Machine.fresh, sign, if_false]
  rw [skipGap, stay, dropLexeme]
  simp only [refused]
  rfl

/-- A blank in front belongs to the gap. -/
theorem skipGap_blank (blank : isBlank c = true) (l : Location) :
    (⟨c :: rest, l⟩ : Source).skipGap = (⟨rest, l.advance c⟩ : Source).skipGap := by
  have same : dropBlanks ⟨c :: rest, l⟩ = dropBlanks ⟨rest, l.advance c⟩ := by
    unfold dropBlanks
    simp only [dropBlanks.go, blank, if_true]
  rw [skipGap, skipGap, same]

/-- A blank in front of a token is passed over. -/
theorem next_blank (blank : isBlank c = true) (l : Location) :
    (⟨c :: rest, l⟩ : Source).next = (⟨rest, l.advance c⟩ : Source).next := by
  rw [next, next, skipGap_blank blank]

/-- A symbol is one that is read alone, in front of what makes no pair with it. -/
theorem next_symbol (symbol : TokenKind.ofSymbol? c = some kind) (ends : kind.EndsBefore rest)
    (l : Location) : (⟨c :: rest, l⟩ : Source).next = .ok ⟨kind, l⟩ ⟨rest, l.advance c⟩ := by
  have alone : rest.head?.bind (TokenKind.ofPair? c) = none := by
    apply Option.bind_eq_none_iff.mpr
    intro d first
    cases found : TokenKind.ofPair? c d with
    | none => rfl
    | some pair => cases (ends d first).symm.trans (TokenKind.goesOn_of_ofPair? symbol found)
  have shown : isBlank c = false ∧ c ≠ '#' := by
    unfold TokenKind.ofSymbol? at symbol
    split at symbol <;> first | decide | cases symbol
  refine next_eq_ok_iff.mpr ⟨?_, ?_⟩ <;> rw [skipGap_of_head shown.1 shown.2]
  exact .symbol rfl alone symbol

/-- Two symbols that are a pair are read as one token. -/
theorem next_pair {d : Char} (pair : TokenKind.ofPair? c d = some kind) (l : Location) :
    (⟨c :: d :: rest, l⟩ : Source).next = .ok ⟨kind, l⟩ ⟨rest, l.after [c, d]⟩ := by
  have shown : isBlank c = false ∧ c ≠ '#' := by
    unfold TokenKind.ofPair? at pair
    split at pair <;> first | decide | cases pair
  refine next_eq_ok_iff.mpr ⟨?_, ?_⟩ <;> rw [skipGap_of_head shown.1 shown.2]
  exact .pair rfl pair

/-- A whole lexeme is found in front of what no final state takes. -/
theorem lexeme_append {σ : Type} {m : Machine σ} {text : String}
    (whole : m.recognize text = (true, text))
    (stop : ∀ state, m.isFinal state = true → ∀ c ∈ rest.head?, m.step state c = none)
    (l : Location) :
    (⟨text.toList ++ rest, l⟩ : Source).lexeme m = .ok text ⟨rest, l.after text.toList⟩ := by
  obtain ⟨state, final, run⟩ := Machine.run_of_accepts (r := m.fresh)
    ((m.recognize_eq_iff text).mp whole) stop
  rw [String.ofList_toList] at run
  apply lexeme_eq_ok_iff.mpr
  rw [run]
  exact ⟨final, (String.empty_append).symm, rfl⟩

/-- What begins a word or a numeral begins no gap and no symbol. -/
theorem shown_of_begins (begins : c.isAlphanum = true ∨ c = '.') :
    isBlank c = false ∧ c ≠ '#' := by
  constructor
  · simp only [isBlank, Bool.or_eq_false_iff, decide_eq_false_iff_not]
    refine ⟨⟨?_, ?_⟩, ?_⟩ <;> rintro rfl <;> exact absurd begins (by decide)
  · rintro rfl
    exact absurd begins (by decide)

/-- A word is read up to the first character that is no letter or digit. -/
theorem next_word {word : String} (whole : identifierMachine.recognize word = (true, word))
    (ends : ∀ c ∈ rest.head?, c.isAlphanum = false) (l : Location) :
    (⟨word.toList ++ rest, l⟩ : Source).next
      = .ok ⟨.ofWord word, l⟩ ⟨rest, l.after word.toList⟩ := by
  have stop (state : IdentifierState) (final : identifierMachine.isFinal state = true)
      (c : Char) (first : c ∈ rest.head?) : identifierMachine.step state c = none := by
    cases state with
    | start => cases final
    | identifier => simp only [identifierMachine, ends c first, Bool.false_eq_true, if_false]
  have found := lexeme_append whole stop l
  obtain ⟨c, more, front, letter⟩ := letter_of_accepts ((Machine.recognize_eq_iff _ _).mp whole)
  have begins : c.isAlphanum = true ∨ c = '.' := by
    rw [Char.isAlphanum, letter, Bool.true_or]
    exact .inl rfl
  have strange := TokenKind.ofSymbol?_eq_none begins
  have alone (d : Char) (_ : (more ++ rest).head? = some d) := TokenKind.ofPair?_eq_none strange d
  obtain ⟨blank, sign⟩ := shown_of_begins begins
  rw [front, List.cons_append] at found ⊢
  refine next_eq_ok_iff.mpr ⟨?_, ?_⟩ <;> rw [skipGap_of_head blank sign]
  exact .word rfl (Option.bind_eq_none_iff.mpr alone) strange letter found

/-- A numeral is read up to where it ends. -/
theorem next_numeral {text : String} (numeral : IsNumeral text)
    (ends : (TokenKind.number text).EndsBefore rest) (l : Location) :
    (⟨text.toList ++ rest, l⟩ : Source).next
      = .ok ⟨.number text, l⟩ ⟨rest, l.after text.toList⟩ := by
  have stop (state : NumeralState) (final : numeralMachine.isFinal state = true)
      (c : Char) (first : c ∈ rest.head?) : numeralMachine.step state c = none := by
    have refused := ends c first
    simp only [TokenKind.goesOn, Bool.or_eq_false_iff, decide_eq_false_iff_not] at refused
    obtain ⟨⟨digit, separator⟩, point⟩ := refused
    cases state with
    | zero => simp [numeralMachine, digit, point]
    | integer | fraction => simp [numeralMachine, digit, separator, point]
    | _ => cases final
  have found := lexeme_append numeral stop l
  obtain ⟨c, more, front, head⟩ := head_of_accepts ((Machine.recognize_eq_iff _ _).mp numeral)
  have begins : c.isAlphanum = true ∨ c = '.' :=
    head.imp_left fun digit => by rw [Char.isAlphanum, digit, Bool.or_true]
  have strange := TokenKind.ofSymbol?_eq_none begins
  have alone (d : Char) (_ : (more ++ rest).head? = some d) := TokenKind.ofPair?_eq_none strange d
  obtain ⟨blank, sign⟩ := shown_of_begins begins
  have letter : ¬ c.isAlpha = true := not_isAlpha_of_head head
  rw [front, List.cons_append] at found ⊢
  refine next_eq_ok_iff.mpr ⟨?_, ?_⟩ <;> rw [skipGap_of_head blank sign]
  exact .number rfl (Option.bind_eq_none_iff.mpr alone) strange letter (by simpa using head) found

/-- **Reading undoes spelling.** -/
theorem next_spelling (spelled : kind.IsSpelled) (ends : kind.EndsBefore rest) (l : Location) :
    (⟨kind.spelling.toList ++ rest, l⟩ : Source).next
      = .ok ⟨kind, l⟩ ⟨rest, l.after kind.spelling.toList⟩ := by
  have word {keyword : TokenKind} (own : TokenKind.ofWord keyword.spelling = keyword)
      (whole : identifierMachine.recognize keyword.spelling = (true, keyword.spelling))
      (ends : ∀ c ∈ rest.head?, c.isAlphanum = false) :
      (⟨keyword.spelling.toList ++ rest, l⟩ : Source).next
        = .ok ⟨keyword, l⟩ ⟨rest, l.after keyword.spelling.toList⟩ := by
    have read := next_word whole ends l
    rw [own] at read
    exact read
  cases kind with
  | number text => exact next_numeral spelled ends l
  | identifier name => exact word spelled.2 spelled.1 ends
  | functionWord | ifWord | returnWord => exact word (by decide) (by decide) ends
  | power | lessEqual | equal | greaterEqual => exact next_pair rfl l
  | endOfText => exact spelled.elim
  | _ => exact next_symbol rfl ends l

/-- The token in front of a source is one that is spelled, unless it is the end. -/
theorem Fronts.isSpelled {s left : Source} (h : s.Fronts kind left) (more : kind ≠ .endOfText) :
    kind.IsSpelled := by
  cases h with
  | finish => exact absurd rfl more
  | pair _ found => exact TokenKind.isSpelled_of_ofPair? found
  | symbol _ _ found => exact TokenKind.isSpelled_of_ofSymbol? found
  | word _ _ _ _ found =>
    obtain ⟨ended, rfl, _⟩ := lexeme_eq_ok_iff.mp found
    exact TokenKind.isSpelled_ofWord (Machine.recognize_run ended)
  | number _ _ _ _ _ found =>
    obtain ⟨ended, rfl, _⟩ := lexeme_eq_ok_iff.mp found
    exact Machine.recognize_run ended

/-! ## All tokens -/

variable {text : List Char} {kinds others : List TokenKind}

/-- All tokens of a source are spelled. -/
theorem Scans.isSpelled {s : Source} {ts : List Token} {finish : Location}
    (h : Scans s ts finish) : ∀ t ∈ ts, t.kind.IsSpelled := by
  induction h with
  | finish => exact nofun
  | token read more _ ih =>
    exact List.forall_mem_cons.mpr ⟨(next_eq_ok_iff.mp read).1.isSpelled more, ih⟩

theorem Spells.isSpelled (h : Spells text kinds) : ∀ kind ∈ kinds, kind.IsSpelled := by
  obtain ⟨ts, finish, scanned, rfl⟩ := h .start
  exact List.forall_mem_map.mpr scanned.isSpelled

/-- A text that spells kinds has tokens of just these kinds, and the end. -/
theorem Spells.tokenize {text : String} (h : Spells text.toList kinds) : ∃ ts finish,
    tokenize text = .ok (ts ++ [⟨.endOfText, finish⟩]) ∧ ts.map Token.kind = kinds := by
  obtain ⟨ts, finish, scanned, same⟩ := h .start
  exact ⟨ts, finish, tokenize_eq_ok_iff.mpr ⟨ts, finish, scanned, rfl⟩, same⟩

/-- A text is read in one way only. -/
theorem Spells.unique (one : Spells text kinds) (two : Spells text others) : kinds = others := by
  rw [← String.toList_ofList (l := text)] at one two
  obtain ⟨ts, finish, first, rfl⟩ := one.tokenize
  obtain ⟨us, finish', second, rfl⟩ := two.tokenize
  obtain ⟨same, _⟩ := List.append_inj' (Except.ok.inj (first.symm.trans second)) rfl
  rw [same]

/-- A kind may be spelled in front of a text that it ends before. -/
theorem Spells.spelling (spelled : kind.IsSpelled) (ends : kind.EndsBefore rest)
    (h : Spells rest kinds) : Spells (kind.spelling.toList ++ rest) (kind :: kinds) :=
  .cons spelled.ne_endOfText (fun l => ⟨_, _, next_spelling spelled ends l⟩) h

/-- A symbol in front of what makes no pair with it; a semicolon is one for the line end. -/
theorem Spells.symbol (c : Char) (symbol : TokenKind.ofSymbol? c = some kind)
    (ends : kind.EndsBefore rest) (h : Spells rest kinds) : Spells (c :: rest) (kind :: kinds) :=
  .cons (TokenKind.isSpelled_of_ofSymbol? symbol).ne_endOfText
    (fun l => ⟨_, _, next_symbol symbol ends l⟩) h

/-- A blank may be written in front of a text. -/
theorem Spells.blank (c : Char) (blank : isBlank c = true) (h : Spells rest kinds) :
    Spells (c :: rest) kinds := by
  intro l
  obtain ⟨ts, finish, scanned, same⟩ := h (l.advance c)
  refine ⟨ts, finish, ?_, same⟩
  cases scanned with
  | finish read last => exact .finish ((next_blank blank l).trans read) last
  | token read more scanned => exact .token ((next_blank blank l).trans read) more scanned

end Source
end Scriptlet
