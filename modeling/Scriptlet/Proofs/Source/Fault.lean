import Scriptlet.Proofs.Source.Partition

/-!
# Where a text stops being one of tokens

Reading fails at the front of a source in one of four ways (`Faults`): a character begins nothing, a
numeral is not finished and is not gone on with either, a numeral would be a longer one that there
is not, or the text ends within a numeral. In front of the fault there are pieces and a gap, as in a
text that has tokens (`tokenize_eq_error_iff_laid`).

So a failure is reported at the first character that can be blamed. What stands in front of it is
the front of a text that has tokens: a numeral that is not finished is finished by one more digit,
and every other part of a token that is in front of a fault is a token. What stands behind it does
not matter.
-/

namespace Scriptlet

/-! ## Faults -/

/-- A character that neither a gap nor a token begins with. -/
structure IsStrange (c : Char) : Prop where
  shown : Source.isBlank c = false ∧ c ≠ '#'
  symbol : TokenKind.ofSymbol? c = none
  letter : c.isAlpha = false
  digit : c.isDigit = false
  point : c ≠ '.'

/-- A state that a numeral cannot end in, although what has been taken is right. -/
def NumeralState.IsUnfinished (state : NumeralState) : Prop :=
  state ≠ .start ∧ state ≠ .invalid ∧ numeralMachine.isFinal state = false

/-- An unfinished numeral is finished by a digit. -/
theorem NumeralState.IsUnfinished.finish {state : NumeralState} (h : state.IsUnfinished) :
    ∃ next, numeralMachine.step state '0' = some next ∧ numeralMachine.isFinal next = true := by
  obtain ⟨begun, valid, unfinished⟩ := h
  cases state with
  | start => exact absurd rfl begun
  | invalid => exact absurd rfl valid
  | zero | integer | fraction => cases unfinished
  | integerSeparator => exact ⟨.integer, rfl, rfl⟩
  | fractionStart | fractionSeparator => exact ⟨.fraction, rfl, rfl⟩

/-- What makes a numeral invalid stands behind a numeral. -/
theorem isFinal_of_step_eq_invalid {state : NumeralState} {c : Char}
    (moved : numeralMachine.step state c = some .invalid) :
    numeralMachine.isFinal state = true := by
  cases state <;> simp only [numeralMachine] at moved ⊢ <;> grind

/-- A numeral begins with a digit or a point. -/
theorem step_start_eq_none_iff {c : Char} :
    numeralMachine.step .start c = none ↔ (c.isDigit || c = '.') = false := by
  by_cases zero : c = '0'
  · subst zero
    decide
  · simp only [numeralMachine, zero, if_false]
    grind

/-- No step of a name leads back to its start. -/
theorem identifierMachine_step_ne_start (state : IdentifierState) (c : Char) :
    identifierMachine.step state c ≠ some .start := by
  cases state <;> simp only [identifierMachine] <;> grind

namespace Source

/-- What is wrong at the very front of a source, and what is left behind it. -/
inductive Faults (s : Source) : SyntaxError → Source → Prop
  /-- Nothing begins with the character. -/
  | strange {c : Char} {rest : List Char} :
      s.rest = c :: rest → IsStrange c → Faults s (.illegalSymbol c s.location) s
  /-- An unfinished numeral does not go on with the character. -/
  | refused {part : List Char} {c : Char} {rest : List Char} {state : NumeralState} :
      s.rest = part ++ c :: rest → numeralMachine.walk .start part = some state →
      state.IsUnfinished → numeralMachine.step state c = none →
      Faults s (.illegalSymbol c (s.location.after part)) ⟨c :: rest, s.location.after part⟩
  /-- A numeral does not go on with the character, and the character is no other token's. -/
  | invalid {part : List Char} {c : Char} {rest : List Char} {state : NumeralState} :
      s.rest = part ++ c :: rest → numeralMachine.walk .start part = some state →
      numeralMachine.step state c = some .invalid →
      Faults s (.illegalSymbol c (s.location.after part)) ⟨rest, s.location.after (part ++ [c])⟩
  /-- The text ends within a numeral. -/
  | unterminated {state : NumeralState} :
      numeralMachine.walk .start s.rest = some state → state.IsUnfinished →
      Faults s (.unterminatedLiteral (.ofList s.rest) (s.location.after s.rest))
        ⟨[], s.location.after s.rest⟩

variable {s left : Source} {e : SyntaxError}

/-- A numeral is not read from a source where that has a fault. -/
theorem faults_of_lexeme {c : Char} {rest : List Char} (front : s.rest = c :: rest)
    (begins : (c.isDigit || c = '.') = true) (failed : s.lexeme numeralMachine = .error e left) :
    s.Faults e left := by
  unfold lexeme at failed
  generalize run : numeralMachine.run numeralMachine.fresh s.rest = result at failed
  obtain ⟨⟨state, text⟩, behind⟩ := result
  obtain ⟨part, split, whole, walked, stuck⟩ := Machine.run_eq_iff.mp run
  obtain rfl : text = .ofList part := whole.trans String.empty_append
  -- The first character begins a numeral, so the machine has left its start.
  have begun : state ≠ .start := by
    rintro rfl
    cases part with
    | nil =>
      have refused := stuck c (congrArg List.head? (split.symm.trans front))
      cases begins.symm.trans (step_start_eq_none_iff.mp refused)
    | cons d part => exact Machine.walk_cons_ne numeralMachine_step_ne_start walked
  simp only [String.toList_ofList] at failed
  split at failed
  · cases failed
  · next unfinished =>
    rw [Bool.not_eq_true] at unfinished
    -- The machine stops in the invalid state only behind the character that has led it there, so
    -- the part in front of that character is what was valid.
    by_cases invalid : state = .invalid
    · subst invalid
      rcases List.eq_nil_or_concat part with rfl | ⟨part, d, rfl⟩
      · cases walked
      · rw [List.concat_eq_append] at split walked failed
        obtain ⟨mid, walked, moved⟩ := Machine.walk_concat_iff.mp walked
        have last : (part ++ [d]).getLast? = some d := List.getLast?_concat ..
        simp only [numeralMachine, decide_true, if_true, last, List.dropLast_concat] at failed
        cases failed
        exact .invalid (by rw [split, List.append_assoc]; rfl) walked moved
    · have valid : numeralMachine.isInvalid state = false := decide_eq_false invalid
      simp only [valid, Bool.false_eq_true, if_false] at failed
      -- What is left behind the part is what tells a text cut short from a character that is
      -- refused.
      cases behind with
      | nil =>
        cases failed
        rw [List.append_nil] at split
        rw [← split] at walked ⊢
        exact .unterminated walked ⟨begun, invalid, unfinished⟩
      | cons d behind =>
        cases failed
        exact .refused split walked ⟨begun, invalid, unfinished⟩ (stuck d rfl)

/-- A word is read from every source that begins with a letter. -/
theorem lexeme_word_ne_error {c : Char} {rest : List Char} (front : s.rest = c :: rest)
    (letter : c.isAlpha = true) : s.lexeme identifierMachine ≠ .error e left := by
  unfold lexeme
  generalize run : identifierMachine.run identifierMachine.fresh s.rest = result
  obtain ⟨⟨state, text⟩, behind⟩ := result
  cases state with
  | identifier => exact nofun
  | start =>
    obtain ⟨part, split, _, walked, stuck⟩ := Machine.run_eq_iff.mp run
    cases part with
    | nil =>
      have refused := stuck c (congrArg List.head? (split.symm.trans front))
      simp [identifierMachine, letter] at refused
    | cons d part => exact absurd walked (Machine.walk_cons_ne identifierMachine_step_ne_start)

/-- No kind is read from a source that has a fault, if it begins with nothing to pass over. -/
theorem faults_of_kind (shown : ∀ c ∈ s.rest.head?, isBlank c = false ∧ c ≠ '#')
    (failed : s.kind = .error e left) : s.Faults e left := by
  unfold Source.kind at failed
  split at failed
  · cases failed
  · next c rest front =>
    split at failed
    · cases failed
    · split at failed
      · cases failed
      · next symbol =>
        -- Only a character that is no symbol can begin a word or a numeral, and a word is always
        -- read.
        split at failed
        · next letter =>
          split at failed
          · cases failed
          · next found => exact absurd found (lexeme_word_ne_error front letter)
        · next letter =>
          split at failed
          · next digit =>
            split at failed
            · cases failed
            · next found =>
              cases failed
              exact faults_of_lexeme front digit found
          · next digit =>
            cases failed
            simp only [Bool.not_eq_true, Bool.or_eq_false_iff, decide_eq_false_iff_not]
              at letter digit
            have begins := shown c (congrArg List.head? front)
            exact .strange front ⟨begins, symbol, letter, digit.1, digit.2⟩

/-- A numeral is asked for where one has been begun. -/
theorem kind_of_lexeme {part behind : List Char} {state : NumeralState}
    (split : s.rest = part ++ behind) (walked : numeralMachine.walk .start part = some state)
    (begun : state ≠ .start) (failed : s.lexeme numeralMachine = .error e left) :
    s.kind = .error e left := by
  cases part with
  | nil =>
    cases walked
    exact absurd rfl begun
  | cons c part =>
    obtain ⟨next, moved, _⟩ := Option.bind_eq_some_iff.mp walked
    have begins : (c.isDigit || c = '.') = true := by
      by_contra other
      rw [Bool.not_eq_true, ← step_start_eq_none_iff, moved] at other
      cases other
    have head : c.isDigit = true ∨ c = '.' := by simpa using begins
    -- A digit and the point are no symbols, so the kind is looked for in the numerals.
    have strange := TokenKind.ofSymbol?_eq_none (head.imp_left fun digit => by
      rw [Char.isAlphanum, digit, Bool.or_true])
    have alone : (part ++ behind).head?.bind (TokenKind.ofPair? c) = none :=
      Option.bind_eq_none_iff.mpr fun d _ => TokenKind.ofPair?_eq_none strange d
    rw [List.cons_append] at split
    simp only [Source.kind, split, alone, strange, not_isAlpha_of_head head, begins, if_true,
      if_false, Bool.false_eq_true, failed]

/-- Reading fails where there is a fault. -/
theorem kind_of_faults (h : s.Faults e left) : s.kind = .error e left := by
  cases h with
  | @strange c rest front strange =>
    have alone : rest.head?.bind (TokenKind.ofPair? c) = none :=
      Option.bind_eq_none_iff.mpr fun d _ => TokenKind.ofPair?_eq_none strange.symbol d
    have digit : (c.isDigit || c = '.') = false := by
      rw [strange.digit, Bool.false_or]
      exact decide_eq_false strange.point
    simp only [Source.kind, front, alone, strange.symbol, strange.letter, digit,
      Bool.false_eq_true, if_false]
  | @refused part c rest state split walked unfinished stuck =>
    have valid : numeralMachine.isInvalid state = false := decide_eq_false unfinished.2.1
    refine kind_of_lexeme split walked unfinished.1 ?_
    rw [lexeme, split, Machine.run_fresh_of_walk walked (by rintro d ⟨⟩; exact stuck)]
    simp only [unfinished.2.2, valid, String.toList_ofList, Bool.false_eq_true, if_false]
  | @invalid part c rest state split walked moved =>
    have walked := Machine.walk_concat_iff.mpr ⟨state, walked, moved⟩
    rw [← List.singleton_append, ← List.append_assoc] at split
    have last : (part ++ [c]).getLast? = some c := List.getLast?_concat ..
    refine kind_of_lexeme split walked (by decide) ?_
    rw [lexeme, split, Machine.run_fresh_of_walk walked fun _ _ => rfl]
    simp only [String.toList_ofList, last, List.dropLast_concat]
    rfl
  | @unterminated state walked unfinished =>
    have valid : numeralMachine.isInvalid state = false := decide_eq_false unfinished.2.1
    have run : numeralMachine.run numeralMachine.fresh (s.rest ++ []) = _ :=
      Machine.run_fresh_of_walk walked (by simp)
    rw [List.append_nil] at run
    refine kind_of_lexeme (List.append_nil _).symm walked unfinished.1 ?_
    rw [lexeme, run]
    simp only [unfinished.2.2, valid, String.toList_ofList, Bool.false_eq_true, if_false]

/-- Reading fails when behind a gap there is a fault. -/
theorem next_eq_error_iff : s.next = .error e left ↔ ∃ gap rest, s.rest = gap ++ rest ∧
    IsGap gap rest ∧ (∀ c ∈ rest.head?, isBlank c = false ∧ c ≠ '#') ∧
    (⟨rest, s.location.after gap⟩ : Source).Faults e left := by
  constructor
  · intro failed
    obtain ⟨gap, split, isGap, moved, shown⟩ := s.exists_gap
    refine ⟨gap, s.skipGap.rest, split, isGap, shown, ?_⟩
    rw [← moved]
    unfold next at failed
    split at failed
    · cases failed
    · next found =>
      cases failed
      exact faults_of_kind shown found
  · rintro ⟨gap, rest, split, isGap, shown, faults⟩
    obtain ⟨_, l⟩ := s
    obtain rfl := split
    rw [next, skipGap_append isGap shown]
    simp only [kind_of_faults faults]

/-- The loop fails with the error that comes behind the tokens found. -/
theorem scan_go_eq_error_iff (found : List Token) {tokens : List Token} :
    scan.go found s = (tokens, some e) ↔ ∃ ts left, s.Reaches ts left ∧
      (∃ after, left.next = .error e after) ∧ tokens = found.reverse ++ ts := by
  fun_induction scan.go found s with
  | case1 found s e' left' failed =>
    constructor
    · rintro ⟨⟩
      exact ⟨[], s, .refl s, ⟨left', failed⟩, (List.append_nil _).symm⟩
    · rintro ⟨_, _, reached, ⟨after, other⟩, rfl⟩
      cases reached with
      | refl =>
        cases failed.symm.trans other
        rw [List.append_nil]
      | token read => cases failed.symm.trans read
  | case2 found s t left read last =>
    constructor
    · rintro ⟨⟩
    · rintro ⟨_, _, reached, ⟨after, other⟩, rfl⟩
      cases reached with
      | refl => cases read.symm.trans other
      | token front more =>
        cases read.symm.trans front
        exact absurd last more
  | case3 found s t left read more _ ih =>
    rw [ih]
    constructor
    · rintro ⟨ts, last, reached, failed, rfl⟩
      refine ⟨t :: ts, last, .token read more reached, failed, ?_⟩
      rw [List.reverse_cons, List.append_assoc, List.singleton_append]
    · rintro ⟨_, last, reached, ⟨after, failed⟩, rfl⟩
      cases reached with
      | refl => cases read.symm.trans failed
      | @token _ _ _ _ ts front _ reached =>
        cases read.symm.trans front
        refine ⟨ts, last, reached, ⟨after, failed⟩, ?_⟩
        rw [List.reverse_cons, List.append_assoc, List.singleton_append]

end Source

/-- A text has no tokens when reading reaches a failure. -/
theorem tokenize_eq_error_iff {text : String} {e : SyntaxError} :
    tokenize text = .error e ↔ ∃ ts left, (Source.ofString text).Reaches ts left ∧
      ∃ after, left.next = .error e after := by
  have scanned : ∀ tokens, Source.scan.go [] (.ofString text) = (tokens, some e) ↔ _ :=
    fun _ => Source.scan_go_eq_error_iff []
  unfold tokenize Source.scan
  generalize Source.scan.go [] (.ofString text) = result at scanned
  obtain ⟨found, _ | e'⟩ := result
  · refine ⟨nofun, ?_⟩
    rintro ⟨ts, left, reached, failed⟩
    cases (scanned ts).mpr ⟨ts, left, reached, failed, rfl⟩
  · constructor
    · rintro ⟨⟩
      obtain ⟨ts, left, reached, failed, _⟩ := (scanned found).mp rfl
      exact ⟨ts, left, reached, failed⟩
    · rintro ⟨ts, left, reached, failed⟩
      cases (scanned ts).mpr ⟨ts, left, reached, failed, rfl⟩
      rfl

open Piece (join Laid)

/-- A text has no tokens when behind pieces and a gap there is a fault. -/
theorem tokenize_eq_error_iff_laid {text : String} {e : SyntaxError} :
    tokenize text = .error e ↔ ∃ pieces gap rest, text.toList = join pieces ++ (gap ++ rest) ∧
      Laid .start pieces (gap ++ rest) ∧ IsGap gap rest ∧
      (∀ c ∈ rest.head?, Source.isBlank c = false ∧ c ≠ '#') ∧
      ∃ left, (⟨rest, .behind (join pieces ++ gap)⟩ : Source).Faults e left := by
  simp only [← Location.after_start, Location.after_append]
  rw [tokenize_eq_error_iff]
  constructor
  · rintro ⟨ts, ⟨behind, l⟩, reached, after, failed⟩
    obtain ⟨pieces, split, rfl, rfl, laid⟩ := Source.reaches_iff.mp reached
    obtain ⟨gap, rest, rfl, isGap, shown, faults⟩ := Source.next_eq_error_iff.mp failed
    exact ⟨pieces, gap, rest, split, laid, isGap, shown, after, faults⟩
  · rintro ⟨pieces, gap, rest, split, laid, isGap, shown, after, faults⟩
    refine ⟨pieces.map Piece.token, ⟨gap ++ rest, Location.start.after (join pieces)⟩, ?_,
      after, ?_⟩
    · exact Source.reaches_iff.mpr ⟨pieces, split, rfl, rfl, laid⟩
    · exact Source.next_eq_error_iff.mpr ⟨gap, rest, rfl, isGap, shown, faults⟩

/-! ## In front of a fault -/

/-- A text walked over to a final state is a numeral. -/
theorem isNumeral_of_walk {text : List Char} {state : NumeralState}
    (walked : numeralMachine.walk .start text = some state)
    (final : numeralMachine.isFinal state = true) : IsNumeral (.ofList text) := by
  refine (Machine.recognize_eq_iff _ _).mpr ?_
  rw [String.toList_ofList]
  exact Machine.accepts_iff_walk.mpr ⟨state, walked, final⟩

/-- An unfinished numeral is the front of one. -/
theorem NumeralState.IsUnfinished.exists_isNumeral {part : List Char} {state : NumeralState}
    (h : state.IsUnfinished) (walked : numeralMachine.walk .start part = some state) :
    ∃ more, IsNumeral (.ofList (part ++ more)) := by
  obtain ⟨next, moved, final⟩ := h.finish
  exact ⟨['0'], isNumeral_of_walk (Machine.walk_concat_iff.mpr ⟨state, walked, moved⟩) final⟩

/-- A fault at a character has nothing in front of it or the front of a numeral, and what stands
behind the character does not matter. -/
theorem exists_part_of_faults {rest : List Char} {l p : Location} {c : Char} {left : Source}
    (h : (⟨rest, l⟩ : Source).Faults (.illegalSymbol c p) left) : ∃ part more,
      rest = part ++ c :: more ∧ p = l.after part ∧
      (part = [] ∨ ∃ more, IsNumeral (.ofList (part ++ more))) ∧
      ∀ other, ∃ left, (⟨part ++ c :: other, l⟩ : Source).Faults (.illegalSymbol c p) left := by
  cases h with
  | strange front strange => exact ⟨[], _, front, rfl, .inl rfl, fun _ => ⟨_, .strange rfl strange⟩⟩
  | refused split walked unfinished stuck =>
    exact ⟨_, _, split, rfl, .inr (unfinished.exists_isNumeral walked),
      fun _ => ⟨_, .refused rfl walked unfinished stuck⟩⟩
  | invalid split walked moved =>
    have numeral := isNumeral_of_walk walked (isFinal_of_step_eq_invalid moved)
    exact ⟨_, _, split, rfl, .inr ⟨[], by rwa [List.append_nil]⟩,
      fun _ => ⟨_, .invalid rfl walked moved⟩⟩

/-- A text that ends within a token ends with an unfinished numeral. -/
theorem exists_walk_of_faults {rest : List Char} {l p : Location} {text : String} {left : Source}
    (h : (⟨rest, l⟩ : Source).Faults (.unterminatedLiteral text p) left) : ∃ state,
      numeralMachine.walk .start rest = some state ∧ state.IsUnfinished ∧ text = .ofList rest ∧
      p = l.after rest := by
  cases h with
  | unterminated walked unfinished => exact ⟨_, walked, unfinished, rfl, rfl⟩

/-- A numeral behind a gap may be the last piece of a text. -/
theorem Piece.laid_numeral {gap text : List Char} (numeral : IsNumeral (.ofList text))
    (isGap : IsGap gap text) (l : Location) :
    Laid l [⟨gap, ⟨.number (.ofList text), l.after gap⟩, text⟩] [] := by
  have shows : TokenKind.Shows (.number (.ofList text)) text :=
    ⟨numeral, .inl String.toList_ofList.symm⟩
  refine laid_cons_iff.mpr ⟨⟨?_, shows, rfl, nofun⟩, laid_nil _ _⟩
  rw [← List.append_nil text] at isGap
  exact isGap

/-- Pieces, a gap and perhaps the front of a numeral are the front of a text that has tokens. -/
theorem exists_tokens_of_front {pieces : List Piece} {gap part rest : List Char}
    (laid : Laid .start pieces (gap ++ (part ++ rest))) (isGap : IsGap gap (part ++ rest))
    (front : part = [] ∨ ∃ more, IsNumeral (.ofList (part ++ more))) :
    ∃ more tokens, tokenize (.ofList (join pieces ++ (gap ++ part) ++ more)) = .ok tokens := by
  have tokens (pieces : List Piece) (last : List Char) (laid : Laid .start pieces last)
      (ends : IsGap last []) : ∃ tokens, tokenize (.ofList (join pieces ++ last)) = .ok tokens :=
    ⟨_, tokenize_eq_ok_iff_laid.mpr ⟨pieces, last, String.toList_ofList, rfl, laid, ends⟩⟩
  cases part with
  | nil =>
    -- Nothing is left unfinished, so what has been read has tokens as it is.
    refine ⟨[], ?_⟩
    rw [List.append_nil, List.append_nil]
    refine tokens pieces gap (laid.swap ?_) (isGap.swap (.nil _))
    simpa using (StartsLike.nil rest).append gap
  | cons c part =>
    -- The numeral that has been begun is finished, and nothing in front of it is read differently
    -- for that.
    obtain ⟨more, numeral⟩ := front.resolve_left nofun
    have same : StartsLike (c :: part ++ more) (c :: part ++ rest) := .cons c _ _
    have last := Piece.laid_numeral numeral (isGap.swap same) (Location.start.after (join pieces))
    have before := laid.swap (same.append gap)
    refine ⟨more, ?_⟩
    have read := tokens _ [] (Piece.laid_append_iff.mpr ⟨?_, last⟩) .nothing
    · rw [Piece.join_append, Piece.join_singleton, List.append_nil] at read
      simpa only [List.append_assoc] using read
    · rw [Piece.join_singleton, List.append_nil]
      exact before

/-- **A failure is reported where it is certain.** A text that is refused at a character has that
character there, what stands in front of it is the front of a text that has tokens, and with any
other text behind the character it is refused the same. A text that is refused because it ends
within a token is refused at its end, and is itself the front of a text that has tokens. -/
theorem tokenize_error (text : String) :
    (∀ c l, tokenize text = .error (.illegalSymbol c l) →
      text.toList[l.offset]? = some c ∧
      (∃ more tokens, tokenize (.ofList (text.toList.take l.offset ++ more)) = .ok tokens) ∧
      ∀ more, tokenize (.ofList (text.toList.take (l.offset + 1) ++ more))
        = .error (.illegalSymbol c l)) ∧
    ∀ part l, tokenize text = .error (.unterminatedLiteral part l) →
      l = .behind text.toList ∧ part ≠ "" ∧ part.toList <:+ text.toList ∧
      ∃ more tokens, tokenize (.ofList (text.toList ++ more)) = .ok tokens := by
  constructor
  · intro c l refused
    obtain ⟨pieces, gap, rest, split, laid, isGap, shown, left, faults⟩ :=
      tokenize_eq_error_iff_laid.mp refused
    -- What stands in front of the refused character may end within a numeral, which is then
    -- finished.
    obtain ⟨part, behind, rfl, rfl, front, other⟩ := exists_part_of_faults faults
    have place : ((Location.behind (join pieces ++ gap)).after part).offset
        = (join pieces ++ (gap ++ part)).length := by
      simp [Location.behind, Nat.add_assoc]
    have whole : text.toList = join pieces ++ (gap ++ part) ++ c :: behind := by
      rw [split, List.append_assoc, List.append_assoc]
    rw [place, whole]
    refine ⟨?_, ?_, fun more => ?_⟩
    · simp
    · rw [List.take_left]
      exact exists_tokens_of_front laid isGap front
    · have same : StartsLike (part ++ c :: more) (part ++ c :: behind) :=
        (StartsLike.cons c _ _).append part
      refine tokenize_eq_error_iff_laid.mpr ⟨pieces, gap, part ++ c :: more, ?_,
        laid.swap (same.append gap), isGap.swap same, ?_, other more⟩
      · rw [String.toList_ofList, List.take_length_add_append, List.take_succ_cons, List.take_zero]
        simp only [List.append_assoc, List.singleton_append]
      · exact fun d first => shown d (same d first)
  · intro part l refused
    obtain ⟨pieces, gap, rest, split, laid, isGap, shown, left, faults⟩ :=
      tokenize_eq_error_iff_laid.mp refused
    -- The end of a text is in the way of nothing but a numeral, for other tokens can all end there.
    obtain ⟨state, walked, unfinished, rfl, rfl⟩ := exists_walk_of_faults faults
    rw [split, String.toList_ofList]
    refine ⟨?_, ?_, ?_, ?_⟩
    · rw [← Location.after_start, ← Location.after_append, Location.after_start, List.append_assoc]
    · intro none
      cases String.ofList_eq_empty_iff.mp none
      cases walked
      exact unfinished.1 rfl
    · exact (List.suffix_append gap rest).trans (List.suffix_append _ _)
    · have front := unfinished.exists_isNumeral walked
      rw [← List.append_nil rest] at laid isGap
      exact exists_tokens_of_front laid isGap (.inr front)

/-- A plus sign behind an unfinished numeral, and an end behind another one on the second line. -/
theorem tokenize_error_unfinishedNumerals :
    tokenize "x=1_+2" = .error (.illegalSymbol '+' ⟨4, 1, 5⟩) ∧
      ((∃ more tokens, tokenize (.ofList ("x=1_".toList ++ more)) = .ok tokens) ∧
        ∀ more, tokenize (.ofList ("x=1_+".toList ++ more))
          = .error (.illegalSymbol '+' ⟨4, 1, 5⟩)) ∧
      tokenize "x\n.5_" = .error (.unterminatedLiteral ".5_" ⟨5, 2, 4⟩) ∧
      ∃ more tokens, tokenize (.ofList ("x\n.5_".toList ++ more)) = .ok tokens := by
  have symbol : tokenize "x=1_+2" = .error (.illegalSymbol '+' ⟨4, 1, 5⟩) := by cbv
  have finish : tokenize "x\n.5_" = .error (.unterminatedLiteral ".5_" ⟨5, 2, 4⟩) := by cbv
  obtain ⟨_, front, same⟩ := (tokenize_error "x=1_+2").1 '+' ⟨4, 1, 5⟩ symbol
  obtain ⟨_, _, _, more⟩ := (tokenize_error "x\n.5_").2 ".5_" ⟨5, 2, 4⟩ finish
  exact ⟨symbol, ⟨front, same⟩, finish, more⟩

end Scriptlet
