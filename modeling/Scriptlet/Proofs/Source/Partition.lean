import Mathlib.Data.List.Induction
import Scriptlet.Proofs.Source.Spelling

/-!
# Texts as tokens and gaps

A text that has tokens is made up of pieces, each of them a gap and a token behind it, and of a last
gap in front of the end. `Laid` says what makes pieces the ones that are read: every gap is one,
every token is written as its kind is and located where it stands, and none could be read on.

Pieces are what `next` takes off a source one by one (`exists_piece`, `next_of_stands`), in front of
anything that the reading goes on to (`reaches_iff`). So a text has exactly the tokens of the pieces
that it can be divided into (`tokenize_eq_ok_iff_laid`).

A token could be read on at some characters (`takes`), and it does not stand in front of an
underscore although a lone zero would not be read on there. As no token begins with an underscore
this does not occur in a text that has tokens (`Laid.head_ne_underscore`), which gives the longest
match for all.
-/

namespace Scriptlet

/-! ## Places -/

namespace Location

/-- The place behind a text, counted in the text itself. -/
def behind (text : List Char) : Location :=
  ⟨text.length, 1 + text.count '\n', 1 + (text.reverse.takeWhile (· ≠ '\n')).length⟩

/-- From the start, the place behind a text is counted in the text. -/
theorem after_start (text : List Char) : start.after text = behind text := by
  induction text using List.reverseRecOn with
  | nil => rfl
  | append_singleton text c ih =>
    rw [after_append, ih]
    by_cases line : c = '\n'
    · subst line
      simp [behind, advance, Nat.add_assoc]
    · simp [behind, advance, line, Nat.add_comm]

end Location

/-! ## Gaps -/

/-- Whether a text has no other first character than another one, and perhaps none. -/
def StartsLike (text other : List Char) : Prop := ∀ c ∈ text.head?, c ∈ other.head?

/-- The empty text starts like any other. -/
theorem StartsLike.nil (other : List Char) : StartsLike [] other := nofun

/-- Texts that are not empty start alike if their first characters do. -/
theorem StartsLike.cons (c : Char) (text other : List Char) : StartsLike (c :: text) (c :: other) :=
  fun _ => id

/-- Behind the same front, texts start alike if they do without it. -/
theorem StartsLike.append {text other : List Char} (h : StartsLike text other)
    (front : List Char) : StartsLike (front ++ text) (front ++ other) := by
  cases front with
  | nil => exact h
  | cons c front => exact .cons c _ _

/-- What may stand in front of a token or of the end: blanks, and perhaps a comment behind them,
which goes up to the end of its line or of the text. -/
inductive IsGap : List Char → List Char → Prop
  | nothing {rest : List Char} : IsGap [] rest
  | blank {c : Char} {gap rest : List Char} :
      Source.isBlank c = true → IsGap gap rest → IsGap (c :: gap) rest
  | comment {text rest : List Char} :
      '\n' ∉ text → (∀ c ∈ rest.head?, c = '\n') → IsGap ('#' :: text) rest

/-- Only the first character behind a gap matters, and not that there is one. -/
theorem IsGap.swap {gap rest other : List Char} (h : IsGap gap rest)
    (same : StartsLike other rest) : IsGap gap other := by
  induction h with
  | nothing => exact .nothing
  | blank blank _ ih => exact .blank blank (ih same)
  | comment line ends => exact .comment line fun c first => ends c (same c first)

/-- A gap does not begin with an underscore. -/
theorem IsGap.head_ne_underscore {gap rest : List Char} (h : IsGap gap rest) :
    ∀ c ∈ gap.head?, c ≠ '_' := by
  cases h with
  | nothing => exact nofun
  | blank blank _ =>
    rintro c ⟨⟩ rfl
    cases blank
  | comment =>
    rintro c ⟨⟩
    decide

namespace Source

/-- The line at the front of a text. -/
theorem exists_line (text : List Char) :
    ∃ line rest, text = line ++ rest ∧ '\n' ∉ line ∧ ∀ c ∈ rest.head?, c = '\n' := by
  induction text with
  | nil => exact ⟨[], [], rfl, List.not_mem_nil, nofun⟩
  | cons c text ih =>
    by_cases newLine : c = '\n'
    · refine ⟨[], c :: text, rfl, List.not_mem_nil, ?_⟩
      rintro d ⟨⟩
      exact newLine
    · obtain ⟨line, rest, rfl, inside, ends⟩ := ih
      refine ⟨c :: line, rest, rfl, fun member => ?_, ends⟩
      rcases List.mem_cons.mp member with same | member
      · exact newLine same.symm
      · exact inside member

/-- A comment is skipped up to the end of its line. -/
theorem skipGap_comment {text rest : List Char} (line : '\n' ∉ text)
    (ends : ∀ c ∈ rest.head?, c = '\n') (l : Location) :
    (⟨'#' :: (text ++ rest), l⟩ : Source).skipGap = ⟨rest, l.after ('#' :: text)⟩ := by
  have walked : commentMachine.walk .comment text = some .comment := by
    induction text with
    | nil => rfl
    | cons c text ih =>
      have other : c ≠ '\n' := fun same => line (same ▸ List.mem_cons_self)
      simp only [Machine.walk, commentMachine, other, if_false, Option.bind_some]
      exact ih fun member => line (List.mem_cons_of_mem c member)
  have run : commentMachine.run commentMachine.fresh ('#' :: text ++ rest)
      = (⟨.comment, String.ofList ('#' :: text)⟩, rest) := by
    refine Machine.run_fresh_of_walk walked fun c first => ?_
    cases ends c first
    rfl
  have stay : dropBlanks ⟨'#' :: (text ++ rest), l⟩ = ⟨'#' :: text ++ rest, l⟩ := rfl
  rw [skipGap, stay, dropLexeme]
  simp only [run, String.toList_ofList]

/-- A gap is passed over in whole, where no more of it stands behind. -/
theorem skipGap_append {gap rest : List Char} (h : IsGap gap rest)
    (shown : ∀ c ∈ rest.head?, isBlank c = false ∧ c ≠ '#') (l : Location) :
    (⟨gap ++ rest, l⟩ : Source).skipGap = ⟨rest, l.after gap⟩ := by
  induction h generalizing l with
  | @nothing rest =>
    cases rest with
    | nil => rfl
    | cons c rest =>
      obtain ⟨blank, sign⟩ := shown c rfl
      exact skipGap_of_head blank sign l
  | blank blank _ ih => exact (skipGap_blank blank l).trans (ih shown _)
  | comment line ends => exact skipGap_comment line ends l

/-- What is passed over is a gap, and no more of it stands behind. -/
theorem exists_gap (s : Source) : ∃ gap, s.rest = gap ++ s.skipGap.rest ∧
    IsGap gap s.skipGap.rest ∧ s.skipGap.location = s.location.after gap ∧
    ∀ c ∈ s.skipGap.rest.head?, isBlank c = false ∧ c ≠ '#' := by
  obtain ⟨text, l⟩ := s
  induction text generalizing l with
  | nil => exact ⟨[], rfl, .nothing, rfl, nofun⟩
  | cons c rest ih =>
    by_cases blank : isBlank c = true
    · obtain ⟨gap, split, isGap, place, shown⟩ := ih (l.advance c)
      rw [skipGap_blank blank]
      exact ⟨c :: gap, congrArg (c :: ·) split, .blank blank isGap, place, shown⟩
    · by_cases sign : c = '#'
      · obtain ⟨line, behind, rfl, inside, ends⟩ := exists_line rest
        subst sign
        rw [skipGap_comment inside ends]
        refine ⟨'#' :: line, rfl, .comment inside ends, rfl, fun d first => ?_⟩
        cases ends d first
        decide
      · rw [Bool.not_eq_true] at blank
        rw [skipGap_of_head blank sign]
        refine ⟨[], rfl, .nothing, rfl, ?_⟩
        rintro d ⟨⟩
        exact ⟨blank, sign⟩

/-- What is read behind a gap is what would be read without it. -/
theorem next_append {gap rest : List Char} (h : IsGap gap rest)
    (shown : ∀ c ∈ rest.head?, isBlank c = false ∧ c ≠ '#') (l : Location) :
    (⟨gap ++ rest, l⟩ : Source).next = (⟨rest, l.after gap⟩ : Source).next := by
  have none : (⟨rest, l.after gap⟩ : Source).skipGap = ⟨rest, l.after gap⟩ :=
    skipGap_append .nothing shown _
  rw [next, next, skipGap_append h shown, none]

end Source

/-! ## Tokens in a text -/

namespace TokenKind

/-- Whether a text is how a kind is written: by its spelling, or a line end by a semicolon. -/
def Shows (kind : TokenKind) (text : List Char) : Prop :=
  kind.IsSpelled ∧ (text = kind.spelling.toList ∨ kind = .newLine ∧ text = [';'])

/-- Whether a token is read on at a character behind it. A lone zero is not at an underscore. -/
def takes : TokenKind → Char → Bool
  | number text, c => c.isDigit || c = '.' || (c = '_' && text ≠ "0")
  | kind, c => kind.goesOn c

/-- Whether reading a token stops where the rest of a text begins. -/
def StopsBefore (kind : TokenKind) (rest : List Char) : Prop :=
  ∀ c ∈ rest.head?, kind.takes c = false

variable {kind : TokenKind} {text rest : List Char}

/-- Except for the underscore, a kind is read on at the characters it takes. -/
theorem goesOn_iff_takes {c : Char} (other : c ≠ '_') : kind.goesOn c = kind.takes c := by
  cases kind with
  | number text => simp [goesOn, takes, other]
  | _ => rfl

/-- A token that ends before a text could not be read on there. -/
theorem EndsBefore.stopsBefore (h : kind.EndsBefore rest) : kind.StopsBefore rest := by
  intro c first
  have ends := h c first
  cases kind with
  | number text =>
    simp only [goesOn, Bool.or_eq_false_iff] at ends
    simp [takes, ends.1.1, ends.1.2, ends.2]
  | _ => exact ends

/-- A token that could not be read on ends there, unless an underscore comes next. -/
theorem StopsBefore.endsBefore (h : kind.StopsBefore rest) (other : ∀ c ∈ rest.head?, c ≠ '_') :
    kind.EndsBefore rest :=
  fun c first => (goesOn_iff_takes (other c first)).trans (h c first)

/-- What is written for a kind begins neither a gap nor with an underscore. -/
theorem Shows.exists_cons (h : kind.Shows text) : ∃ c rest, text = c :: rest ∧
    (Source.isBlank c = false ∧ c ≠ '#') ∧ c ≠ '_' := by
  have word {c : Char} {rest : List Char} (front : kind.spelling.toList = c :: rest)
      (begins : c.isAlphanum = true ∨ c = '.') : ∃ c rest, kind.spelling.toList = c :: rest ∧
        (Source.isBlank c = false ∧ c ≠ '#') ∧ c ≠ '_' := by
    refine ⟨c, rest, front, Source.shown_of_begins begins, ?_⟩
    rintro rfl
    exact absurd begins (by decide)
  obtain ⟨spelled, rfl | ⟨rfl, rfl⟩⟩ := h
  · cases kind with
    | number text =>
      obtain ⟨c, rest, front, head⟩ := head_of_accepts ((Machine.recognize_eq_iff _ _).mp spelled)
      exact word front (head.imp_left fun digit => by rw [Char.isAlphanum, digit, Bool.or_true])
    | identifier name =>
      obtain ⟨c, rest, front, letter⟩ :=
        letter_of_accepts ((Machine.recognize_eq_iff _ _).mp spelled.1)
      exact word front (.inl (by rw [Char.isAlphanum, letter, Bool.true_or]))
    | endOfText => exact spelled.elim
    | _ => exact ⟨_, _, rfl, by decide⟩
  · exact ⟨_, _, rfl, by decide⟩

/-- Two symbols that are a kind show as that kind. -/
theorem shows_of_ofPair? {c d : Char} (found : ofPair? c d = some kind) : kind.Shows [c, d] := by
  refine ⟨isSpelled_of_ofPair? found, .inl ?_⟩
  unfold ofPair? at found
  split at found <;> cases found <;> rfl

/-- One symbol that is a kind shows as that kind. -/
theorem shows_of_ofSymbol? {c : Char} (found : ofSymbol? c = some kind) : kind.Shows [c] := by
  refine ⟨isSpelled_of_ofSymbol? found, ?_⟩
  unfold ofSymbol? at found
  split at found <;> cases found <;> first | exact .inl rfl | exact .inr ⟨rfl, rfl⟩

/-- A word is spelled as it is, whether it is a keyword or a name. -/
theorem spelling_ofWord (word : String) : (ofWord word).spelling = word := by
  unfold ofWord
  split_ifs with function conditional result
  · exact function.symm
  · exact conditional.symm
  · exact result.symm
  · rfl

/-- No kind of two symbols can be read on. -/
theorem stopsBefore_of_ofPair? {c d : Char} (found : ofPair? c d = some kind)
    (rest : List Char) : kind.StopsBefore rest := by
  intro e _
  unfold ofPair? at found
  split at found <;> cases found <;> rfl

/-- A symbol that makes no pair stops. -/
theorem stopsBefore_of_ofSymbol? {c : Char} (symbol : ofSymbol? c = some kind)
    (alone : rest.head?.bind (ofPair? c) = none) : kind.StopsBefore rest := by
  intro d first
  have noPair := Option.bind_eq_none_iff.mp alone d first
  unfold ofSymbol? at symbol
  split at symbol <;> cases symbol <;> first
    | rfl
    | exact decide_eq_false fun same => by subst same; cases noPair

/-- A word takes letters and digits, a keyword as well. -/
theorem takes_ofWord (word : String) (c : Char) : (ofWord word).takes c = c.isAlphanum := by
  unfold ofWord
  split_ifs <;> rfl

end TokenKind

/-! ## Words and numerals -/

/-- A name ends before the first character that is no letter or digit. -/
theorem identifierMachine_step_eq_none_iff {c : Char} :
    identifierMachine.step .identifier c = none ↔ c.isAlphanum = false := by
  simp only [identifierMachine]
  split
  · next letter => simp [letter]
  · next other => simpa using other

/-- The state of a lone zero is reached from the start alone. -/
theorem numeralMachine_step_eq_zero {state : NumeralState} {c : Char}
    (moved : numeralMachine.step state c = some .zero) : state = .start ∧ c = '0' := by
  cases state <;> simp only [numeralMachine] at moved <;> grind

/-- No step leads back to the start. -/
theorem numeralMachine_step_ne_start (state : NumeralState) (c : Char) :
    numeralMachine.step state c ≠ some .start := by
  cases state <;> simp only [numeralMachine] <;> grind

/-- Nothing but a lone zero is taken as one. -/
theorem eq_zero_of_walk {state : NumeralState} {text : List Char}
    (walked : numeralMachine.walk state text = some .zero) :
    state = .zero ∧ text = [] ∨ state = .start ∧ text = ['0'] := by
  induction text generalizing state with
  | nil =>
    cases walked
    exact .inl ⟨rfl, rfl⟩
  | cons c rest ih =>
    obtain ⟨next, moved, walked⟩ := Option.bind_eq_some_iff.mp walked
    rcases ih walked with ⟨rfl, rfl⟩ | ⟨rfl, _⟩
    · obtain ⟨rfl, rfl⟩ := numeralMachine_step_eq_zero moved
      exact .inr ⟨rfl, rfl⟩
    · exact absurd moved (numeralMachine_step_ne_start state c)

/-- A numeral is read on at a character when its machine takes that. -/
theorem takes_number_eq_false_iff {text : String} {state : NumeralState} {c : Char}
    (walked : numeralMachine.walk .start text.toList = some state)
    (final : numeralMachine.isFinal state = true) :
    (TokenKind.number text).takes c = false ↔ numeralMachine.step state c = none := by
  have other (different : state ≠ .zero) : text ≠ "0" := by
    rintro rfl
    cases walked
    exact different rfl
  cases state with
  | zero =>
    obtain ⟨stuck, _⟩ | ⟨_, zero⟩ := eq_zero_of_walk walked
    · cases stuck
    · obtain rfl : text = "0" := String.toList_inj.mp zero
      simp only [TokenKind.takes, numeralMachine]
      grind
  | integer | fraction =>
    have different := other (by decide)
    simp only [TokenKind.takes, numeralMachine]
    grind
  | _ => cases final

/-! ## Pieces -/

/-- A token as it stands in a text: the gap in front of it, and what is written for it. -/
structure Piece where
  gap : List Char
  token : Token
  text : List Char

namespace Piece

/-- All that a piece takes up of a text. -/
def whole (p : Piece) : List Char := p.gap ++ p.text

/-- The text that pieces make up, one behind the other. -/
def join (pieces : List Piece) : List Char := pieces.flatMap whole

/-- Whether a piece is what is read from some place on, in front of the rest of a text. -/
structure Stands (p : Piece) (l : Location) (rest : List Char) : Prop where
  isGap : IsGap p.gap (p.text ++ rest)
  shows : p.token.kind.Shows p.text
  location_eq : p.token.location = l.after p.gap
  stops : p.token.kind.StopsBefore rest

/-- Whether pieces are what is read from some place on, one behind the other. -/
def Laid (l : Location) (pieces : List Piece) (rest : List Char) : Prop :=
  ∀ front p back, pieces = front ++ p :: back →
    p.Stands (l.after (join front)) (join back ++ rest)

/-- A piece in front of others is written in front of them. -/
theorem join_cons (p : Piece) (pieces : List Piece) : join (p :: pieces) = p.whole ++ join pieces :=
  List.flatMap_cons

/-- No pieces are laid anywhere. -/
theorem laid_nil (l : Location) (rest : List Char) : Laid l [] rest := by
  intro front p back split
  cases front <;> cases split

/-- Pieces are laid if the first stands and the others are laid behind it. -/
theorem laid_cons_iff {l : Location} {p : Piece} {pieces : List Piece} {rest : List Char} :
    Laid l (p :: pieces) rest ↔
      p.Stands l (join pieces ++ rest) ∧ Laid (l.after p.whole) pieces rest := by
  constructor
  · intro laid
    refine ⟨laid [] p pieces rfl, ?_⟩
    rintro front q back rfl
    have later := laid (p :: front) q back rfl
    rwa [join_cons, Location.after_append] at later
  · rintro ⟨first, others⟩ (_ | ⟨q, front⟩) r back split
    · cases split
      exact first
    · cases split
      rw [join_cons, Location.after_append]
      exact others front r back rfl

/-- One piece is written as its gap and its token. -/
theorem join_singleton (p : Piece) : join [p] = p.gap ++ p.text := List.flatMap_singleton ..

/-- Pieces in two parts are written one part behind the other. -/
theorem join_append (front back : List Piece) : join (front ++ back) = join front ++ join back :=
  List.flatMap_append

/-- Pieces in two parts are laid if either part is, the first in front of the text of the second. -/
theorem laid_append_iff {l : Location} {front back : List Piece} {rest : List Char} :
    Laid l (front ++ back) rest ↔
      Laid l front (join back ++ rest) ∧ Laid (l.after (join front)) back rest := by
  induction front generalizing l with
  | nil => exact ⟨fun laid => ⟨laid_nil _ _, laid⟩, fun laid => laid.2⟩
  | cons p front ih =>
    rw [List.cons_append, laid_cons_iff, laid_cons_iff, ih, join_append, join_cons,
      Location.after_append, List.append_assoc, and_assoc]

/-- Only the first character behind pieces matters, and not that there is one. -/
theorem Laid.swap {l : Location} {pieces : List Piece} {rest other : List Char}
    (laid : Laid l pieces rest) (same : StartsLike other rest) : Laid l pieces other := by
  intro front p back split
  obtain ⟨isGap, shows, place, stops⟩ := laid front p back split
  have behind := same.append (join back)
  exact ⟨isGap.swap (behind.append p.text), shows, place, fun c first => stops c (behind c first)⟩

end Piece

namespace Source

variable {s left : Source} {t : Token} {kind : TokenKind} {text rest : List Char}

/-- A lexeme is the text that a machine walks over to a final state, from which it has no next step.
-/
theorem lexeme_eq_ok_iff_walk {σ : Type} {m : Machine σ} {text : String} :
    s.lexeme m = .ok text left ↔ ∃ state, m.walk m.start text.toList = some state ∧
      m.isFinal state = true ∧ s.rest = text.toList ++ left.rest ∧
      left.location = s.location.after text.toList ∧
      ∀ c ∈ left.rest.head?, m.step state c = none := by
  rw [lexeme_eq_ok_iff]
  obtain ⟨unread, place⟩ := left
  constructor
  · rintro ⟨final, rfl, ⟨⟩⟩
    obtain ⟨taken, split, whole, walked, refused⟩ := Machine.run_eq_iff.mp (Prod.eta _).symm
    have same : (m.run m.fresh s.rest).1.text.toList = taken := by
      rw [whole, String.toList_append, String.toList_ofList]
      rfl
    exact ⟨_, same ▸ walked, final, same ▸ split, rfl, refused⟩
  · rintro ⟨state, walked, final, split, rfl, refused⟩
    have run : m.run m.fresh s.rest = (⟨state, text⟩, unread) := by
      rw [split, Machine.run_fresh_of_walk walked refused, String.ofList_toList]
    rw [run]
    exact ⟨final, rfl, rfl⟩

/-- What stands at the front of a source is written there, and reading it stops behind. -/
theorem Fronts.exists_text (h : s.Fronts kind left) (more : kind ≠ .endOfText) : ∃ text,
    s.rest = text ++ left.rest ∧ left.location = s.location.after text ∧ kind.Shows text ∧
      kind.StopsBefore left.rest := by
  have spelled := h.isSpelled more
  cases h with
  | finish => exact absurd rfl more
  | @pair c d _ _ front found =>
    rw [drop, front]
    exact ⟨[c, d], rfl, rfl, TokenKind.shows_of_ofPair? found,
      TokenKind.stopsBefore_of_ofPair? found _⟩
  | @symbol c _ _ front alone found =>
    rw [drop, front]
    exact ⟨[c], rfl, rfl, TokenKind.shows_of_ofSymbol? found,
      TokenKind.stopsBefore_of_ofSymbol? found alone⟩
  | @word _ _ text _ _ _ _ _ found =>
    obtain ⟨state, walked, final, split, place, refused⟩ := lexeme_eq_ok_iff_walk.mp found
    refine ⟨text.toList, split, place, ⟨spelled, .inl ?_⟩, fun d first => ?_⟩
    · rw [TokenKind.spelling_ofWord]
    · rw [TokenKind.takes_ofWord]
      cases state with
      | start => cases final
      | identifier => exact identifierMachine_step_eq_none_iff.mp (refused d first)
  | @number _ _ text _ _ _ _ _ _ found =>
    obtain ⟨state, walked, final, split, place, refused⟩ := lexeme_eq_ok_iff_walk.mp found
    refine ⟨text.toList, split, place, ⟨spelled, .inl rfl⟩, fun d first => ?_⟩
    exact (takes_number_eq_false_iff walked final).mpr (refused d first)

/-- What is written for a kind is read as that kind where reading it stops. -/
theorem next_of_shows (shown : kind.Shows text) (stops : kind.StopsBefore rest) (l : Location) :
    (⟨text ++ rest, l⟩ : Source).next = .ok ⟨kind, l⟩ ⟨rest, l.after text⟩ := by
  obtain ⟨spelled, rfl | ⟨rfl, rfl⟩⟩ := shown
  · by_cases ends : kind.EndsBefore rest
    · exact next_spelling spelled ends l
    · -- only a lone zero stops before something that it does not end before
      obtain ⟨c, first, goesOn⟩ : ∃ c ∈ rest.head?, kind.goesOn c = true := by
        simpa [TokenKind.EndsBefore] using ends
      obtain rfl : c = '_' := by
        by_contra other
        rw [TokenKind.goesOn_iff_takes other, stops c first] at goesOn
        cases goesOn
      obtain ⟨rest, rfl⟩ := List.head?_eq_some_iff.mp first
      cases kind with
      | number text =>
        obtain rfl : text = "0" := by simpa [TokenKind.takes] using stops '_' rfl
        rfl
      | _ => cases goesOn.symm.trans (stops '_' rfl)
  · exact next_symbol rfl (fun _ _ => rfl) l

/-- A token that is read is a piece at the front of the source. -/
theorem exists_piece (read : s.next = .ok t left) (more : t.kind ≠ .endOfText) :
    ∃ p : Piece, p.token = t ∧ s.rest = p.whole ++ left.rest ∧
      left.location = s.location.after p.whole ∧ p.Stands s.location left.rest := by
  obtain ⟨fronts, place⟩ := next_eq_ok_iff.mp read
  obtain ⟨gap, split, isGap, moved, _⟩ := s.exists_gap
  obtain ⟨text, front, behind, shows, stops⟩ := fronts.exists_text more
  rw [front] at split isGap
  refine ⟨⟨gap, t, text⟩, rfl, ?_, ?_, isGap, shows, place.trans moved, stops⟩
  · rw [split, Piece.whole, List.append_assoc]
  · rw [behind, moved, Piece.whole, Location.after_append]

/-- Where a piece stands, the next token is that of the piece. -/
theorem next_of_stands {p : Piece} {l : Location} (h : p.Stands l rest) :
    (⟨p.whole ++ rest, l⟩ : Source).next = .ok p.token ⟨rest, l.after p.whole⟩ := by
  obtain ⟨gap, ⟨kind, place⟩, text⟩ := p
  obtain ⟨isGap, shows, located, stops⟩ := h
  obtain rfl : place = l.after gap := located
  have shown : ∀ c ∈ (text ++ rest).head?, isBlank c = false ∧ c ≠ '#' := by
    obtain ⟨c, more, rfl, begins, _⟩ := shows.exists_cons
    rintro d ⟨⟩
    exact begins
  rw [Piece.whole, List.append_assoc, next_append isGap shown, next_of_shows shows stops,
    Location.after_append]

/-- The end is read where only a gap is left. -/
theorem next_eq_end_iff {finish : Location} :
    (∃ after, s.next = .ok ⟨.endOfText, finish⟩ after) ↔
      IsGap s.rest [] ∧ finish = s.location.after s.rest := by
  obtain ⟨gap, split, isGap, moved, _⟩ := s.exists_gap
  constructor
  · rintro ⟨after, read⟩
    obtain ⟨fronts, rfl⟩ := next_eq_ok_iff.mp read
    rw [fronts.finished, List.append_nil] at split
    rw [fronts.finished] at isGap
    rw [split]
    exact ⟨isGap, moved⟩
  · rintro ⟨whole, rfl⟩
    obtain ⟨rest, l⟩ := s
    have read := next_append whole nofun l
    rw [List.append_nil] at read
    exact ⟨_, read⟩

/-! ## All pieces -/

/-- Reading takes some tokens off a source, none of them the end. -/
inductive Reaches : Source → List Token → Source → Prop
  | refl (s : Source) : Reaches s [] s
  | token {s next left : Source} {t : Token} {ts : List Token} :
      s.next = .ok t next → t.kind ≠ .endOfText → Reaches next ts left → Reaches s (t :: ts) left

variable {ts : List Token}

/-- The tokens up to a place are those of pieces laid up to it. -/
theorem reaches_iff : s.Reaches ts left ↔ ∃ pieces, s.rest = Piece.join pieces ++ left.rest ∧
    left.location = s.location.after (Piece.join pieces) ∧ ts = pieces.map Piece.token ∧
    Piece.Laid s.location pieces left.rest := by
  constructor
  · intro reached
    induction reached with
    | refl s => exact ⟨[], rfl, rfl, rfl, Piece.laid_nil _ _⟩
    | token read more _ ih =>
      obtain ⟨p, rfl, front, moved, stands⟩ := exists_piece read more
      obtain ⟨pieces, split, behind, rfl, laid⟩ := ih
      refine ⟨p :: pieces, ?_, ?_, rfl, Piece.laid_cons_iff.mpr ⟨split ▸ stands, moved ▸ laid⟩⟩
      · rw [front, split, Piece.join_cons, List.append_assoc]
      · rw [behind, moved, Piece.join_cons, Location.after_append]
  · rintro ⟨pieces, split, behind, rfl, laid⟩
    obtain ⟨text, l⟩ := s
    obtain ⟨rest, l'⟩ := left
    obtain rfl : text = Piece.join pieces ++ rest := split
    obtain rfl : l' = l.after (Piece.join pieces) := behind
    induction pieces generalizing l with
    | nil => exact .refl _
    | cons p pieces ih =>
      obtain ⟨first, others⟩ := Piece.laid_cons_iff.mp laid
      rw [Piece.join_cons, List.append_assoc, Location.after_append]
      exact .token (next_of_stands first) first.shows.1.ne_endOfText (ih _ others)

/-- A source has some tokens if these are up to a place at which the end is next. -/
theorem scans_iff_reaches {finish : Location} :
    s.Scans ts finish ↔
      ∃ left, s.Reaches ts left ∧ ∃ after, left.next = .ok ⟨.endOfText, finish⟩ after := by
  constructor
  · intro scanned
    induction scanned with
    | @finish s after t read last => exact ⟨s, .refl s, after, last ▸ read⟩
    | token read more _ ih =>
      obtain ⟨left, reached, last⟩ := ih
      exact ⟨left, .token read more reached, last⟩
  · rintro ⟨left, reached, after, last⟩
    induction reached with
    | refl s => exact .finish last rfl
    | token read more _ ih => exact .token read more (ih last)

end Source

/-- A text has the tokens of the pieces that it can be divided into. -/
theorem tokenize_eq_ok_iff_laid {text : String} {tokens : List Token} :
    tokenize text = .ok tokens ↔ ∃ pieces last, text.toList = Piece.join pieces ++ last ∧
      tokens = pieces.map Piece.token ++ [⟨.endOfText, .behind text.toList⟩] ∧
      Piece.Laid .start pieces last ∧ IsGap last [] := by
  rw [tokenize_eq_ok_iff]
  constructor
  · rintro ⟨ts, finish, scanned, rfl⟩
    obtain ⟨⟨last, l⟩, reached, ended⟩ := Source.scans_iff_reaches.mp scanned
    obtain ⟨pieces, split, rfl, rfl, laid⟩ := Source.reaches_iff.mp reached
    obtain ⟨isGap, rfl⟩ := Source.next_eq_end_iff.mp ended
    refine ⟨pieces, last, split, ?_, laid, isGap⟩
    rw [← Location.after_append, ← Location.after_start, ← split]
    rfl
  · rintro ⟨pieces, last, split, rfl, laid, isGap⟩
    refine ⟨pieces.map Piece.token, _, Source.scans_iff_reaches.mpr ?_, rfl⟩
    refine ⟨⟨last, Location.start.after (Piece.join pieces)⟩, ?_, ?_⟩
    · exact Source.reaches_iff.mpr ⟨pieces, split, rfl, rfl, laid⟩
    · refine Source.next_eq_end_iff.mpr ⟨isGap, ?_⟩
      rw [← Location.after_append, ← split, Location.after_start]

namespace Piece

/-- Pieces up to the end begin with no underscore. -/
theorem Laid.head_ne_underscore {l : Location} {pieces : List Piece} {last : List Char}
    (laid : Laid l pieces last) (ends : IsGap last []) :
    ∀ c ∈ (join pieces ++ last).head?, c ≠ '_' := by
  cases pieces with
  | nil => exact ends.head_ne_underscore
  | cons p pieces =>
    obtain ⟨⟨isGap, shows, _, _⟩, _⟩ := laid_cons_iff.mp laid
    obtain ⟨gap, t, text⟩ := p
    obtain ⟨c, rest, rfl, _, other⟩ := shows.exists_cons
    cases gap with
    | nil =>
      rintro d ⟨⟩
      exact other
    | cons d gap => exact isGap.head_ne_underscore

end Piece

/-- **Texts are divided into tokens and gaps.** A text has some tokens exactly when it is made up of
gaps and what is written for each token, with a last gap in front of the end. Every token is located
where what is written for it begins, and could not be longer; the end is located behind all. -/
theorem tokenize_eq_ok_iff_pieces (text : String) (tokens : List Token) :
    tokenize text = .ok tokens ↔ ∃ (pieces : List Piece) (last : List Char),
      text.toList = Piece.join pieces ++ last ∧ IsGap last [] ∧
      tokens = pieces.map Piece.token ++ [⟨.endOfText, .behind text.toList⟩] ∧
      ∀ front p back, pieces = front ++ p :: back →
        IsGap p.gap (p.text ++ (Piece.join back ++ last)) ∧
        p.token.kind ≠ .endOfText ∧ p.token.kind.Shows p.text ∧
        p.token.location = .behind (Piece.join front ++ p.gap) ∧
        p.token.kind.EndsBefore (Piece.join back ++ last) := by
  rw [tokenize_eq_ok_iff_laid]
  refine exists_congr fun pieces => exists_congr fun last => and_congr_right fun _ => ?_
  constructor
  · rintro ⟨rfl, laid, isGap⟩
    refine ⟨isGap, rfl, fun front p back split => ?_⟩
    have ⟨gap, shows, place, stops⟩ := laid front p back split
    rw [← Location.after_append, Location.after_start] at place
    refine ⟨gap, shows.1.ne_endOfText, shows, place, stops.endsBefore ?_⟩
    have behind := (Piece.laid_append_iff.mp (split ▸ laid)).2
    exact (Piece.laid_cons_iff.mp behind).2.head_ne_underscore isGap
  · rintro ⟨isGap, rfl, pieces⟩
    refine ⟨rfl, fun front p back split => ?_, isGap⟩
    obtain ⟨gap, _, shows, place, ends⟩ := pieces front p back split
    rw [← Location.after_start, Location.after_append] at place
    exact ⟨gap, shows, place, ends.stopsBefore⟩

end Scriptlet
