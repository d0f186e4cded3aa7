import Scriptlet.Proofs.Source.Fault

/-!
# Texts joined by a line feed

What is read in front of a line feed is what would be read in front of the end, for no gap and no
token reaches over one (`Laid.lineFeed`). A numeral that the end would cut short is refused at the
line feed instead (`Faults.lineFeed`). What is read behind a line feed is what would be read from
the start, that many characters and lines further on (`Laid.shift`, `Faults.shift`): there is no more
to a place than the text in front of it, and a line feed is where columns begin again
(`behind_lineFeed`).

So the tokens of two texts with a line feed between them are those of the two texts, and so is what
they fail with (`tokenize_lineFeed`).
-/

namespace Scriptlet

/-! ## Places further on -/

/-- A place with more characters and more whole lines in front of it. -/
def Location.shift (characters lines : Nat) (l : Location) : Location :=
  ⟨l.offset + characters, l.line + lines, l.column⟩

/-- A token further on. -/
def Token.shift (characters lines : Nat) (t : Token) : Token :=
  ⟨t.kind, t.location.shift characters lines⟩

/-- A failure further on. -/
def SyntaxError.shift (characters lines : Nat) : SyntaxError → SyntaxError
  | illegalSymbol c l => .illegalSymbol c (l.shift characters lines)
  | unterminatedLiteral text l => .unterminatedLiteral text (l.shift characters lines)
  | unexpectedToken expected found l => .unexpectedToken expected found (l.shift characters lines)
  | invalidNumeral text l => .invalidNumeral text (l.shift characters lines)
  | nestingTooDeep limit l => .nestingTooDeep limit (l.shift characters lines)

/-- A piece further on. -/
def Piece.shift (characters lines : Nat) (p : Piece) : Piece :=
  { p with token := p.token.shift characters lines }

/-- A source further on. -/
def Source.shift (characters lines : Nat) (s : Source) : Source :=
  ⟨s.rest, s.location.shift characters lines⟩

section

variable {m n : Nat}

namespace Location

/-- The place behind a character, further on. -/
theorem advance_shift (l : Location) (c : Char) :
    (l.shift m n).advance c = (l.advance c).shift m n := by
  unfold advance shift
  split <;> simp only [Nat.add_right_comm]

/-- The place behind a text, further on. -/
theorem after_shift (l : Location) (text : List Char) :
    (l.shift m n).after text = (l.after text).shift m n := by
  induction text generalizing l with
  | nil => rfl
  | cons c text ih => rw [after_cons, after_cons, advance_shift, ih]

/-- Behind a line feed places are those of the text behind it, further on. -/
theorem behind_lineFeed (front back : List Char) :
    behind (front ++ '\n' :: back)
      = (behind back).shift (front.length + 1) (front.count '\n' + 1) := by
  have line : start.after (front ++ ['\n'])
      = start.shift (front.length + 1) (front.count '\n' + 1) := by
    rw [after_start]
    simp only [behind, shift, start, List.length_append, List.length_singleton,
      List.count_append, List.count_singleton_self, List.reverse_concat, Nat.zero_add]
    rfl
  rw [← after_start, ← List.singleton_append, ← List.append_assoc, after_append, line, after_shift,
    after_start]

end Location

/-- Pieces further on have the same text. -/
theorem Piece.join_shift (pieces : List Piece) : join (pieces.map (shift m n)) = join pieces :=
  List.flatMap_map ..

/-- A piece stands further on if it stands. -/
theorem Piece.Stands.shift {p : Piece} {l : Location} {rest : List Char} (h : p.Stands l rest) :
    (p.shift m n).Stands (l.shift m n) rest := by
  refine ⟨h.isGap, h.shows, ?_, h.stops⟩
  rw [Location.after_shift]
  exact congrArg (Location.shift m n) h.location_eq

/-- Pieces are laid further on if they are laid. -/
theorem Piece.Laid.shift {l : Location} {pieces : List Piece} {rest : List Char}
    (h : Laid l pieces rest) : Laid (l.shift m n) (pieces.map (Piece.shift m n)) rest := by
  induction pieces generalizing l with
  | nil => exact laid_nil _ _
  | cons p pieces ih =>
    obtain ⟨first, others⟩ := laid_cons_iff.mp h
    refine laid_cons_iff.mpr ⟨?_, ?_⟩
    · rw [join_shift]
      exact first.shift
    · rw [Location.after_shift]
      exact ih others

/-- What fails fails further on, with its error further on. -/
theorem Source.Faults.shift {s left : Source} {e : SyntaxError} (h : s.Faults e left) :
    (s.shift m n).Faults (e.shift m n) (left.shift m n) := by
  cases h with
  | strange front strange => exact .strange front strange
  | refused split walked unfinished stuck =>
    simp only [Source.shift, SyntaxError.shift, ← Location.after_shift]
    exact .refused split walked unfinished stuck
  | invalid split walked moved =>
    simp only [Source.shift, SyntaxError.shift, ← Location.after_shift]
    exact .invalid split walked moved
  | unterminated walked unfinished =>
    simp only [Source.shift, SyntaxError.shift, ← Location.after_shift]
    exact .unterminated walked unfinished

end

/-! ## In front of a line feed -/

/-- What a failure at the end of a text is when there is a line feed instead of the end. -/
def SyntaxError.atLineFeed : SyntaxError → SyntaxError
  | unterminatedLiteral _ l => .illegalSymbol '\n' l
  | e => e

section

variable {rest more : List Char}

/-- A gap in front of the end is a gap in front of a line feed. -/
theorem IsGap.lineFeed {gap : List Char} (h : IsGap gap rest) : IsGap gap (rest ++ '\n' :: more) := by
  induction h with
  | nothing => exact .nothing
  | blank blank _ ih => exact .blank blank ih
  | @comment _ rest line ends =>
    refine .comment line ?_
    cases rest with
    | nil =>
      rintro c ⟨⟩
      rfl
    | cons c rest => exact ends

/-- A token that could not be read on at the end could not be at a line feed, which none takes. -/
theorem TokenKind.StopsBefore.lineFeed {kind : TokenKind} (h : kind.StopsBefore rest) :
    kind.StopsBefore (rest ++ '\n' :: more) := by
  cases rest with
  | nil =>
    rintro c ⟨⟩
    cases kind <;> rfl
  | cons c rest => exact h

/-- A piece that stands in front of the end stands in front of a line feed. -/
theorem Piece.Stands.lineFeed {p : Piece} {l : Location} (h : p.Stands l rest) :
    p.Stands l (rest ++ '\n' :: more) := by
  refine ⟨?_, h.shows, h.location_eq, h.stops.lineFeed⟩
  rw [← List.append_assoc]
  exact h.isGap.lineFeed

/-- Pieces in front of the end are the same in front of a line feed. -/
theorem Piece.Laid.lineFeed {l : Location} {pieces : List Piece} (h : Laid l pieces rest) :
    Laid l pieces (rest ++ '\n' :: more) := by
  intro front p back split
  rw [← List.append_assoc]
  exact (h front p back split).lineFeed

/-- A line feed behind a gap is a piece. -/
theorem Piece.stands_lineFeed {gap : List Char} (ends : IsGap gap []) (l : Location) :
    Stands ⟨gap, ⟨.newLine, l.after gap⟩, ['\n']⟩ l more := by
  have shows : TokenKind.newLine.Shows ['\n'] := ⟨trivial, .inl (by decide)⟩
  exact ⟨ends.lineFeed, shows, rfl, fun _ _ => rfl⟩

/-- What fails in front of the end fails in front of a line feed, with the error that it has there.
-/
theorem Source.Faults.lineFeed {l : Location} {e : SyntaxError} {left : Source}
    (h : (⟨rest, l⟩ : Source).Faults e left) :
    ∃ left, (⟨rest ++ '\n' :: more, l⟩ : Source).Faults e.atLineFeed left := by
  cases h with
  | strange front strange => exact ⟨_, .strange (congrArg (· ++ _) front) strange⟩
  | @refused part c behind state split walked unfinished stuck =>
    have longer : rest ++ '\n' :: more = part ++ c :: (behind ++ '\n' :: more) := by
      rw [show rest = part ++ c :: behind from split, List.append_assoc, List.cons_append]
    exact ⟨_, .refused longer walked unfinished stuck⟩
  | @invalid part c behind state split walked moved =>
    have longer : rest ++ '\n' :: more = part ++ c :: (behind ++ '\n' :: more) := by
      rw [show rest = part ++ c :: behind from split, List.append_assoc, List.cons_append]
    exact ⟨_, .invalid longer walked moved⟩
  | unterminated walked unfinished =>
    -- What is cut short by the end is not cut short here, but the numeral does not go on with a
    -- line feed.
    exact ⟨_, .refused rfl walked unfinished (numeralMachine_newLine _)⟩

end

/-! ## Two texts -/

open Piece (join Laid)

/-- The text of pieces with a line feed between them, whatever their places. -/
theorem Piece.join_lineFeed {front : List Char} {pieces : List Piece} {last : List Char}
    (split : front = join pieces ++ last) (lineEnd : Token) (others : List Piece) (m n : Nat) :
    join (pieces ++ ⟨last, lineEnd, ['\n']⟩ :: others.map (Piece.shift m n))
      = front ++ '\n' :: join others := by
  rw [join_append, join_cons, join_shift, split]
  simp [whole]

/-- The pieces of a text and a line feed are in front of what is read from the start behind it. -/
theorem Piece.laid_lineFeed {front : List Char} {pieces others : List Piece}
    {last rest : List Char} (split : front = join pieces ++ last) (laid : Laid .start pieces last)
    (ends : IsGap last []) (behind : Laid .start others rest) :
    Laid .start (pieces ++ ⟨last, ⟨.newLine, .behind front⟩, ['\n']⟩
      :: others.map (Piece.shift (front.length + 1) (front.count '\n' + 1))) rest := by
  have place : (Location.start.after (join pieces)).after last = .behind front := by
    rw [← Location.after_append, ← split, Location.after_start]
  refine laid_append_iff.mpr ⟨?_, laid_cons_iff.mpr ⟨?_, ?_⟩⟩
  · rw [join_cons, whole, List.append_assoc, List.append_assoc]
    exact laid.lineFeed
  · exact place ▸ stands_lineFeed ends _
  · have line : (Location.start.after (join pieces)).after (last ++ ['\n'])
        = Location.start.shift (front.length + 1) (front.count '\n' + 1) := by
      rw [← Location.after_append, ← List.append_assoc, ← split, Location.after_start,
        Location.behind_lineFeed]
      rfl
    exact line ▸ behind.shift

/-- A line feed is put between the characters of two texts. -/
theorem toList_lineFeed (text more : String) :
    (text ++ "\n" ++ more).toList = text.toList ++ '\n' :: more.toList := by
  rw [String.toList_append, String.toList_append, List.append_assoc]
  rfl

/-- What a text fails with it fails with in front of a line feed, whatever is behind that. -/
theorem tokenize_eq_error_lineFeed {text : String} {e : SyntaxError}
    (refused : tokenize text = .error e) (more : String) :
    tokenize (text ++ "\n" ++ more) = .error e.atLineFeed := by
  obtain ⟨pieces, gap, rest, split, laid, isGap, shown, left, faults⟩ :=
    tokenize_eq_error_iff_laid.mp refused
  refine tokenize_eq_error_iff_laid.mpr ⟨pieces, gap, rest ++ '\n' :: more.toList, ?_, ?_,
    isGap.lineFeed, ?_, faults.lineFeed⟩
  · rw [toList_lineFeed, split]
    simp only [List.append_assoc]
  · rw [← List.append_assoc]
    exact laid.lineFeed
  -- The failure of a text that is all read shows nothing, and then the line feed is what comes
  -- next.
  · cases rest with
    | nil =>
      rintro c ⟨⟩
      decide
    | cons c rest => exact shown

/-- **Texts are read apart at a line feed.** The tokens of two texts with a line feed between them are
those of the first text without its end, a line end at the place of that end, and those of the second
text with all places as much further on as there is text in front of it. A failure of the second text
is reported further on in the same way. A failure of the first text is the same, except that the line
feed is refused where the text would end too early. -/
theorem tokenize_lineFeed (text more : String) :
    tokenize (text ++ "\n" ++ more) =
      match tokenize text, tokenize more with
      | .ok tokens, .ok others => .ok (tokens.dropLast ++ ⟨.newLine, .behind text.toList⟩
          :: others.map (Token.shift (text.length + 1) (text.toList.count '\n' + 1)))
      | .ok _, .error e =>
        .error (e.shift (text.length + 1) (text.toList.count '\n' + 1))
      | .error (.unterminatedLiteral _ l), _ => .error (.illegalSymbol '\n' l)
      | .error e, _ => .error e := by
  rw [← String.length_toList]
  cases first : tokenize text with
  | ok tokens =>
    obtain ⟨pieces, last, split, rfl, laid, ends⟩ := tokenize_eq_ok_iff_laid.mp first
    cases second : tokenize more with
    | ok others =>
      obtain ⟨behind, final, rest, rfl, after, finish⟩ := tokenize_eq_ok_iff_laid.mp second
      simp only [List.dropLast_concat]
      refine tokenize_eq_ok_iff_laid.mpr
        ⟨_, final, ?_, ?_, Piece.laid_lineFeed split laid ends after, finish⟩
      · rw [toList_lineFeed, rest, Piece.join_lineFeed split, List.append_assoc, List.cons_append]
      · rw [toList_lineFeed, Location.behind_lineFeed]
        simp [Piece.shift, Token.shift, Function.comp_def]
    | error e =>
      obtain ⟨behind, gap, rest, cut, after, isGap, shown, left, faults⟩ :=
        tokenize_eq_error_iff_laid.mp second
      -- The first text is read to its end, so the failure is behind the line feed, further on.
      refine tokenize_eq_error_iff_laid.mpr
        ⟨_, gap, rest, ?_, Piece.laid_lineFeed split laid ends after, isGap, shown, ?_⟩
      · rw [toList_lineFeed, cut, Piece.join_lineFeed split]
        simp only [List.append_assoc, List.cons_append]
      · refine ⟨_, cast (congrArg (Source.Faults · _ _) ?_) faults.shift⟩
        rw [Source.shift, ← Location.behind_lineFeed, Piece.join_lineFeed split, List.append_assoc,
          List.cons_append]
  | error e =>
    rw [tokenize_eq_error_lineFeed first more]
    cases e <;> rfl

/-- An end that falls into a numeral on the first line, and a fault in the middle of the third. -/
example : tokenize "x = 1_\ny" = .error (.illegalSymbol '\n' ⟨6, 1, 7⟩) ∧
    tokenize "x;\n# y\n z $" = .error (.illegalSymbol '$' ⟨10, 3, 4⟩) := by
  constructor <;> cbv

end Scriptlet
