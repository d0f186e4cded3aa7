import Mathlib
import Scriptlet.Proofs.Grammar.Refusal
import Scriptlet.Proofs.Source.Fault
import Scriptlet.Transcript

/-!
# The place of an error

A location is a place of a text when it is the one behind as many characters as it counts
(`Location.IsIn`). Every token of a text and every fault in it is at such a place, and what an error
says to have found is found there (`SyntaxError.PointsInto`): a character of the text, its end, or a
token. So the mark that a console prints stands under that character of the line, behind the prompt
(`complaint_eq`).
-/

namespace Scriptlet

/-- Whether a location is a place of a text, with the line and the column that are counted there. -/
def Location.IsIn (text : List Char) (l : Location) : Prop :=
  l.offset ≤ text.length ∧ l = .behind (text.take l.offset)

/-- The place behind a part of a text is in the text. -/
theorem Location.isIn_behind {front back text : List Char} (split : text = front ++ back) :
    (Location.behind front).IsIn text := by
  subst split
  refine ⟨?_, ?_⟩
  · rw [List.length_append]
    exact Nat.le_add_right ..
  · exact congrArg behind List.take_left.symm

/-- At the place behind a part stands the character that comes next. -/
theorem Location.getElem?_behind (front : List Char) (c : Char) (back : List Char) :
    (front ++ c :: back)[(behind front).offset]? = some c := by
  simp [behind]

/-- On the first line columns are counted from one, as characters are from none. -/
theorem Location.IsIn.column_eq {text : List Char} {l : Location} (h : l.IsIn text)
    (line : '\n' ∉ text) : l.column = 1 + l.offset := by
  obtain ⟨inside, same⟩ := h
  have front : (text.take l.offset).reverse.takeWhile (· ≠ '\n')
      = (text.take l.offset).reverse := by
    refine List.takeWhile_eq_self_iff.mpr fun c member => decide_eq_true ?_
    rintro rfl
    exact line (List.mem_of_mem_take (List.mem_reverse.mp member))
  rw [same]
  simp only [behind, front, List.length_reverse, List.length_take]

/-- Whether a text has at the place of an error what the error says to have found there. -/
def SyntaxError.PointsInto (text : String) : SyntaxError → Prop
  | illegalSymbol c l => text.toList[l.offset]? = some c
  | unterminatedLiteral _ l => l.offset = text.length
  | e => ∃ tokens, tokenize text = .ok tokens ∧ ∃ t ∈ tokens, e.IsAbout t

open Piece (join Laid)

variable {text : String} {e : SyntaxError}

/-- A token stands behind the pieces and the gap in front of it. -/
theorem isIn_of_mem_tokens {tokens : List Token} {t : Token} (read : tokenize text = .ok tokens)
    (member : t ∈ tokens) : t.location.IsIn text.toList := by
  obtain ⟨pieces, last, split, rfl, laid, _⟩ := tokenize_eq_ok_iff_laid.mp read
  rcases List.mem_append.mp member with member | member
  · obtain ⟨p, piece, rfl⟩ := List.mem_map.mp member
    obtain ⟨front, back, rfl⟩ := List.append_of_mem piece
    rw [(laid front p back rfl).location_eq, ← Location.after_append, Location.after_start]
    have whole : text.toList = join front ++ p.gap ++ (p.text ++ (join back ++ last)) := by
      rw [split, Piece.join_append, Piece.join_cons, Piece.whole]
      simp only [List.append_assoc]
    exact Location.isIn_behind whole
  · obtain rfl := List.mem_singleton.mp member
    exact Location.isIn_behind (List.append_nil _).symm

/-- A fault stands behind the pieces, the gap and the part of a numeral in front of it. -/
theorem pointsInto_of_tokenize (refused : tokenize text = .error e) :
    e.location.IsIn text.toList ∧ e.PointsInto text := by
  obtain ⟨pieces, gap, rest, split, _, _, _, left, faults⟩ := tokenize_eq_error_iff_laid.mp refused
  have place (part : List Char) : (Location.behind (join pieces ++ gap)).after part
      = .behind (join pieces ++ gap ++ part) := by
    rw [← Location.after_start, ← Location.after_append, Location.after_start]
  have whole {part back : List Char} (same : rest = part ++ back) :
      text.toList = join pieces ++ gap ++ part ++ back := by
    rw [split, same]
    simp only [List.append_assoc]
  cases e with
  | illegalSymbol c l =>
    obtain ⟨part, more, same, rfl, _⟩ := exists_part_of_faults faults
    rw [SyntaxError.location, SyntaxError.PointsInto, place, whole same]
    exact ⟨Location.isIn_behind rfl, Location.getElem?_behind ..⟩
  | unterminatedLiteral part l =>
    obtain ⟨_, _, _, _, rfl⟩ := exists_walk_of_faults faults
    have all := (whole (List.append_nil rest).symm).trans (List.append_nil _)
    rw [SyntaxError.location, SyntaxError.PointsInto, place, ← all]
    exact ⟨Location.isIn_behind (List.append_nil _).symm, String.length_toList⟩
  | unexpectedToken | invalidNumeral | nestingTooDeep => cases faults

/-- Where a text is refused, the error points into it. -/
theorem pointsInto_of_parse (refused : parse text = .error e) :
    e.location.IsIn text.toList ∧ e.PointsInto text := by
  unfold parse at refused
  split at refused
  · next failed =>
    cases refused
    exact pointsInto_of_tokenize failed
  · next tokens read =>
    obtain ⟨pieces, last, _, same, _⟩ := tokenize_eq_ok_iff_laid.mp read
    rw [same] at refused
    obtain ⟨t, member, about⟩ := exists_isAbout_of_parseTokens refused
    rw [← same] at member
    refine ⟨about.location_eq ▸ isIn_of_mem_tokens read member, ?_⟩
    cases e with
    | illegalSymbol | unterminatedLiteral => exact about.elim
    | unexpectedToken | invalidNumeral | nestingTooDeep => exact ⟨tokens, read, t, member, about⟩

/-! ## The mark -/

/-- To push a character some times is to add as many of it. -/
theorem pushn_eq (s : String) (c : Char) (n : Nat) :
    s.pushn c n = s ++ String.ofList (List.replicate n c) := by
  induction n with
  | zero => exact String.append_empty.symm
  | succ n ih =>
    have longer : s.pushn c (n + 1) = (s.pushn c n).push c := rfl
    rw [longer, ih, List.replicate_succ']
    apply String.toList_injective
    simp

/-- In a line the mark of an error stands under the character at the place of the error, behind a
prompt of two characters. -/
theorem complaint_eq (place : e.location.IsIn text.toList) (line : '\n' ∉ text.toList) :
    Console.complaint e = String.ofList (List.replicate (2 + e.location.offset) ' ') ++ "^\n"
      ++ (RunError.source e).message ++ "\n" := by
  have width : Console.prompt.length = 2 := by decide
  rw [Console.complaint, place.column_eq line, width, Nat.add_sub_cancel_left, pushn_eq,
    String.empty_append]

/-- **Every error points into the text.** The place of an error in reading a program is a place of
the text, with the line and column counted there. Where a character is refused it stands there, a
text that ends too early ends there, and every other error is about a token of the text that stands
there. In a console the mark under a line stands under that place. -/
theorem parse_error_location (text : String) (e : SyntaxError) (refused : parse text = .error e) :
    e.location.offset ≤ text.length ∧
      e.location = .behind (text.toList.take e.location.offset) ∧ e.PointsInto text ∧
      ('\n' ∉ text.toList → text.toList.all isWhiteSpace = false → ∀ s : Session,
        Console.respond s text = (String.ofList (List.replicate (2 + e.location.offset) ' ')
          ++ "^\n" ++ (RunError.source e).message ++ "\n", s)) := by
  obtain ⟨place, points⟩ := pointsInto_of_parse refused
  refine ⟨String.length_toList ▸ place.1, place.2, points, fun line shown s => ?_⟩
  rw [← complaint_eq place line, Console.respond, shown, refused]
  rfl

/-- Behind an argument stands a name where there may be a comma or a closing parenthesis. -/
theorem parse_error_location_secondName :
    parse "f(a b" = .error (.unexpectedToken (.token .rightParen) (.identifier "b") ⟨4, 1, 5⟩) ∧
      (∃ tokens, tokenize "f(a b" = .ok tokens ∧ ⟨.identifier "b", ⟨4, 1, 5⟩⟩ ∈ tokens) ∧
      ∀ s, Console.respond s "f(a b" = ("      ^\n"
        ++ "Syntax error: Expected ')' delimiter but got 'Identifier' literal at line 1, column 5\n",
          s) := by
  have refused : parse "f(a b"
      = .error (.unexpectedToken (.token .rightParen) (.identifier "b") ⟨4, 1, 5⟩) := by cbv
  obtain ⟨_, _, ⟨tokens, read, t, member, about⟩, mark⟩ := parse_error_location _ _ refused
  obtain rfl := about
  exact ⟨refused, ⟨tokens, read, member⟩, fun s => mark (by decide) (by decide) s⟩

end Scriptlet
