import Mathlib.Logic.Function.Iterate
import Scriptlet.Proofs.Source.Fault

/-!
# Asking for tokens again and again

A source can be asked for tokens any number of times, behind a failure and behind the end too. An
answer takes some characters off it, and the place moves along with them. Only two answers take none
(`exists_taken`): the end, when nothing is left, and a failure at a character that no token begins
with. Such a source stays as it is, and gives the same answer for ever (`IsStuck`).

So a source gets shorter with each answer until it is stuck, which it is after as many answers as it
has characters (`isStuck_iterate`).
-/

namespace Scriptlet

/-- Whether nothing that is written for a token begins with a character. -/
def BeginsNoToken (c : Char) : Prop := ∀ (kind : TokenKind) text, ¬ kind.Shows (c :: text)

namespace Source

/-- What is answered when a source is asked for a token. -/
def answer (s : Source) : Except SyntaxError Token :=
  match s.next with
  | .ok token _ => .ok token
  | .error e _ => .error e

/-- The source that an answer leaves, be it a token or a failure. -/
def left (s : Source) : Source :=
  match s.next with
  | .ok _ left => left
  | .error _ left => left

/-- A text that has been asked for tokens some number of times, whatever the answers were. -/
def asked (text : String) (n : Nat) : Source := left^[n] (.ofString text)

/-- Whether a source is at its end, or in front of a character that no token begins with, and
answers accordingly. -/
inductive IsStuck (s : Source) : Prop
  | finished : s.rest = [] → s.answer = .ok ⟨.endOfText, s.location⟩ → IsStuck s
  | strange {c : Char} {rest : List Char} : s.rest = c :: rest → BeginsNoToken c →
      s.answer = .error (.illegalSymbol c s.location) → IsStuck s

variable {s : Source}

/-! ## One answer -/

/-- A text that begins with a token is read, and one that begins with a strange character is not. -/
theorem beginsNoToken_of_isStrange {c : Char} (strange : IsStrange c) : BeginsNoToken c := by
  intro kind text shows
  have stops : kind.StopsBefore [] := fun _ more => (Option.not_mem_none _ more).elim
  have read := next_of_shows shows stops .start
  have failed : (⟨c :: text ++ [], .start⟩ : Source).next = .error _ _ :=
    next_eq_error_iff.mpr ⟨[], c :: text ++ [], rfl, .nothing,
      by rintro d ⟨⟩; exact strange.shown, .strange rfl strange⟩
  cases read.symm.trans failed

/-- What a fault takes off a source is nothing only where the first character is strange. -/
theorem Faults.exists_taken {e : SyntaxError} {left : Source} (h : s.Faults e left) :
    ∃ taken, s.rest = taken ++ left.rest ∧ left.location = s.location.after taken ∧
      (taken = [] → ∃ c rest, s.rest = c :: rest ∧ IsStrange c ∧
        e = .illegalSymbol c s.location) := by
  cases h with
  | @strange c rest front strange => exact ⟨[], rfl, rfl, fun _ => ⟨c, rest, front, strange, rfl⟩⟩
  | @refused part c rest state split walked unfinished _ =>
    refine ⟨part, split, rfl, ?_⟩
    rintro rfl
    cases walked
    exact absurd rfl unfinished.1
  | @invalid part c rest state split walked moved =>
    refine ⟨part ++ [c], ?_, rfl, fun nothing => ?_⟩
    · rw [split, List.append_assoc, List.singleton_append]
    · exact absurd nothing (List.concat_ne_nil c part)
  | @unterminated state walked unfinished =>
    refine ⟨s.rest, (List.append_nil _).symm, rfl, fun nothing => ?_⟩
    rw [nothing] at walked
    cases walked
    exact absurd rfl unfinished.1

/-- An answer takes characters off the front of a source, or else the source is stuck. -/
theorem exists_taken (s : Source) : ∃ taken, s.rest = taken ++ s.left.rest ∧
    s.left.location = s.location.after taken ∧ (taken = [] → s.IsStuck) := by
  cases read : s.next with
  | ok t after =>
    have left : s.left = after := by rw [Source.left, read]
    have answer : s.answer = .ok t := by rw [Source.answer, read]
    rw [left]
    by_cases last : t.kind = .endOfText
    · obtain ⟨fronts, place⟩ := next_eq_ok_iff.mp read
      -- The end is answered behind the gap, so an answer that takes nothing is that of an empty
      -- rest.
      obtain ⟨gap, split, _, moved, _⟩ := s.exists_gap
      rw [last] at fronts
      have ended := kind_eq_ok_iff.mpr (.finish fronts.finished)
      cases ended.symm.trans (kind_eq_ok_iff.mpr fronts)
      refine ⟨gap, split, moved, fun none => ?_⟩
      rw [none] at split moved
      have token : t = ⟨.endOfText, s.location⟩ :=
        congr (congrArg Token.mk last) (place.trans moved)
      exact .finished (split.trans fronts.finished) (token ▸ answer)
    · obtain ⟨p, _, split, moved, stands⟩ := exists_piece read last
      refine ⟨p.whole, split, moved, fun none => ?_⟩
      obtain ⟨c, rest, text, _⟩ := stands.shows.exists_cons
      rw [Piece.whole, text] at none
      exact absurd none (List.append_ne_nil_of_right_ne_nil _ (List.cons_ne_nil c rest))
  | error e after =>
    have left : s.left = after := by rw [Source.left, read]
    have answer : s.answer = .error e := by rw [Source.answer, read]
    rw [left]
    obtain ⟨gap, rest, split, _, _, faults⟩ := next_eq_error_iff.mp read
    obtain ⟨taken, behind, moved, strange⟩ := faults.exists_taken
    refine ⟨gap ++ taken, ?_, ?_, fun none => ?_⟩
    · rw [split, List.append_assoc, ← behind]
    · rw [moved, Location.after_append]
    -- Without a gap and without a part of a numeral, the failure is at the very first character.
    · obtain ⟨rfl, nothing⟩ := List.append_eq_nil_iff.mp none
      obtain ⟨c, more, front, begins, rfl⟩ := strange nothing
      exact .strange (split.trans front) (beginsNoToken_of_isStrange begins) answer

/-- Each answer takes at least one character, or leaves the source as it is. -/
theorem takes_or_isStuck (s : Source) :
    (∃ taken, taken ≠ [] ∧ s.rest = taken ++ s.left.rest) ∨ s.left = s ∧ s.IsStuck := by
  obtain ⟨taken, split, moved, stuck⟩ := s.exists_taken
  cases taken with
  | nil => exact .inr ⟨congr (congrArg mk split.symm) moved, stuck rfl⟩
  | cons c taken => exact .inl ⟨c :: taken, List.cons_ne_nil c taken, split⟩

/-! ## Many answers -/

/-- The place moves along with what is taken, however many answers there are. -/
theorem iterate_left_split (s : Source) (n : Nat) : ∃ front, s.rest = front ++ (left^[n] s).rest ∧
    (left^[n] s).location = s.location.after front := by
  induction n with
  | zero => exact ⟨[], rfl, rfl⟩
  | succ n ih =>
    obtain ⟨front, split, place⟩ := ih
    obtain ⟨taken, behind, moved, _⟩ := exists_taken (left^[n] s)
    rw [Function.iterate_succ_apply']
    refine ⟨front ++ taken, ?_, ?_⟩
    · rw [split, List.append_assoc, ← behind]
    · rw [moved, place, Location.after_append]

/-- **A source is stuck after as many answers as it has characters.** -/
theorem isStuck_iterate {n : Nat} (enough : s.rest.length ≤ n) :
    left (left^[n] s) = left^[n] s ∧ (left^[n] s).IsStuck := by
  induction n generalizing s with
  | zero =>
    -- A source without characters has none to take.
    refine s.takes_or_isStuck.resolve_left fun ⟨taken, more, split⟩ => more ?_
    rw [List.eq_nil_of_length_eq_zero (Nat.le_zero.mp enough)] at split
    exact (List.append_eq_nil_iff.mp split.symm).1
  | succ n ih =>
    rcases s.takes_or_isStuck with ⟨taken, more, split⟩ | ⟨stays, stuck⟩
    · have shorter : s.left.rest.length < s.rest.length := by
        rw [split, List.length_append]
        have := List.length_pos_iff.mpr more
        omega
      rw [Function.iterate_succ_apply]
      exact ih (by omega)
    · rw [Function.iterate_fixed stays]
      exact ⟨stays, stuck⟩

/-- A source that an answer leaves as it was is left so by all others. -/
theorem asked_add_of_left_eq {text : String} {n : Nat} (stays : (asked text n).left = asked text n)
    (k : Nat) : asked text (n + k) = asked text n := by
  rw [asked, Nat.add_comm, Function.iterate_add_apply]
  exact Function.iterate_fixed stays k

end Source

/-- **Asking for tokens stays in step with the text, and settles.** However often a text has been
asked for tokens, what is left is the rest of it behind what has been taken, and the place is the one
behind that. Each answer takes at least one character; or it changes nothing, and all later answers
are the same. Behind as many answers as there are characters all answers are the same: the end behind
the whole text, or a failure at a character that no token begins with.

The first answer is that of the text as it is (`asked text 0`). -/
theorem asked_settles (text : String) :
    (∀ n, ∃ front, text.toList = front ++ (Source.asked text n).rest ∧
      (Source.asked text n).location = .behind front) ∧
    (∀ n, (∃ taken, taken ≠ [] ∧
        (Source.asked text n).rest = taken ++ (Source.asked text (n + 1)).rest) ∨
      ∀ k, Source.asked text (n + k) = Source.asked text n ∧
        (Source.asked text (n + k)).answer = (Source.asked text n).answer) ∧
    (∀ k, (Source.asked text (text.length + k)).answer
      = (Source.asked text text.length).answer) ∧
    ((Source.asked text text.length).rest = [] ∧
        (Source.asked text text.length).answer = .ok ⟨.endOfText, .behind text.toList⟩ ∨
      ∃ front c rest, text.toList = front ++ c :: rest ∧ BeginsNoToken c ∧
        (Source.asked text text.length).answer = .error (.illegalSymbol c (.behind front))) := by
  have inStep (n : Nat) : ∃ front, text.toList = front ++ (Source.asked text n).rest ∧
      (Source.asked text n).location = .behind front := by
    obtain ⟨front, split, place⟩ := (Source.ofString text).iterate_left_split n
    exact ⟨front, split, place.trans (Location.after_start front)⟩
  obtain ⟨stays, stuck⟩ : _ ∧ (Source.asked text text.length).IsStuck :=
    Source.isStuck_iterate (Nat.le_of_eq String.length_toList)
  refine ⟨inStep, fun n => ?_, fun k => ?_, ?_⟩
  · rcases (Source.asked text n).takes_or_isStuck with taken | ⟨stays, _⟩
    · rw [Source.asked, Source.asked, Function.iterate_succ_apply']
      exact .inl taken
    · refine .inr fun k => ?_
      rw [Source.asked_add_of_left_eq stays]
      exact ⟨rfl, rfl⟩
  · rw [Source.asked_add_of_left_eq stays]
  -- The position is known for every number of answers, for as many as there are characters as well.
  · obtain ⟨front, split, place⟩ := inStep text.length
    cases stuck with
    | finished nothing answer =>
      rw [nothing, List.append_nil] at split
      exact .inl ⟨nothing, by rw [answer, place, split]⟩
    | @strange c rest more strange answer =>
      exact .inr ⟨front, c, rest, more ▸ split, strange, place ▸ answer⟩

/-- Reading goes on within a numeral that has been refused. -/
example : (List.range 4).map (fun n => (Source.asked "1..2" n).answer) =
    [.error (.illegalSymbol '.' ⟨2, 1, 3⟩), .ok ⟨.number ".2", ⟨2, 1, 3⟩⟩,
      .ok ⟨.endOfText, ⟨4, 1, 5⟩⟩, .ok ⟨.endOfText, ⟨4, 1, 5⟩⟩] := by
  rfl

end Scriptlet
