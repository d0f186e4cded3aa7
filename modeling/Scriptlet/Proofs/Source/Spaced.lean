import Scriptlet.Proofs.Notation
import Scriptlet.Proofs.Source.Partition

/-!
# Tokens written down with blanks between them

Any kinds can be written down one behind the other, each one as it is spelled. Where blanks stand
between them they are read back as they were written (`tokenize_spaced`): no kind is read on at a
blank, whatever comes behind it, so no two neighbours have to be looked at together.
-/

namespace Scriptlet

/-- Spaces, tabs and carriage returns, perhaps none. -/
def AreBlanks (text : List Char) : Prop := ∀ c ∈ text, c = ' ' ∨ c = '\t' ∨ c = '\r'

/-- A kind to be written down, with what is written for it and the blanks in front of that. -/
structure Word where
  blanks : List Char
  kind : TokenKind
  text : List Char

namespace Word

/-- All that is written for a word. -/
def whole (w : Word) : List Char := w.blanks ++ w.text

/-- Words written down, one behind the other. -/
def join (words : List Word) : List Char := words.flatMap whole

/-- The tokens of words that are written down behind a text, each one located where its spelling
begins. -/
def tokens (front : List Char) : List Word → List Token
  | [] => []
  | w :: words => ⟨w.kind, .behind (front ++ w.blanks)⟩ :: tokens (front ++ w.whole) words

/-- Whether words are written as their kinds are spelled, with blanks in front of each one that is
not the first, and perhaps in front of that and in front of the end. -/
structure Spaced (words : List Word) (last : List Char) : Prop where
  writable : ∀ w ∈ words, w.kind.IsWritable
  spelled : ∀ w ∈ words, w.text = w.kind.spelling.toList ∨ w.kind = .newLine ∧ w.text = [';']
  blank : ∀ w ∈ words, AreBlanks w.blanks
  apart : ∀ w ∈ words.tail, w.blanks ≠ []
  lastBlank : AreBlanks last

end Word

/-- Blanks are a gap in front of any text. -/
theorem AreBlanks.isGap {text : List Char} (h : AreBlanks text) (rest : List Char) :
    IsGap text rest := by
  induction text with
  | nil => exact .nothing
  | cons c text ih =>
    obtain ⟨first, others⟩ := List.forall_mem_cons.mp h
    refine .blank ?_ (ih others)
    obtain rfl | rfl | rfl := first <;> rfl

/-- No token takes a blank. -/
theorem TokenKind.takes_blank (kind : TokenKind) {c : Char}
    (blank : c = ' ' ∨ c = '\t' ∨ c = '\r') : kind.takes c = false := by
  obtain rfl | rfl | rfl := blank <;> cases kind <;> rfl

namespace Word

/-- Words as pieces of the text that they are written in. -/
def pieces (front : List Char) : List Word → List Piece
  | [] => []
  | w :: words =>
    ⟨w.blanks, ⟨w.kind, .behind (front ++ w.blanks)⟩, w.text⟩ :: pieces (front ++ w.whole) words

variable {front last : List Char} {w : Word} {words : List Word}

theorem join_cons : join (w :: words) = w.whole ++ join words := List.flatMap_cons

/-- The pieces of words are written as the words are. -/
theorem join_pieces : Piece.join (pieces front words) = join words := by
  induction words generalizing front with
  | nil => rfl
  | cons w words ih => rw [pieces, Piece.join_cons, ih, join_cons, Piece.whole, whole]

/-- The tokens of the pieces are those of the words. -/
theorem map_token_pieces : (pieces front words).map Piece.token = tokens front words := by
  induction words generalizing front with
  | nil => rfl
  | cons w words ih => rw [pieces, List.map_cons, ih, tokens]

/-- What stands behind the first word begins with a blank, if there is anything. -/
theorem Spaced.behind_blank (h : Spaced (w :: words) last) :
    ∀ c ∈ (join words ++ last).head?, c = ' ' ∨ c = '\t' ∨ c = '\r' := by
  cases words with
  | nil => exact fun c first => h.lastBlank c (List.mem_of_mem_head? first)
  | cons next words =>
    have some : next.blanks ≠ [] := h.apart next List.mem_cons_self
    have blank := h.blank next (List.mem_cons_of_mem _ List.mem_cons_self)
    obtain ⟨c, blanks, split⟩ := List.exists_cons_of_ne_nil some
    rw [join_cons, whole, split]
    rintro _ ⟨⟩
    exact blank c (split ▸ List.mem_cons_self)

/-- What is spaced is spaced without its first word. -/
theorem Spaced.tail (h : Spaced (w :: words) last) : Spaced words last where
  writable v member := h.writable v (List.mem_cons_of_mem _ member)
  spelled v member := h.spelled v (List.mem_cons_of_mem _ member)
  blank v member := h.blank v (List.mem_cons_of_mem _ member)
  apart v member := h.apart v (List.mem_of_mem_tail member)
  lastBlank := h.lastBlank

/-- The pieces of words with blanks between them are laid. -/
theorem Spaced.laid (h : Spaced words last) :
    Piece.Laid (Location.start.after front) (pieces front words) last := by
  induction words generalizing front with
  | nil => exact Piece.laid_nil _ _
  | cons w words ih =>
    have shows : w.kind.Shows w.text :=
      ⟨TokenKind.isSpelled_iff.mpr (h.writable w List.mem_cons_self),
        h.spelled w List.mem_cons_self⟩
    refine Piece.laid_cons_iff.mpr ⟨⟨?_, shows, ?_, fun c first => ?_⟩, ?_⟩
    · exact (h.blank w List.mem_cons_self).isGap _
    · rw [← Location.after_append, Location.after_start]
    · rw [join_pieces] at first
      exact w.kind.takes_blank (h.behind_blank c first)
    · rw [← Location.after_append]
      exact ih h.tail

end Word

/-- **Reading undoes writing.** Kinds that are written as they are spelled, with blanks between any
two of them, are read back as the same kinds, each one located where its spelling begins. -/
theorem tokenize_spaced {words : List Word} {last : List Char} (h : Word.Spaced words last) :
    tokenize (.ofList (Word.join words ++ last)) = .ok
      (Word.tokens [] words ++ [⟨.endOfText, .behind (Word.join words ++ last)⟩]) := by
  refine tokenize_eq_ok_iff_laid.mpr ⟨Word.pieces [] words, last, ?_, ?_, h.laid, ?_⟩
  · rw [Word.join_pieces, String.toList_ofList]
  · rw [Word.map_token_pieces, String.toList_ofList]
  · exact h.lastBlank.isGap []

/-- Two signs apart are two tokens where together they are one, and a name may begin as a keyword
does. -/
theorem tokenize_spaced_neighbours :
    tokenize "\tiffy <= 1_0.5 \r; if \n < = \r" = .ok [⟨.identifier "iffy", ⟨1, 1, 2⟩⟩,
      ⟨.lessEqual, ⟨6, 1, 7⟩⟩, ⟨.number "1_0.5", ⟨9, 1, 10⟩⟩, ⟨.newLine, ⟨16, 1, 17⟩⟩,
      ⟨.ifWord, ⟨18, 1, 19⟩⟩, ⟨.newLine, ⟨21, 1, 22⟩⟩, ⟨.less, ⟨23, 2, 2⟩⟩,
      ⟨.assign, ⟨25, 2, 4⟩⟩, ⟨.endOfText, ⟨28, 2, 7⟩⟩] := by
  have name : IsName "iffy" := isIdentifier_iff.mp (by decide)
  have numeral : IsNumeralText "1_0.5".toList := isNumeral_iff.mp (by decide)
  exact @tokenize_spaced
    [⟨['\t'], .identifier "iffy", "iffy".toList⟩, ⟨[' '], .lessEqual, ['<', '=']⟩,
      ⟨[' '], .number "1_0.5", "1_0.5".toList⟩, ⟨[' ', '\r'], .newLine, [';']⟩,
      ⟨[' '], .ifWord, "if".toList⟩, ⟨[' '], .newLine, ['\n']⟩, ⟨[' '], .less, ['<']⟩,
      ⟨[' '], .assign, ['=']⟩]
    [' ', '\r']
    { writable := by simpa [TokenKind.IsWritable] using ⟨name, numeral⟩
      spelled := by simp [TokenKind.spelling]
      blank := by simp [AreBlanks]
      apart := by simp
      lastBlank := by simp [AreBlanks] }

end Scriptlet
