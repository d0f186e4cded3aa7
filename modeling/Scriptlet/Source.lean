import Scriptlet.Lexeme
import Scriptlet.SyntaxError

/-!
# Source texts as tokens

A `Source` is what is left of a text together with the place that reading has come to. `next` takes
one token off it. A failure leaves a source too: characters taken before the failure stay taken, and
reading can go on from there. At the end of the text every further token is `endOfText`.

`scan` takes tokens up to the end or to the first failure. It ends because every token other than
the end is at least one character long (`length_rest_lt_of_next`).
-/

namespace Scriptlet

/-- The unread part of a text and the place of its first character. -/
structure Source where
  rest : List Char
  location : Location

namespace Source

/-- A text of which nothing has been read. -/
def ofString (text : String) : Source := ⟨text.toList, .start⟩

/-- The source without its first `n` characters. -/
def drop (s : Source) (n : Nat) : Source :=
  ⟨s.rest.drop n, s.location.after (s.rest.take n)⟩

/-- Spaces, tabs and carriage returns separate tokens and mean nothing. -/
def isBlank (c : Char) : Bool := c = ' ' || c = '\t' || c = '\r'

/-- Passes over leading blanks. -/
def dropBlanks (s : Source) : Source :=
  go s.rest s.location
where
  /-- Moves the place along with the text, in one pass. -/
  go : List Char → Location → Source
    | [], l => ⟨[], l⟩
    | c :: rest, l => if isBlank c then go rest (l.advance c) else ⟨c :: rest, l⟩

/-- Passes over the lexeme that a machine finds at the front. -/
def dropLexeme {σ : Type} (m : Machine σ) (s : Source) : Source :=
  let (reading, rest) := m.run m.fresh s.rest
  ⟨rest, s.location.after reading.text.toList⟩

/-- Passes over blanks and a comment behind them. What follows a comment is a line feed or the end
of the text, so nothing more is left to pass over. -/
def skipGap (s : Source) : Source := s.dropBlanks.dropLexeme commentMachine

/-- Takes the lexeme that a machine finds at the front. When it finds none, the character at fault
is the one that made the machine invalid, or else the one it refused, or else the text has ended too
early. -/
def lexeme {σ : Type} (m : Machine σ) (s : Source) :
    EStateM.Result SyntaxError Source String :=
  let (reading, rest) := m.run m.fresh s.rest
  let taken := reading.text.toList
  let left : Source := ⟨rest, s.location.after taken⟩
  if m.isFinal reading.state then .ok reading.text left
  else
    match if m.isInvalid reading.state then taken.getLast? else none with
    | some c => .error (.illegalSymbol c (s.location.after taken.dropLast)) left
    | none =>
      match rest with
      | c :: _ => .error (.illegalSymbol c left.location) left
      | [] => .error (.unterminatedLiteral reading.text left.location) left

/-- The kind of the token at the very front: of two readings that both fit, the longer one. -/
def kind (s : Source) : EStateM.Result SyntaxError Source TokenKind :=
  match s.rest with
  | [] => .ok .endOfText s
  | c :: rest =>
    match rest.head?.bind (TokenKind.ofPair? c) with
    | some kind => .ok kind (s.drop 2)
    | none =>
      match TokenKind.ofSymbol? c with
      | some kind => .ok kind (s.drop 1)
      | none =>
        if c.isAlpha then
          match s.lexeme identifierMachine with
          | .ok word left => .ok (.ofWord word) left
          | .error e left => .error e left
        else if c.isDigit || c = '.' then
          match s.lexeme numeralMachine with
          | .ok text left => .ok (.number text) left
          | .error e left => .error e left
        else .error (.illegalSymbol c s.location) s

/-- Takes the next token, passing over the gap before it. -/
def next (s : Source) : EStateM.Result SyntaxError Source Token :=
  match s.skipGap.kind with
  | .ok kind left => .ok ⟨kind, s.skipGap.location⟩ left
  | .error e left => .error e left

/-! ## Progress -/

/-- Dropping blanks leaves no more text. -/
theorem length_dropBlanks_le (s : Source) : s.dropBlanks.rest.length ≤ s.rest.length := by
  unfold dropBlanks
  generalize s.rest = rest, s.location = l
  fun_induction dropBlanks.go rest l with
  | case1 => simp
  | case2 l c rest blank ih => simp only [List.length_cons]; omega
  | case3 l c rest blank => simp

/-- Skipping a gap leaves no more text. -/
theorem length_skipGap_le (s : Source) : s.skipGap.rest.length ≤ s.rest.length :=
  Nat.le_trans (Machine.length_run_le ..) s.length_dropBlanks_le

/-- A lexeme takes a character at least. -/
theorem length_lexeme_lt {σ : Type} {m : Machine σ} {s left : Source} {c : Char} {rest : List Char}
    {text : String} (front : s.rest = c :: rest) (taken : (m.step m.start c).isSome)
    (found : s.lexeme m = .ok text left) : left.rest.length < s.rest.length := by
  have shorter := m.length_run_cons_lt (r := m.fresh) rest taken
  rw [← front] at shorter
  unfold lexeme at found
  generalize m.run m.fresh s.rest = result at found shorter
  obtain ⟨reading, unread⟩ := result
  simp only at found shorter
  split at found
  · cases found
    exact shorter
  · split at found
    · cases found
    · split at found <;> cases found

theorem length_kind_lt {s left : Source} {kind : TokenKind} (read : s.kind = .ok kind left)
    (more : kind ≠ .endOfText) : left.rest.length < s.rest.length := by
  unfold Source.kind at read
  split at read
  · cases read
    exact absurd rfl more
  · next c rest front =>
    split at read
    · cases read
      simp only [drop, front, List.length_drop, List.length_cons]
      omega
    · split at read
      · cases read
        simp [drop, front]
      · split at read
        -- A word begins with a letter and a numeral with a digit or the point, for which there are
        -- edges.
        · next letter =>
          split at read
          · next found =>
            cases read
            exact length_lexeme_lt front (by simp [identifierMachine, letter]) found
          · cases read
        · split at read
          · next digit =>
            split at read
            · next found =>
              cases read
              refine length_lexeme_lt front ?_ found
              simp only [numeralMachine]
              split
              · rfl
              · split
                · rfl
                · simp_all
            · cases read
          · cases read

/-- A token other than the end takes at least one character off the source. -/
theorem length_rest_lt_of_next {s left : Source} {token : Token} (read : s.next = .ok token left)
    (more : token.kind ≠ .endOfText) : left.rest.length < s.rest.length := by
  unfold next at read
  split at read
  · next kind after found =>
    cases read
    exact Nat.lt_of_lt_of_le (length_kind_lt found more) s.length_skipGap_le
  · cases read

/-! ## Whole texts -/

/-- The tokens of a text, the end included, or those before the first failure, with that failure. -/
def scan (s : Source) : List Token × Option SyntaxError :=
  go [] s
where
  /-- Collects tokens in reverse. -/
  go (found : List Token) (s : Source) : List Token × Option SyntaxError :=
    match read : s.next with
    | .error e _ => (found.reverse, some e)
    | .ok token left =>
      if last : token.kind = .endOfText then ((token :: found).reverse, none)
      else
        have := length_rest_lt_of_next read last
        go (token :: found) left
  termination_by s.rest.length

end Source

/-- All tokens of a text, with the end as the last one. -/
def tokenize (text : String) : Except SyntaxError (List Token) :=
  match (Source.ofString text).scan with
  | (tokens, none) => .ok tokens
  | (_, some e) => .error e

end Scriptlet
