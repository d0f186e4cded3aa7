/-!
# Lexemes and the machines that recognise them

Three kinds of lexemes span more than a fixed number of characters: numerals, identifiers and
comments. Each has a finite machine. A machine takes characters as long as it has an edge for them;
what it has taken so far is a `Reading`. A refused character is left for whoever reads next.

`run_text` says that a run splits its input: what was taken, then what is left.
-/

namespace Scriptlet

/-- A finite machine over characters. An invalid state has taken a character that cannot be right. -/
structure Machine (σ : Type) where
  start : σ
  step : σ → Char → Option σ
  isFinal : σ → Bool
  isInvalid : σ → Bool

/-- A machine part-way: the state it is in and the characters it has taken. -/
structure Reading (σ : Type) where
  state : σ
  text : String

namespace Machine

variable {σ : Type}

/-- The reading in which nothing has been taken. -/
def fresh (m : Machine σ) : Reading σ := ⟨m.start, ""⟩

/-- Takes characters up to the first one that the state has no edge for, and gives what is left. -/
def run (m : Machine σ) (r : Reading σ) : List Char → Reading σ × List Char
  | [] => (r, [])
  | c :: rest =>
    match m.step r.state c with
    | some state => m.run ⟨state, r.text.push c⟩ rest
    | none => (r, c :: rest)

/-- Takes every character it can and passes over those it refuses, listing for each one whether it
was taken and the state after it. -/
def feedAll (m : Machine σ) (r : Reading σ) : List Char → Reading σ × List (Bool × σ)
  | [] => (r, [])
  | c :: rest =>
    match m.step r.state c with
    | some state =>
      let (last, steps) := m.feedAll ⟨state, r.text.push c⟩ rest
      (last, (true, state) :: steps)
    | none =>
      let (last, steps) := m.feedAll r rest
      (last, (false, r.state) :: steps)

/-- Whether a text starts with a lexeme and how far the machine gets in it. -/
def recognize (m : Machine σ) (input : String) : Bool × String :=
  let reading := (m.run m.fresh input.toList).1
  (m.isFinal reading.state, reading.text)

/-- What is taken and what is left are the input, behind the text of before. -/
theorem run_text (m : Machine σ) (r : Reading σ) (input : List Char) :
    (m.run r input).1.text.toList ++ (m.run r input).2 = r.text.toList ++ input := by
  fun_induction run m r input with
  | case1 => rfl
  | case2 r c rest state moved ih => rw [ih, String.toList_push, List.append_assoc]; rfl
  | case3 => rfl

/-- A run leaves no more than the input. -/
theorem length_run_le (m : Machine σ) (r : Reading σ) (input : List Char) :
    (m.run r input).2.length ≤ input.length := by
  fun_induction run m r input with
  | case1 => simp
  | case2 r c rest state moved ih => simp only [List.length_cons]; omega
  | case3 => simp

/-- A machine that takes the first character leaves less than it was given. -/
theorem length_run_cons_lt (m : Machine σ) {r : Reading σ} {c : Char} (rest : List Char)
    (taken : (m.step r.state c).isSome) : (m.run r (c :: rest)).2.length < (c :: rest).length := by
  obtain ⟨state, moved⟩ := Option.isSome_iff_exists.mp taken
  have shorter := m.length_run_le ⟨state, r.text.push c⟩ rest
  simp only [run, moved, List.length_cons]
  omega

end Machine

/-! ## Numerals -/

/-- Where a reader of a numeral stands. -/
inductive NumeralState where
  | start
  | zero
  | integer
  | integerSeparator
  | fractionStart
  | fraction
  | fractionSeparator
  | invalid
deriving DecidableEq

/-- A numeral is `0`, or digits that do not begin with `0`, with single underscores between digits;
then perhaps a point and more such digits. The part before a point may be missing. A digit after a
leading zero and a second point are taken, and are invalid. -/
def numeralMachine : Machine NumeralState where
  start := .start
  step
    | .start, c =>
      if c = '0' then some .zero
      else if c.isDigit then some .integer
      else if c = '.' then some .fractionStart
      else none
    | .zero, c =>
      if c = '.' then some .fractionStart else if c.isDigit then some .invalid else none
    | .integer, c =>
      if c.isDigit then some .integer
      else if c = '.' then some .fractionStart
      else if c = '_' then some .integerSeparator
      else none
    | .integerSeparator, c => if c.isDigit then some .integer else none
    | .fractionStart, c => if c.isDigit then some .fraction else none
    | .fraction, c =>
      if c.isDigit then some .fraction
      else if c = '_' then some .fractionSeparator
      else if c = '.' then some .invalid
      else none
    | .fractionSeparator, c => if c.isDigit then some .fraction else none
    | .invalid, _ => none
  isFinal state := state = .zero || state = .integer || state = .fraction
  isInvalid state := state = .invalid

/-! ## Identifiers -/

/-- Where a reader of an identifier stands. -/
inductive IdentifierState where
  | start
  | identifier
deriving DecidableEq

/-- An identifier is a letter, then letters and digits, all of them ASCII. -/
def identifierMachine : Machine IdentifierState where
  start := .start
  step
    | .start, c => if c.isAlpha then some .identifier else none
    | .identifier, c => if c.isAlphanum then some .identifier else none
  isFinal state := state = .identifier
  isInvalid _ := false

/-! ## Comments -/

/-- Where a reader of a comment stands. -/
inductive CommentState where
  | start
  | comment
deriving DecidableEq

/-- A comment is a number sign and what follows it on the same line. -/
def commentMachine : Machine CommentState where
  start := .start
  step
    | .start, c => if c = '#' then some .comment else none
    | .comment, c => if c = '\n' then none else some .comment
  isFinal state := state = .comment
  isInvalid _ := false

end Scriptlet
