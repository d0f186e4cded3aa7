import Scriptlet.SyntaxError

/-!
# A cursor in a list of tokens

A `Cursor` holds the tokens not yet taken and the number of levels of nesting that are open, of the
number that may be open at once. Behind the last token it shows `endOfText` for ever.

Readers of tokens only ever move a cursor forward. `Onward n α` is the answer of a reader, a value
or an error together with the cursor it leaves, with the promise that at most `n` tokens are left:
the promise that lets readers call each other and still end. The readers here are the ones that
take single tokens, and `nested`, which keeps a level open while another reader runs.
-/

namespace Scriptlet

/-- The tokens not yet taken, the place that an end behind them is reported at, the number of levels
open, and the number that may be open at once. -/
structure Cursor where
  tokens : List Token
  finish : Location
  depth : Nat
  limit : Nat

/-- The number of levels that may be open at once while a program is read. -/
def maxNesting : Nat := 1000

namespace Cursor

/-- A cursor at the first of some tokens. An end behind them is reported where the last one stands. -/
def ofTokens (tokens : List Token) : Cursor where
  tokens := tokens
  finish := match tokens.getLast? with
    | some token => token.location
    | none => .start
  depth := 0
  limit := maxNesting

/-- The token at the cursor. -/
def current (c : Cursor) : Token := c.tokens.headD ⟨.endOfText, c.finish⟩

/-- The token behind the current one. -/
def following (c : Cursor) : Token := c.tokens.tail.headD ⟨.endOfText, c.finish⟩

/-- The number of tokens not yet taken. -/
def left (c : Cursor) : Nat := c.tokens.length

/-- The cursor behind the current token. -/
def advance (c : Cursor) : Cursor := { c with tokens := c.tokens.tail }

/-- The cursor behind the line ends it stands at. -/
def skipNewLines (c : Cursor) : Cursor :=
  { c with tokens := c.tokens.dropWhile fun token => token.kind = .newLine }

/-- Moving on from a token that is not the end leaves fewer. -/
theorem left_advance_lt {c : Cursor} (more : c.current.kind ≠ .endOfText) :
    c.advance.left < c.left := by
  obtain ⟨tokens, finish, depth, limit⟩ := c
  cases tokens with
  | nil => exact absurd rfl more
  | cons token rest => exact Nat.lt_succ_self _

/-- Skipping line ends leaves no more. -/
theorem left_skipNewLines_le (c : Cursor) : c.skipNewLines.left ≤ c.left :=
  (List.dropWhile_sublist _).length_le

end Cursor

/-- What a reader answers: a value or an error, and the cursor it leaves. -/
abbrev Reply (α : Type) := EStateM.Result SyntaxError Cursor α

/-- The cursor that a reader leaves. -/
def Reply.cursor {α : Type} : Reply α → Cursor
  | .ok _ c => c
  | .error _ c => c

/-- A reply that leaves at most `n` tokens. -/
def Onward (n : Nat) (α : Type) := { r : Reply α // r.cursor.left ≤ n }

namespace Onward

variable {α β : Type} {n m : Nat}

/-- A value, read up to a cursor. -/
@[inline] def ok (a : α) (c : Cursor) (h : c.left ≤ n := by omega) : Onward n α := ⟨.ok a c, h⟩

/-- An error, met at a cursor. -/
@[inline] def fail (e : SyntaxError) (c : Cursor) (h : c.left ≤ n := by omega) : Onward n α :=
  ⟨.error e c, h⟩

/-- A promise to leave few tokens is a promise not to leave more. -/
@[inline] def weaken (r : Onward m α) (h : m ≤ n := by omega) : Onward n α :=
  ⟨r.val, Nat.le_trans r.property h⟩

/-- Goes on from a value, where the reader that gave it has stopped. -/
@[inline] def andThen (r : Onward m α) (next : (a : α) → (d : Cursor) → d.left ≤ m → Onward n β)
    (h : m ≤ n := by omega) : Onward n β :=
  match r with
  | ⟨.ok a d, few⟩ => next a d few
  | ⟨.error e d, few⟩ => ⟨.error e d, Nat.le_trans few h⟩

/-- Makes something of the value. -/
@[inline] def map (f : α → β) (r : Onward m α) (h : m ≤ n := by omega) : Onward n β :=
  match r with
  | ⟨.ok a d, few⟩ => ⟨.ok (f a) d, Nat.le_trans few h⟩
  | ⟨.error e d, few⟩ => ⟨.error e d, Nat.le_trans few h⟩

/-- Closes the level opened last, whether a value or an error has been met in it. -/
@[inline] def close (r : Onward m α) : Onward m α :=
  match r with
  | ⟨.ok a d, few⟩ => ⟨.ok a { d with depth := d.depth - 1 }, few⟩
  | ⟨.error e d, few⟩ => ⟨.error e { d with depth := d.depth - 1 }, few⟩

end Onward

namespace Cursor

variable {α : Type} {n : Nat}

/-- Takes the current token, which is not the end. -/
@[inline] def take (c : Cursor) (more : c.current.kind ≠ .endOfText)
    (next : (d : Cursor) → d.left < c.left → Onward n α) : Onward n α :=
  next c.advance (left_advance_lt more)

/-- The error that something else than the current token was expected. -/
@[inline] def refuse (c : Cursor) (expected : Expected) (h : c.left ≤ n := by omega) :
    Onward n α :=
  .fail (.unexpectedToken expected c.current.kind c.current.location) c h

/-- Takes the current token if it is of a kind, and else refuses it. -/
@[inline] def expect (c : Cursor) (kind : TokenKind)
    (next : (d : Cursor) → d.left < c.left → Onward n α)
    (h : c.left ≤ n := by omega) (more : kind ≠ .endOfText := by decide) : Onward n α :=
  if found : c.current.kind = kind then c.take (found ▸ more) next
  else c.refuse (.token kind) h

/-- Takes the current token if it is an identifier, and else refuses it. -/
@[inline] def expectIdentifier (c : Cursor)
    (next : (name : String) → (d : Cursor) → d.left < c.left → Onward n α)
    (h : c.left ≤ n := by omega) : Onward n α :=
  match found : c.current.kind with
  | .identifier name => c.take (by simp [found]) (next name)
  | _ => c.refuse .identifier h

/-- Runs a reader one level deeper, at the same token, if another level may be opened. -/
@[inline] def nested (c : Cursor)
    (body : (d : Cursor) → d.left = c.left → d.current = c.current → Onward n α)
    (h : c.left ≤ n := by omega) : Onward n α :=
  if c.limit ≤ c.depth then .fail (.nestingTooDeep c.limit c.current.location) c h
  else (body { c with depth := c.depth + 1 } rfl rfl).close

end Cursor
end Scriptlet
