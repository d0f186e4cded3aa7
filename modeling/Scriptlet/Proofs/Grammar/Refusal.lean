import Scriptlet.Proofs.Grammar.Acceptance
import Scriptlet.Proofs.Grammar.Readers

/-!
# Where readers stop

Whatever a reader answers, it has passed over tokens up to some cursor, and as many levels are open
there as where it began. An error is about the token at that cursor (`SyntaxError.IsAbout`), and
nothing behind that token has been taken (`Stops`). This persists, so it holds of all readers.

A list of tokens that ends with an end has every token that a cursor in it can show. So an error in
reading a program is about one of its tokens (`exists_isAbout_of_parseTokens`).
-/

namespace Scriptlet

namespace SyntaxError

/-- Whether an error is about a token: it is reported where the token stands, and what it says to
have found is the token. -/
def IsAbout (token : Token) : SyntaxError → Prop
  | unexpectedToken _ found l => token = ⟨found, l⟩
  | invalidNumeral text l => token = ⟨.number text, l⟩
  | nestingTooDeep _ l => token.location = l
  | illegalSymbol _ _ | unterminatedLiteral _ _ => False

/-- The cursor that an error leaves when it is met at a cursor. Only the text of a numeral is taken
before it is refused. -/
def leaves (c : Cursor) : SyntaxError → Cursor
  | invalidNumeral _ _ => c.advance
  | _ => c

/-- An error leaves the same tokens with more levels open. -/
theorem leaves_under (n : Nat) (c : Cursor) (e : SyntaxError) :
    e.leaves (c.under n) = (e.leaves c).under n := by
  cases e <;> rfl

/-- An error about a token is located there. -/
theorem IsAbout.location_eq {token : Token} {e : SyntaxError} (h : e.IsAbout token) :
    token.location = e.location := by
  cases e with
  | unexpectedToken | invalidNumeral => exact congrArg Token.location h
  | nestingTooDeep => exact h
  | illegalSymbol | unterminatedLiteral => exact h.elim

end SyntaxError

namespace Cursor

variable {α : Type} {c d m : Cursor} {ks : List TokenKind} {r : Reply α}

/-- Whether a reader that began at a cursor has passed over tokens up to where its value ends, or up
to the token that its error is about. -/
def Stops (c : Cursor) : Reply α → Prop
  | .ok _ d => ∃ ks, Passes ks c d
  | .error e d => ∃ ks m, Passes ks c m ∧ e.IsAbout m.current ∧ d = e.leaves m

/-- A reader that stops behind tokens passed over has stopped. -/
theorem Stops.passed (front : Passes ks c d) (h : Stops d r) : Stops c r := by
  cases r with
  | ok a e =>
    obtain ⟨ls, back⟩ := h
    exact ⟨_, front.append back⟩
  | error x e =>
    obtain ⟨ls, m, back, about, left⟩ := h
    exact ⟨_, m, front.append back, about, left⟩

/-- Closing a level does not change where a reader stops. -/
theorem Stops.close (h : Stops (c.under 1) r) : Stops c r.close := by
  cases r with
  | ok a e =>
    obtain ⟨ks, front⟩ := h
    obtain ⟨e, rfl, lower⟩ := passes_under.mp front
    exact ⟨ks, lower⟩
  | error x e =>
    obtain ⟨ks, m, front, about, rfl⟩ := h
    obtain ⟨m, rfl, lower⟩ := passes_under.mp front
    refine ⟨ks, m, lower, about, ?_⟩
    rw [SyntaxError.leaves_under, closed_under_succ, under_zero]

/-- All readers stop like this. -/
theorem persists_stops : Persists (fun c r => Stops c r) where
  ok _ _ := ⟨[], rfl⟩
  refusal _ c := ⟨[], c, rfl, rfl, rfl⟩
  noNumeral {c _} first _ := ⟨[], c, rfl, congrArg (Token.mk · _) first, rfl⟩
  advance more h := h.passed (.one rfl more)
  andThen {_ _ _ r _} h later := by
    cases r with
    | ok a d =>
      obtain ⟨ks, front⟩ := h
      exact (later a d rfl).passed front
    | error e d => exact h
  deeper {_ c _} h := by
    unfold Cursor.deeper
    split
    · exact ⟨[], c, rfl, rfl, rfl⟩
    · exact h.close

/-! ## Tokens of a list -/

/-- The tokens behind those passed over are the last ones. -/
theorem Passes.tokens_suffix (front : Passes ks c m) : m.tokens <:+ c.tokens := by
  induction ks generalizing c with
  | nil => exact (show c = m from front) ▸ List.suffix_refl _
  | cons k ks ih => exact (ih front.2.2).trans (List.tail_suffix _)

/-- Passing over tokens does not move the end. -/
theorem Passes.finish_eq (front : Passes ks c m) : m.finish = c.finish := by
  induction ks generalizing c with
  | nil => exact (show c = m from front) ▸ rfl
  | cons k ks ih =>
    have later := ih front.2.2
    exact later

/-- Where the end that a cursor shows behind its tokens is one of them, it shows no other token. -/
theorem Passes.current_mem (front : Passes ks c m)
    (ended : ⟨.endOfText, c.finish⟩ ∈ c.tokens) : m.current ∈ c.tokens := by
  obtain ⟨tokens, finish, depth, limit⟩ := m
  obtain rfl : finish = c.finish := front.finish_eq
  cases tokens with
  | nil => exact ended
  | cons t rest => exact front.tokens_suffix.mem List.mem_cons_self

end Cursor

open Cursor

/-- An error in reading a program is about one of the program's tokens. -/
theorem exists_isAbout_of_parseTokens {tokens : List Token} {finish : Location} {e : SyntaxError}
    (refused : parseTokens (tokens ++ [⟨.endOfText, finish⟩]) = .error e) :
    ∃ t ∈ tokens ++ [⟨.endOfText, finish⟩], e.IsAbout t := by
  unfold parseTokens at refused
  rw [ofTokens_closed] at refused
  split at refused
  · cases refused
  · next x d failed =>
    cases refused
    have stops : Stops (before tokens finish maxNesting)
        ((before tokens finish maxNesting).skipNewLines.statementsFrom .endOfText []).val :=
      persists_stops.pervades.statements .endOfText _
    rw [program_eq_error_iff.mp failed] at stops
    obtain ⟨ks, m, front, about, _⟩ := stops
    exact ⟨m.current, front.current_mem (List.mem_append_right _ List.mem_cons_self), about⟩

end Scriptlet
