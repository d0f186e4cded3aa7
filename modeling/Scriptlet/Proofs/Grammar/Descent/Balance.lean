import Scriptlet.Proofs.Grammar.Descent.Agreement
import Scriptlet.Proofs.Grammar.Refusal

/-!
# Levels are given back

The steps of a descent lead a cursor on (`Cursor.Leads`), and this alone says how the counter moves:
behind each step it is the number of levels entered and not given back, and it is never above the
limit (`Leads.counted`). The tokens that have been taken are the first ones, and the cursor stands at
the next one (`Leads.tokens_eq`).

A reader leaves as many levels open as it has found. So the counter is zero behind every call, though
the calls before may have been refused in the middle of anything (`descent_balanced`).
-/

namespace Scriptlet

open Cursor

/-! ## What is on record -/

/-- The levels that a move opens. -/
def Move.opened : Move → Nat
  | .enter => 1
  | _ => 0

/-- The levels that a move gives back. -/
def Move.returned : Move → Nat
  | .leave levels => levels
  | _ => 0

/-- The token that a move takes. -/
def Move.token? : Move → Option Token
  | .advance token => some token
  | _ => none

/-- What some steps come to, where each move counts for some number: with `Move.opened` the number of
levels that have been opened, and with `Move.returned` of those that have been given back. -/
def total (count : Move → Nat) : List Step → Nat
  | [] => 0
  | step :: rest => count step.move + total count rest

/-- The tokens that have been taken. -/
def consumed (steps : List Step) : List Token := steps.filterMap (·.move.token?)

/-- How a step goes with those in front of it. -/
structure Step.Balances (front : List Step) (step : Step) : Prop where
  /-- The counter is the number of levels opened and not given back. -/
  counted : step.depth + total Move.returned (front ++ [step]) = total Move.opened (front ++ [step])
  within : step.depth ≤ maxNesting
  /-- No more levels are given back than have been opened. -/
  covered : ∀ levels, step.move = .leave levels →
    total Move.returned front + levels ≤ total Move.opened front

/-- A parser between two calls. -/
structure Parser.Balanced (tokens : List Token) (p : Parser) : Prop where
  depth_eq : p.depth = 0
  balances : ∀ front step back, p.record = front ++ step :: back → step.Balances front
  /-- The tokens in front of the current one have been taken, and none from it on. -/
  place : ∃ unread, tokens = consumed p.record ++ unread ∧
    p.window.current = unread.headD ⟨.endOfText, (Cursor.ofTokens tokens).finish⟩

variable {c d : Cursor} {steps more : List Step}

section

variable (count : Move → Nat)

@[simp] theorem total_nil : total count [] = 0 := rfl

@[simp] theorem total_cons (step : Step) (steps : List Step) :
    total count (step :: steps) = count step.move + total count steps := rfl

/-- What is counted over steps in two parts is the sum of both. -/
theorem total_append (steps more : List Step) :
    total count (steps ++ more) = total count steps + total count more := by
  induction steps with
  | nil => exact (Nat.zero_add _).symm
  | cons step rest ih => rw [List.cons_append, total_cons, total_cons, ih, Nat.add_assoc]

end

/-- The tokens consumed in two parts are those of the first and then those of the second. -/
theorem consumed_append : consumed (steps ++ more) = consumed steps ++ consumed more :=
  List.filterMap_append

namespace Cursor

/-- The counter behind a step, by what it is in front of the first one. -/
def Counted (depth limit : Nat) (steps : List Step) : Prop :=
  ∀ front step back, steps = front ++ step :: back →
    step.depth + total Move.returned (front ++ [step]) = depth + total Move.opened (front ++ [step]) ∧
      step.depth ≤ limit

/-- A step in front is counted with the levels it opens or gives back. -/
theorem Counted.cons {step : Step} {depth limit : Nat} (within : step.depth ≤ limit)
    (here : step.depth + step.move.returned = depth + step.move.opened)
    (later : Counted step.depth limit steps) : Counted depth limit (step :: steps) := by
  intro front other back split
  cases front with
  | nil =>
    obtain ⟨rfl, -⟩ := List.cons.inj split
    simp only [List.nil_append, total_cons, total_nil, Nat.add_zero]
    exact ⟨here, within⟩
  | cons first front =>
    obtain ⟨rfl, rest⟩ := List.cons.inj split
    obtain ⟨counted, few⟩ := later front other back rest
    simp only [List.cons_append, total_cons]
    exact ⟨by omega, few⟩

/-- Steps that lead on count the levels. -/
theorem Leads.counted (leads : c.Leads steps d) (within : c.depth ≤ c.limit) :
    Counted c.depth c.limit steps := by
  induction leads with
  | nil => exact fun front _ _ split =>
      absurd (List.append_eq_nil_iff.mp split.symm).2 (List.cons_ne_nil _ _)
  | advance _ _ ih => exact .cons within rfl (ih within)
  | enter room _ ih => exact .cons room rfl (ih room)
  | leave levels _ ih =>
    have fewer := Nat.le_trans (Nat.le_add_right _ levels) within
    exact .cons fewer rfl (ih fewer)

/-- The tokens of a cursor that is not at the end are the one it shows and those behind. -/
theorem tokens_eq_cons (more : c.current.kind ≠ .endOfText) :
    c.tokens = c.current :: c.advance.tokens := by
  obtain ⟨tokens, finish, depth, limit⟩ := c
  cases tokens with
  | nil => exact absurd rfl more
  | cons t rest => rfl

/-- What has been taken are the first tokens. -/
theorem Leads.tokens_eq (leads : c.Leads steps d) : c.tokens = consumed steps ++ d.tokens := by
  induction leads with
  | nil => rfl
  | advance more _ ih => exact (tokens_eq_cons more).trans (congrArg (_ :: ·) ih)
  | enter _ _ ih => exact ih
  | leave _ _ ih => exact ih

/-- No step moves the end. -/
theorem Leads.finish_eq (leads : c.Leads steps d) : d.finish = c.finish := by
  induction leads with
  | nil => rfl
  | advance _ _ ih => exact ih
  | enter _ _ ih => exact ih
  | leave _ _ ih => exact ih

end Cursor

/-! ## Between calls -/

/-- Where the levels are counted, each step balances with the ones in front of it. -/
theorem Cursor.Counted.balances {front : List Step} {step : Step} {back : List Step}
    (counted : Counted 0 maxNesting steps) (split : steps = front ++ step :: back) :
    step.Balances front := by
  obtain ⟨same, within⟩ := counted front step back split
  rw [Nat.zero_add] at same
  refine ⟨same, within, fun levels given => ?_⟩
  rw [total_append, total_append, total_cons, total_cons, given] at same
  simp only [Move.returned, Move.opened, total_nil] at same
  omega

/-- Steps from the first token on lead to a parser in balance, where no level is open. -/
theorem Cursor.Leads.balanced {tokens : List Token} {w : Window}
    (leads : (Cursor.ofTokens tokens).Leads steps d) (level : d.depth = 0)
    (shown : (Cursor.ofTokens tokens).ShownBy w) :
    (⟨w.after steps, d.depth, steps⟩ : Parser).Balanced tokens where
  depth_eq := level
  balances _ _ _ := (leads.counted (Nat.zero_le _)).balances
  place := by
    refine ⟨d.tokens, leads.tokens_eq, (leads.shownBy shown).current_eq.trans ?_⟩
    rw [Cursor.current, leads.finish_eq]

/-- What is done to the answer does not change where a reader stops. -/
theorem Cursor.Stops.map {α β : Type} {r : Reply α} (stops : Stops c r) (f : α → β) :
    Stops c (r.map f) := by
  cases r <;> exact stops

/-- Every entry stops where a reader does. -/
theorem readEntry_stops (c : Cursor) (entry : Entry) : Stops c (c.readEntry entry) := by
  have k := persists_stops.pervades
  have readers := k.readers c
  have statements (stop : TokenKind) : Stops c (c.statements stop) := k.statements stop c
  cases entry with
  | program =>
    unfold Cursor.readEntry
    rw [program_eq]
    exact ((statements .endOfText).map _).map _
  | statement => exact readers.statement.map _
  | expression => exact readers.expression.map _
  | statements stop => exact (statements stop).map _

/-- An error other than one about a numeral is about the token that it leaves. -/
theorem Cursor.Stops.isAbout {α : Type} {r : Reply α} {e : SyntaxError} (stops : Stops c r)
    (refused : r.outcome = .error e) (other : ∀ text l, e ≠ .invalidNumeral text l) :
    e.IsAbout r.cursor.current := by
  cases r with
  | ok a d => cases refused
  | error x d =>
    cases refused
    obtain ⟨_, m, _, about, rfl⟩ := stops
    cases e with
    | invalidNumeral text l => exact absurd rfl (other text l)
    | _ => exact about

/-- **Levels are given back, and an error is left where it is.** Whatever a parser has been asked for,
and whether the tokens have been refused then or not, no level is open, and behind every step that it
has made the counter is the number of levels opened and not given back, within the limit. It answers
as the readers do. Where it refuses the tokens, the error is about the token that is current then; the
tokens in front of this one have been taken, and no others. Only the text of a numeral is taken before
it is refused. -/
theorem descent_balanced (tokens : List Token) (entries : List Entry) {room : Nat}
    (enough : roomFor tokens ≤ room) :
    ∃ p, readEach room entries (.ofTokens tokens)
        = (((Cursor.ofTokens tokens).readEach entries).1.map answer, p) ∧
      p.Balanced tokens ∧
      ∀ entry : Entry, ∃ o q, entry.read room p = ending o q ∧ q.Balanced tokens ∧
        ∀ e, o = .error e → (∀ text l, e ≠ .invalidNumeral text l) →
          e.IsAbout q.window.current := by
  have shown := Window.shownBy_ofTokens tokens
  obtain ⟨level, steps, leads, runs⟩ := readEach_follows (c := .ofTokens tokens) entries rfl
    (Nat.lt_succ_self (32 * tokens.length + 14))
  refine ⟨_, runs room enough _ [] shown, ?_, fun entry => ?_⟩
  · rw [← level]
    exact leads.balanced level shown
  · generalize ((Cursor.ofTokens tokens).readEach entries).2 = c at level leads
    have few : c.left ≤ tokens.length := leads.left_le
    obtain ⟨does, same⟩ := entry_follows entry (c := c)
      (show 32 * c.left + 14 < roomFor tokens by unfold roomFor; omega)
    obtain ⟨more, onward, goesOn⟩ := does leads.limit_eq
    have whole := leads.append onward
    refine ⟨_, _, level ▸ goesOn room enough _ _ (leads.shownBy shown), ?_, fun e refused other => ?_⟩
    · rw [← Window.after_append]
      exact whole.balanced (same.trans level) shown
    · rw [← Window.after_append, (whole.shownBy shown).current_eq]
      exact (readEntry_stops c entry).isAbout refused other

/-- A sum of a product that lacks an operand. -/
def brokenSum : List Token :=
  [⟨.identifier "x", ⟨0, 1, 1⟩⟩, ⟨.plus, ⟨1, 1, 2⟩⟩, ⟨.identifier "y", ⟨2, 1, 3⟩⟩,
    ⟨.asterisk, ⟨3, 1, 4⟩⟩, ⟨.rightParen, ⟨4, 1, 5⟩⟩]

/-- Behind a refusal with two chains open, the parser stands in balance at the refused token. -/
theorem descent_balanced_brokenSum :
    roomFor brokenSum ≤ 175 ∧
      ∃ p, readEach 175 [.expression] (.ofTokens brokenSum)
          = ([.error (.refused (.unexpectedToken .expression .rightParen ⟨4, 1, 5⟩))], p) ∧
        p.Balanced brokenSum := by
  obtain ⟨p, run, balanced, _⟩ := descent_balanced brokenSum [.expression] (Nat.le_refl 175)
  have answers : (readEach 175 [.expression] (.ofTokens brokenSum)).1
      = [.error (.refused (.unexpectedToken .expression .rightParen ⟨4, 1, 5⟩))] := rfl
  have left : (readEach 175 [.expression] (.ofTokens brokenSum)).2 = p := by rw [run]
  exact ⟨by decide, p, Prod.ext answers left, balanced⟩

end Scriptlet
