import Scriptlet.Proofs.Lexeme
import Scriptlet.Proofs.Numeral
import Scriptlet.Source

/-!
# What a text is read as

`Scans` says which tokens a source is read as, one token after another up to the end, and a text has
tokens exactly when it scans (`tokenize_eq_ok_iff`). What stands at the front of a source is said by
`Fronts`: one rule for each sort of token, with everything the rule depends on.

Tokens that have been scanned are `Lexed`: the end is not among them, and the texts of numbers are
numerals.
-/

namespace Scriptlet

/-- Tokens as they stand in front of an end: no end is among them, and the texts of their numbers
are numerals. -/
structure Lexed (tokens : List Token) : Prop where
  more : ∀ t ∈ tokens, t.kind ≠ .endOfText
  numeral : ∀ t ∈ tokens, ∀ text, t.kind = .number text → IsNumeral text

namespace TokenKind

/-- Kinds that are neither an end nor a number, which only the text itself can show. -/
def IsPlain (kind : TokenKind) : Prop := kind ≠ .endOfText ∧ ∀ text, kind ≠ .number text

/-- A pair of symbols is a plain kind. -/
theorem isPlain_of_ofPair? {c d : Char} {kind : TokenKind} (found : ofPair? c d = some kind) :
    kind.IsPlain := by
  unfold ofPair? at found
  split at found <;> cases found <;> exact ⟨nofun, nofun⟩

theorem isPlain_of_ofSymbol? {c : Char} {kind : TokenKind} (found : ofSymbol? c = some kind) :
    kind.IsPlain := by
  unfold ofSymbol? at found
  split at found <;> cases found <;> exact ⟨nofun, nofun⟩

theorem isPlain_ofWord (word : String) : (ofWord word).IsPlain := by
  unfold ofWord
  split_ifs <;> exact ⟨nofun, nofun⟩

end TokenKind

namespace Source

/-! ## One token -/

/-- What stands at the very front of a source, and what is left behind it. -/
inductive Fronts (s : Source) : TokenKind → Source → Prop
  | finish : s.rest = [] → Fronts s .endOfText s
  | pair {c d : Char} {rest : List Char} {kind : TokenKind} :
      s.rest = c :: d :: rest → TokenKind.ofPair? c d = some kind → Fronts s kind (s.drop 2)
  | symbol {c : Char} {rest : List Char} {kind : TokenKind} :
      s.rest = c :: rest → rest.head?.bind (TokenKind.ofPair? c) = none →
      TokenKind.ofSymbol? c = some kind → Fronts s kind (s.drop 1)
  | word {c : Char} {rest : List Char} {text : String} {left : Source} :
      s.rest = c :: rest → rest.head?.bind (TokenKind.ofPair? c) = none →
      TokenKind.ofSymbol? c = none → c.isAlpha → s.lexeme identifierMachine = .ok text left →
      Fronts s (.ofWord text) left
  | number {c : Char} {rest : List Char} {text : String} {left : Source} :
      s.rest = c :: rest → rest.head?.bind (TokenKind.ofPair? c) = none →
      TokenKind.ofSymbol? c = none → ¬ c.isAlpha → c.isDigit || c = '.' →
      s.lexeme numeralMachine = .ok text left → Fronts s (.number text) left

/-- The kind that is read is the one in front. -/
theorem kind_eq_ok_iff {s left : Source} {kind : TokenKind} :
    s.kind = .ok kind left ↔ s.Fronts kind left := by
  constructor
  -- The kind is found by five tests in turn, and each constructor has the tests before its own
  -- fail.
  · intro read
    unfold Source.kind at read
    split at read
    · next front =>
      cases read
      exact .finish front
    · next c rest front =>
      split at read
      · next found =>
        cases read
        obtain ⟨d, first, found⟩ := Option.bind_eq_some_iff.mp found
        obtain ⟨rest, rfl⟩ := List.head?_eq_some_iff.mp first
        exact .pair front found
      · next other =>
        split at read
        · next found =>
          cases read
          exact .symbol front other found
        · next strange =>
          split at read
          · next letter =>
            split at read
            · next found =>
              cases read
              exact .word front other strange letter found
            · cases read
          · next letter =>
            split at read
            · next digit =>
              split at read
              · next found =>
                cases read
                exact .number front other strange letter digit found
              · cases read
            · cases read
  · intro fronts
    cases fronts with
    | finish front => simp only [Source.kind, front]
    | pair front found =>
      simp only [Source.kind, front, List.head?_cons, Option.bind_some, found]
    | symbol front other found => simp only [Source.kind, front, other, found]
    | word front other strange letter found =>
      simp only [Source.kind, front, other, strange, letter, if_true, found]
    | number front other strange letter digit found =>
      simp only [Source.kind, front, other, strange, letter, digit, if_true, Bool.false_eq_true,
        if_false, found]

/-- The next token is in front behind the gap, and is located there. -/
theorem next_eq_ok_iff {s left : Source} {t : Token} :
    s.next = .ok t left ↔ s.skipGap.Fronts t.kind left ∧ t.location = s.skipGap.location := by
  rw [← kind_eq_ok_iff, next]
  cases read : s.skipGap.kind with
  | ok kind after =>
    constructor
    · rintro ⟨⟩
      exact ⟨rfl, rfl⟩
    · obtain ⟨k, l⟩ := t
      rintro ⟨⟨⟩, rfl⟩
      rfl
  | error e after => simp

/-- A lexeme is what the machine takes, if it takes it to a final state. -/
theorem lexeme_eq_ok_iff {σ : Type} {m : Machine σ} {s left : Source} {text : String} :
    s.lexeme m = .ok text left ↔
      m.isFinal (m.run m.fresh s.rest).1.state = true ∧ text = (m.run m.fresh s.rest).1.text ∧
        left = ⟨(m.run m.fresh s.rest).2, s.location.after text.toList⟩ := by
  unfold lexeme
  generalize m.run m.fresh s.rest = result
  obtain ⟨reading, rest⟩ := result
  simp only
  split
  · next ended =>
    simp only [EStateM.Result.ok.injEq, ended, true_and]
    constructor
    · rintro ⟨rfl, rfl⟩
      exact ⟨rfl, rfl⟩
    · rintro ⟨rfl, rfl⟩
      exact ⟨rfl, rfl⟩
  · next stuck =>
    simp only [stuck, Bool.false_eq_true, false_and, iff_false]
    split
    · simp
    · split <;> simp

/-- The text of a number in front is a numeral. -/
theorem Fronts.isNumeral {s left : Source} {text : String} (h : s.Fronts (.number text) left) :
    IsNumeral text := by
  generalize same : TokenKind.number text = kind at h
  cases h with
  | finish => cases same
  | pair _ found => exact absurd same.symm ((TokenKind.isPlain_of_ofPair? found).2 text)
  | symbol _ _ found => exact absurd same.symm ((TokenKind.isPlain_of_ofSymbol? found).2 text)
  | @word _ _ word => exact absurd same.symm ((TokenKind.isPlain_ofWord word).2 text)
  | number _ _ _ _ _ found =>
    cases same
    obtain ⟨ended, rfl, _⟩ := lexeme_eq_ok_iff.mp found
    exact Machine.recognize_run ended

/-- The end stands where nothing is left. -/
theorem Fronts.finished {s left : Source} (h : s.Fronts .endOfText left) : s.rest = [] := by
  generalize same : TokenKind.endOfText = kind at h
  cases h with
  | finish nothing => exact nothing
  | pair _ found => exact absurd same.symm (TokenKind.isPlain_of_ofPair? found).1
  | symbol _ _ found => exact absurd same.symm (TokenKind.isPlain_of_ofSymbol? found).1
  | @word _ _ word => exact absurd same.symm (TokenKind.isPlain_ofWord word).1
  | number => cases same

/-! ## All tokens -/

/-- A source is read as some tokens and an end behind them. -/
inductive Scans : Source → List Token → Location → Prop
  | finish {s left : Source} {t : Token} :
      s.next = .ok t left → t.kind = .endOfText → Scans s [] t.location
  | token {s left : Source} {t : Token} {ts : List Token} {finish : Location} :
      s.next = .ok t left → t.kind ≠ .endOfText → Scans left ts finish → Scans s (t :: ts) finish

/-- The tokens of a source are those of a text. -/
theorem Scans.lexed {s : Source} {ts : List Token} {finish : Location} (h : Scans s ts finish) :
    Lexed ts := by
  induction h with
  | finish => exact ⟨nofun, nofun⟩
  | token read more _ ih =>
    refine ⟨List.forall_mem_cons.mpr ⟨more, ih.more⟩, List.forall_mem_cons.mpr ⟨?_, ih.numeral⟩⟩
    intro text number
    have fronts := (next_eq_ok_iff.mp read).1
    rw [number] at fronts
    exact fronts.isNumeral

/-- The loop adds the tokens of the source to those found before. -/
theorem scan_go_eq_iff (found : List Token) {tokens : List Token} {s : Source} :
    scan.go found s = (tokens, none) ↔
      ∃ ts finish, Scans s ts finish ∧
        tokens = found.reverse ++ (ts ++ [⟨.endOfText, finish⟩]) := by
  fun_induction scan.go found s with
  | case1 found s e left failed =>
    refine ⟨nofun, ?_⟩
    rintro ⟨_, _, h, _⟩
    cases h with
    | finish read => cases failed.symm.trans read
    | token read => cases failed.symm.trans read
  | case2 found s t left read last =>
    constructor
    · rintro ⟨⟩
      refine ⟨[], t.location, .finish read last, ?_⟩
      rw [List.reverse_cons, List.nil_append, ← last]
    · rintro ⟨_, _, h, rfl⟩
      cases h with
      | finish other =>
        cases read.symm.trans other
        rw [List.reverse_cons, List.nil_append, ← last]
      | token other more =>
        cases read.symm.trans other
        exact absurd last more
  -- The loop has the tokens found so far in reverse, so one more goes in front of them.
  | case3 found s t left read more _ ih =>
    rw [ih]
    constructor
    · rintro ⟨ts, finish, h, rfl⟩
      refine ⟨t :: ts, finish, .token read more h, ?_⟩
      rw [List.reverse_cons, List.append_assoc, List.singleton_append, List.cons_append]
    · rintro ⟨_, finish, h, rfl⟩
      cases h with
      | finish other last =>
        cases read.symm.trans other
        exact absurd last more
      | token other _ rest =>
        cases read.symm.trans other
        refine ⟨_, finish, rest, ?_⟩
        rw [List.reverse_cons, List.append_assoc, List.singleton_append, List.cons_append]

end Source

/-- A text has tokens when it scans, and they are what it scans as, with the end behind them. -/
theorem tokenize_eq_ok_iff {text : String} {tokens : List Token} :
    tokenize text = .ok tokens ↔
      ∃ ts finish, (Source.ofString text).Scans ts finish ∧
        tokens = ts ++ [⟨.endOfText, finish⟩] := by
  refine Iff.trans ?_ (Source.scan_go_eq_iff [])
  unfold tokenize Source.scan
  generalize Source.scan.go [] (.ofString text) = result
  obtain ⟨found, _ | e⟩ := result <;> simp

end Scriptlet
