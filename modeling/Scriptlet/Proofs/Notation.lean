import Mathlib.Data.List.Induction
import Scriptlet.Proofs.Source.Spelling

/-!
# How numerals and names are written

The machines for numerals and identifiers decide character by character. Here their languages are
said as a grammar, without the machines: which texts are numerals (`IsNumeralText`) and which are
names (`IsName`).

For numerals the grammar says more. It gives the texts behind which the machine is in each of its
states (`NumeralState.Behind`), so it also knows the beginnings of numerals and the ways to go wrong
(`walk_eq_some_iff`). The proof is an induction on the text from its end, where each rule of the
grammar adds what a step of the machine takes.
-/

namespace Scriptlet

/-! ## Numerals -/

/-- Digits with single underscores between them, at least one. -/
inductive IsDigitRun : List Char → Prop
  | digit {d : Char} : d.isDigit = true → IsDigitRun [d]
  | more {run : List Char} {d : Char} : IsDigitRun run → d.isDigit = true → IsDigitRun (run ++ [d])
  | separated {run : List Char} {d : Char} :
      IsDigitRun run → d.isDigit = true → IsDigitRun (run ++ ['_', d])

/-- Digits of which the first one is not zero. -/
def IsLedRun (text : List Char) : Prop := IsDigitRun text ∧ text.head? ≠ some '0'

/-- A numeral without a point. -/
def IsWhole (text : List Char) : Prop := text = ['0'] ∨ IsLedRun text

/-- A point and digits behind it, perhaps with a whole number in front. -/
def IsPointed (text : List Char) : Prop := ∃ whole fraction,
  (whole = [] ∨ IsWhole whole) ∧ IsDigitRun fraction ∧ text = whole ++ '.' :: fraction

/-- The texts of numerals. -/
def IsNumeralText (text : List Char) : Prop := IsWhole text ∨ IsPointed text

/-- A run of digits ends with a digit, with nothing, a run or a run and an underscore in front. -/
theorem isDigitRun_concat_iff {text : List Char} {c : Char} :
    IsDigitRun (text ++ [c]) ↔ c.isDigit = true ∧
      (text = [] ∨ IsDigitRun text ∨ ∃ run, IsDigitRun run ∧ text = run ++ ['_']) := by
  constructor
  · intro h
    generalize whole : text ++ [c] = all at h
    cases h with
    | digit digit =>
      obtain ⟨rfl, ⟨⟩⟩ := List.append_inj' (whole.trans (List.nil_append [_]).symm) rfl
      exact ⟨digit, .inl rfl⟩
    | more run digit =>
      obtain ⟨rfl, ⟨⟩⟩ := List.append_inj' whole rfl
      exact ⟨digit, .inr (.inl run)⟩
    | @separated run d h digit =>
      obtain ⟨rfl, ⟨⟩⟩ := List.append_inj' (whole.trans (List.append_cons run '_' [d])) rfl
      exact ⟨digit, .inr (.inr ⟨run, h, rfl⟩)⟩
  · rintro ⟨digit, rfl | run | ⟨run, h, rfl⟩⟩
    · exact .digit digit
    · exact .more run digit
    · exact List.append_cons run '_' [c] ▸ .separated h digit

theorem IsDigitRun.ne_nil {text : List Char} (h : IsDigitRun text) : text ≠ [] := by
  cases h <;> simp

/-- A run that does not begin with zero ends with a digit in the same ways. -/
theorem isLedRun_concat_iff {text : List Char} {c : Char} :
    IsLedRun (text ++ [c]) ↔ c.isDigit = true ∧
      (text = [] ∧ c ≠ '0' ∨ IsLedRun text ∨ ∃ run, IsLedRun run ∧ text = run ++ ['_']) := by
  have head {run : List Char} (h : IsDigitRun run) (more : List Char) :
      (run ++ more).head? = run.head? := by
    obtain ⟨d, rest, rfl⟩ := List.exists_cons_of_ne_nil h.ne_nil
    rfl
  unfold IsLedRun
  rw [isDigitRun_concat_iff]
  constructor
  · rintro ⟨⟨digit, rfl | run | ⟨run, h, rfl⟩⟩, led⟩
    · exact ⟨digit, .inl ⟨rfl, fun zero => led (congrArg some zero)⟩⟩
    · exact ⟨digit, .inr (.inl ⟨run, head run [c] ▸ led⟩)⟩
    · rw [List.append_assoc, head h] at led
      exact ⟨digit, .inr (.inr ⟨run, ⟨h, led⟩, rfl⟩)⟩
  · rintro ⟨digit, ⟨rfl, other⟩ | ⟨run, led⟩ | ⟨run, ⟨h, led⟩, rfl⟩⟩
    · exact ⟨⟨digit, .inl rfl⟩, fun zero => other (Option.some.inj zero)⟩
    · exact ⟨⟨digit, .inr (.inl run)⟩, head run [c] ▸ led⟩
    · refine ⟨⟨digit, .inr (.inr ⟨run, h, rfl⟩)⟩, ?_⟩
      rwa [List.append_assoc, head h]

/-- A numeral with a point ends with a digit: the first one behind the point, or a later one. -/
theorem isPointed_concat_iff {text : List Char} {c : Char} :
    IsPointed (text ++ [c]) ↔ c.isDigit = true ∧
      ((∃ whole, (whole = [] ∨ IsWhole whole) ∧ text = whole ++ ['.']) ∨ IsPointed text ∨
        ∃ front, IsPointed front ∧ text = front ++ ['_']) := by
  constructor
  · rintro ⟨whole, fraction, before, digits, split⟩
    obtain rfl | ⟨fraction, d, rfl⟩ := fraction.eq_nil_or_concat
    · exact absurd rfl digits.ne_nil
    · rw [List.concat_eq_append] at split digits
      rw [← List.cons_append, ← List.append_assoc] at split
      obtain ⟨rfl, ⟨⟩⟩ := List.append_inj' split rfl
      obtain ⟨digit, rfl | run | ⟨run, h, rfl⟩⟩ := isDigitRun_concat_iff.mp digits
      · exact ⟨digit, .inl ⟨whole, before, rfl⟩⟩
      · exact ⟨digit, .inr (.inl ⟨whole, fraction, before, run, rfl⟩)⟩
      · refine ⟨digit, .inr (.inr ⟨whole ++ '.' :: run, ⟨whole, run, before, h, rfl⟩, ?_⟩)⟩
        rw [List.append_assoc, List.cons_append]
  · rintro ⟨digit, ⟨whole, before, rfl⟩ | ⟨whole, run, before, h, rfl⟩ |
      ⟨_, ⟨whole, run, before, h, rfl⟩, rfl⟩⟩
    · exact ⟨whole, [c], before, .digit digit, (List.append_cons ..).symm⟩
    · exact ⟨whole, run ++ [c], before, .more h digit, by simp⟩
    · exact ⟨whole, run ++ ['_', c], before, .separated h digit, by simp⟩

/-- The texts behind which the machine for numerals is in a state. -/
def NumeralState.Behind : NumeralState → List Char → Prop
  | .start, text => text = []
  | .zero, text => text = ['0']
  | .integer, text => IsLedRun text
  | .integerSeparator, text => ∃ front, IsLedRun front ∧ text = front ++ ['_']
  | .fractionStart, text => ∃ whole, (whole = [] ∨ IsWhole whole) ∧ text = whole ++ ['.']
  | .fraction, text => IsPointed text
  | .fractionSeparator, text => ∃ front, IsPointed front ∧ text = front ++ ['_']
  | .invalid, text =>
    (∃ d, d.isDigit = true ∧ text = ['0', d]) ∨ ∃ front, IsPointed front ∧ text = front ++ ['.']

namespace NumeralState

variable {state mid : NumeralState} {text : List Char} {c : Char}

/-- What the grammar has behind a text and one more character, a step of the machine leads to. -/
theorem Behind.exists_step (h : state.Behind (text ++ [c])) :
    ∃ mid : NumeralState, mid.Behind text ∧ numeralMachine.step mid c = some state := by
  have last {front : List Char} {d : Char} (same : text ++ [c] = front ++ [d]) :
      text = front ∧ c = d := by simpa using same
  cases state with
  | start => simp [Behind] at h
  | zero =>
    obtain ⟨rfl, rfl⟩ := @last [] _ h
    exact ⟨.start, rfl, rfl⟩
  | integer =>
    obtain ⟨digit, ⟨rfl, other⟩ | led | separated⟩ := isLedRun_concat_iff.mp h
    · exact ⟨.start, rfl, by simp [numeralMachine, digit, other]⟩
    · exact ⟨.integer, led, by simp [numeralMachine, digit]⟩
    · exact ⟨.integerSeparator, separated, by simp [numeralMachine, digit]⟩
  | integerSeparator =>
    obtain ⟨front, led, same⟩ := h
    obtain ⟨rfl, rfl⟩ := last same
    exact ⟨.integer, led, rfl⟩
  | fractionStart =>
    obtain ⟨whole, before, same⟩ := h
    obtain ⟨rfl, rfl⟩ := last same
    obtain rfl | rfl | led := before
    · exact ⟨.start, rfl, rfl⟩
    · exact ⟨.zero, rfl, rfl⟩
    · exact ⟨.integer, led, rfl⟩
  | fraction =>
    obtain ⟨digit, pointed | more | separated⟩ := isPointed_concat_iff.mp h
    · exact ⟨.fractionStart, pointed, by simp [numeralMachine, digit]⟩
    · exact ⟨.fraction, more, by simp [numeralMachine, digit]⟩
    · exact ⟨.fractionSeparator, separated, by simp [numeralMachine, digit]⟩
  | fractionSeparator =>
    obtain ⟨front, pointed, same⟩ := h
    obtain ⟨rfl, rfl⟩ := last same
    exact ⟨.fraction, pointed, rfl⟩
  -- There are two ways to be invalid, a digit behind a lone zero and a second point.
  | invalid =>
    obtain ⟨d, digit, same⟩ | ⟨front, pointed, same⟩ := h
    · obtain ⟨rfl, rfl⟩ := @last ['0'] _ same
      have other : c ≠ '.' := by
        rintro rfl
        exact absurd digit (by decide)
      exact ⟨.zero, rfl, by simp [numeralMachine, digit, other]⟩
    · obtain ⟨rfl, rfl⟩ := last same
      exact ⟨.fraction, pointed, rfl⟩

/-- Where a step of the machine leads to, the grammar has the text with the character behind. -/
theorem Behind.concat (h : mid.Behind text) (moved : numeralMachine.step mid c = some state) :
    state.Behind (text ++ [c]) := by
  cases mid with
  | start =>
    obtain rfl : text = [] := h
    simp only [numeralMachine] at moved
    split_ifs at moved with zero digit point
    · cases moved
      exact zero ▸ rfl
    · cases moved
      exact isLedRun_concat_iff.mpr ⟨digit, .inl ⟨rfl, zero⟩⟩
    · cases moved
      exact ⟨[], .inl rfl, point ▸ rfl⟩
  | zero =>
    obtain rfl : text = ['0'] := h
    simp only [numeralMachine] at moved
    split_ifs at moved with point digit
    · cases moved
      exact ⟨['0'], .inr (.inl rfl), point ▸ rfl⟩
    · cases moved
      exact .inl ⟨c, digit, rfl⟩
  | integer =>
    simp only [numeralMachine] at moved
    split_ifs at moved with digit point underscore
    · cases moved
      exact isLedRun_concat_iff.mpr ⟨digit, .inr (.inl h)⟩
    · cases moved
      exact ⟨text, .inr (.inr h), point ▸ rfl⟩
    · cases moved
      exact ⟨text, h, underscore ▸ rfl⟩
  | integerSeparator =>
    simp only [numeralMachine] at moved
    split_ifs at moved with digit
    cases moved
    exact isLedRun_concat_iff.mpr ⟨digit, .inr (.inr h)⟩
  | fractionStart =>
    simp only [numeralMachine] at moved
    split_ifs at moved with digit
    cases moved
    exact isPointed_concat_iff.mpr ⟨digit, .inl h⟩
  | fraction =>
    simp only [numeralMachine] at moved
    split_ifs at moved with digit underscore point
    · cases moved
      exact isPointed_concat_iff.mpr ⟨digit, .inr (.inl h)⟩
    · cases moved
      exact ⟨text, h, underscore ▸ rfl⟩
    · cases moved
      exact .inr ⟨text, h, point ▸ rfl⟩
  | fractionSeparator =>
    simp only [numeralMachine] at moved
    split_ifs at moved with digit
    cases moved
    exact isPointed_concat_iff.mpr ⟨digit, .inr (.inr h)⟩
  | invalid => cases moved

/-- **The grammar gives the texts behind each state of the machine.** -/
theorem walk_eq_some_iff : numeralMachine.walk .start text = some state ↔ state.Behind text := by
  induction text using List.reverseRecOn generalizing state with
  | nil =>
    have noRun : ¬ IsDigitRun [] := fun run => run.ne_nil rfl
    cases state <;> simp [Machine.walk, Behind, IsLedRun, IsPointed, noRun]
  | append_singleton text c ih =>
    rw [Machine.walk_concat_iff]
    constructor
    · rintro ⟨mid, walked, moved⟩
      exact (ih.mp walked).concat moved
    · intro h
      obtain ⟨mid, behind, moved⟩ := h.exists_step
      exact ⟨mid, ih.mpr behind, moved⟩

end NumeralState

/-- The machine for numerals recognises the numerals of the grammar. -/
theorem isNumeral_iff {text : String} : IsNumeral text ↔ IsNumeralText text.toList := by
  rw [IsNumeral, Machine.recognize_eq_iff, Machine.accepts_iff_walk]
  constructor
  · rintro ⟨state, walked, final⟩
    have behind := NumeralState.walk_eq_some_iff.mp walked
    cases state with
    | zero => exact .inl (.inl behind)
    | integer => exact .inl (.inr behind)
    | fraction => exact .inr behind
    | _ => cases final
  · rintro ((zero | led) | pointed)
    · exact ⟨.zero, NumeralState.walk_eq_some_iff.mpr zero, rfl⟩
    · exact ⟨.integer, NumeralState.walk_eq_some_iff.mpr led, rfl⟩
    · exact ⟨.fraction, NumeralState.walk_eq_some_iff.mpr pointed, rfl⟩

/-! ## Names -/

/-- A letter, and letters and digits behind it, all of them ASCII, that do not spell a keyword. -/
def IsName (name : String) : Prop :=
  (∃ c rest, name.toList = c :: rest ∧ c.isAlpha = true ∧ ∀ d ∈ rest, d.isAlphanum = true) ∧
    name ≠ "function" ∧ name ≠ "if" ∧ name ≠ "return"

/-- Behind its first letter, a name is accepted as far as it has letters and digits. -/
theorem accepts_identifier_iff {text : List Char} :
    identifierMachine.accepts .identifier text = true ↔ ∀ d ∈ text, d.isAlphanum = true := by
  induction text with
  | nil => exact ⟨fun _ => nofun, fun _ => rfl⟩
  | cons d text ih =>
    rw [Machine.accepts_cons, List.forall_mem_cons, ← ih]
    by_cases letter : d.isAlphanum = true <;> simp [identifierMachine, letter]

/-- Three words are keywords, and every other one is a name. -/
theorem TokenKind.ofWord_eq_identifier_iff {word : String} :
    ofWord word = identifier word ↔ word ≠ "function" ∧ word ≠ "if" ∧ word ≠ "return" := by
  unfold ofWord
  split_ifs with function conditional result
  · simp [function]
  · simp [conditional]
  · simp [result]
  · simp [function, conditional, result]

/-- The machine for identifiers recognises the names of the grammar, and the keywords. -/
theorem isIdentifier_iff {name : String} : IsIdentifier name ↔ IsName name := by
  refine and_congr ?_ TokenKind.ofWord_eq_identifier_iff
  rw [Machine.recognize_eq_iff]
  constructor
  · intro accepted
    obtain ⟨c, rest, front, letter⟩ := letter_of_accepts accepted
    rw [front] at accepted
    obtain ⟨next, moved, accepted⟩ := Machine.accepts_cons.mp accepted
    simp only [identifierMachine, letter, if_true] at moved
    cases moved
    exact ⟨c, rest, front, letter, accepts_identifier_iff.mp accepted⟩
  · rintro ⟨c, rest, front, letter, behind⟩
    rw [front, Machine.accepts_cons]
    exact ⟨.identifier, by simp [identifierMachine, letter], accepts_identifier_iff.mpr behind⟩

/-! ## Kinds -/

namespace TokenKind

/-- Kinds that can be written in a text: any but the end, with the text of a numeral or of a name
where they carry one. -/
def IsWritable : TokenKind → Prop
  | number text => IsNumeralText text.toList
  | identifier name => IsName name
  | endOfText => False
  | _ => True

/-- What is spelled are the kinds that can be written. -/
theorem isSpelled_iff {kind : TokenKind} : kind.IsSpelled ↔ kind.IsWritable := by
  cases kind with
  | number text => exact isNumeral_iff
  | identifier name => exact isIdentifier_iff
  | _ => exact Iff.rfl

end TokenKind

end Scriptlet
