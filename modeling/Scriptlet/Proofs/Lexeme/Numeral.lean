import Mathlib.Computability.RegularExpressions
import Scriptlet.Proofs.Notation

/-!
# Numerals as a regular expression

The grammar of numerals is said once more, as a regular expression that can be matched without the
machine (`numeralPattern`, with its parts). The expression has the digits of a numeral from the
front and the grammar has them from the end, so the two are compared at the runs of digits
(`isDigitRun_iff`), and from there part by part (`isNumeralText_iff`).

A machine may be fed characters one by one, those included that it refuses. What it has taken and
the state behind it still belong together, so the grammar of each state says what the machine
answers about a text. The converse holds as well: a further character is taken exactly when the text
with it is admitted, and a text of the expression is taken whole (`feedAll_numeral`).
-/

namespace Scriptlet

open RegularExpression

/-! ## The expression -/

/-- One character out of some. -/
def oneOf (cs : List Char) : RegularExpression Char :=
  cs.foldr (fun c others => .char c + others) 0

/-- `[0-9]` -/
def digitPattern : RegularExpression Char :=
  oneOf ['0', '1', '2', '3', '4', '5', '6', '7', '8', '9']

/-- `[1-9]` -/
def leadingPattern : RegularExpression Char :=
  oneOf ['1', '2', '3', '4', '5', '6', '7', '8', '9']

/-- `_?[0-9]` -/
def nextDigitPattern : RegularExpression Char := (1 + .char '_') * digitPattern

/-- `(_?[0-9])*` -/
def furtherPattern : RegularExpression Char := .star nextDigitPattern

/-- `0 | [1-9](_?[0-9])*` -/
def wholePattern : RegularExpression Char := .char '0' + leadingPattern * furtherPattern

/-- `\.[0-9](_?[0-9])*` -/
def fractionPattern : RegularExpression Char := .char '.' * (digitPattern * furtherPattern)

/-- `(0 | [1-9](_?[0-9])*)(\.[0-9](_?[0-9])*)? | \.[0-9](_?[0-9])*` -/
def numeralPattern : RegularExpression Char :=
  wholePattern * (1 + fractionPattern) + fractionPattern

variable {text run more : List Char}

/-- One character out of some is any of them. -/
theorem mem_oneOf {cs : List Char} : text ∈ (oneOf cs).matches' ↔ ∃ c ∈ cs, text = [c] := by
  induction cs with
  | nil => exact ⟨fun none => absurd none (Language.notMem_zero text), by simp⟩
  | cons c cs ih =>
    rw [List.exists_mem_cons_iff, ← ih]
    exact Language.mem_add ..

/-- The digits are these ten characters. -/
theorem isDigit_iff_mem {c : Char} :
    c.isDigit = true ↔ c ∈ ['0', '1', '2', '3', '4', '5', '6', '7', '8', '9'] := by
  constructor
  · intro digit
    have named : ∀ n < 10,
        Char.ofNat (48 + n) ∈ ['0', '1', '2', '3', '4', '5', '6', '7', '8', '9'] := by decide
    simp only [Char.isDigit, Bool.and_eq_true, decide_eq_true_eq] at digit
    have least : 48 ≤ c.toNat := digit.1
    have greatest : c.toNat ≤ 57 := digit.2
    obtain ⟨n, same⟩ := Nat.exists_eq_add_of_le least
    have member := named n (by omega)
    rwa [← same, Char.ofNat_toNat] at member
  · exact List.all_eq_true.mp (by decide) c

/-- A digit by itself. -/
theorem mem_digitPattern : text ∈ digitPattern.matches' ↔ ∃ d, d.isDigit = true ∧ text = [d] := by
  simp only [isDigit_iff_mem]
  exact mem_oneOf

/-- A digit that is not zero, by itself. -/
theorem mem_leadingPattern :
    text ∈ leadingPattern.matches' ↔ ∃ d, (d.isDigit = true ∧ d ≠ '0') ∧ text = [d] := by
  have leading (d : Char) : d.isDigit = true ∧ d ≠ '0' ↔
      d ∈ ['1', '2', '3', '4', '5', '6', '7', '8', '9'] := by
    rw [isDigit_iff_mem, List.mem_cons]
    constructor
    · rintro ⟨zero | other, nonzero⟩
      · exact absurd zero nonzero
      · exact other
    · intro member
      refine ⟨.inr member, ?_⟩
      rintro rfl
      exact absurd member (by decide)
  simp only [leading]
  exact mem_oneOf

/-! ## The grammar -/

/-- A digit, or an underscore and a digit. -/
theorem mem_nextDigitPattern : text ∈ nextDigitPattern.matches' ↔
    ∃ d, d.isDigit = true ∧ (text = [d] ∨ text = ['_', d]) := by
  rw [nextDigitPattern, matches'_mul, Language.mem_mul]
  simp only [mem_digitPattern, matches'_add, Language.mem_add]
  constructor
  · rintro ⟨_, nothing | separator, _, ⟨d, digit, rfl⟩, rfl⟩
    · exact ⟨d, digit, .inl (by rw [(Language.mem_one _).mp nothing]; rfl)⟩
    · exact ⟨d, digit, .inr (by rw [show _ = ['_'] from separator]; rfl)⟩
  · rintro ⟨d, digit, rfl | rfl⟩
    · exact ⟨[], .inl (Language.nil_mem_one), [d], ⟨d, digit, rfl⟩, rfl⟩
    · exact ⟨['_'], .inr rfl, [d], ⟨d, digit, rfl⟩, rfl⟩

/-- What may come further behind a run of digits leaves a run of digits. -/
theorem IsDigitRun.further (h : IsDigitRun run) (behind : more ∈ furtherPattern.matches') :
    IsDigitRun (run ++ more) := by
  obtain ⟨parts, rfl, each⟩ := Language.mem_kstar.mp behind
  clear behind
  induction parts generalizing run with
  | nil => exact (List.append_nil run).symm ▸ h
  | cons part parts ih =>
    obtain ⟨first, later⟩ := List.forall_mem_cons.mp each
    rw [List.flatten_cons, ← List.append_assoc]
    obtain ⟨d, digit, rfl | rfl⟩ := mem_nextDigitPattern.mp first
    · exact ih (.more h digit) later
    · exact ih (.separated h digit) later

/-- A run of digits is a digit and what comes further behind it. -/
theorem IsDigitRun.exists_further (h : IsDigitRun run) :
    ∃ d more, d.isDigit = true ∧ more ∈ furtherPattern.matches' ∧ run = d :: more := by
  have longer {front part : List Char} {d : Char} (digit : d.isDigit = true)
      (next : part = [d] ∨ part = ['_', d]) (before : front ∈ furtherPattern.matches') :
      front ++ part ∈ furtherPattern.matches' := by
    rw [furtherPattern, matches'_star, ← Language.one_add_kstar_mul_self_eq_kstar]
    exact .inr (Language.append_mem_mul before (mem_nextDigitPattern.mpr ⟨d, digit, next⟩))
  induction h with
  | digit digit => exact ⟨_, [], digit, Language.nil_mem_kstar _, rfl⟩
  | more _ digit ih =>
    obtain ⟨first, more, led, behind, rfl⟩ := ih
    exact ⟨first, _, led, longer digit (.inl rfl) behind, rfl⟩
  | separated _ digit ih =>
    obtain ⟨first, more, led, behind, rfl⟩ := ih
    exact ⟨first, _, led, longer digit (.inr rfl) behind, rfl⟩

/-- Runs of digits are those of the expression. -/
theorem isDigitRun_iff : IsDigitRun text ↔ text ∈ (digitPattern * furtherPattern).matches' := by
  rw [matches'_mul, Language.mem_mul]
  simp only [mem_digitPattern]
  constructor
  · intro h
    obtain ⟨d, more, digit, behind, rfl⟩ := h.exists_further
    exact ⟨[d], ⟨d, digit, rfl⟩, more, behind, rfl⟩
  · rintro ⟨_, ⟨d, digit, rfl⟩, more, behind, rfl⟩
    exact (IsDigitRun.digit digit).further behind

/-- Runs that do not begin with zero are the same behind their first digit. -/
theorem isLedRun_iff : IsLedRun text ↔ text ∈ (leadingPattern * furtherPattern).matches' := by
  rw [matches'_mul, Language.mem_mul]
  simp only [mem_leadingPattern]
  constructor
  · rintro ⟨h, led⟩
    obtain ⟨d, more, digit, behind, rfl⟩ := h.exists_further
    exact ⟨[d], ⟨d, ⟨digit, fun zero => led (congrArg some zero)⟩, rfl⟩, more, behind, rfl⟩
  · rintro ⟨_, ⟨d, ⟨digit, nonzero⟩, rfl⟩, more, behind, rfl⟩
    exact ⟨(IsDigitRun.digit digit).further behind, fun zero => nonzero (Option.some.inj zero)⟩

/-- A whole part is zero or such a run. -/
theorem isWhole_iff : IsWhole text ↔ text ∈ wholePattern.matches' :=
  or_congr Iff.rfl isLedRun_iff

/-- A fraction is a point with a run of digits behind it. -/
theorem mem_fractionPattern :
    text ∈ fractionPattern.matches' ↔ ∃ fraction, IsDigitRun fraction ∧ text = '.' :: fraction := by
  simp only [isDigitRun_iff]
  rw [fractionPattern, matches'_mul, Language.mem_mul]
  constructor
  · rintro ⟨_, rfl, fraction, digits, rfl⟩
    exact ⟨fraction, digits, rfl⟩
  · rintro ⟨fraction, digits, rfl⟩
    exact ⟨['.'], rfl, fraction, digits, rfl⟩

/-- The expression has the texts of numerals. -/
theorem isNumeralText_iff : IsNumeralText text ↔ text ∈ numeralPattern.matches' := by
  have pattern : text ∈ numeralPattern.matches' ↔
      (∃ whole ∈ wholePattern.matches', ∃ rest, (rest = [] ∨ rest ∈ fractionPattern.matches') ∧
        whole ++ rest = text) ∨ text ∈ fractionPattern.matches' := Iff.rfl
  rw [pattern]
  simp only [← isWhole_iff, mem_fractionPattern]
  constructor
  · rintro (whole | ⟨whole, fraction, rfl | before, digits, rfl⟩)
    · exact .inl ⟨text, whole, [], .inl rfl, List.append_nil text⟩
    · exact .inr ⟨fraction, digits, rfl⟩
    · exact .inl ⟨whole, before, _, .inr ⟨fraction, digits, rfl⟩, rfl⟩
  · rintro (⟨whole, before, rest, rfl | ⟨fraction, digits, rfl⟩, rfl⟩ | ⟨fraction, digits, rfl⟩)
    · exact .inl ((List.append_nil whole).symm ▸ before)
    · exact .inr ⟨whole, fraction, .inr before, digits, rfl⟩
    · exact .inr ⟨[], fraction, .inl rfl, digits, rfl⟩

example : "1_0.5".toList ∈ numeralPattern.matches' ∧ "1__0".toList ∉ numeralPattern.matches' := by
  decide +kernel

/-! ## Points and last digits -/

/-- There is no point in a run of digits. -/
theorem IsDigitRun.point_notMem (h : IsDigitRun run) : '.' ∉ run := by
  have other {d : Char} (digit : d.isDigit = true) : '.' ≠ d := by
    rintro rfl
    exact absurd digit (by decide)
  induction h with
  | digit digit => simp [other digit]
  | more _ digit ih => simp [ih, other digit]
  | separated _ digit ih => simp [ih, other digit]

/-- The numerals with a fraction are those with a point. -/
theorem isPointed_iff : IsPointed text ↔ IsNumeralText text ∧ '.' ∈ text := by
  constructor
  · intro h
    refine ⟨.inr h, ?_⟩
    obtain ⟨whole, fraction, _, _, rfl⟩ := h
    exact List.mem_append_right whole List.mem_cons_self
  · rintro ⟨(rfl | led) | h, point⟩
    · exact absurd point (by decide)
    · exact absurd point led.1.point_notMem
    · exact h

/-- A numeral with a point ends with a digit. -/
theorem IsPointed.exists_last (h : IsPointed text) : ∃ d ∈ text.getLast?, d.isDigit = true := by
  obtain rfl | ⟨front, d, rfl⟩ := text.eq_nil_or_concat
  · obtain ⟨whole, fraction, _, _, split⟩ := h
    simp at split
  · rw [List.concat_eq_append] at h ⊢
    exact ⟨d, List.getLast?_concat, (isPointed_concat_iff.mp h).1⟩

/-! ## The machine -/

/-- A text that has been begun, is no numeral and is not invalid breaks off behind a point or an
underscore. Every digit goes on with it, and finishes it. -/
theorem NumeralState.Behind.unfinished {state : NumeralState} (h : state.Behind text)
    (begun : text ≠ []) (unfinished : numeralMachine.isFinal state = false)
    (valid : numeralMachine.isInvalid state = false) :
    (text.getLast? = some '.' ∨ text.getLast? = some '_') ∧
      ∀ d : Char, d.isDigit = true → IsNumeralText (text ++ [d]) := by
  cases state with
  | start => exact absurd h begun
  | zero | integer | fraction => cases unfinished
  | invalid => cases valid
  | integerSeparator =>
    refine ⟨.inr ?_, fun d digit => .inl (.inr (isLedRun_concat_iff.mpr ⟨digit, .inr (.inr h)⟩))⟩
    obtain ⟨front, _, rfl⟩ := h
    exact List.getLast?_concat
  | fractionStart =>
    refine ⟨.inl ?_, fun d digit => .inr (isPointed_concat_iff.mpr ⟨digit, .inl h⟩)⟩
    obtain ⟨front, _, rfl⟩ := h
    exact List.getLast?_concat
  | fractionSeparator =>
    refine ⟨.inr ?_, fun d digit => .inr (isPointed_concat_iff.mpr ⟨digit, .inr (.inr h)⟩)⟩
    obtain ⟨front, _, rfl⟩ := h
    exact List.getLast?_concat

/-- The expression has the texts that the machine walks to a final state. -/
theorem mem_numeralPattern_iff_walk : text ∈ numeralPattern.matches' ↔
    ∃ last, numeralMachine.walk .start text = some last ∧ numeralMachine.isFinal last = true := by
  have same := @isNumeral_iff (.ofList text)
  rw [IsNumeral, Machine.recognize_eq_iff, Machine.accepts_iff_walk, String.toList_ofList] at same
  rw [← isNumeralText_iff]
  exact same.symm

/-- A zero and a digit, or a numeral that has a fraction, so ends in a digit, and one more point. -/
def IsFaultyText (text : List Char) : Prop :=
  (∃ d, d.isDigit = true ∧ text = ['0', d]) ∨
    ∃ front, front ∈ numeralPattern.matches' ∧ '.' ∈ front ∧
      (∃ d ∈ front.getLast?, d.isDigit = true) ∧ text = front ++ ['.']

/-- The faulty texts are those behind which the machine is in its invalid state. -/
theorem isFaultyText_iff :
    IsFaultyText text ↔ numeralMachine.walk .start text = some .invalid := by
  rw [NumeralState.walk_eq_some_iff]
  refine or_congr Iff.rfl (exists_congr fun front => ?_)
  rw [← isNumeralText_iff]
  constructor
  · rintro ⟨numeral, point, _, same⟩
    exact ⟨isPointed_iff.mpr ⟨numeral, point⟩, same⟩
  · rintro ⟨pointed, same⟩
    obtain ⟨numeral, point⟩ := isPointed_iff.mp pointed
    exact ⟨numeral, point, pointed.exists_last, same⟩

/-- A text that some numeral begins with, or a faulty one. -/
def IsAdmitted (text : List Char) : Prop :=
  (∃ more, text ++ more ∈ numeralPattern.matches') ∨ IsFaultyText text

/-- The texts that are admitted are those that the machine walks. -/
theorem isAdmitted_iff :
    IsAdmitted text ↔ ∃ state, numeralMachine.walk .start text = some state := by
  constructor
  · rintro (⟨more, numeral⟩ | faulty)
    · obtain ⟨last, walked, _⟩ := mem_numeralPattern_iff_walk.mp numeral
      rw [Machine.walk_append] at walked
      obtain ⟨state, walked, _⟩ := Option.bind_eq_some_iff.mp walked
      exact ⟨state, walked⟩
    · exact ⟨.invalid, isFaultyText_iff.mp faulty⟩
  · rintro ⟨state, walked⟩
    cases invalid : numeralMachine.isInvalid state with
    | true => exact .inr (isFaultyText_iff.mpr (of_decide_eq_true invalid ▸ walked))
    | false =>
      cases final : numeralMachine.isFinal state with
      | true =>
        have numeral := mem_numeralPattern_iff_walk.mpr ⟨state, walked, final⟩
        exact .inl ⟨[], (List.append_nil text).symm ▸ numeral⟩
      | false =>
        -- one zero finishes whatever has not been finished, the empty text included
        refine .inl ⟨['0'], isNumeralText_iff.mp ?_⟩
        by_cases begun : text = []
        · subst begun
          exact .inl (.inl rfl)
        · have behind := NumeralState.walk_eq_some_iff.mp walked
          exact (behind.unfinished begun final invalid).2 '0' (by decide)

/-- What the answers of the machine for numerals mean for the text that it has taken. -/
structure Reading.FollowsPattern (r : Reading NumeralState) : Prop where
  /-- A text is recognised when the expression matches it. -/
  recognised : numeralMachine.isFinal r.state = true ↔ r.text.toList ∈ numeralPattern.matches'
  /-- A text is invalid when it is a zero and a digit, or a numeral that has a fraction, so ends in
  a digit, and one more point. -/
  invalid : numeralMachine.isInvalid r.state = true ↔ IsFaultyText r.text.toList
  /-- Any other text that has been begun lacks a digit behind a point or an underscore. Every digit
  is taken there, and finishes the numeral. -/
  unfinished : r.text.toList ≠ [] → numeralMachine.isFinal r.state = false →
    numeralMachine.isInvalid r.state = false →
      r.text.toList ∉ numeralPattern.matches' ∧
        (r.text.toList.getLast? = some '.' ∨ r.text.toList.getLast? = some '_') ∧
        ∀ d, d.isDigit = true → r.text.toList ++ [d] ∈ numeralPattern.matches' ∧
          ∃ state, numeralMachine.step r.state d = some state ∧ numeralMachine.isFinal state = true
  /-- An invalid text is never gone on with. -/
  refuses : numeralMachine.isInvalid r.state = true →
    ∀ more, numeralMachine.feedAll r more = (r, more.map fun _ => (false, r.state))

/-- A reading that the machine has walked follows the pattern. -/
theorem followsPattern_of_walk {r : Reading NumeralState}
    (walked : numeralMachine.walk .start r.text.toList = some r.state) : r.FollowsPattern := by
  -- the state is the only one behind the text, so what holds of the one behind it holds of this one
  have behind_iff {P : NumeralState → Prop} :
      (∃ last, numeralMachine.walk .start r.text.toList = some last ∧ P last) ↔ P r.state := by
    constructor
    · rintro ⟨last, same, holds⟩
      exact Option.some.inj (walked.symm.trans same) ▸ holds
    · exact fun holds => ⟨r.state, walked, holds⟩
  have recognised :
      numeralMachine.isFinal r.state = true ↔ r.text.toList ∈ numeralPattern.matches' := by
    rw [mem_numeralPattern_iff_walk]
    exact (behind_iff (P := fun state => numeralMachine.isFinal state = true)).symm
  have isInvalid_iff : numeralMachine.isInvalid r.state = true ↔ r.state = .invalid :=
    decide_eq_true_iff
  constructor
  · exact recognised
  · rw [isInvalid_iff, isFaultyText_iff, walked, Option.some.injEq]
  · intro begun unfinished valid
    obtain ⟨last, finished⟩ :=
      (NumeralState.walk_eq_some_iff.mp walked).unfinished begun unfinished valid
    refine ⟨?_, last, fun d digit => ?_⟩
    · rw [← recognised, unfinished]
      exact Bool.false_ne_true
    · have numeral := isNumeralText_iff.mp (finished d digit)
      obtain ⟨state, whole, final⟩ := mem_numeralPattern_iff_walk.mp numeral
      rw [Machine.walk_concat_iff] at whole
      exact ⟨numeral, state, behind_iff.mp whole, final⟩
  · intro invalid
    refine Machine.feedAll_of_stuck fun c => ?_
    rw [isInvalid_iff.mp invalid]
    rfl

/-- What the machine for numerals has taken of the characters that it has been fed. -/
def numeralReading (input : List Char) : Reading NumeralState :=
  (numeralMachine.feedAll numeralMachine.fresh input).1

/-- **The machine recognises exactly the numerals of the expression.** Whatever it is fed, and
however much of that it refuses, its answers are right about what it has taken. It takes one more
character if a numeral begins with the text and that character, or if they are a faulty text, and
otherwise stays as it is. A text is taken in whole and recognised if the expression matches it. -/
theorem feedAll_numeral (input : List Char) :
    (numeralReading input).FollowsPattern ∧
    (∀ c, ∃ taken state,
      (taken = true ↔ IsAdmitted ((numeralReading input).text.toList ++ [c])) ∧
      (taken = false → state = (numeralReading input).state) ∧
      numeralMachine.feedAll numeralMachine.fresh (input ++ [c]) =
        (⟨state, if taken then (numeralReading input).text.push c else (numeralReading input).text⟩,
          (numeralMachine.feedAll numeralMachine.fresh input).2 ++ [(taken, state)])) ∧
    (input ∈ numeralPattern.matches' ↔ (numeralReading input).text.toList = input ∧
      numeralMachine.isFinal (numeralReading input).state = true) := by
  -- Refused characters leave no trace, so the machine has walked what it has taken and nothing
  -- else.
  have walked : numeralMachine.walk .start (numeralReading input).text.toList
      = some (numeralReading input).state := Machine.walk_feedAll input rfl
  have follows := followsPattern_of_walk walked
  refine ⟨follows, fun c => ?_, fun numeral => ?_, fun ⟨whole, final⟩ => ?_⟩
  · simp only [isAdmitted_iff, Machine.walk_concat_iff, walked, Option.some.injEq]
    cases moved : numeralMachine.step (numeralReading input).state c with
    | some state =>
      exact ⟨true, state, ⟨fun _ => ⟨state, _, rfl, moved⟩, fun _ => rfl⟩, nofun,
        Machine.feedAll_concat_of_step moved⟩
    | none =>
      refine ⟨false, (numeralReading input).state, ⟨nofun, ?_⟩, fun _ => rfl,
        Machine.feedAll_concat_of_stuck moved⟩
      -- A character without an edge is not admitted, since the state behind the text is the only
      -- one.
      rintro ⟨_, _, rfl, other⟩
      cases moved.symm.trans other
  · obtain ⟨last, whole, final⟩ := mem_numeralPattern_iff_walk.mp numeral
    obtain ⟨same, _⟩ := Machine.feedAll_of_walk (r := numeralMachine.fresh) whole
    rw [numeralReading, same]
    exact ⟨by simp [Machine.fresh], final⟩
  · exact whole ▸ follows.recognised.mp final

/-- An underscore and a letter are refused, a point is taken, and then a digit is all that is
missing. The numeral that comes of it is taken in whole. -/
theorem feedAll_numeral_refusing :
    numeralReading "1__x0.".toList = ⟨.fractionStart, "1_0."⟩ ∧
    "1_0.".toList ∉ numeralPattern.matches' ∧
    "1_0.5".toList ∈ numeralPattern.matches' ∧
    ¬ IsAdmitted "1_0._".toList ∧
    (numeralReading "1_0.5".toList).text.toList = "1_0.5".toList ∧
    numeralMachine.isFinal (numeralReading "1_0.5".toList).state = true := by
  have begun : numeralReading "1__x0.".toList = ⟨.fractionStart, "1_0."⟩ := rfl
  obtain ⟨follows, next, _⟩ := feedAll_numeral "1__x0.".toList
  obtain ⟨none, _, finished⟩ := follows.unfinished (by rw [begun]; decide) rfl rfl
  have numeral := (finished '5' (by decide)).1
  refine ⟨begun, none, numeral, fun admitted => ?_, (feedAll_numeral "1_0.5".toList).2.2.mp numeral⟩
  obtain ⟨taken, state, taken_iff, _, fed⟩ := next '_'
  rw [taken_iff.mpr admitted] at fed
  cases congrArg (fun answers => answers.2.getLast?) fed

/-- Refused characters leave no trace. -/
example : numeralReading "1__x0.5.7".toList = ⟨.invalid, "1_0.5."⟩ := by
  rfl

end Scriptlet
