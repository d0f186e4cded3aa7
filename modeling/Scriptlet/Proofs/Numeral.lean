import Mathlib.Data.List.TakeWhile
import Scriptlet.Numeral
import Scriptlet.Proofs.Lexeme

/-!
# What numerals stand for

The numerals of a source text are the texts that the machine for numerals recognises. Reading one
always succeeds: its digits are taken as one number, with as many of them behind the point as stand
behind it (`ofText?_of_isNumeral`). The notation that is read knows signs, exponents and names as
well, which no numeral has, so the law follows from the shape of numerals (`split_of_accepts`).
-/

namespace Scriptlet

/-- Whether a text is one numeral from end to end. -/
def IsNumeral (text : String) : Prop := numeralMachine.recognize text = (true, text)

instance (text : String) : Decidable (IsNumeral text) :=
  inferInstanceAs (Decidable (numeralMachine.recognize text = (true, text)))

/-- The decimal that digits with a point among them stand for. Other characters carry no meaning. -/
def Decimal.ofNumeral (text : List Char) : Decimal :=
  ⟨ofDigits (text.filter Char.isDigit), -((text.dropWhile (· ≠ '.')).countP Char.isDigit : Int)⟩

/-- The numeral that a text is. -/
def Numeral.ofLexeme (text : String) : Numeral := ⟨text, (Decimal.ofNumeral text.toList).toFloat⟩

/-! ## The shape of numerals -/

/-- Digits, perhaps with underscores among them. -/
def IsDigits (text : List Char) : Prop := ∀ c ∈ text, c ≠ '_' → c.isDigit = true

theorem isDigits_nil : IsDigits [] := fun _ member => absurd member List.not_mem_nil

/-- A digit or an underscore may stand in front of digits. -/
theorem IsDigits.cons {c : Char} {text : List Char} (first : c ≠ '_' → c.isDigit = true)
    (rest : IsDigits text) : IsDigits (c :: text) := by
  intro d member
  rcases List.mem_cons.mp member with rfl | member
  · exact first
  · exact rest d member

/-- Behind the point there are digits only. -/
theorem isDigits_of_accepts {state : NumeralState} {text : List Char}
    (behind : state = .fractionStart ∨ state = .fraction ∨ state = .fractionSeparator)
    (taken : numeralMachine.accepts state text = true) : IsDigits text := by
  induction text generalizing state with
  | nil => exact isDigits_nil
  | cons c rest ih =>
    obtain ⟨next, moved, taken⟩ := Machine.accepts_cons.mp taken
    rcases behind with rfl | rfl | rfl <;> simp only [numeralMachine] at moved
    -- The first of the three states takes a digit only, the second one also a separator, and a
    -- second point leads to the state from which nothing is accepted.
    · split at moved
      · next digit =>
        cases moved
        exact (ih (.inr (.inl rfl)) taken).cons fun _ => digit
      · cases moved
    · split at moved
      · next digit =>
        cases moved
        exact (ih (.inr (.inl rfl)) taken).cons fun _ => digit
      · split at moved
        · next separator =>
          cases moved
          exact (ih (.inr (.inr rfl)) taken).cons fun other => absurd separator other
        · split at moved <;> cases moved
          cases rest <;> cases taken
    · split at moved
      · next digit =>
        cases moved
        exact (ih (.inr (.inl rfl)) taken).cons fun _ => digit
      · cases moved

/-- The end of a numeral: nothing, or a point and digits, the first one directly behind it. -/
def IsFraction (text : List Char) : Prop :=
  text = [] ∨ ∃ c rest, text = '.' :: c :: rest ∧ c.isDigit = true ∧ IsDigits (c :: rest)

/-- What is accepted behind a point is a fraction. -/
theorem isFraction_of_accepts {text : List Char}
    (taken : numeralMachine.accepts .fractionStart text = true) : IsFraction ('.' :: text) := by
  have digits := isDigits_of_accepts (.inl rfl) taken
  cases text with
  | nil => cases taken
  | cons c rest =>
    obtain ⟨next, moved, _⟩ := Machine.accepts_cons.mp taken
    simp only [numeralMachine] at moved
    split at moved
    · next digit => exact .inr ⟨c, rest, rfl, digit, digits⟩
    · cases moved

/-- Before the point there are digits only. -/
theorem split_of_accepts {state : NumeralState} {text : List Char}
    (before : state = .start ∨ state = .zero ∨ state = .integer ∨ state = .integerSeparator)
    (taken : numeralMachine.accepts state text = true) :
    ∃ whole fraction, text = whole ++ fraction ∧ IsDigits whole ∧ IsFraction fraction := by
  induction text generalizing state with
  | nil => exact ⟨[], [], rfl, isDigits_nil, .inl rfl⟩
  | cons c rest ih =>
    obtain ⟨next, moved, taken⟩ := Machine.accepts_cons.mp taken
    -- Before the point a character either belongs to the whole part or is the point, and these two
    -- say what becomes of the rest.
    have longer (later : next = .zero ∨ next = .integer ∨ next = .integerSeparator)
        (first : c ≠ '_' → c.isDigit = true) :
        ∃ whole fraction, c :: rest = whole ++ fraction ∧ IsDigits whole ∧ IsFraction fraction := by
      obtain ⟨whole, fraction, rfl, digits, behind⟩ := ih (.inr later) taken
      exact ⟨c :: whole, fraction, rfl, digits.cons first, behind⟩
    have pointed (point : c = '.') (begun : next = .fractionStart) :
        ∃ whole fraction, c :: rest = whole ++ fraction ∧ IsDigits whole ∧ IsFraction fraction := by
      subst point begun
      exact ⟨[], _, rfl, isDigits_nil, isFraction_of_accepts taken⟩
    rcases before with rfl | rfl | rfl | rfl <;> simp only [numeralMachine] at moved
    · split at moved
      · next zero =>
        cases moved
        exact longer (.inl rfl) fun _ => zero ▸ rfl
      · split at moved
        · next digit =>
          cases moved
          exact longer (.inr (.inl rfl)) fun _ => digit
        · split at moved
          · next point =>
            cases moved
            exact pointed point rfl
          · cases moved
    -- A digit behind a lone zero leads to the state from which nothing is accepted.
    · split at moved
      · next point =>
        cases moved
        exact pointed point rfl
      · split at moved <;> cases moved
        cases rest <;> cases taken
    · split at moved
      · next digit =>
        cases moved
        exact longer (.inr (.inl rfl)) fun _ => digit
      · split at moved
        · next point =>
          cases moved
          exact pointed point rfl
        · split at moved
          · next separator =>
            cases moved
            exact longer (.inr (.inr rfl)) fun other => absurd separator other
          · cases moved
    · split at moved
      · next digit =>
        cases moved
        exact longer (.inr (.inl rfl)) fun _ => digit
      · cases moved

/-- A numeral begins with a digit or with the point. -/
theorem head_of_accepts {text : List Char} (taken : numeralMachine.accepts .start text = true) :
    ∃ c rest, text = c :: rest ∧ (c.isDigit = true ∨ c = '.') := by
  cases text with
  | nil => cases taken
  | cons c rest =>
    obtain ⟨next, moved, _⟩ := Machine.accepts_cons.mp taken
    refine ⟨c, rest, rfl, ?_⟩
    simp only [numeralMachine] at moved
    split at moved
    · next zero => exact .inl (zero ▸ rfl)
    · split at moved
      · next digit => exact .inl digit
      · split at moved
        · next point => exact .inr point
        · cases moved

/-! ## Reading numerals -/

namespace Decimal

/-- Dropping the underscores of digits leaves the digits. -/
theorem filter_of_isDigits {text : List Char} (digits : IsDigits text) :
    text.filter (· ≠ '_') = text.filter Char.isDigit := by
  apply List.filter_congr
  intro c member
  by_cases separator : c = '_'
  · subst separator
    rfl
  · rw [digits c member separator]
    exact decide_eq_true separator

/-- There is no point among digits. -/
theorem dropWhile_of_isDigits {text : List Char} (digits : IsDigits text) (rest : List Char) :
    (text ++ rest).dropWhile (· ≠ '.') = rest.dropWhile (· ≠ '.') := by
  refine List.dropWhile_append_of_pos fun c member => decide_eq_true ?_
  rintro rfl
  exact absurd (digits '.' member (by decide)) (by decide)

/-- Digits alone are taken to their end. -/
theorem readPoint?_digits {whole : List Char} (digits : ∀ c ∈ whole, c.isDigit = true)
    (nonempty : whole ≠ []) : readPoint? whole = some (⟨ofDigits whole, 0⟩, []) := by
  unfold readPoint?
  rw [List.takeWhile_eq_self_iff.mpr digits, List.dropWhile_eq_nil_iff.mpr digits]
  simp [nonempty]

/-- Digits, a point and digits are taken to their end. -/
theorem readPoint?_point {whole fraction : List Char} (digits : ∀ c ∈ whole, c.isDigit = true)
    (behind : ∀ c ∈ fraction, c.isDigit = true) (nonempty : fraction ≠ []) :
    readPoint? (whole ++ '.' :: fraction)
      = some (⟨ofDigits (whole ++ fraction), -(fraction.length : Int)⟩, []) := by
  have point : ¬ Char.isDigit '.' = true := by decide
  unfold readPoint?
  rw [List.takeWhile_append_of_pos digits, List.dropWhile_append_of_pos digits,
    List.takeWhile_cons_of_neg point, List.dropWhile_cons_of_neg point, List.append_nil]
  simp only [List.takeWhile_eq_self_iff.mpr behind, List.dropWhile_eq_nil_iff.mpr behind]
  simp [nonempty]

/-- Digits and an end are read to their own end, when there is a digit at all. -/
theorem readPoint?_numeral {whole fraction : List Char} (digits : IsDigits whole)
    (behind : IsFraction fraction) (digit : whole.filter Char.isDigit ≠ [] ∨ fraction ≠ []) :
    readPoint? ((whole ++ fraction).filter (· ≠ '_'))
      = some (ofNumeral (whole ++ fraction), []) := by
  have all (text : List Char) : ∀ c ∈ text.filter Char.isDigit, c.isDigit = true :=
    fun c member => (List.mem_filter.mp member).2
  rw [ofNumeral, dropWhile_of_isDigits digits, List.filter_append, List.filter_append,
    filter_of_isDigits digits]
  rcases behind with rfl | ⟨c, rest, rfl, first, following⟩
  · rw [List.filter_nil, List.append_nil,
      readPoint?_digits (all whole) (digit.resolve_right (· rfl))]
    simp
  · have some : (c :: rest).filter Char.isDigit ≠ [] := by simp [first]
    have point : ¬ Char.isDigit '.' = true := by decide
    rw [List.filter_cons_of_pos (a := '.') (by decide), filter_of_isDigits following,
      readPoint?_point (all whole) (all _) some, List.filter_cons_of_neg point,
      List.dropWhile_cons_of_neg (by decide), List.countP_cons_of_neg point,
      ← List.countP_eq_length_filter]

/-- A text that begins with a digit or a point has no sign. -/
theorem readSign_of_head {c : Char} (rest : List Char) (head : c.isDigit = true ∨ c = '.') :
    readSign (c :: rest) = (false, c :: rest) := by
  unfold readSign
  split
  · next h =>
    cases h
    exact absurd head (by decide)
  · next h =>
    cases h
    exact absurd head (by decide)
  · rfl

/-- A numeral begins with a character that is in lower case already. -/
theorem toLower_of_head {c : Char} (head : c.isDigit = true ∨ c = '.') : c.toLower = c := by
  rcases head with digit | rfl
  · apply dif_neg
    intro upper
    simp only [Char.isDigit, Bool.and_eq_true, decide_eq_true_eq] at digit
    exact absurd (UInt32.le_trans upper.1 digit.2) (by decide)
  · rfl

/-- A text that begins with a digit or a point is no name. -/
theorem readMagnitude?_of_head {c : Char} (rest : List Char) (head : c.isDigit = true ∨ c = '.') :
    readMagnitude? (c :: rest) = (read? (c :: rest)).map toFloat := by
  have other (name : String) (letters : List Char) (d : Char) (named : name.toList = d :: letters)
      (letter : d ≠ '.' ∧ d.isDigit = false) :
      String.ofList ((c :: rest).map Char.toLower) ≠ name := by
    rintro rfl
    rw [String.toList_ofList, List.map_cons, toLower_of_head head] at named
    cases named
    rcases head with digit | rfl
    · rw [digit] at letter
      exact Bool.noConfusion letter.2
    · exact letter.1 rfl
  unfold readMagnitude?
  simp only [other "inf" ['n', 'f'] 'i' rfl (by decide),
    other "infinity" ['n', 'f', 'i', 'n', 'i', 't', 'y'] 'i' rfl (by decide),
    other "nan" ['a', 'n'] 'n' rfl (by decide), decide_false, Bool.or_self, Bool.false_eq_true,
    if_false]

end Decimal

/-- Reading a numeral gives what it stands for. -/
theorem Numeral.ofText?_of_isNumeral {text : String} (numeral : IsNumeral text) :
    ofText? text = some (ofLexeme text) := by
  have taken := (Machine.recognize_eq_iff _ _).mp numeral
  obtain ⟨c, rest, begins, head⟩ := head_of_accepts taken
  obtain ⟨whole, fraction, split, digits, behind⟩ := split_of_accepts (.inl rfl) taken
  have separator : c ≠ '_' := by
    rintro rfl
    exact absurd head (by decide)
  have digit : whole.filter Char.isDigit ≠ [] ∨ fraction ≠ [] := by
    cases whole with
    | nil => exact .inr fun none => List.cons_ne_nil c rest (begins.symm.trans (split.trans none))
    | cons d whole =>
      obtain ⟨rfl, _⟩ := List.cons.inj (begins.symm.trans split)
      exact .inl (by simp [digits c List.mem_cons_self separator])
  have kept : text.toList.filter (· ≠ '_') = c :: rest.filter (· ≠ '_') := by
    rw [begins]
    exact List.filter_cons_of_pos (decide_eq_true separator)
  have read : Decimal.read? (c :: rest.filter (· ≠ '_')) = some (.ofNumeral text.toList) := by
    unfold Decimal.read?
    rw [← kept, split, Decimal.readPoint?_numeral digits behind digit]
    simp [Decimal.readExponent?]
  unfold ofText? Decimal.readNumber?
  simp only [kept, Decimal.readSign_of_head _ head]
  rw [Decimal.readMagnitude?_of_head _ head, read]
  rfl

end Scriptlet
