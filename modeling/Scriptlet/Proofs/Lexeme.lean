import Scriptlet.Lexeme

/-!
# Runs of machines

`walk` gives the state behind a text, final or not, and a run is the longest walk from where it
starts (`run_eq_iff`). A character that a machine never takes ends every run of it (`run_append`).

`accepts` says which whole texts a machine takes and ends well on, by recursion on the text alone. A
whole text is recognised when it is accepted (`recognize_eq_iff`), and so is what a machine has
taken off a longer one (`recognize_run`).
-/

namespace Scriptlet

namespace Machine

variable {σ : Type}

/-! ## What is taken -/

/-- The state behind a text that is taken in whole. -/
def walk (m : Machine σ) (state : σ) : List Char → Option σ
  | [] => some state
  | c :: rest => (m.step state c).bind fun next => m.walk next rest

/-- A text in two parts is walked over part by part. -/
theorem walk_append (m : Machine σ) (state : σ) (front back : List Char) :
    m.walk state (front ++ back) = (m.walk state front).bind fun next => m.walk next back := by
  induction front generalizing state with
  | nil => rfl
  | cons c front ih =>
    rw [List.cons_append, walk, walk, Option.bind_assoc]
    exact congrArg _ (funext ih)

/-- The last character is walked over from where the others have led. -/
theorem walk_concat_iff {m : Machine σ} {state last : σ} {text : List Char} {c : Char} :
    m.walk state (text ++ [c]) = some last ↔
      ∃ mid, m.walk state text = some mid ∧ m.step mid c = some last := by
  rw [walk_append, Option.bind_eq_some_iff]
  simp only [walk, Option.bind_fun_some]

/-- A state that no edge leads to is not come back to. -/
theorem walk_cons_ne {m : Machine σ} {state first : σ} {c : Char} {text : List Char}
    (never : ∀ state c, m.step state c ≠ some first) : m.walk state (c :: text) ≠ some first := by
  induction text generalizing state c with
  | nil =>
    intro walked
    obtain ⟨next, moved, ⟨⟩⟩ := Option.bind_eq_some_iff.mp walked
    exact never state c moved
  | cons d text ih =>
    intro walked
    obtain ⟨next, _, walked⟩ := Option.bind_eq_some_iff.mp walked
    exact ih walked

/-- A run takes a text as long as it can. -/
theorem run_eq_iff {m : Machine σ} {r last : Reading σ} {input rest : List Char} :
    m.run r input = (last, rest) ↔ ∃ taken, input = taken ++ rest ∧
      last.text = r.text ++ String.ofList taken ∧ m.walk r.state taken = some last.state ∧
      ∀ c ∈ rest.head?, m.step last.state c = none := by
  constructor
  · intro ended
    fun_induction run m r input with
    | case1 r =>
      cases ended
      refine ⟨[], rfl, by simp, rfl, ?_⟩
      rintro c ⟨⟩
    | case2 r c input state moved ih =>
      obtain ⟨taken, rfl, text, walked, refused⟩ := ih ended
      refine ⟨c :: taken, rfl, ?_, ?_, refused⟩
      · rw [text, String.push_eq_append, String.append_assoc, ← String.ofList_cons]
      · rw [walk, moved]
        exact walked
    | case3 r c input stuck =>
      cases ended
      refine ⟨[], rfl, by simp, rfl, fun d first => ?_⟩
      cases first
      exact stuck
  -- What is taken and refused determines the run, so it may be followed character by character.
  · rintro ⟨taken, rfl, text, walked, refused⟩
    induction taken generalizing r with
    | nil =>
      obtain ⟨state, whole⟩ := last
      cases walked
      rw [String.ofList_nil, String.append_empty] at text
      subst text
      cases rest with
      | nil => rfl
      | cons c rest => simp only [List.nil_append, run, refused c rfl]
    | cons c taken ih =>
      obtain ⟨next, moved, walked⟩ := Option.bind_eq_some_iff.mp walked
      simp only [List.cons_append, run, moved]
      refine ih ?_ walked
      rw [text, String.push_eq_append, String.append_assoc, ← String.ofList_cons]

/-- The same for a run from the start. -/
theorem run_fresh_of_walk {m : Machine σ} {state : σ} {taken rest : List Char}
    (walked : m.walk m.start taken = some state)
    (stuck : ∀ c ∈ rest.head?, m.step state c = none) :
    m.run m.fresh (taken ++ rest) = (⟨state, .ofList taken⟩, rest) :=
  run_eq_iff.mpr ⟨taken, rfl, String.empty_append.symm, walked, stuck⟩

/-- What stands behind a character that is never taken does not matter. -/
theorem run_append {m : Machine σ} {c : Char} (stop : ∀ state, m.step state c = none)
    (r : Reading σ) (input more : List Char) :
    m.run r (input ++ c :: more) = ((m.run r input).1, (m.run r input).2 ++ c :: more) := by
  fun_induction run m r input with
  | case1 r => simp only [List.nil_append, run, stop]
  | case2 r d rest state moved ih => simp only [List.cons_append, run, moved, ih]
  | case3 r d rest stuck => simp only [List.cons_append, run, stuck]

/-! ## What is fed -/

/-- Refused characters leave no trace: the state is the one behind what has been taken. -/
theorem walk_feedAll {m : Machine σ} {r : Reading σ} {first : σ} (input : List Char)
    (walked : m.walk first r.text.toList = some r.state) :
    m.walk first (m.feedAll r input).1.text.toList = some (m.feedAll r input).1.state := by
  fun_induction feedAll m r input with
  | case1 => exact walked
  | case2 r c rest state moved last steps fed ih =>
    rw [fed] at ih
    refine ih ?_
    rw [String.toList_push]
    exact walk_concat_iff.mpr ⟨_, walked, moved⟩
  | case3 r c rest stuck last steps fed ih =>
    rw [fed] at ih
    exact ih walked

/-- What is fed later is fed to the reading that is there by then. -/
theorem feedAll_append (m : Machine σ) (r : Reading σ) (front back : List Char) :
    m.feedAll r (front ++ back) = ((m.feedAll (m.feedAll r front).1 back).1,
      (m.feedAll r front).2 ++ (m.feedAll (m.feedAll r front).1 back).2) := by
  induction front generalizing r with
  | nil => rfl
  | cons c front ih =>
    rw [List.cons_append, feedAll, feedAll]
    cases m.step r.state c with
    | none => simp only [ih, List.cons_append]
    | some state => simp only [ih, List.cons_append]

/-- A last character that there is an edge for is taken. -/
theorem feedAll_concat_of_step {m : Machine σ} {r : Reading σ} {input : List Char} {c : Char}
    {state : σ} (moved : m.step (m.feedAll r input).1.state c = some state) :
    m.feedAll r (input ++ [c]) = (⟨state, (m.feedAll r input).1.text.push c⟩,
      (m.feedAll r input).2 ++ [(true, state)]) := by
  simp only [feedAll_append, feedAll, moved]

/-- A last character that there is no edge for is refused. -/
theorem feedAll_concat_of_stuck {m : Machine σ} {r : Reading σ} {input : List Char} {c : Char}
    (stuck : m.step (m.feedAll r input).1.state c = none) :
    m.feedAll r (input ++ [c]) = ((m.feedAll r input).1,
      (m.feedAll r input).2 ++ [(false, (m.feedAll r input).1.state)]) := by
  simp only [feedAll_append, feedAll, stuck]

/-- A text that can be walked is taken in whole. -/
theorem feedAll_of_walk {m : Machine σ} {r : Reading σ} {last : σ} {input : List Char}
    (walked : m.walk r.state input = some last) :
    (m.feedAll r input).1 = ⟨last, r.text ++ .ofList input⟩ ∧
      ∀ answer ∈ (m.feedAll r input).2, answer.1 = true := by
  induction input generalizing r with
  | nil =>
    cases walked
    exact ⟨by rw [String.ofList_nil, String.append_empty]; rfl, nofun⟩
  | cons c rest ih =>
    obtain ⟨next, moved, walked⟩ := Option.bind_eq_some_iff.mp walked
    obtain ⟨whole, taken⟩ := @ih ⟨next, r.text.push c⟩ walked
    simp only [feedAll, moved]
    refine ⟨?_, List.forall_mem_cons.mpr ⟨rfl, taken⟩⟩
    rw [whole, String.push_eq_append, String.append_assoc, ← String.ofList_cons]

/-- A state without edges refuses every character. -/
theorem feedAll_of_stuck {m : Machine σ} {r : Reading σ} (stuck : ∀ c, m.step r.state c = none)
    (input : List Char) : m.feedAll r input = (r, input.map fun _ => (false, r.state)) := by
  induction input with
  | nil => rfl
  | cons c rest ih => simp only [feedAll, stuck, ih, List.map_cons]

/-! ## What is accepted -/

/-- Whether a state takes a whole text and the state behind it is final. -/
def accepts (m : Machine σ) (state : σ) : List Char → Bool
  | [] => m.isFinal state
  | c :: rest =>
    match m.step state c with
    | some next => m.accepts next rest
    | none => false

/-- A text is accepted if its first character leads to where the others are. -/
theorem accepts_cons {m : Machine σ} {state : σ} {c : Char} {rest : List Char} :
    m.accepts state (c :: rest) = true ↔
      ∃ next, m.step state c = some next ∧ m.accepts next rest = true := by
  rw [accepts]
  cases m.step state c <;> simp

/-- A text is accepted if it can be walked over to a final state. -/
theorem accepts_iff_walk {m : Machine σ} {state : σ} {text : List Char} :
    m.accepts state text = true ↔
      ∃ last, m.walk state text = some last ∧ m.isFinal last = true := by
  induction text generalizing state with
  | nil => simp [accepts, walk]
  | cons c rest ih =>
    rw [accepts_cons, walk]
    cases m.step state c with
    | none => simp
    | some next => simpa using ih

/-- A text that is run to its end in a final state is accepted, and the other way round. -/
theorem run_eq_iff_accepts (m : Machine σ) (r : Reading σ) (text : List Char) :
    ((m.run r text).2 = [] ∧ m.isFinal (m.run r text).1.state = true) ↔
      m.accepts r.state text = true := by
  rw [accepts_iff_walk]
  constructor
  · rintro ⟨whole, final⟩
    obtain ⟨taken, split, _, walked, _⟩ := run_eq_iff.mp (Prod.eta (m.run r text)).symm
    rw [whole, List.append_nil] at split
    exact ⟨_, split ▸ walked, final⟩
  · rintro ⟨last, walked, final⟩
    have whole : m.run r text = (⟨last, r.text ++ .ofList text⟩, []) :=
      run_eq_iff.mpr ⟨text, (List.append_nil text).symm, rfl, walked, nofun⟩
    rw [whole]
    exact ⟨rfl, final⟩

/-- A machine recognises a whole text when it accepts it. -/
theorem recognize_eq_iff (m : Machine σ) (text : String) :
    m.recognize text = (true, text) ↔ m.accepts m.start text.toList = true := by
  refine Iff.trans ?_ (run_eq_iff_accepts m m.fresh text.toList)
  have split := m.run_text m.fresh text.toList
  simp only [fresh, String.toList_empty, List.nil_append] at split ⊢
  simp only [recognize, fresh, Prod.mk.injEq, ← String.toList_inj, and_comm]
  refine and_congr_left fun _ => ⟨fun whole => ?_, fun nothing => ?_⟩
  · rw [whole] at split
    exact List.append_cancel_left (split.trans (List.append_nil _).symm)
  · rwa [nothing, List.append_nil] at split

/-- What has been taken up to a final state is accepted. -/
theorem accepts_run (m : Machine σ) (r : Reading σ) (input : List Char)
    (ended : m.isFinal (m.run r input).1.state = true) : ∃ taken,
      (m.run r input).1.text.toList = r.text.toList ++ taken ∧ m.accepts r.state taken = true := by
  obtain ⟨taken, _, text, walked, _⟩ := run_eq_iff.mp (Prod.eta (m.run r input)).symm
  refine ⟨taken, ?_, accepts_iff_walk.mpr ⟨_, walked, ended⟩⟩
  rw [text, String.toList_append, String.toList_ofList]

/-- What a machine has taken, ending well, is a text that it recognises. -/
theorem recognize_run {m : Machine σ} {input : List Char}
    (ended : m.isFinal (m.run m.fresh input).1.state = true) :
    m.recognize (m.run m.fresh input).1.text = (true, (m.run m.fresh input).1.text) := by
  obtain ⟨taken, whole, accepted⟩ := m.accepts_run m.fresh input ended
  apply (m.recognize_eq_iff _).mpr
  rw [whole]
  exact accepted

/-- An accepted text is taken in whole, and nothing more where what follows is refused. -/
theorem run_of_accepts {m : Machine σ} {r : Reading σ} {taken rest : List Char}
    (accepted : m.accepts r.state taken = true)
    (stop : ∀ state, m.isFinal state = true → ∀ c ∈ rest.head?, m.step state c = none) :
    ∃ state, m.isFinal state = true ∧
      m.run r (taken ++ rest) = (⟨state, r.text ++ String.ofList taken⟩, rest) := by
  obtain ⟨last, walked, final⟩ := accepts_iff_walk.mp accepted
  exact ⟨last, final, run_eq_iff.mpr ⟨taken, rfl, rfl, walked, stop last final⟩⟩

end Machine
end Scriptlet
