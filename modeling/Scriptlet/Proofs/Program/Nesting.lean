import Scriptlet.Proofs.Grammar.Depth

/-!
# Functions within functions

A function stands at a path in a text: the place of a statement, and then the place of the next part
at each node, down to the function. What stands in the body of a function has its path in that body.
So the position of a function in a program is a list of paths, one for itself and one for each
function around it, the innermost first (`Program.function?`). Two functions of one text have two
positions.

A function opens a level for its body, so a path from the root of the tree into the body of a
function leaves one node within for that function and for each one around it. In an accepted program
functions are therefore nested no deeper than `maxNesting` (`length_le_of_parse`).
-/

namespace Scriptlet

/-- A function as it stands in a program. -/
structure Code where
  signature : Signature
  body : List Stmt

namespace Tree

/-- The function that a node is. -/
def code? : Tree → Option Code
  | .expr (.function signature body) | .stmt (.declaration signature body) => some ⟨signature, body⟩
  | _ => none

/-- The function at a path in a tree, where the path leads into no body of a function. -/
def function? : Tree → List Nat → Option Code
  | t, [] => t.code?
  | t, place :: path =>
    if t.code?.isSome then none else t.parts[place]?.bind fun part => part.2.function? path

end Tree

/-- The function at a path in statements, where the path leads into no body of a function. -/
def blockFunction? (body : List Stmt) : List Nat → Option Code
  | [] => none
  | place :: path => body[place]?.bind fun s => (Tree.stmt s).function? path

/-- Where a function stands in a program: its path in the body of the innermost function around it,
the path of that one, and so on up to a path in the program. -/
abbrev Position := List (List Nat)

namespace Position

/-- The positions of the functions around a position, the innermost first. -/
def around : Position → List Position
  | _ :: path :: outer => (path :: outer) :: around (path :: outer)
  | _ => []

end Position

/-- The text that is around the functions right below a position: the program, or the body of the
function at the position. -/
def Program.text? (p : Program) : Position → Option (List Stmt)
  | [] => some p.statements
  | path :: outer => (p.text? outer).bind fun text => (blockFunction? text path).map Code.body

/-- The function at a position. -/
def Program.function? (p : Program) : Position → Option Code
  | [] => none
  | path :: outer => (p.text? outer).bind fun text => blockFunction? text path

/-! ## Levels -/

mutual
/-- Every expression has a leaf. -/
theorem Expr.exists_path : ∀ e : Expr, ∃ path, Tree.Path (.expr e) path
  | .number _ | .variable _ | .call _ [] | .function _ [] => ⟨_, .leaf rfl⟩
  | .assign _ e | .unary _ e | .binary _ e _ | .call _ (e :: _) =>
    e.exists_path.elim fun _ whole => ⟨_, .part List.mem_cons_self whole⟩
  | .function _ (s :: _) => s.exists_path.elim fun _ whole => ⟨_, .part List.mem_cons_self whole⟩

theorem Stmt.exists_path : ∀ s : Stmt, ∃ path, Tree.Path (.stmt s) path
  | .block [] | .declaration _ [] => ⟨_, .leaf rfl⟩
  | .expression e | .result e | .conditional e _ =>
    e.exists_path.elim fun _ whole => ⟨_, .part List.mem_cons_self whole⟩
  | .block (s :: _) | .declaration _ (s :: _) =>
    s.exists_path.elim fun _ whole => ⟨_, .part List.mem_cons_self whole⟩
end

namespace Tree

variable {t u : Tree} {hold : Hold} {n : Nat} {code : Code}

/-- A part is within the depth that its tree is within. -/
theorem Within.part (few : t.Within n) (part : (hold, u) ∈ t.parts) : u.Within n := by
  intro path whole
  refine Nat.le_trans ?_ (few _ (.part part whole))
  split
  · exact List.count_le_count_cons
  · exact Nat.le_refl _

/-- The parts of a function are the statements of its body. -/
theorem parts_of_code? (function : t.code? = some code) :
    t.parts = code.body.map fun s => (.within, .stmt s) := by
  unfold code? at function
  split at function <;> cases function <;> rfl

/-- A function takes one of the levels from its body. -/
theorem within_body (few : t.Within n) (function : t.code? = some code) :
    ∃ m, m + 1 = n ∧ ∀ s ∈ code.body, Within m (.stmt s) := by
  have parts := parts_of_code? function
  have counts : t.counts = true := by
    unfold code? at function
    split at function <;> cases function <;> rfl
  -- a path into the body is one that is left for a part within, and so is that of an empty body
  have taken (path : List Hold) (whole : t.Path (.within :: path)) :
      path.count .within + 1 ≤ n := by
    have few := few _ whole
    rwa [List.count_cons_self] at few
  have entered (s : Stmt) (member : s ∈ code.body) (path : List Hold)
      (whole : Path (.stmt s) path) : t.Path (.within :: path) := by
    have entered := Path.part (parts ▸ List.mem_map_of_mem member) whole
    rwa [counts, if_pos rfl] at entered
  obtain ⟨path, whole⟩ : ∃ path, t.Path (.within :: path) := by
    cases body : code.body with
    | nil =>
      have leaf := Path.leaf (t := t) (by rw [parts, body]; rfl)
      rw [counts, if_pos rfl] at leaf
      exact ⟨[], leaf⟩
    | cons s rest =>
      obtain ⟨path, whole⟩ := s.exists_path
      exact ⟨path, entered s (body ▸ List.mem_cons_self) path whole⟩
  obtain ⟨m, rfl⟩ : ∃ m, n = m + 1 := ⟨n - 1, by have := taken path whole; omega⟩
  refine ⟨m, rfl, fun s member path whole => Nat.le_of_succ_le_succ ?_⟩
  exact taken path (entered s member path whole)

/-- The function at a path takes one of the levels of the tree. -/
theorem within_body_of_function? {path : List Nat} (found : t.function? path = some code)
    (few : t.Within n) : ∃ m, m + 1 = n ∧ ∀ s ∈ code.body, Within m (.stmt s) := by
  induction path generalizing t with
  | nil => exact within_body few found
  | cons place path ih =>
    rw [function?] at found
    split at found
    · cases found
    · obtain ⟨⟨hold, u⟩, part, below⟩ := Option.bind_eq_some_iff.mp found
      exact ih below (few.part (List.mem_of_getElem? part))

end Tree

variable {p : Program} {code : Code} {n : Nat} {text : List Stmt}

/-- The function at a path in statements takes one of their levels. -/
theorem within_body_of_blockFunction? {path : List Nat} (found : blockFunction? text path = some code)
    (few : ∀ s ∈ text, Tree.Within n (.stmt s)) :
    ∃ m, m + 1 = n ∧ ∀ s ∈ code.body, Tree.Within m (.stmt s) := by
  cases path with
  | nil => cases found
  | cons place path =>
    obtain ⟨s, here, below⟩ := Option.bind_eq_some_iff.mp found
    exact Tree.within_body_of_function? below (few s (List.mem_of_getElem? here))

namespace Program

variable {position : Position}

/-- The text below a function is its body. -/
theorem text?_of_function? (found : p.function? position = some code) :
    p.text? position = some code.body := by
  cases position with
  | nil => cases found
  | cons path outer =>
    obtain ⟨text, there, here⟩ := Option.bind_eq_some_iff.mp found
    rw [text?, there, Option.bind_some, here, Option.map_some]

/-- Each path of a position takes a level. -/
theorem within_text (found : p.text? position = some text)
    (few : ∀ s ∈ p.statements, Tree.Within n (.stmt s)) :
    ∃ m, m + position.length = n ∧ ∀ s ∈ text, Tree.Within m (.stmt s) := by
  induction position generalizing text with
  | nil =>
    cases found
    exact ⟨n, rfl, few⟩
  | cons path outer ih =>
    obtain ⟨around, there, body⟩ := Option.bind_eq_some_iff.mp found
    obtain ⟨code, here, rfl⟩ := Option.map_eq_some_iff.mp body
    obtain ⟨k, levels, fewer⟩ := ih there
    obtain ⟨m, rfl, fewest⟩ := within_body_of_blockFunction? here fewer
    exact ⟨m, by rw [List.length_cons]; omega, fewest⟩

/-- **Functions nest no deeper than `maxNesting`** in what is accepted. -/
theorem length_le_of_parse {source : String} (found : p.function? position = some code)
    (read : parse source = .ok p) : position.length ≤ maxNesting := by
  obtain ⟨m, levels, _⟩ := within_text (text?_of_function? found) fun s member path whole =>
    count_within_le_of_parse read ⟨s, member, whole⟩
  omega

end Program

end Scriptlet
