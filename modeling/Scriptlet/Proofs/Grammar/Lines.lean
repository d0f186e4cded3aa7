import Mathlib.Data.List.Forall2
import Scriptlet.Proofs.Grammar.Acceptance

/-!
# Programs line by line

Texts that are accepted one by one are accepted with line feeds between them, and what is read is
their programs one behind the other (`parse_lines`). Three arguments meet here, each about one
layer: lines spell their kinds apart (`Spells.line`), statements may be followed by statements
behind a line end, in no more levels than either takes (`Derivation.exists_line`), and what derives
in few levels is accepted (`parse_eq_ok_iff`).
-/

namespace Scriptlet

/-- Programs one behind the other. -/
def Program.concat (programs : List Program) : Program := ⟨programs.flatMap Program.statements⟩

/-- Statements, a line end, and more statements. -/
theorem Derivation.exists_line {ks ls : List TokenKind} {body more : List Stmt} {n : Nat}
    (r : Derivation ks (.statements body)) (s : Derivation ls (.statements more))
    (first : r.levels ≤ n) (second : s.levels ≤ n) :
    ∃ t : Derivation (ks ++ .newLine :: ls) (.statements (body ++ more)), t.levels ≤ n := by
  generalize same : Phrase.statements body = phrase at r
  induction r generalizing body with
  | noStatements =>
    cases same
    exact ⟨s.newLine, second⟩
  | newLine r ih =>
    obtain ⟨t, few⟩ := ih same first
    exact ⟨t.newLine, few⟩
  | lastStatement r =>
    cases same
    exact ⟨.nextStatement r s, Nat.max_le.mpr ⟨first, second⟩⟩
  | nextStatement r rest _ ih =>
    cases same
    obtain ⟨here, later⟩ := Nat.max_le.mp first
    obtain ⟨t, few⟩ := ih rfl later
    rw [List.append_assoc]
    exact ⟨.nextStatement r t, Nat.max_le.mpr ⟨here, few⟩⟩
  | _ => cases same

/-- **Lines are read apart.** -/
theorem parse_lines {lines : List String} {programs : List Program}
    (read : List.Forall₂ (fun line p => parse line = .ok p) lines programs) :
    parse ("\n".intercalate lines) = .ok (.concat programs) := by
  apply parse_eq_ok_iff.mpr
  rw [String.toList_intercalate]
  induction read with
  | nil => exact ⟨[], Source.Spells.nil, .noStatements, Nat.zero_le _⟩
  | @cons line p lines programs here rest ih =>
    obtain ⟨ks, front, r, first⟩ := parse_eq_ok_iff.mp here
    cases rest with
    | nil =>
      have alone : (Program.concat [p]).statements = p.statements := List.append_nil _
      rw [List.map_singleton, List.intercalate_singleton, alone]
      exact ⟨ks, front, r, first⟩
    | cons there rest =>
      obtain ⟨ls, back, s, second⟩ := ih
      rw [List.map_cons, List.map_cons, List.intercalate_cons_cons, List.append_assoc]
      exact ⟨ks ++ .newLine :: ls, front.line back, r.exists_line s first second⟩

end Scriptlet
