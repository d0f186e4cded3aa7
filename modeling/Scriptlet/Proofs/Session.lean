import Scriptlet.Proofs.Evaluation
import Scriptlet.Proofs.Grammar.Lines
import Scriptlet.Session

/-!
# Sessions and single programs

A session that runs programs one after the other up to the first failure (`runAll`) and a run of all
of them as one program do the same: the same value or the same error, and the same heap behind it. A
return outside of every function ends either at the statement it stands in, so it is no exception.
-/

namespace Scriptlet

namespace Session

/-- Runs programs one after the other, up to the first that fails. The value is that of the last
program that has a statement, and `last` where none has. -/
def runAll (s : Session) (last : Value) : List Program → Except RuntimeError Value × Session
  | [] => (.ok last, s)
  | p :: rest =>
    match s.run p with
    | (.ok value, left) => left.runAll (if p.statements.isEmpty then last else value) rest
    | (.error e, left) => (.error e, left)

/-- What a session makes of an outcome. -/
def after (s : Session) :
    EStateM.Result RuntimeError Heap Value → Except RuntimeError Value × Session
  | .ok value heap => (.ok value, { s with heap })
  | .error e heap => (.error e, { s with heap })

/-- A run is an evaluation in the root, and what the session keeps of it. -/
theorem run_eq (s : Session) (p : Program) : s.run p = s.after (p.eval s.limit s.root s.heap) := by
  unfold run after
  cases p.eval s.limit s.root s.heap <;> rfl

/-- A program without statements changes nothing. -/
theorem run_nothing (s : Session) {p : Program} (empty : p.statements = []) :
    s.run p = (.ok .nothing, s) := by
  rw [run_eq, Program.eval_eq, empty, evalBlock_nil]
  rfl

/-- Statements of programs one behind the other do what a session does. -/
theorem after_evalBlock (s : Session) (last : Value) (programs : List Program) :
    s.after ((evalBlock (callsWithin s.limit s.limit) s.root last
        (programs.flatMap Program.statements) >>= Flow.outermost) s.heap)
      = s.runAll last programs := by
  induction programs generalizing s last with
  | nil =>
    rw [List.flatMap_nil, evalBlock_nil]
    rfl
  | cons p rest ih =>
    rw [List.flatMap_cons, runAll]
    by_cases empty : p.statements = []
    · rw [s.run_nothing empty, empty, List.nil_append]
      exact ih s last
    -- The value so far matters to a program without statements only, so with statements it may be
    -- any.
    · have some : p.statements.isEmpty = false := List.isEmpty_eq_false_iff.mpr empty
      rw [evalBlock_append, bind_assoc, evalBlock_last _ _ empty last .nothing, run_eq,
        Program.eval_eq, Eval.bind_apply, Eval.bind_apply, some]
      cases evalBlock (callsWithin s.limit s.limit) s.root .nothing p.statements s.heap with
      | ok flow heap =>
        cases flow with
        | normal value => exact ih { s with heap } value
        | returned value => rfl
      | error e heap => rfl

/-- **A session and a single program agree.** Lines that are accepted one by one are accepted as one
text, and running that does what running the lines one after the other does, up to the first
failure. -/
theorem run_concat_eq_runAll (lines : List String) (programs : List Program)
    (read : List.Forall₂ (fun line p => parse line = .ok p) lines programs) :
    parse ("\n".intercalate lines) = .ok (.concat programs) ∧
      ∀ s : Session, s.run (.concat programs) = s.runAll .nothing programs := by
  refine ⟨parse_lines read, fun s => ?_⟩
  rw [run_eq, Program.eval_eq]
  exact s.after_evalBlock .nothing programs

/-- A name, nothing, and a return that no function is around. -/
theorem run_concat_of_three_lines :
    List.Forall₂ (fun line p => parse line = .ok p) ["x", "", "return x"]
      [⟨[.expression (.variable "x")]⟩, ⟨[]⟩, ⟨[.result (.variable "x")]⟩] ∧
    parse ("\n".intercalate ["x", "", "return x"])
      = .ok ⟨[.expression (.variable "x"), .result (.variable "x")]⟩ ∧
    ∀ s : Session, s.run ⟨[.expression (.variable "x"), .result (.variable "x")]⟩
      = s.runAll .nothing
        [⟨[.expression (.variable "x")]⟩, ⟨[]⟩, ⟨[.result (.variable "x")]⟩] := by
  have name : Source.Spells ['x'] [.identifier "x"] :=
    Source.Spells.nil.cons nofun fun l => ⟨l, l.advance 'x', rfl⟩
  have spaced : Source.Spells [' ', 'x'] [.identifier "x"] :=
    Source.Spells.nil.cons nofun fun l => ⟨l.advance ' ', (l.advance ' ').advance 'x', rfl⟩
  have result : Source.Spells "return x".toList [.returnWord, .identifier "x"] :=
    spaced.cons nofun fun l => ⟨l, l.after "return".toList, rfl⟩
  obtain ⟨x, few⟩ : ∃ r : Derivation [.identifier "x"] (.expression (.variable "x")),
      r.levels ≤ maxNesting :=
    ⟨.comparison (.single nofun (.single nofun (.single nofun
      (.unsigned (.base (.name "x")))))), by decide⟩
  have read : List.Forall₂ (fun line p => parse line = .ok p) ["x", "", "return x"]
      [⟨[.expression (.variable "x")]⟩, ⟨[]⟩, ⟨[.result (.variable "x")]⟩] :=
    .cons (parse_eq_ok_iff.mpr ⟨_, name, .lastStatement (.bare x), few⟩)
      (.cons (parse_eq_ok_iff.mpr ⟨_, Source.Spells.nil, .noStatements, by decide⟩)
        (.cons (parse_eq_ok_iff.mpr ⟨_, result, .lastStatement (.result x), few⟩) .nil))
  exact ⟨read, run_concat_eq_runAll _ _ read⟩

end Session
end Scriptlet
