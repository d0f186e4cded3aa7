import Scriptlet.Proofs.Evaluation.Linkage
import Scriptlet.Proofs.Session

/-!
# Blocks and their statements

Braces have no scope of their own and pass a return on, so statements do the same with and without
braces around some of them (`evalBlock_unbrace`). Only braces around nothing, in the last place, do
something: they make the value of what stands in front of them nothing.

Braces may be taken away anywhere in a program, function bodies included (`Program.Flattens`). The two
programs make the same scopes and the same functions at the same points, so in a session in which
nothing is bound their scopes go together by number.
-/

namespace Scriptlet

/-- Statements with braces around some of them, and the same statements without. Braces around
nothing stay where they are last. -/
inductive Unbraces : List Stmt → List Stmt → Prop
  | intro (front : List Stmt) {body back : List Stmt} : body ≠ [] ∨ back ≠ [] →
      Unbraces (front ++ .block body :: back) (front ++ body ++ back)

/-- A program, and what is left of it when braces are taken away in some places. -/
def Program.Flattens (p q : Program) : Prop := RewritesBlock Unbraces p.statements q.statements

/-- Braces do nothing, unless they are around nothing and in the last place. -/
theorem evalBlock_unbrace (calls : Calls) (scope : ScopeId) (last : Value) (front : List Stmt)
    {body back : List Stmt} (some : body ≠ [] ∨ back ≠ []) :
    evalBlock calls scope last (front ++ .block body :: back)
      = evalBlock calls scope last (front ++ body ++ back) := by
  rw [List.append_assoc, evalBlock_append, evalBlock_append]
  refine congrArg (evalBlock calls scope last front >>= Flow.andThen ·) (funext fun value => ?_)
  rw [evalBlock_cons, evalStmt, evalBlock_append]
  by_cases empty : body = []
  · rw [empty, evalBlock_nil, evalBlock_nil, pure_bind, pure_bind]
    exact evalBlock_last calls scope (some.resolve_left (absurd empty)) .nothing value
  · rw [evalBlock_last calls scope empty .nothing value]

/-- Braces around nothing, in the last place. -/
example : evalBlock (callsWithin 0 0) 0 (.boolean true) [.block []] = pure (.normal .nothing) := rfl

/-- Taking away braces is sound, as a block has no scope of its own. -/
theorem sound_unbraces : Sound Unbraces := by
  rintro _ _ ⟨front, some⟩ calls scope last
  exact evalBlock_unbrace calls scope last front some

/-! ## Values and outcomes -/

/-- Values that are the same but for braces in the bodies of functions. -/
inductive Value.Flattens : Value → Value → Prop
  | number (x : Float) : Flattens (.number x) (.number x)
  | boolean (b : Bool) : Flattens (.boolean b) (.boolean b)
  | nothing : Flattens .nothing .nothing
  | function {f g : Closure} : g.identity = f.identity → g.signature = f.signature →
      g.scope = f.scope → RewritesBlock Unbraces f.body g.body →
        Flattens (.function f) (.function g)

/-- Outcomes that are the same but for braces in the bodies of functions. -/
inductive OutcomesFlatten : Except RuntimeError Value → Except RuntimeError Value → Prop
  | ok {x y : Value} : x.Flattens y → OutcomesFlatten (.ok x) (.ok y)
  | error (e : RuntimeError) : OutcomesFlatten (.error e) (.error e)

/-- Heaps with the same scopes, in which the same names are bound to values that are the same but for
braces. -/
structure Heap.Flattens (h k : Heap) : Prop where
  size_eq : k.scopes.size = h.scopes.size
  outer?_eq : ∀ s, k.outer? s = h.outer? s
  bound : ∀ s name, Option.Rel Value.Flattens ((h.bindings s).find? name) ((k.bindings s).find? name)

namespace Linkage

/-- The heap of a session in which nothing is bound, and the same heap. -/
def fresh (limit : Nat) : Linkage :=
  shared (Session.start limit).heap (Session.start limit).heap Unbraces (fun _ => True)
    (fun _ => True) fun _ _ => .inr rfl

variable {limit : Nat} {h k : Heap} {s t : ScopeId} {x y : Value}

/-- Two sessions begin with heaps that are the same. -/
theorem fresh_sameHeap : (fresh limit).SameHeap (Session.start limit).heap
    (Session.start limit).heap :=
  shared_sameHeap (fun _ _ => rfl) (fun _ _ _ _ => trivial) fun _ _ _ _ _ => ⟨trivial, trivial⟩

/-- In these heaps scopes go together if they have the same number. -/
theorem linksScope_fresh_iff : (fresh limit).LinksScope h s t ↔ s = t :=
  ⟨fun linked => linked.elim And.left fun step => Nat.add_right_cancel step.2.2,
    fun same => .inl ⟨same, trivial⟩⟩

/-- Values that are the same flatten. -/
theorem SameValue.flattens (same : (fresh limit).SameValue h x y) : x.Flattens y := by
  cases same with
  | number x => exact .number x
  | boolean b => exact .boolean b
  | nothing => exact .nothing
  | @function f g closures =>
    have identity : f.identity = g.identity :=
      closures.identity.elim And.left fun step => Nat.add_right_cancel step.2.2
    exact .function identity.symm closures.signature (linksScope_fresh_iff.mp closures.scope).symm
      closures.body

theorem SameHeap.flattens (same : (fresh limit).SameHeap h k) : h.Flattens k where
  size_eq := (Nat.add_right_cancel same.size_eq).symm
  outer?_eq s := by
    have links := same.outward s s (linksScope_fresh_iff.mpr rfl)
    generalize h.outer? s = old, k.outer? s = new at links
    cases links with
    | none => rfl
    | some link => rw [linksScope_fresh_iff.mp link]
  bound s name := (same.bound s s (linksScope_fresh_iff.mpr rfl) name).imp
    fun _ _ => SameValue.flattens

end Linkage

/-- **A block is the same as its statements.** Statements with braces around some of them do what they
do without the braces, whatever calls do: they end the same with the same heap, unless the braces are
around nothing and last. So a program from which braces are taken away in any places has, run where
nothing is bound, the same value but for braces in function bodies, or the same error, and leaves the
same names bound to values that are the same but for that. -/
theorem flatten_blocks :
    (∀ calls scope last front body back, body ≠ [] ∨ back ≠ [] →
      evalBlock calls scope last (front ++ .block body :: back)
        = evalBlock calls scope last (front ++ body ++ back)) ∧
    ∀ p q : Program, p.Flattens q → ∀ limit,
      OutcomesFlatten ((Session.start limit).run p).1 ((Session.start limit).run q).1 ∧
      ((Session.start limit).run p).2.heap.Flattens ((Session.start limit).run q).2.heap := by
  refine ⟨fun calls scope last front _ _ => evalBlock_unbrace calls scope last front,
    fun p q flattens limit => ?_⟩
  have root : (Linkage.fresh limit).LinksScope (Session.start limit).heap
      (Session.start limit).root (Session.start limit).root := Linkage.linksScope_fresh_iff.mpr rfl
  have ends := RewritesBlock.program_inParallel (L := .fresh limit) flattens sound_unbraces
    (Session.start limit).limit root _ _ (.refl _) Linkage.fresh_sameHeap
  rw [Session.run_eq, Session.run_eq]
  generalize p.eval _ _ _ = one, q.eval _ _ _ = two at ends
  cases ends with
  | ok _ heaps values => exact ⟨.ok values.flattens, heaps.flattens⟩
  | error _ heaps => exact ⟨.error _, heaps.flattens⟩

/-! ## Braces taken away -/

/-- A function in whose body there are braces around everything, and around nothing. -/
def bracedBody : List Stmt := [.block [.block [], .result (.variable "x")]]

/-- Declares the function in braces, and calls it with itself. -/
def bracedProgram : Program :=
  ⟨[.block [.declaration ⟨some "f", ["x"]⟩ bracedBody], .expression (.call "f" [.variable "f"])]⟩

/-- The same program without braces. -/
def bareProgram : Program :=
  ⟨[.declaration ⟨some "f", ["x"]⟩ [.result (.variable "x")],
    .expression (.call "f" [.variable "f"])]⟩

/-- The first program flattens to the second. -/
theorem flattens_bracedProgram : bracedProgram.Flattens bareProgram := by
  have inner : RewritesBlock Unbraces [.block [], .result (.variable "x")]
      [.result (.variable "x")] :=
    .step (.refl _) (.intro [] (.inr (List.cons_ne_nil _ _)))
  have body : RewritesBlock Unbraces bracedBody [.result (.variable "x")] :=
    .step (.cons (.block inner) .nil) (.intro [] (.inl (List.cons_ne_nil _ _)))
  exact .step (.cons (.block (.cons (.declaration _ body) .nil)) (.refl _))
    (.intro [] (.inl (List.cons_ne_nil _ _)))

/-- The function that is called comes back, with braces and without. -/
theorem flatten_blocks_braced :
    evalBlock (callsWithin 1 1) 0 .nothing bracedProgram.statements
      = evalBlock (callsWithin 1 1) 0 .nothing
        [.declaration ⟨some "f", ["x"]⟩ bracedBody, .expression (.call "f" [.variable "f"])] ∧
    bracedProgram.Flattens bareProgram ∧
    ((Session.start 1).run bracedProgram).1 = .ok (.function ⟨0, ⟨some "f", ["x"]⟩, bracedBody, 0⟩) ∧
    ∃ g, ((Session.start 1).run bareProgram).1 = .ok (.function g) ∧
      RewritesBlock Unbraces bracedBody g.body := by
  obtain ⟨inPlace, throughout⟩ := flatten_blocks
  have ran : ((Session.start 1).run bracedProgram).1
      = .ok (.function ⟨0, ⟨some "f", ["x"]⟩, bracedBody, 0⟩) := by
    with_unfolding_all rfl
  refine ⟨inPlace (callsWithin 1 1) 0 .nothing [] _ _ (.inl (List.cons_ne_nil _ _)),
    flattens_bracedProgram, ran, ?_⟩
  have outcomes := (throughout bracedProgram bareProgram flattens_bracedProgram 1).1
  rw [ran] at outcomes
  generalize ((Session.start 1).run bareProgram).1 = outcome at outcomes
  cases outcomes with
  | ok values =>
    cases values with
    | function _ _ _ body => exact ⟨_, rfl, body⟩

end Scriptlet
