import Scriptlet.Proofs.Evaluation.Renaming
import Scriptlet.Proofs.Session

/-!
# Names that do not interfere

A run reaches a scope by the links outward and by the scopes that functions capture (`Reaches`). A
name that neither the program nor the functions in reach mention might as well not be there: the
program does the same whether or not the root binds it, and leaves it as it was in every scope
(`Session.run_unmentioned`).

The two runs are the same program in the same names, of which that one is none (`Renaming.without`).
The scopes that are seen are those in reach and those that are yet to come. In all others the name is
kept together with everything else.
-/

namespace Scriptlet

/-! ## Reach -/

/-- The scopes that can be reached from a scope: it lies within them, or functions bound in reach
capture them. -/
inductive Heap.Reaches (h : Heap) (r : ScopeId) : ScopeId → Prop
  | root : Reaches h r r
  | outer {s o : ScopeId} : Reaches h r s → h.outer? s = some o → Reaches h r o
  | captured {s : ScopeId} {name : String} {closure : Closure} : Reaches h r s →
      (h.bindings s).find? name = some (.function closure) → Reaches h r closure.scope

/-- Whether a function neither has a name for a parameter nor mentions it in its body. -/
def Closure.Avoids (z : String) (closure : Closure) : Prop :=
  z ∉ closure.signature.parameters ∧ blockAvoids z closure.body

/-! ## One name left out -/

/-- All names but one stand for themselves, and functions without that parameter are themselves. -/
def Renaming.without (z : String) : Renaming Unit where
  stands _ n m := n = m ∧ n ≠ z
  opens _ f g _ := f = g ∧ z ∉ f.parameters
  exact := by
    rintro _ n _ k _ ⟨rfl, _⟩ ⟨rfl, _⟩
    exact Iff.rfl
  parameters := by
    rintro _ f _ _ ⟨rfl, other⟩
    exact List.forall₂_same.mpr fun n member => ⟨rfl, fun same => other (same ▸ member)⟩
  around _ names := .inl names

namespace Renaming

variable {z : String} {u w : Views Unit} {h k : Heap} {r : ScopeId}

/-- All names stand for themselves only. -/
theorem plain_without (z : String) : (without z).Plain where
  views _ _ := rfl
  names same := same.1
  functions same := same.1

/-- Whatever does not mention the name is fixed. -/
theorem fixes_without (z : String) : (without z).Fixes () z where
  names _ other := ⟨rfl, other⟩
  functions _ other := ⟨rfl, other⟩

/-- Values that are the same are equal. -/
theorem SameValue.eq {x y : Value} (same : (without z).SameValue w x y) : y = x := by
  cases same with
  | @function f g closures =>
    obtain ⟨identity, scope, a, b, _, opened, body⟩ := closures
    obtain ⟨_, signature, _, _⟩ := f
    obtain ⟨_, _, _, _⟩ := g
    cases identity
    cases scope
    cases (plain_without z).functions opened
    cases body.eq (plain_without z)
    rfl
  | number | boolean | nothing => rfl

/-- Heaps that are the same but for one name bind all others the same, in every scope. -/
theorem SameHeap.find?_eq {first second : Heap} (same : (without z).SameHeap first second w h k)
    {s : ScopeId} {n : String} (other : n ≠ z)
    (start : (second.bindings s).find? n = (first.bindings s).find? n) :
    (k.bindings s).find? n = (h.bindings s).find? n := by
  cases seen : w s with
  | none =>
    have unnamed : ¬ ∃ a m, w s = some a ∧ (without z).stands a n m := by
      rintro ⟨a, m, there, _⟩
      cases seen.symm.trans there
    have unnamed' : ¬ ∃ a m, w s = some a ∧ (without z).stands a m n := by
      rintro ⟨a, m, there, _⟩
      cases seen.symm.trans there
    rw [same.left s n unnamed, same.right s n unnamed', start]
  | some a =>
    have values := same.bound s a seen n n ⟨rfl, other⟩
    generalize (h.bindings s).find? n = old, (k.bindings s).find? n = new at values
    cases values with
    | none => rfl
    | some value => exact congrArg some value.eq

/-- The name left out is bound in every scope as it was at the start. -/
theorem SameHeap.find?_left {first second : Heap} (same : (without z).SameHeap first second w h k)
    (s : ScopeId) : (h.bindings s).find? z = (first.bindings s).find? z ∧
      (k.bindings s).find? z = (second.bindings s).find? z := by
  refine ⟨same.left s z ?_, same.right s z ?_⟩
  · rintro ⟨_, _, _, _, other⟩
    exact other rfl
  · rintro ⟨_, _, _, rfl, other⟩
    exact other rfl

/-! ## The two runs -/

/-- A value bound in reach is the same as itself. -/
theorem sameValue_of_reaches (seen : ∀ s, h.Reaches r s → w s = some ())
    (avoids : ∀ s name closure, h.Reaches r s →
      (h.bindings s).find? name = some (.function closure) → closure.Avoids z)
    {s : ScopeId} (reached : h.Reaches r s) {name : String} {value : Value}
    (found : (h.bindings s).find? name = some value) : (without z).SameValue w value value := by
  cases value with
  | number x => exact .number x
  | boolean b => exact .boolean b
  | nothing => exact .nothing
  | function closure =>
    obtain ⟨parameters, body⟩ := avoids s name closure reached found
    exact .function ⟨rfl, rfl, (), (), seen _ (reached.captured found), ⟨rfl, parameters⟩,
      (fixes_without z).block _ body⟩

/-- With one name bound besides, a heap is the same but for that name. -/
theorem sameHeap_define
    (seen : ∀ s, w s = some () ↔ h.Reaches r s ∨ h.scopes.size ≤ s)
    (avoids : ∀ s name closure, h.Reaches r s →
      (h.bindings s).find? name = some (.function closure) → closure.Avoids z) (value : Value) :
    (without z).SameHeap h (h.define r z value) w h (h.define r z value) where
  size_eq := Heap.size_define ..
  functions_eq := rfl
  outer?_eq _ := Heap.outer?_define ..
  bound := by
    rintro s _ there n _ ⟨rfl, other⟩
    rw [Heap.find?_define_of_ne other]
    cases found : (h.bindings s).find? n with
    | none => exact .none
    | some x =>
      rcases (seen s).mp there with reached | outside
      · exact .some (sameValue_of_reaches (fun s reached => (seen s).mpr (.inl reached)) avoids
          reached found)
      · cases (Heap.find?_of_size_le outside).symm.trans found
  outward := by
    rintro s _ n _ there names _ o link
    refine ⟨(), (seen o).mpr (.inl ?_), names⟩
    rcases (seen s).mp there with reached | outside
    · exact reached.outer link
    · rw [Heap.outer?, Array.getElem?_eq_none outside] at link
      cases link
  outermost _ _ _ _ _ names _ _ := names.1
  ahead _ _ _ _ := plain_without z
  left _ _ _ := rfl
  right _ _ _ := rfl

end Renaming

/-- A session in which the root binds one name more. -/
def Session.also (s : Session) (name : String) (value : Value) : Session :=
  { s with heap := s.heap.define s.root name value }

/-- Two runs that end the same have one outcome, and heaps that are the same but for the name. -/
theorem Session.run_also_of_sameEnd (s : Session) {p : Program} {z : String} {value : Value}
    {u : Views Unit} (ends : (Renaming.without z).SameEnd s.heap (s.heap.define s.root z value) u
      ((Renaming.without z).SameValue u) (p.eval s.limit s.root s.heap)
      (p.eval s.limit s.root (s.heap.define s.root z value))) :
    ((s.also z value).run p).1 = (s.run p).1 ∧
      (Renaming.without z).SameHeap s.heap (s.heap.define s.root z value) u
        (s.run p).2.heap ((s.also z value).run p).2.heap := by
  rw [run_eq, run_eq, also]
  generalize p.eval s.limit s.root s.heap = one,
    p.eval s.limit s.root (s.heap.define s.root z value) = two at ends
  cases ends with
  | ok heaps values => exact ⟨congrArg Except.ok values.eq, heaps⟩
  | error heaps errors =>
    refine ⟨congrArg Except.error ?_, heaps⟩
    cases errors with
    | same e => rfl
    | notCallable names | arity _ _ names => rw [names.1]

/-- **Names that are not mentioned do not interfere.** A program that mentions a name as little as
all functions in reach do has the same outcome when the root binds the name, to whatever value, and
leaves all other names bound the same in the same scopes. With and without, every scope keeps what it
has for the name. -/
theorem Session.run_unmentioned (s : Session) (p : Program) (z : String) (value : Value)
    (inside : s.root < s.heap.scopes.size) (unmentioned : ∀ t, p.Contains t → z ∉ t.names)
    (avoids : ∀ scope name closure, s.heap.Reaches s.root scope →
      (s.heap.bindings scope).find? name = some (.function closure) → closure.Avoids z) :
    ((s.also z value).run p).1 = (s.run p).1 ∧
    ((s.also z value).run p).2.heap.scopes.size = (s.run p).2.heap.scopes.size ∧
    (∀ scope, ((s.also z value).run p).2.heap.outer? scope = (s.run p).2.heap.outer? scope) ∧
    (∀ scope name, name ≠ z → (((s.also z value).run p).2.heap.bindings scope).find? name
      = ((s.run p).2.heap.bindings scope).find? name) ∧
    (∀ scope, ((s.run p).2.heap.bindings scope).find? z = (s.heap.bindings scope).find? z) ∧
    (∀ scope, (((s.also z value).run p).2.heap.bindings scope).find? z
      = ((s.also z value).heap.bindings scope).find? z) ∧
    (((s.also z value).run p).2.heap.bindings s.root).find? z = some value := by
  classical
  -- Scopes in reach are seen, and so are those that will be made. In the others nothing is
  -- compared.
  obtain ⟨w, seen⟩ : ∃ w : Views Unit, ∀ scope,
      w scope = some () ↔ s.heap.Reaches s.root scope ∨ s.heap.scopes.size ≤ scope := by
    refine ⟨fun scope => if s.heap.Reaches s.root scope ∨ s.heap.scopes.size ≤ scope then some ()
      else none, fun scope => ?_⟩
    by_cases there : s.heap.Reaches s.root scope ∨ s.heap.scopes.size ≤ scope
    · exact iff_of_true (if_pos there) there
    · exact iff_of_false (fun seen => nomatch (if_neg there).symm.trans seen) there
  -- A program that does not mention the name is the same as itself without it.
  have body : (Renaming.without z).SameBlock () p.statements p.statements :=
    (Renaming.fixes_without z).block _ fun t member u inside =>
      unmentioned u ⟨t, member, inside⟩
  obtain ⟨u, _, ends⟩ := body.run_alike s.limit ((seen s.root).mpr (.inl .root)) w (.refl w) _ _
    (Renaming.sameHeap_define seen avoids value)
  obtain ⟨outcome, same⟩ := s.run_also_of_sameEnd ends
  refine ⟨outcome, same.size_eq, same.outer?_eq, fun scope name other => ?_, ?_, ?_, ?_⟩
  · exact same.find?_eq other (Heap.find?_define_of_ne other)
  · exact fun scope => (same.find?_left scope).1
  · exact fun scope => (same.find?_left scope).2
  · rw [(same.find?_left s.root).2, Heap.bindings_define_self inside, Bindings.find?_set,
      if_pos rfl]

/-! ## A name beside a function -/

/-- A function that assigns its argument to a name outside. -/
def keeper : Closure := ⟨0, ⟨some "keep", ["v"]⟩, [.expression (.assign "kept" (.variable "v"))], 0⟩

/-- A session in which the root binds the function. -/
def keeperSession : Session :=
  ⟨(Heap.empty.newScope none (Bindings.empty.set "keep" (.function keeper))).2, 0, 3⟩

/-- A call of the function. -/
def keepTwo : Program := ⟨[.expression (.call "keep" [.number (.ofLexeme "2")])]⟩

/-- The keeper is the only function that is bound in its session. -/
theorem eq_keeper {scope : ScopeId} {name : String} {closure : Closure}
    (found : (keeperSession.heap.bindings scope).find? name = some (.function closure)) :
    closure = keeper := by
  rw [keeperSession, Heap.bindings_newScope] at found
  split at found
  · rw [Bindings.find?_set] at found
    split at found <;> cases found
    rfl
  · cases found

theorem avoids_keeper : keeper.Avoids "unused" := by
  refine ⟨by decide, List.forall_mem_cons.mpr ⟨?_, nofun⟩⟩
  refine .of_only rfl (by decide) (.of_only rfl (by decide) ?_)
  exact .of_leaf rfl (by decide)

theorem avoids_keepTwo : blockAvoids "unused" keepTwo.statements := by
  refine List.forall_mem_cons.mpr ⟨?_, nofun⟩
  refine .of_only rfl (by decide) (.of_only rfl (by decide) ?_)
  exact .of_leaf rfl (by decide)

/-- The function is called and assigns outside, with a name besides that nothing mentions. -/
theorem run_unmentioned_keepTwo :
    keeperSession.root < keeperSession.heap.scopes.size ∧
      (∀ t, keepTwo.Contains t → "unused" ∉ t.names) ∧
      (∀ scope name closure, keeperSession.heap.Reaches keeperSession.root scope →
        (keeperSession.heap.bindings scope).find? name = some (.function closure) →
          closure.Avoids "unused") ∧
      ((keeperSession.also "unused" (.boolean true)).run keepTwo).1 = (keeperSession.run keepTwo).1 ∧
      (((keeperSession.also "unused" (.boolean true)).run keepTwo).2.heap.bindings 0).find? "unused"
        = some (.boolean true) := by
  have inside : keeperSession.root < keeperSession.heap.scopes.size := by decide
  have unmentioned : ∀ t, keepTwo.Contains t → "unused" ∉ t.names :=
    fun t ⟨s, member, contains⟩ => avoids_keepTwo s member t contains
  have avoids : ∀ scope name closure, keeperSession.heap.Reaches keeperSession.root scope →
      (keeperSession.heap.bindings scope).find? name = some (.function closure) →
        closure.Avoids "unused" := fun _ _ _ _ found => eq_keeper found ▸ avoids_keeper
  obtain ⟨outcome, _, _, _, _, _, bound⟩ :=
    keeperSession.run_unmentioned keepTwo "unused" (.boolean true) inside unmentioned avoids
  exact ⟨inside, unmentioned, avoids, outcome, bound⟩

end Scriptlet
