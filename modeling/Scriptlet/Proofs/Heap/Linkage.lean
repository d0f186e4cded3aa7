import Mathlib.Data.List.Forall2
import Scriptlet.Proofs.Heap
import Scriptlet.Proofs.Program.Rewriting

/-!
# Heaps of two runs

Two runs of the same program, or of one and what it has been rewritten to, need not begin with the
same heap. A `Linkage` says what they begin with, and which scopes and functions of the two heaps go
together there. From then on scopes and functions are made in step, so those that are made at the same
point go together too (`LinksScope`, `LinksFunction`). As both heaps grow, what goes together stays
together.

The heaps are the same when scopes that go together bind the same names to the same values and lie
within scopes that go together (`SameHeap`). They are the same behind each operation on both of them,
if they were before. No run changes a scope that it began with and that goes with none.
-/

namespace Scriptlet

/-- Whether one heap has as many scopes as another one, and as many functions have been made. -/
structure Heap.Grows (h k : Heap) : Prop where
  scopes : h.scopes.size ≤ k.scopes.size
  functions : h.functions ≤ k.functions

namespace Heap.Grows

variable {h k l : Heap}

/-- Every heap is as large as itself. -/
theorem refl (h : Heap) : h.Grows h := ⟨Nat.le_refl _, Nat.le_refl _⟩

/-- A heap that has grown twice has grown. -/
theorem trans (first : h.Grows k) (second : k.Grows l) : h.Grows l :=
  ⟨Nat.le_trans first.scopes second.scopes, Nat.le_trans first.functions second.functions⟩

/-- Defining a name makes a heap no smaller. -/
theorem define (h : Heap) (s : ScopeId) (name : String) (value : Value) :
    h.Grows (h.define s name value) :=
  ⟨Nat.le_of_eq (size_define ..).symm, Nat.le_refl _⟩

theorem assign (h : Heap) (s : ScopeId) (name : String) (value : Value) :
    h.Grows (h.assign s name value) := define h _ name value

/-- A new function makes it larger by a function. -/
theorem newFunction (h : Heap) (s : ScopeId) (signature : Signature) (body : List Stmt) :
    h.Grows (h.newFunction s signature body).2 :=
  ⟨Nat.le_refl _, Nat.le_succ _⟩

/-- A new scope makes it larger by a scope. -/
theorem newScope (h : Heap) (outer : Option ScopeId) (bindings : Bindings) :
    h.Grows (h.newScope outer bindings).2 :=
  ⟨size_newScope h outer bindings ▸ Nat.le_succ _, Nat.le_refl _⟩

end Heap.Grows

/-- Numbers from `old` up to `size`, and numbers as far above `new`. -/
def InStep (old new size x y : Nat) : Prop := old ≤ x ∧ x < size ∧ x + new = y + old

/-- Numbers below `old` and below `new`, or as far above them. -/
def InPlace (old new x y : Nat) : Prop := x < old ∧ y < new ∨ x + new = y + old

/-- Two heaps that runs begin with, the rule that rewrites what the first one runs to what the second
one runs, and which scopes and functions go together. -/
structure Linkage where
  first : Heap
  second : Heap
  rule : List Stmt → List Stmt → Prop
  scopes : ScopeId → ScopeId → Prop
  functions : Nat → Nat → Prop
  exact : ∀ {s t u v}, scopes s t → scopes u v → (s = u ↔ t = v)
  /-- Scopes that are in no heap yet go together only if they will be made at the same point. -/
  placed : ∀ {s t}, scopes s t → InPlace first.scopes.size second.scopes.size s t

namespace Linkage

variable (L : Linkage)

/-- Scopes that go together once the first heap has grown. -/
def LinksScope (h : Heap) (s t : ScopeId) : Prop :=
  L.scopes s t ∨ InStep L.first.scopes.size L.second.scopes.size h.scopes.size s t

/-- Functions that go together once the first heap has grown. -/
def LinksFunction (h : Heap) (x y : Nat) : Prop :=
  L.functions x y ∨ InStep L.first.functions L.second.functions h.functions x y

/-- Functions that go together, made of the same code in scopes that go together. -/
structure SameClosure (h : Heap) (f g : Closure) : Prop where
  identity : L.LinksFunction h f.identity g.identity
  signature : g.signature = f.signature
  body : RewritesBlock L.rule f.body g.body
  scope : L.LinksScope h f.scope g.scope

/-- The same value of two runs. -/
inductive SameValue (h : Heap) : Value → Value → Prop
  | number (x : Float) : SameValue h (.number x) (.number x)
  | boolean (b : Bool) : SameValue h (.boolean b) (.boolean b)
  | nothing : SameValue h .nothing .nothing
  | function {f g : Closure} : L.SameClosure h f g → SameValue h (.function f) (.function g)

/-- The same names, bound to the same values. -/
def SameBindings (h : Heap) (b c : Bindings) : Prop :=
  ∀ name, Option.Rel (L.SameValue h) (b.find? name) (c.find? name)

/-- The same heap of two runs. -/
structure SameHeap (h k : Heap) : Prop where
  size_eq : h.scopes.size + L.second.scopes.size = k.scopes.size + L.first.scopes.size
  functions_eq : h.functions + L.second.functions = k.functions + L.first.functions
  grows : L.first.Grows h
  bound : ∀ s t, L.LinksScope h s t → L.SameBindings h (h.bindings s) (k.bindings t)
  outward : ∀ s t, L.LinksScope h s t → Option.Rel (L.LinksScope h) (h.outer? s) (k.outer? t)
  left : ∀ s < L.first.scopes.size, (∀ t, ¬ L.scopes s t) → h.scopes[s]? = L.first.scopes[s]?
  right : ∀ t < L.second.scopes.size, (∀ s, ¬ L.scopes s t) → k.scopes[t]? = L.second.scopes[t]?

variable {L} {h k l : Heap} {s t u v : ScopeId} {f g : Closure} {x y : Value} {b c : Bindings}
  {name : String}

/-! ## Growing -/

/-- Scopes that go together do so in all heaps to come. -/
theorem LinksScope.mono (grown : h.Grows l) (linked : L.LinksScope h s t) : L.LinksScope l s t :=
  linked.imp_right fun ⟨new, made, same⟩ => ⟨new, Nat.lt_of_lt_of_le made grown.scopes, same⟩

theorem LinksFunction.mono (grown : h.Grows l) {n m : Nat} (linked : L.LinksFunction h n m) :
    L.LinksFunction l n m :=
  linked.imp_right fun ⟨new, made, same⟩ => ⟨new, Nat.lt_of_lt_of_le made grown.functions, same⟩

theorem SameClosure.mono (grown : h.Grows l) (same : L.SameClosure h f g) : L.SameClosure l f g :=
  ⟨same.identity.mono grown, same.signature, same.body, same.scope.mono grown⟩

theorem SameValue.mono (grown : h.Grows l) (same : L.SameValue h x y) : L.SameValue l x y := by
  cases same with
  | number x => exact .number x
  | boolean b => exact .boolean b
  | nothing => exact .nothing
  | function closures => exact .function (closures.mono grown)

/-! ## Bindings -/

theorem SameBindings.mono (grown : h.Grows l) (same : L.SameBindings h b c) :
    L.SameBindings l b c := fun name => (same name).imp fun _ _ => .mono grown

/-- Empty bindings are the same. -/
theorem SameBindings.empty (h : Heap) : L.SameBindings h .empty .empty := fun _ => .none

/-- The same name may be set to values that are the same. -/
theorem SameBindings.set (same : L.SameBindings h b c) (name : String)
    (values : L.SameValue h x y) : L.SameBindings h (b.set name x) (c.set name y) := by
  intro other
  rw [Bindings.find?_set, Bindings.find?_set]
  split
  · exact .some values
  · exact same other

/-- Parameters bound to the same arguments. -/
theorem SameBindings.ofList (names : List String) {xs ys : List Value}
    (values : List.Forall₂ (L.SameValue h) xs ys) :
    L.SameBindings h (.ofList (names.zip xs)) (.ofList (names.zip ys)) := by
  suffices general : ∀ b c, L.SameBindings h b c →
      L.SameBindings h ((names.zip xs).foldl (fun b pair => b.set pair.1 pair.2) b)
        ((names.zip ys).foldl (fun c pair => c.set pair.1 pair.2) c) from
    general _ _ (.empty h)
  induction names generalizing xs ys with
  | nil => exact fun _ _ same => same
  | cons name _ ih =>
    intro b c same
    cases values with
    | nil => exact same
    | cons value values => exact ih values _ _ (same.set name value)

/-- The same bindings bind the same names. -/
theorem SameBindings.binds_eq (same : L.SameBindings h b c) (name : String) :
    c.binds name = b.binds name := by
  have values := same name
  unfold Bindings.binds
  generalize b.find? name = old, c.find? name = new at values
  cases values <;> rfl

/-! ## Scopes -/

/-- A scope goes with one scope only. -/
theorem LinksScope.exact {s t u v : Nat} (one : L.LinksScope h s t) (two : L.LinksScope h u v) :
    s = u ↔ t = v := by
  rcases one with old | ⟨new, _, step⟩ <;> rcases two with old' | ⟨new', _, step'⟩
  · exact L.exact old old'
  · rcases L.placed old with inside | inStep <;> omega
  · rcases L.placed old' with inside | inStep <;> omega
  · omega

/-- A scope of the first heap that goes with none differs from every scope that goes with one. -/
theorem LinksScope.ne_left (linked : L.LinksScope h s t) (old : u < L.first.scopes.size)
    (unlinked : ∀ v, ¬ L.scopes u v) : u ≠ s := by
  rintro rfl
  rcases linked with linked | ⟨new, _⟩
  · exact unlinked t linked
  · exact Nat.not_lt_of_le new old

theorem LinksScope.ne_right {t v : Nat} (linked : L.LinksScope h s t)
    (old : v < L.second.scopes.size) (unlinked : ∀ u, ¬ L.scopes u v) : v ≠ t := by
  rintro rfl
  rcases linked with linked | ⟨new, _, inStep⟩
  · exact unlinked s linked
  · omega

namespace SameHeap

variable (same : L.SameHeap h k)
include same

/-- Scopes that go together are both in their heaps, or neither is. -/
theorem lt_iff {s t : Nat} (linked : L.LinksScope h s t) : s < h.scopes.size ↔ t < k.scopes.size := by
  have sizes := same.size_eq
  have grown := same.grows.scopes
  rcases linked with old | ⟨new, made, inStep⟩
  -- Scopes from before are placed in step or below both sizes, and those made since are in step.
  · rcases L.placed old with inside | inStep <;> omega
  · omega

/-- Scopes that go together bind the same names. -/
theorem binds_iff (linked : L.LinksScope h s t) (name : String) :
    k.Binds t name ↔ h.Binds s name := by
  unfold Heap.Binds
  rw [(same.bound s t linked).binds_eq]

/-- A name resolves to scopes that go together. -/
theorem resolve? (linked : L.LinksScope h s t) (name : String) :
    Option.Rel (L.LinksScope h) (h.resolve? s name) (k.resolve? t name) := by
  induction s using Nat.strongRecOn generalizing t with
  | ind s ih =>
    -- A name that is bound here resolves to scopes that go together, and else the search goes
    -- outward in both heaps at once.
    by_cases bound : h.Binds s name
    · rw [Heap.resolve?_of_binds bound,
        Heap.resolve?_of_binds ((same.binds_iff linked name).mpr bound)]
      exact .some linked
    · have unbound : ¬ k.Binds t name := fun there => bound ((same.binds_iff linked name).mp there)
      rw [Heap.resolve?_of_not_binds bound, Heap.resolve?_of_not_binds unbound]
      have links := same.outward s t linked
      have below (o : ScopeId) (link : h.outer? s = some o) : o < s := Heap.lt_of_outer? link
      generalize h.outer? s = out, k.outer? t = out' at links below
      cases links with
      | none => exact .none
      | some link => exact ih _ (below _ rfl) link

/-- A name is found in both of two scopes that go together or in neither, with the same value. -/
theorem lookup? (linked : L.LinksScope h s t) (name : String) :
    Option.Rel (L.SameValue h) (h.lookup? s name) (k.lookup? t name) := by
  have targets := same.resolve? linked name
  unfold Heap.lookup?
  generalize h.resolve? s name = target, k.resolve? t name = target' at targets
  cases targets with
  | none => exact .none
  | some found => exact same.bound _ _ found name

/-! ## Operations -/

/-- Defining the same in scopes that go together keeps heaps the same. -/
theorem define (linked : L.LinksScope h s t) (name : String) (values : L.SameValue h x y) :
    L.SameHeap (h.define s name x) (k.define t name y) := by
  have grown := Heap.Grows.define h s name x
  have back {u v : ScopeId} (links : L.LinksScope (h.define s name x) u v) : L.LinksScope h u v := by
    unfold LinksScope at links
    rwa [Heap.size_define] at links
  refine ⟨?_, same.functions_eq, same.grows.trans grown, ?_, ?_, ?_, ?_⟩
  · rw [Heap.size_define, Heap.size_define]
    exact same.size_eq
  · intro u v links
    have before := (same.bound u v (back links)).mono grown
    -- The name is set on both sides or on neither, for scopes go together one to one.
    have together : (u = s ∧ s < h.scopes.size) = (v = t ∧ t < k.scopes.size) :=
      propext (and_congr ((back links).exact linked) (same.lt_iff linked))
    rw [Heap.bindings_define, Heap.bindings_define]
    simp only [together]
    split
    · exact before.set name (values.mono grown)
    · exact before
  · intro u v links
    rw [Heap.outer?_define, Heap.outer?_define]
    exact (same.outward u v (back links)).imp fun _ _ => .mono grown
  · intro u old unlinked
    rw [Heap.getElem?_define_of_ne (linked.ne_left old unlinked), same.left u old unlinked]
  · intro v old unlinked
    rw [Heap.getElem?_define_of_ne (linked.ne_right old unlinked), same.right v old unlinked]

/-- Assigning keeps heaps the same, for the name resolves to scopes that go together. -/
theorem assign (linked : L.LinksScope h s t) (name : String) (values : L.SameValue h x y) :
    L.SameHeap (h.assign s name x) (k.assign t name y) := by
  have targets := same.resolve? linked name
  unfold Heap.assign
  generalize h.resolve? s name = target, k.resolve? t name = target' at targets
  cases targets with
  | none => exact same.define linked name values
  | some found => exact same.define found name values

/-- Functions that are made at the same point go together. -/
theorem newFunction (linked : L.LinksScope h s t) (signature : Signature) {body other : List Stmt}
    (bodies : RewritesBlock L.rule body other) :
    L.SameHeap (h.newFunction s signature body).2 (k.newFunction t signature other).2 ∧
      L.SameValue (h.newFunction s signature body).2 (h.newFunction s signature body).1
        (k.newFunction t signature other).1 := by
  have grown := Heap.Grows.newFunction h s signature body
  constructor
  · refine ⟨same.size_eq, ?_, same.grows.trans grown, fun u v links => ?_, same.outward,
      same.left, same.right⟩
    -- As many functions have been made since on either side, so the next ones go together.
    · have := same.functions_eq
      change h.functions + 1 + _ = k.functions + 1 + _
      omega
    · exact (same.bound u v links).mono grown
  · have made : L.LinksFunction (h.newFunction s signature body).2 h.functions k.functions :=
      .inr ⟨same.grows.functions, Nat.lt_succ_self _, same.functions_eq⟩
    exact .function ⟨made, rfl, bodies, linked.mono grown⟩

/-- Scopes that are made at the same point go together. -/
theorem newScope (linked : L.LinksScope h s t) (bindings : L.SameBindings h b c) :
    L.SameHeap (h.newScope (some s) b).2 (k.newScope (some t) c).2 ∧
      L.LinksScope (h.newScope (some s) b).2 h.scopes.size k.scopes.size := by
  have grown := Heap.Grows.newScope h (some s) b
  have new : L.LinksScope (h.newScope (some s) b).2 h.scopes.size k.scopes.size :=
    .inr ⟨same.grows.scopes, Heap.size_newScope h .. ▸ Nat.lt_succ_self _, same.size_eq⟩
  -- Only the new scopes go together newly, so all others went together before.
  have old {u v : Nat} (links : L.LinksScope (h.newScope (some s) b).2 u v)
      (other : u ≠ h.scopes.size) : L.LinksScope h u v := by
    refine links.imp_right fun ⟨first, made, inStep⟩ => ⟨first, ?_, inStep⟩
    rw [Heap.size_newScope] at made
    omega
  refine ⟨⟨?_, same.functions_eq, same.grows.trans grown, ?_, ?_, ?_, ?_⟩, new⟩
  · have := same.size_eq
    rw [Heap.size_newScope, Heap.size_newScope]
    omega
  · intro u v links
    rw [Heap.bindings_newScope, Heap.bindings_newScope]
    -- A scope on one side is the new one if its counterpart is.
    simp only [links.exact new]
    split
    · exact bindings.mono grown
    · next other =>
      exact (same.bound u v (old links (mt (links.exact new).mp other))).mono grown
  · intro u v links
    rw [Heap.outer?_newScope, Heap.outer?_newScope]
    simp only [links.exact new]
    split
    · simp only [Option.filter_some, same.lt_iff linked]
      split
      · exact .some (linked.mono grown)
      · exact .none
    · next other =>
      have before := same.outward u v (old links (mt (links.exact new).mp other))
      exact before.imp fun _ _ => .mono grown
  · intro u inside unlinked
    have there : u < h.scopes.size := Nat.lt_of_lt_of_le inside same.grows.scopes
    rw [Heap.getElem?_newScope_of_lt there, same.left u inside unlinked]
  · intro v inside unlinked
    have there : v < k.scopes.size := by
      have := same.size_eq
      have := same.grows.scopes
      exact Nat.lt_of_lt_of_le inside (by omega)
    rw [Heap.getElem?_newScope_of_lt there, same.right v inside unlinked]

end SameHeap

/-! ## Scopes in common -/

/-- In the heaps that the runs begin with, the linkage itself says what goes together. -/
theorem linksScope_first : L.LinksScope L.first s t ↔ L.scopes s t :=
  or_iff_left fun step => Nat.not_lt_of_le step.1 step.2.1

section

variable {first second : Heap} {rule : List Stmt → List Stmt → Prop} {seen : ScopeId → Prop}
  {known : Nat → Prop} {placed : ∀ s, seen s → InPlace first.scopes.size second.scopes.size s s}

/-- Two heaps of which some scopes are the same ones, and go together. -/
def shared (first second : Heap) (rule : List Stmt → List Stmt → Prop) (seen : ScopeId → Prop)
    (known : Nat → Prop)
    (placed : ∀ s, seen s → InPlace first.scopes.size second.scopes.size s s) : Linkage where
  first := first
  second := second
  rule := rule
  scopes s t := s = t ∧ seen s
  functions n m := n = m ∧ known n
  exact := by
    rintro s _ u _ ⟨rfl, _⟩ ⟨rfl, _⟩
    exact Iff.rfl
  placed := by
    rintro s _ ⟨rfl, there⟩
    exact placed s there

/-- If the way out of the scopes in common leads to such scopes only, the heaps are the same. -/
theorem shared_sameHeap (same : ∀ s, seen s → second.scopes[s]? = first.scopes[s]?)
    (outer : ∀ s o, seen s → first.outer? s = some o → seen o)
    (captured : ∀ s name closure, seen s →
      (first.bindings s).find? name = some (.function closure) →
        known closure.identity ∧ seen closure.scope) :
    (shared first second rule seen known placed).SameHeap first second where
  size_eq := Nat.add_comm ..
  functions_eq := Nat.add_comm ..
  grows := .refl first
  bound s t linked name := by
    obtain ⟨rfl, there⟩ := linksScope_first.mp linked
    have bindings : second.bindings s = first.bindings s := by
      rw [Heap.bindings, same s there]
      rfl
    rw [bindings]
    cases found : (first.bindings s).find? name with
    | none => exact .none
    | some value =>
      refine .some ?_
      cases value with
      | number x => exact .number x
      | boolean b => exact .boolean b
      | nothing => exact .nothing
      | function closure =>
        obtain ⟨identity, scope⟩ := captured s name closure there found
        exact .function ⟨.inl ⟨rfl, identity⟩, rfl, .refl _, .inl ⟨rfl, scope⟩⟩
  outward s t linked := by
    obtain ⟨rfl, there⟩ := linksScope_first.mp linked
    have links : second.outer? s = first.outer? s := by rw [Heap.outer?, same s there, Heap.outer?]
    rw [links]
    cases link : first.outer? s with
    | none => exact .none
    | some o => exact .some (.inl ⟨rfl, outer s o there link⟩)
  left _ _ _ := rfl
  right _ _ _ := rfl

end

end Linkage
end Scriptlet
