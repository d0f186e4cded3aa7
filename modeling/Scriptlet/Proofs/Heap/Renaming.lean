import Scriptlet.Proofs.Heap
import Scriptlet.Proofs.Program.Renaming

/-!
# Heaps in other names

Two runs of programs that are the same but for their names have heaps that are the same but for the
names bound in them (`SameHeap`): there are the same scopes, and each scope that is seen in some
view binds names that stand for each other to values that are the same. A scope of which one way
leads outward may be seen in another view than the scope around it, but a name that would stand for
something else there is bound before. So names that stand for each other resolve to the same scope
(`SameHeap.resolve?`), and the heaps stay the same when a name is read, assigned or declared, when a
function is made, and when a call opens a scope.

What no name of the programs stands for is in both heaps as it was in those that the runs began with.
-/

namespace Scriptlet

/-! ## Bindings behind an operation -/

namespace Bindings

variable {names : List String} {values : List Value} {name : String}

/-- Only names that are given are bound. -/
theorem mem_of_binds_zip (bound : (ofList (names.zip values)).binds name = true) :
    name ∈ names := by
  obtain ⟨pair, member, rfl⟩ := List.mem_map.mp ((binds_ofList ..).mp bound)
  exact (List.of_mem_zip member).1

/-- All of them are, if there are enough values. -/
theorem binds_zip (enough : names.length ≤ values.length) (member : name ∈ names) :
    (ofList (names.zip values)).binds name = true := by
  refine (binds_ofList ..).mpr ?_
  rwa [List.map_fst_zip enough]

end Bindings

namespace Heap

variable {h : Heap} {s : ScopeId} {name : String}

/-! ## Names that are left alone -/

/-- Whether a heap binds names as another one does, but for those that are named. -/
def KeepsBut (named : ScopeId → String → Prop) (first h : Heap) : Prop :=
  ∀ s name, ¬ named s name → (h.bindings s).find? name = (first.bindings s).find? name

namespace KeepsBut

variable {named others : ScopeId → String → Prop} {first : Heap}

/-- Defining a name that is listed keeps all that is not. -/
theorem define (keeps : KeepsBut named first h) {t : ScopeId} {name : String} (value : Value)
    (target : named t name) : KeepsBut named first (h.define t name value) := by
  intro s other unnamed
  rw [bindings_define]
  split
  · next there =>
    rw [Bindings.find?_set, if_neg, keeps s other unnamed]
    rintro rfl
    exact unnamed (there.1 ▸ target)
  · exact keeps s other unnamed

/-- A new scope keeps what is there, and has only names that are listed for it. -/
theorem newScope (keeps : KeepsBut named first h) (outer : Option ScopeId) {bindings : Bindings}
    (more : ∀ s name, named s name → others s name)
    (new : ∀ name, bindings.binds name = true → others h.scopes.size name) :
    KeepsBut others first (h.newScope outer bindings).2 := by
  intro s name unnamed
  have old := keeps s name fun was => unnamed (more s name was)
  rw [bindings_newScope]
  split
  · next there =>
    subst there
    have unbound : bindings.find? name = none := by
      refine Option.not_isSome_iff_eq_none.mp fun bound => unnamed (new name bound)
    rw [unbound, ← old, find?_of_size_le (Nat.le_refl _)]
  · exact old

end KeepsBut

end Heap

/-! ## Values -/

/-- The views that scopes are seen in. A scope may be seen in none. -/
abbrev Views (View : Type) := ScopeId → Option View

/-- Whether every scope that is seen in some views is seen the same in others. -/
def Views.Le {View : Type} (w v : Views View) : Prop := ∀ s a, w s = some a → v s = some a

/-- Views are as they are. -/
theorem Views.Le.refl {View : Type} (w : Views View) : w.Le w := fun _ _ => id

/-- Views that have grown twice have grown. -/
theorem Views.Le.trans {View : Type} {u v w : Views View} (first : u.Le v) (second : v.Le w) :
    u.Le w := fun s a seen => second s a (first s a seen)

namespace Renaming

variable {View : Type} (R : Renaming View)

/-- The same function of two runs: its scope is seen in a view, and its code is the same there. -/
structure SameClosure (w : Views View) (f g : Closure) : Prop where
  identity_eq : g.identity = f.identity
  scope_eq : g.scope = f.scope
  code : ∃ a b, w f.scope = some a ∧ R.opens a f.signature g.signature b ∧
    R.SameBlock b f.body g.body

/-- The same value of two runs. -/
inductive SameValue (w : Views View) : Value → Value → Prop
  | number (x : Float) : SameValue w (.number x) (.number x)
  | boolean (b : Bool) : SameValue w (.boolean b) (.boolean b)
  | nothing : SameValue w .nothing .nothing
  | function {f g : Closure} : R.SameClosure w f g → SameValue w (.function f) (.function g)

/-- Whether names that stand for each other in a view are bound to the same values. -/
def SameBindings (w : Views View) (a : View) (b c : Bindings) : Prop :=
  ∀ n m, R.stands a n m → Option.Rel (R.SameValue w) (b.find? n) (c.find? m)

section

variable {R} {u v w : Views View} {a : View} {b c : Bindings} {x y : Value}

/-- Closures that are the same are so in all views to come. -/
theorem SameClosure.mono (le : w.Le v) {f g : Closure} (same : R.SameClosure w f g) :
    R.SameClosure v f g := by
  obtain ⟨identity, scope, a, b, seen, opened, body⟩ := same
  exact ⟨identity, scope, a, b, le _ _ seen, opened, body⟩

theorem SameValue.mono (le : w.Le v) (same : R.SameValue w x y) : R.SameValue v x y := by
  cases same with
  | number x => exact .number x
  | boolean b => exact .boolean b
  | nothing => exact .nothing
  | function closures => exact .function (closures.mono le)

theorem SameBindings.mono (le : w.Le v) (same : R.SameBindings w a b c) :
    R.SameBindings v a b c :=
  fun n m names => (same n m names).imp fun _ _ => .mono le

/-- Empty bindings are the same in every view. -/
theorem SameBindings.empty (w : Views View) (a : View) : R.SameBindings w a .empty .empty :=
  fun _ _ _ => .none

/-- Names that stand for each other may be set to values that are the same. -/
theorem SameBindings.set {n m : String} (same : R.SameBindings w a b c) (names : R.stands a n m)
    (value : R.SameValue w x y) : R.SameBindings w a (b.set n x) (c.set m y) := by
  intro k l others
  rw [Bindings.find?_set, Bindings.find?_set]
  by_cases here : n = k
  · rw [if_pos here, if_pos ((R.exact names others).mp here)]
    exact .some value
  · rw [if_neg here, if_neg fun there => here ((R.exact names others).mpr there)]
    exact same k l others

/-- Parameters that stand for each other, bound to the same arguments. -/
theorem SameBindings.ofList {ns ms : List String} {xs ys : List Value}
    (names : List.Forall₂ (R.stands a) ns ms) (values : List.Forall₂ (R.SameValue w) xs ys) :
    R.SameBindings w a (.ofList (ns.zip xs)) (.ofList (ms.zip ys)) := by
  suffices general : ∀ b c, R.SameBindings w a b c →
      R.SameBindings w a ((ns.zip xs).foldl (fun b pair => b.set pair.1 pair.2) b)
        ((ms.zip ys).foldl (fun c pair => c.set pair.1 pair.2) c) from
    general _ _ (.empty w a)
  induction names generalizing xs ys with
  | nil => exact fun _ _ same => same
  | cons name _ ih =>
    intro b c same
    cases values with
    | nil => exact same
    | cons value values => exact ih values _ _ (same.set name value)

/-- Names that stand for each other are both bound or both unbound. -/
theorem SameBindings.binds_iff {n m : String} (same : R.SameBindings w a b c)
    (names : R.stands a n m) : c.binds m = b.binds n := by
  have values := same n m names
  unfold Bindings.binds
  generalize b.find? n = old, c.find? m = new at values
  cases values <;> rfl

end

/-! ## Heaps -/

variable (first second : Heap)

/-- The same heap of two runs, which began with the heaps `first` and `second`. -/
structure SameHeap (w : Views View) (h k : Heap) : Prop where
  size_eq : k.scopes.size = h.scopes.size
  functions_eq : k.functions = h.functions
  outer?_eq : ∀ s, k.outer? s = h.outer? s
  bound : ∀ s a, w s = some a → R.SameBindings w a (h.bindings s) (k.bindings s)
  /-- A name that a scope does not bind stands for the same one in the scope around it. -/
  outward : ∀ s a n m, w s = some a → R.stands a n m → ¬ h.Binds s n →
    ∀ o, h.outer? s = some o → ∃ b, w o = some b ∧ R.stands b n m
  /-- A name that no scope binds stands for itself. -/
  outermost : ∀ s a n m, w s = some a → R.stands a n m → ¬ h.Binds s n → h.outer? s = none → n = m
  /-- A scope that is yet to come is seen in a view only where nothing is renamed. -/
  ahead : ∀ s a, h.scopes.size ≤ s → w s = some a → R.Plain
  left : Heap.KeepsBut (fun s n => ∃ a m, w s = some a ∧ R.stands a n m) first h
  right : Heap.KeepsBut (fun s m => ∃ a n, w s = some a ∧ R.stands a n m) second k

namespace SameHeap

variable {R first second} {u v w : Views View} {h k : Heap} {s : ScopeId} {a : View} {n m : String}
  {x y : Value}

/-- In a scope that is seen, names that stand for each other are bound alike. -/
theorem binds_iff (same : R.SameHeap first second w h k) (seen : w s = some a)
    (names : R.stands a n m) : k.Binds s m ↔ h.Binds s n := by
  unfold Heap.Binds
  rw [(same.bound s a seen).binds_iff names]

/-- Names that stand for each other resolve to the same scope, and stand for each other there. -/
theorem resolve? (same : R.SameHeap first second w h k) (seen : w s = some a)
    (names : R.stands a n m) : k.resolve? s m = h.resolve? s n ∧
      (∀ t, h.resolve? s n = some t → ∃ b, w t = some b ∧ R.stands b n m) ∧
      (h.resolve? s n = none → n = m) := by
  induction s using Nat.strong_induction_on generalizing a with
  | _ s ih =>
    by_cases bound : h.Binds s n
    · rw [Heap.resolve?_of_binds bound,
        Heap.resolve?_of_binds ((same.binds_iff seen names).mpr bound)]
      refine ⟨rfl, fun t found => ?_, nofun⟩
      cases found
      exact ⟨a, seen, names⟩
    · have unbound : ¬ k.Binds s m := fun there => bound ((same.binds_iff seen names).mp there)
      rw [Heap.resolve?_of_not_binds bound, Heap.resolve?_of_not_binds unbound, same.outer?_eq]
      cases link : h.outer? s with
      | none => exact ⟨rfl, nofun, fun _ => same.outermost s a n m seen names bound link⟩
      -- Where the view changes on the way outward, the name that would be another one is bound
      -- before.
      | some o =>
        obtain ⟨b, around, still⟩ := same.outward s a n m seen names bound o link
        exact ih o (Heap.lt_of_outer? link) around still

/-- Names that stand for each other are both found or both not, and in that case they are one name.
-/
theorem lookup? (same : R.SameHeap first second w h k) (seen : w s = some a)
    (names : R.stands a n m) :
    Option.Rel (R.SameValue w) (h.lookup? s n) (k.lookup? s m) ∧
      (h.lookup? s n = none → n = m) := by
  obtain ⟨target, there, unbound⟩ := same.resolve? seen names
  unfold Heap.lookup?
  rw [target]
  cases found : h.resolve? s n with
  | none => exact ⟨.none, fun _ => unbound found⟩
  | some t =>
    obtain ⟨b, seen, names⟩ := there t found
    refine ⟨same.bound t b seen n m names, fun missing => ?_⟩
    have bound := Heap.binds_of_resolve? found
    rw [Option.bind_some] at missing
    rw [Heap.Binds, Bindings.binds, missing] at bound
    cases bound

/-- Defining names that stand for each other keeps heaps the same. -/
theorem define (same : R.SameHeap first second w h k) {t : ScopeId} (seen : w t = some a)
    (names : R.stands a n m) (values : R.SameValue w x y) :
    R.SameHeap first second w (h.define t n x) (k.define t m y) := by
  -- The scope has got a name more, so what is not bound now was not bound before.
  have kept {s : ScopeId} {l : String} (unbound : ¬ (h.define t n x).Binds s l) :
      ¬ h.Binds s l := by
    refine fun bound => unbound ?_
    unfold Heap.Binds
    rw [Heap.bindings_define]
    split
    · exact (Bindings.binds_set ..).mpr (.inr bound)
    · exact bound
  refine ⟨?_, same.functions_eq, ?_, ?_, ?_, ?_, ?_, ?_, ?_⟩
  · rw [Heap.size_define, Heap.size_define, same.size_eq]
  · intro s
    rw [Heap.outer?_define, Heap.outer?_define, same.outer?_eq]
  · intro s b there
    rw [Heap.bindings_define, Heap.bindings_define, same.size_eq]
    split
    · next target =>
      obtain rfl := target.1
      cases seen.symm.trans there
      exact (same.bound s a seen).set names values
    · exact same.bound s b there
  · intro s b k l there others unbound o link
    exact same.outward s b k l there others (kept unbound) o (Heap.outer?_define .. ▸ link)
  · intro s b k l there others unbound link
    exact same.outermost s b k l there others (kept unbound) (Heap.outer?_define .. ▸ link)
  · intro s b outside there
    exact same.ahead s b (Heap.size_define h t n x ▸ outside) there
  · exact same.left.define x ⟨a, m, seen, names⟩
  · exact same.right.define y ⟨a, n, seen, names⟩

/-- Assigning names that stand for each other keeps heaps the same, for they resolve to one scope. -/
theorem assign (same : R.SameHeap first second w h k) (seen : w s = some a)
    (names : R.stands a n m) (values : R.SameValue w x y) :
    R.SameHeap first second w (h.assign s n x) (k.assign s m y) := by
  obtain ⟨target, there, _⟩ := same.resolve? seen names
  unfold Heap.assign
  rw [target]
  cases found : h.resolve? s n with
  | none => exact same.define seen names values
  | some t =>
    obtain ⟨b, seen, names⟩ := there t found
    exact same.define seen names values

/-- The same function is made of code that is the same in the view of its scope. -/
theorem newFunction (same : R.SameHeap first second w h k) (seen : w s = some a) {b : View}
    {f g : Signature} {body other : List Stmt} (opened : R.opens a f g b)
    (bodies : R.SameBlock b body other) :
    R.SameHeap first second w (h.newFunction s f body).2 (k.newFunction s g other).2 ∧
      R.SameValue w (h.newFunction s f body).1 (k.newFunction s g other).1 := by
  constructor
  · exact ⟨same.size_eq, congrArg (· + 1) same.functions_eq, same.outer?_eq, same.bound,
      same.outward, same.outermost, same.ahead, same.left, same.right⟩
  · exact .function ⟨same.functions_eq, rfl, a, b, seen, opened, bodies⟩

/-- The scope that comes next may be seen in any view, unless it is seen already. -/
theorem exists_views (same : R.SameHeap first second w h k) (b : View) : ∃ v, w.Le v ∧
    v h.scopes.size = some b ∧ ∀ s ≠ h.scopes.size, v s = w s := by
  refine ⟨Function.update w h.scopes.size (some b), fun s c there => ?_, Function.update_self ..,
    fun s other => Function.update_of_ne other ..⟩
  by_cases next : s = h.scopes.size
  · subst next
    rw [Function.update_self, (same.ahead _ c (Nat.le_refl _) there).views b c]
  · rwa [Function.update_of_ne next]

section

variable {b c : View} {f : Closure} {g : Signature} {xs : List Value}
  (same : R.SameHeap first second w h k) (seen : w f.scope = some a)
  (old : ∀ s ≠ h.scopes.size, v s = w s) (there : v s = some c) (stands : R.stands c n m)
include same seen old there stands

/-- From the scope of a call the way outward leads to the scope of the function, where all names but
the parameters stand for the same. -/
theorem outward_call (enough : xs.length = f.signature.parameters.length)
    (opened : R.opens a f.signature g b) (le : w.Le v) (here : v h.scopes.size = some b)
    (unbound : ¬ (h.newScope (some f.scope)
      (.ofList (f.signature.parameters.zip xs))).2.Binds s n) {o : ScopeId}
    (link : (h.newScope (some f.scope)
      (.ofList (f.signature.parameters.zip xs))).2.outer? s = some o) :
    ∃ d, v o = some d ∧ R.stands d n m := by
  rw [Heap.Binds, Heap.bindings_newScope] at unbound
  rw [Heap.outer?_newScope] at link
  split at link
  · next new =>
    rw [if_pos new] at unbound
    cases (Option.filter_eq_some_iff.mp link).1
    cases (new ▸ here).symm.trans there
    -- What stands for each other here stands for each other around the function, unless it is a
    -- parameter. Then it is bound, and the search does not get outward.
    rcases R.around opened stands with still | parameter
    · exact ⟨a, le _ _ seen, still⟩
    · exact absurd (Bindings.binds_zip (Nat.le_of_eq enough.symm) parameter) unbound
  · next other =>
    rw [if_neg other] at unbound
    obtain ⟨d, around, still⟩ := same.outward s c n m (old s other ▸ there) stands unbound o link
    exact ⟨d, le _ _ around, still⟩

/-- The scope of a call is an outermost one only if the function's scope is yet to come. -/
theorem outermost_call {bindings : Bindings}
    (unbound : ¬ (h.newScope (some f.scope) bindings).2.Binds s n)
    (link : (h.newScope (some f.scope) bindings).2.outer? s = none) : n = m := by
  rw [Heap.Binds, Heap.bindings_newScope] at unbound
  rw [Heap.outer?_newScope] at link
  split at link
  · have outside : h.scopes.size ≤ f.scope := by
      refine Nat.le_of_not_lt fun inside => ?_
      rw [Option.filter_some, if_pos (decide_eq_true inside)] at link
      cases link
    exact (same.ahead f.scope a outside seen).names stands
  · next other =>
    rw [if_neg other] at unbound
    exact same.outermost s c n m (old s other ▸ there) stands unbound link

end

/-- A call opens a scope that is seen in the view which the parameters open. -/
theorem call (same : R.SameHeap first second w h k) {f g : Closure} {xs ys : List Value}
    (closures : R.SameClosure w f g) (enough : xs.length = f.signature.parameters.length)
    (values : List.Forall₂ (R.SameValue w) xs ys) : ∃ v b, w.Le v ∧
      R.SameHeap first second v
        (h.newScope (some f.scope) (.ofList (f.signature.parameters.zip xs))).2
        (k.newScope (some g.scope) (.ofList (g.signature.parameters.zip ys))).2 ∧
      v h.scopes.size = some b ∧ R.SameBlock b f.body g.body := by
  obtain ⟨_, scopes, a, b, seen, opened, bodies⟩ := closures
  have names := R.parameters opened
  obtain ⟨v, le, here, old⟩ := same.exists_views b
  refine ⟨v, b, le, ⟨?_, same.functions_eq, ?_, ?_, ?_, ?_, ?_, ?_, ?_⟩, here, bodies⟩
  · rw [Heap.size_newScope, Heap.size_newScope, same.size_eq]
  · intro s
    rw [Heap.outer?_newScope, Heap.outer?_newScope, same.size_eq, scopes, same.outer?_eq]
  · intro s c there
    rw [Heap.bindings_newScope, Heap.bindings_newScope, same.size_eq]
    -- The new scope binds the parameters in the view that they open, and all others are as they
    -- were.
    split
    · next new =>
      cases (new ▸ here).symm.trans there
      exact .ofList names (values.imp fun _ _ value => value.mono le)
    · next other => exact (same.bound s c (old s other ▸ there)).mono le
  · exact fun s c n m there stands unbound o link =>
      same.outward_call seen old there stands enough opened le here unbound link
  · exact fun s c n m there stands unbound link =>
      same.outermost_call seen old there stands unbound link
  · intro s c outside there
    rw [Heap.size_newScope] at outside
    exact same.ahead s c (Nat.le_of_succ_le outside) (old s (Nat.ne_of_gt outside) ▸ there)
  -- No name outside of the views is touched, for what is bound are the parameters.
  · refine same.left.newScope _ ?_ fun n bound => ?_
    · rintro s n ⟨c, m, there, stands⟩
      exact ⟨c, m, le s c there, stands⟩
    · obtain ⟨m, stands⟩ := exists_stands_left names (Bindings.mem_of_binds_zip bound)
      exact ⟨b, m, here, stands⟩
  · refine same.right.newScope _ ?_ fun m bound => ?_
    · rintro s m ⟨c, n, there, stands⟩
      exact ⟨c, n, le s c there, stands⟩
    · obtain ⟨n, stands⟩ := exists_stands_right names (Bindings.mem_of_binds_zip bound)
      exact ⟨b, n, same.size_eq ▸ here, stands⟩

end SameHeap

end Renaming
end Scriptlet
