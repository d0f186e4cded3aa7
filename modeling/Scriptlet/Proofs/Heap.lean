import Scriptlet.Heap

/-!
# How heaps grow

What is known of a heap is said of three things: which scopes there are, which names each of them
binds, and which scope each lies within. Here are these three after each operation on a heap.

One heap `Extends` another when scopes, bindings and links of that are still there, and when a scope
of it has got a name only where the name could not be resolved before. Then whatever was resolved
still resolves to the same scope (`Extends.resolve?`), so extending is transitive.
-/

/-- Values related in one way are related in every weaker way. -/
theorem Option.Rel.imp {α β : Type} {r q : α → β → Prop} (weaker : ∀ a b, r a b → q a b)
    {a : Option α} {b : Option β} (h : Option.Rel r a b) : Option.Rel q a b := by
  cases h with
  | none => exact .none
  | some related => exact .some (weaker _ _ related)

/-- Values related by a function are the function's. -/
theorem Option.Rel.eq_map {α β : Type} {r : α → β → Prop} {f : α → β} {a : Option α}
    {b : Option β} (h : Option.Rel r a b) (sends : ∀ a b, r a b → b = f a) : b = a.map f := by
  cases h with
  | none => rfl
  | some related => exact congrArg Option.some (sends _ _ related)

namespace Scriptlet

namespace Bindings

/-- Behind a name that was set, that name is bound and so is every name from before. -/
theorem binds_set (b : Bindings) (name other : String) (value : Value) :
    (b.set name value).binds other = true ↔ other = name ∨ b.binds other = true := by
  rw [binds, binds, find?_set]
  by_cases same : name = other
  · simp [same]
  · simp [same, Ne.symm same]

/-- A list of pairs binds the names in it. -/
theorem binds_ofList (pairs : List (String × Value)) (name : String) :
    (ofList pairs).binds name = true ↔ name ∈ pairs.map Prod.fst := by
  suffices general : ∀ b : Bindings,
      (pairs.foldl (fun b pair => b.set pair.1 pair.2) b).binds name = true ↔
        name ∈ pairs.map Prod.fst ∨ b.binds name = true by
    exact (general empty).trans (or_iff_left Bool.false_ne_true)
  induction pairs with
  | nil => simp
  | cons pair rest ih =>
    intro b
    rw [List.foldl_cons, ih, binds_set, List.map_cons, List.mem_cons]
    exact or_left_comm.trans or_assoc.symm

/-- A list of pairs binds names to values that are paired with them. -/
theorem mem_of_find?_ofList {pairs : List (String × Value)} {name : String} {value : Value}
    (found : (ofList pairs).find? name = some value) : (name, value) ∈ pairs := by
  suffices general : ∀ b : Bindings,
      (pairs.foldl (fun b pair => b.set pair.1 pair.2) b).find? name = some value →
        (name, value) ∈ pairs ∨ b.find? name = some value by
    exact (general empty found).resolve_right nofun
  clear found
  induction pairs with
  | nil => exact fun b => .inr
  | cons pair rest ih =>
    intro b found
    rcases ih _ found with later | first
    · exact .inl (List.mem_cons_of_mem pair later)
    · rw [find?_set] at first
      split at first
      · next same =>
        cases first
        exact .inl (same ▸ List.mem_cons_self)
      · exact .inr first

end Bindings

namespace Heap

/-- Whether a scope itself binds a name. -/
def Binds (h : Heap) (s : ScopeId) (name : String) : Prop := (h.bindings s).binds name = true

instance (h : Heap) (s : ScopeId) (name : String) : Decidable (h.Binds s name) :=
  inferInstanceAs (Decidable ((h.bindings s).binds name = true))

variable {h : Heap} {s t : ScopeId} {name other : String} {value : Value}

/-! ## One operation -/

/-- Defining a name makes no scope. -/
@[simp] theorem size_define (h : Heap) (s : ScopeId) (name : String) (value : Value) :
    (h.define s name value).scopes.size = h.scopes.size := Array.size_modify ..

/-- Assigning a name makes none either. -/
@[simp] theorem size_assign (h : Heap) (s : ScopeId) (name : String) (value : Value) :
    (h.assign s name value).scopes.size = h.scopes.size := size_define ..

/-- The scope a name is defined in has it set. -/
theorem bindings_define_self (inside : s < h.scopes.size) :
    (h.define s name value).bindings s = (h.bindings s).set name value := by
  unfold bindings define
  rw [Array.getElem?_modify, if_pos rfl, Array.getElem?_eq_getElem inside]
  rfl

/-- Every other scope keeps its bindings. -/
theorem bindings_define_of_ne (different : t ≠ s) :
    (h.define s name value).bindings t = h.bindings t := by
  unfold bindings define
  rw [Array.getElem?_modify, if_neg (Ne.symm different)]

/-- Both in one equation, for scopes that are not there as well. -/
theorem bindings_define (h : Heap) (s t : ScopeId) (name : String) (value : Value) :
    (h.define t name value).bindings s
      = if s = t ∧ t < h.scopes.size then (h.bindings s).set name value else h.bindings s := by
  by_cases same : s = t
  · subst same
    split
    · next inside => exact bindings_define_self inside.2
    · next outside =>
      have missing : h.scopes[s]? = none :=
        Array.getElem?_eq_none (Nat.le_of_not_lt fun inside => outside ⟨rfl, inside⟩)
      unfold bindings define
      rw [Array.getElem?_modify, if_pos rfl, missing]
      rfl
  · rw [if_neg fun both => same both.1, bindings_define_of_ne same]

/-- Other names are found as before, in whichever scope. -/
theorem find?_define_of_ne (different : other ≠ name) :
    ((h.define t name value).bindings s).find? other = (h.bindings s).find? other := by
  rw [bindings_define]
  split
  · rw [Bindings.find?_set, if_neg different.symm]
  · rfl

/-- Another scope stays as it is, the links of it included. -/
theorem getElem?_define_of_ne (different : t ≠ s) :
    (h.define s name value).scopes[t]? = h.scopes[t]? := by
  unfold define
  rw [Array.getElem?_modify, if_neg (Ne.symm different)]

/-- Defining a name relinks no scope. -/
@[simp] theorem outer?_define (h : Heap) (s t : ScopeId) (name : String) (value : Value) :
    (h.define s name value).outer? t = h.outer? t := by
  unfold outer? define
  rw [Array.getElem?_modify]
  split
  · cases h.scopes[t]? <;> rfl
  · rfl

/-- Assigning a name relinks none either. -/
@[simp] theorem outer?_assign (h : Heap) (s t : ScopeId) (name : String) (value : Value) :
    (h.assign s name value).outer? t = h.outer? t := outer?_define ..

/-- What a definition binds is bound besides what was bound before. -/
theorem binds_define (inside : s < h.scopes.size) :
    (h.define s name value).Binds t other ↔ t = s ∧ other = name ∨ h.Binds t other := by
  unfold Binds
  by_cases same : t = s
  · rw [same, bindings_define_self inside, Bindings.binds_set, and_iff_right rfl]
  · rw [bindings_define_of_ne same]
    simp only [same, false_and, false_or]

/-- A definition in no scope of the heap binds nothing. -/
theorem binds_define_of_size_le (outside : h.scopes.size ≤ s) (inside : t < h.scopes.size) :
    (h.define s name value).Binds t other ↔ h.Binds t other := by
  unfold Binds
  rw [bindings_define_of_ne (Nat.ne_of_lt (Nat.lt_of_lt_of_le inside outside))]

/-- The values behind a definition are those in front of it and the one that is defined. -/
theorem find?_define {new : Value}
    (found : ((h.define s name value).bindings t).find? other = some new) :
    new = value ∨ (h.bindings t).find? other = some new := by
  rw [bindings_define] at found
  split at found
  · rw [Bindings.find?_set] at found
    split at found
    · exact .inl (Option.some.inj found).symm
    · exact .inr found
  · exact .inr found

/-- A new scope is one more. -/
theorem size_newScope (h : Heap) (outer : Option ScopeId) (bindings : Bindings) :
    (h.newScope outer bindings).2.scopes.size = h.scopes.size + 1 := Array.size_push ..

/-- A new scope leaves every other as it is. -/
theorem getElem?_newScope_of_lt (inside : s < h.scopes.size) (outer : Option ScopeId)
    (bindings : Bindings) : (h.newScope outer bindings).2.scopes[s]? = h.scopes[s]? := by
  unfold newScope
  rw [Array.getElem?_push, if_neg (Nat.ne_of_lt inside)]

/-- A new scope has the bindings it is given. -/
theorem bindings_newScope (h : Heap) (outer : Option ScopeId) (bindings : Bindings) (s : ScopeId) :
    (h.newScope outer bindings).2.bindings s
      = if s = h.scopes.size then bindings else h.bindings s := by
  unfold Heap.bindings newScope
  rw [Array.getElem?_push]
  by_cases new : s = h.scopes.size
  · rw [if_pos new, if_pos new]
  · rw [if_neg new, if_neg new]

/-- A new scope lies within the scope it is given, if there is one of that number. -/
theorem outer?_newScope (h : Heap) (outer : Option ScopeId) (bindings : Bindings) (s : ScopeId) :
    (h.newScope outer bindings).2.outer? s
      = if s = h.scopes.size then outer.filter (· < h.scopes.size) else h.outer? s := by
  unfold Heap.outer? newScope
  rw [Array.getElem?_push]
  by_cases new : s = h.scopes.size
  · rw [if_pos new, if_pos new, Option.bind_some]
  · rw [if_neg new, if_neg new]

/-- A new scope binds the names it is given. -/
theorem binds_newScope_self (outer : Option ScopeId) (bindings : Bindings) :
    (h.newScope outer bindings).2.Binds h.scopes.size name ↔ bindings.binds name = true := by
  rw [Binds, bindings_newScope, if_pos rfl]

/-- The scopes before it bind what they bound. -/
theorem binds_newScope_of_lt (inside : s < h.scopes.size) (outer : Option ScopeId)
    (bindings : Bindings) : (h.newScope outer bindings).2.Binds s name ↔ h.Binds s name := by
  rw [Binds, bindings_newScope, if_neg (Nat.ne_of_lt inside), Binds]

theorem outer?_newScope_of_lt (inside : s < h.scopes.size) (outer : Option ScopeId)
    (bindings : Bindings) : (h.newScope outer bindings).2.outer? s = h.outer? s := by
  rw [outer?_newScope, if_neg (Nat.ne_of_lt inside)]

/-- A new scope's link, by itself. -/
theorem outer?_newScope_self (h : Heap) (outer : Option ScopeId) (bindings : Bindings) :
    (h.newScope outer bindings).2.outer? h.scopes.size
      = outer.filter (· < h.scopes.size) := by
  rw [outer?_newScope, if_pos rfl]

/-- The values behind a new scope are those in front of it and its own. -/
theorem find?_newScope {outer : Option ScopeId} {bindings : Bindings}
    (found : ((h.newScope outer bindings).2.bindings t).find? other = some value) :
    bindings.find? other = some value ∨ (h.bindings t).find? other = some value := by
  rw [bindings_newScope] at found
  split at found
  · exact .inl found
  · exact .inr found

/-- Nothing is found in a scope that is not there. -/
theorem find?_of_size_le (outside : h.scopes.size ≤ s) : (h.bindings s).find? name = none := by
  rw [Heap.bindings, Array.getElem?_eq_none outside]
  rfl

/-! ## Resolving -/

/-- A name bound in a scope resolves to that scope. -/
theorem resolve?_of_binds (bound : h.Binds s name) : h.resolve? s name = some s := by
  rw [resolve?]
  exact if_pos bound

/-- A name not bound in a scope resolves as it does in the scope outside. -/
theorem resolve?_of_not_binds (unbound : ¬ h.Binds s name) :
    h.resolve? s name = (h.outer? s).bind (h.resolve? · name) := by
  rw [resolve?]
  refine (if_neg unbound).trans ?_
  split
  · next outer link => simp only [link, Option.bind_some]
  · next link => simp only [link, Option.bind_none]

/-- A name resolves to a scope that binds it. -/
theorem binds_of_resolve? (found : h.resolve? s name = some t) : h.Binds t name := by
  fun_induction resolve? h s name with
  | case1 s bound =>
    cases found
    exact bound
  | case2 s _ outer link _ ih => exact ih found
  | case3 => cases found

/-! ## Growing -/

/-- All that there is in one heap is there in another one, and of the names that its scopes have got
there none could be resolved from the scope before. -/
structure Extends (before after : Heap) : Prop where
  size_le : before.scopes.size ≤ after.scopes.size
  outer? : ∀ s < before.scopes.size, after.outer? s = before.outer? s
  kept : ∀ s < before.scopes.size, ∀ name, before.Binds s name → after.Binds s name
  fresh : ∀ s < before.scopes.size, ∀ name, after.Binds s name →
    before.Binds s name ∨ before.resolve? s name = none

namespace Extends

variable {before after last : Heap}

/-- Every heap extends itself. -/
theorem refl (h : Heap) : h.Extends h :=
  ⟨Nat.le_refl _, fun _ _ => rfl, fun _ _ _ => id, fun _ _ _ => .inl⟩

/-- **Resolution is stable.** What a name has been resolved to it still resolves to. -/
theorem resolve? (grown : before.Extends after) (inside : s < before.scopes.size)
    (found : before.resolve? s name = some t) : after.resolve? s name = some t := by
  fun_induction Heap.resolve? before s name with
  | case1 s bound =>
    cases found
    exact resolve?_of_binds (grown.kept _ inside name bound)
  | case2 s unbound outer link below ih =>
    have same : before.resolve? s name = some t := by
      rw [resolve?_of_not_binds unbound, link]
      exact found
    have stillUnbound : ¬ after.Binds s name := by
      intro bound
      rcases grown.fresh s inside name bound with old | unresolved
      · exact unbound old
      · cases same.symm.trans unresolved
    rw [resolve?_of_not_binds stillUnbound, grown.outer? s inside, link]
    exact ih (Nat.lt_trans below inside) found
  | case3 => cases found

/-- Extending twice is extending. -/
theorem trans (first : before.Extends after) (second : after.Extends last) :
    before.Extends last where
  size_le := Nat.le_trans first.size_le second.size_le
  outer? s inside :=
    (second.outer? s (Nat.lt_of_lt_of_le inside first.size_le)).trans (first.outer? s inside)
  kept s inside name bound :=
    second.kept s (Nat.lt_of_lt_of_le inside first.size_le) name (first.kept s inside name bound)
  fresh s inside name bound := by
    rcases second.fresh s (Nat.lt_of_lt_of_le inside first.size_le) name bound with old | unresolved
    · exact first.fresh s inside name old
    · cases found : before.resolve? s name with
      | none => exact .inr rfl
      | some t => cases (first.resolve? inside found).symm.trans unresolved

end Extends

/-- The only name that an assignment can make is its own, in its own scope, where it cannot be
resolved. -/
theorem binds_assign (inside : t < h.scopes.size) (bound : (h.assign s name value).Binds t other) :
    h.Binds t other ∨ t = s ∧ other = name ∧ h.resolve? s name = none := by
  by_cases target : (h.resolve? s name).getD s < h.scopes.size
  · rcases (binds_define target).mp bound with ⟨rfl, rfl⟩ | old
    · cases found : h.resolve? s other with
      | none => exact .inr ⟨rfl, rfl, rfl⟩
      | some t => exact .inl (binds_of_resolve? found)
    · exact .inl old
  · exact .inl ((binds_define_of_size_le (Nat.le_of_not_lt target) inside).mp bound)

/-- Assigning extends a heap, for a name becomes bound only where it did not resolve. -/
theorem extends_assign (h : Heap) (s : ScopeId) (name : String) (value : Value) :
    h.Extends (h.assign s name value) where
  size_le := Nat.le_of_eq (size_assign ..).symm
  outer? _ _ := outer?_assign ..
  kept t inside other bound := by
    by_cases target : (h.resolve? s name).getD s < h.scopes.size
    · exact (binds_define target).mpr (.inr bound)
    · exact (binds_define_of_size_le (Nat.le_of_not_lt target) inside).mpr bound
  fresh t inside other bound := by
    rcases binds_assign inside bound with old | ⟨rfl, rfl, unresolved⟩
    · exact .inl old
    · exact .inr unresolved

/-- A scope that binds a name is there. -/
theorem lt_size_of_binds (bound : h.Binds s name) : s < h.scopes.size := by
  refine Nat.lt_of_not_le fun outside => ?_
  have none : h.scopes[s]? = none := Array.getElem?_eq_none outside
  rw [Binds, bindings, none] at bound
  cases bound

/-- Behind an assignment the name resolves to the scope that has been written. -/
theorem resolve?_assign_self (inside : s < h.scopes.size) :
    (h.assign s name value).resolve? s name = some ((h.resolve? s name).getD s) := by
  cases found : h.resolve? s name with
  | some t => exact (extends_assign h s name value).resolve? inside found
  | none =>
    rw [assign, found]
    exact resolve?_of_binds ((binds_define inside).mpr (.inl ⟨rfl, rfl⟩))

/-- What has been assigned is found. -/
theorem lookup?_assign_self (inside : s < h.scopes.size) :
    (h.assign s name value).lookup? s name = some value := by
  have target : (h.resolve? s name).getD s < h.scopes.size := by
    cases found : h.resolve? s name with
    | some t => exact lt_size_of_binds (binds_of_resolve? found)
    | none => exact inside
  rw [lookup?, resolve?_assign_self inside, Option.bind_some, assign,
    bindings_define_self target, Bindings.find?_set, if_pos rfl]

/-- A new scope extends a heap. -/
theorem extends_newScope (h : Heap) (outer : Option ScopeId) (bindings : Bindings) :
    h.Extends (h.newScope outer bindings).2 where
  size_le := by
    rw [size_newScope]
    exact Nat.le_succ _
  outer? _ inside := outer?_newScope_of_lt inside outer bindings
  kept _ inside _ := (binds_newScope_of_lt inside outer bindings).mpr
  fresh _ inside _ bound := .inl ((binds_newScope_of_lt inside outer bindings).mp bound)

/-- A new function extends a heap, for no scope changes. -/
theorem extends_newFunction (h : Heap) (s : ScopeId) (signature : Signature) (body : List Stmt) :
    h.Extends (h.newFunction s signature body).2 :=
  ⟨Nat.le_refl _, fun _ _ => rfl, fun _ _ _ => id, fun _ _ _ => .inl⟩

end Heap
end Scriptlet
