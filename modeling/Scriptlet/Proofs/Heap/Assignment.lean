import Scriptlet.Proofs.Heap.Chain

/-!
# What an assignment changes

Looking a name up and finding the scope to assign it in are the same walk along the chain of a scope:
the one reads the first binding on it (`lookup?_eq_findSome?_chain`), the other writes the scope of
that binding (`binder?`). An assignment leaves all chains as they are and changes one binding of one
scope (`find?_assign`). So a look-up gives the value assigned exactly where that scope is the first on
the chain to bind the name (`lookup?_assign`), and in all other places what it gave before.

A scope lies within an older one, so links go down and a chain ends. Links without a cycle can always
be numbered in this way, so no heap is left out.
-/

namespace Scriptlet

namespace Heap

/-- The first scope on the chain of a scope that binds a name. -/
def binder? (h : Heap) (s : ScopeId) (name : String) : Option ScopeId :=
  (h.chain s).find? fun t => (h.bindings t).binds name

/-- The scope that an assignment writes: the first on the chain that binds the name, or the scope
where the chain begins. -/
def target (h : Heap) (s : ScopeId) (name : String) : ScopeId := (h.binder? s name).getD s

variable {h k : Heap} {e s t : ScopeId} {name other : String} {value : Value}

/-! ## Walks along a chain -/

/-- To assign a name is to define it in its target. -/
theorem assign_eq_define_target (h : Heap) (e : ScopeId) (name : String) (value : Value) :
    h.assign e name value = h.define (h.target e name) name value := by
  rw [assign, resolve?_eq_find?_chain]
  rfl

/-- A look-up reads the first binding on the chain. -/
theorem lookup?_eq_findSome?_chain (h : Heap) (s : ScopeId) (name : String) :
    h.lookup? s name = (h.chain s).findSome? fun t => (h.bindings t).find? name := by
  rw [lookup?, resolve?_eq_find?_chain]
  induction h.chain s with
  | nil => rfl
  | cons t rest ih =>
    rw [List.find?_cons, List.findSome?_cons, Bindings.binds]
    cases found : (h.bindings t).find? name with
    | some value => exact found
    | none => exact ih

/-- A name is found in the first scope of the chain that binds it. -/
theorem lookup?_eq_bind_binder? (h : Heap) (s : ScopeId) (name : String) :
    h.lookup? s name = (h.binder? s name).bind fun t => (h.bindings t).find? name := by
  rw [lookup?, resolve?_eq_find?_chain]
  rfl

/-- The scopes further out on a chain are the chain of where they begin. -/
theorem chain_suffix (mem : t ∈ h.chain s) : h.chain t <:+ h.chain s := by
  fun_induction chain h s with
  | case1 s outer link below ih =>
    rcases List.mem_cons.mp mem with rfl | around
    · exact chain_of_outer? link ▸ List.suffix_refl _
    · exact (ih around).trans (List.suffix_cons ..)
  | case2 s outermost =>
    cases List.mem_singleton.mp mem
    exact chain_of_outermost outermost ▸ List.suffix_refl _

/-- No scope is on its chain twice. -/
theorem notMem_front {front back : List ScopeId} (split : h.chain s = front ++ t :: back) :
    t ∉ front := by
  intro mem
  have distinct := h.nodup_chain s
  rw [split] at distinct
  exact (List.nodup_append.mp distinct).2.2 t mem t List.mem_cons_self rfl

/-- Chains are made of links outward only. -/
theorem chain_congr (same : ∀ s, k.outer? s = h.outer? s) (s : ScopeId) :
    k.chain s = h.chain s := by
  fun_induction chain h s with
  | case1 s outer link below ih => rw [chain_of_outer? ((same s).trans link), ih]
  | case2 s outermost => exact chain_of_outermost ((same s).trans outermost)

/-- A scope that binds a name is the first to do so for the chains on which nothing in front of it
does. -/
theorem binder?_eq_some_iff : h.binder? s name = some t ↔
    h.Binds t name ∧ ∃ front back, h.chain s = front ++ t :: back ∧ ∀ u ∈ front, ¬ h.Binds u name := by
  rw [binder?, List.find?_eq_some_iff_append]
  simp only [Bool.not_eq_eq_eq_not, Bool.not_true, ← Bool.not_eq_true]
  rfl

/-- A name has no binder if no scope of the chain binds it. -/
theorem binder?_eq_none_iff : h.binder? s name = none ↔ ∀ u ∈ h.chain s, ¬ h.Binds u name :=
  List.find?_eq_none

/-- Then it is not found, and only then. -/
theorem lookup?_eq_none_iff : h.lookup? s name = none ↔ ∀ u ∈ h.chain s, ¬ h.Binds u name := by
  rw [lookup?_eq_findSome?_chain, List.findSome?_eq_none_iff]
  exact forall₂_congr fun u _ => Option.not_isSome_iff_eq_none.symm

/-! ## Behind an assignment -/

@[simp] theorem chain_assign (h : Heap) (e s : ScopeId) (name : String) (value : Value) :
    (h.assign e name value).chain s = h.chain s :=
  chain_congr (fun t => outer?_assign h e t name value) s

/-- The target of a name is a scope that is there. -/
theorem target_lt_size (inside : e < h.scopes.size) (name : String) :
    h.target e name < h.scopes.size := by
  rw [target]
  cases found : h.binder? e name with
  | some t => exact lt_size_of_binds (binder?_eq_some_iff.mp found).1
  | none => exact inside

section

variable (inside : e < h.scopes.size)
include inside

/-- An assignment changes one binding of one scope. -/
theorem find?_assign (s : ScopeId) (other : String) :
    ((h.assign e name value).bindings s).find? other
      = if s = h.target e name ∧ other = name then some value else (h.bindings s).find? other := by
  rw [assign_eq_define_target]
  by_cases here : s = h.target e name
  · rw [here, bindings_define_self (target_lt_size inside name), Bindings.find?_set]
    simp only [true_and, eq_comm]
  · rw [bindings_define_of_ne here, if_neg fun both => here both.1]

/-- Behind an assignment the target binds the name, and besides it the scopes that did before. -/
theorem binds_assign_self : (h.assign e name value).Binds s name ↔
    s = h.target e name ∨ h.Binds s name := by
  rw [assign_eq_define_target, binds_define (target_lt_size inside name)]
  simp only [and_true]

/-- Where the scope written is not the first to bind the name, the first is the one it was before. -/
theorem binder?_assign (elsewhere : (h.assign e name value).binder? s name ≠ some (h.target e name)) :
    (h.assign e name value).binder? s name = h.binder? s name := by
  cases found : (h.assign e name value).binder? s name with
  | none =>
    refine (binder?_eq_none_iff.mpr fun u mem bound => ?_).symm
    refine binder?_eq_none_iff.mp found u ((chain_assign h e s name value).symm ▸ mem) ?_
    exact (binds_assign_self inside).mpr (.inr bound)
  | some u =>
    obtain ⟨bound, front, back, split, before⟩ := binder?_eq_some_iff.mp found
    have other : u ≠ h.target e name := fun same => elsewhere (same ▸ found)
    refine (binder?_eq_some_iff.mpr ⟨?_, front, back, ?_, fun v mem old => before v mem ?_⟩).symm
    · exact ((binds_assign_self inside).mp bound).resolve_left other
    · exact (chain_assign ..).symm.trans split
    · exact (binds_assign_self inside).mpr (.inr old)

/-- **A look-up gives the value assigned exactly where it comes to the scope written**, and what it
gave before in all other places. -/
theorem lookup?_assign (s : ScopeId) (other : String) :
    (h.assign e name value).lookup? s other
      = if other = name ∧ (h.assign e name value).binder? s name = some (h.target e name)
        then some value else h.lookup? s other := by
  by_cases same : other = name
  · subst same
    rw [lookup?_eq_bind_binder?, lookup?_eq_bind_binder?]
    split
    · next first => rw [first.2, Option.bind_some, find?_assign inside, if_pos ⟨rfl, rfl⟩]
    · next elsewhere =>
      have elsewhere := fun first => elsewhere ⟨rfl, first⟩
      rw [binder?_assign inside elsewhere]
      rw [binder?_assign inside elsewhere] at elsewhere
      refine Option.bind_congr fun u found => ?_
      rw [find?_assign inside, if_neg]
      rintro ⟨rfl, _⟩
      exact elsewhere found
  · rw [if_neg fun both => same both.1, lookup?_eq_findSome?_chain, lookup?_eq_findSome?_chain,
      chain_assign]
    refine congrArg (List.findSome? · _) (funext fun u => ?_)
    rw [find?_assign inside, if_neg fun both => same both.2]

/-- Seen past another binding of the name, nothing has changed. -/
theorem lookup?_assign_of_shadowed {front back : List ScopeId} {u : ScopeId}
    (split : h.chain s = front ++ h.target e name :: back) (mem : u ∈ front)
    (bound : h.Binds u name) : (h.assign e name value).lookup? s name = h.lookup? s name := by
  rw [lookup?_assign inside, if_neg]
  rintro ⟨-, first⟩
  have bound : ((h.assign e name value).bindings u).binds name = true :=
    (binds_assign_self inside).mpr (.inr bound)
  rw [binder?, chain_assign, split, List.find?_append] at first
  cases found : front.find? fun v => ((h.assign e name value).bindings v).binds name with
  | none => exact List.find?_eq_none.mp found u mem bound
  | some v =>
    rw [found] at first
    cases first
    exact notMem_front split (List.mem_of_find?_eq_some found)

/-- A name that was bound nowhere around is seen by all scopes within the one it is assigned in. -/
theorem lookup?_assign_of_within (within : e ∈ h.chain s) (unbound : h.lookup? s name = none) :
    (h.assign e name value).lookup? s name = some value := by
  have nowhere := lookup?_eq_none_iff.mp unbound
  have here : h.target e name = e := by
    rw [target, binder?_eq_none_iff.mpr fun u mem => nowhere u ((chain_suffix within).mem mem)]
    rfl
  obtain ⟨front, back, split⟩ := List.append_of_mem within
  rw [lookup?_assign inside, here]
  refine if_pos ⟨rfl, ?_⟩
  refine binder?_eq_some_iff.mpr ⟨?_, front, back, (chain_assign ..).trans split, ?_⟩
  · exact (binds_assign_self inside).mpr (.inl here.symm)
  · intro u mem bound
    rcases (binds_assign_self inside).mp bound with same | old
    · exact notMem_front split (same.trans here ▸ mem)
    · exact nowhere u (split ▸ List.mem_append_left _ mem) old

end

/-- **Assignment and lookup obey the laws of scope chains.** Looking up reads the first binding on the
chain. An assignment binds the name to the value in the first scope on the chain that bound it, or in
its own where none did, and changes no other binding, no scope and no link. Behind it a look-up gives
the value where it asks for the name and comes to that scope first, and what it gave before
otherwise. So the value is seen where it has been assigned, it is not seen past another binding of
the name, and it is seen from all scopes within that found no value before. -/
theorem assign_scopeChain (h : Heap) {e : ScopeId} (inside : e < h.scopes.size) (name : String)
    (value : Value) :
    (∀ (k : Heap) s other,
      k.lookup? s other = (k.chain s).findSome? fun u => (k.bindings u).find? other) ∧
    ((h.assign e name value).bindings (h.target e name)).find? name = some value ∧
    (∀ s other, ¬ (s = h.target e name ∧ other = name) →
      ((h.assign e name value).bindings s).find? other = (h.bindings s).find? other) ∧
    (h.assign e name value).scopes.size = h.scopes.size ∧
    (∀ s, (h.assign e name value).outer? s = h.outer? s) ∧
    (∀ s other, (h.assign e name value).lookup? s other
      = if other = name ∧ (h.assign e name value).binder? s name = some (h.target e name)
        then some value else h.lookup? s other) ∧
    (h.assign e name value).lookup? e name = some value ∧
    (∀ s front back u, h.chain s = front ++ h.target e name :: back → u ∈ front →
      h.Binds u name → (h.assign e name value).lookup? s name = h.lookup? s name) ∧
    ∀ s, e ∈ h.chain s → h.lookup? s name = none →
      (h.assign e name value).lookup? s name = some value := by
  refine ⟨lookup?_eq_findSome?_chain, ?_, fun s other elsewhere => ?_, size_assign ..,
    fun s => outer?_assign .., lookup?_assign inside, lookup?_assign_self inside,
    fun s front back u split mem => lookup?_assign_of_shadowed inside split mem,
    fun s => lookup?_assign_of_within inside⟩
  · rw [find?_assign inside, if_pos ⟨rfl, rfl⟩]
  · rw [find?_assign inside, if_neg elsewhere]

/-- A scope that binds `x`, and within it a scope that binds `x` again and one that binds nothing. -/
def shadowingHeap : Heap :=
  ((Heap.empty.newScope none (Bindings.empty.set "x" .nothing)).2.newScope (some 0)
    (Bindings.empty.set "x" (.boolean false))).2.newScope (some 0) .empty |>.2

/-- Assigned in the scope that binds nothing, `x` is written in the outer scope; the scope with its
own `x` does not see that. A name that is new is seen only in the scope that it is assigned in. -/
theorem assign_scopeChain_shadowing :
    2 < shadowingHeap.scopes.size ∧
      (shadowingHeap.assign 2 "x" (.boolean true)).lookup? 0 "x" = some (.boolean true) ∧
      (shadowingHeap.assign 2 "x" (.boolean true)).lookup? 1 "x" = some (.boolean false) ∧
      (shadowingHeap.assign 2 "y" (.boolean true)).lookup? 2 "y" = some (.boolean true) ∧
      (shadowingHeap.assign 2 "y" (.boolean true)).lookup? 0 "y" = none := by
  have outermost : shadowingHeap.chain 0 = [0] := chain_of_outermost rfl
  have beside : shadowingHeap.chain 1 = [1, 0] := (chain_of_outer? rfl).trans (by rw [outermost])
  have within : shadowingHeap.chain 2 = [2, 0] := (chain_of_outer? rfl).trans (by rw [outermost])
  have targetX : shadowingHeap.target 2 "x" = 0 := by
    rw [target, binder?, within]
    rfl
  obtain ⟨walk, written, -, -, -, -, -, shadowed, -⟩ :=
    assign_scopeChain shadowingHeap (e := 2) (by decide) "x" (.boolean true)
  have targetY : shadowingHeap.target 2 "y" = 2 := by
    rw [target, binder?, within]
    rfl
  obtain ⟨-, -, kept, -, -, -, seen, -, -⟩ :=
    assign_scopeChain shadowingHeap (e := 2) (by decide) "y" (.boolean true)
  refine ⟨by decide, ?_, ?_, seen, ?_⟩
  · rw [walk, chain_assign, outermost, List.findSome?_cons, ← targetX, written]
  · rw [shadowed 1 [1] [] 1 (targetX ▸ beside) List.mem_cons_self (by decide), walk, beside]
    rfl
  · rw [walk, chain_assign, outermost, List.findSome?_cons, kept 0 "y" (by rw [targetY]; decide)]
    rfl

end Heap
end Scriptlet
