import Scriptlet.Proofs.Heap

/-!
# Chains of scopes

The scopes that a name is looked up in, one after the other: the scope where the search begins, the
one it lies within, and so on outward. Each comes after the next one in the heap, so none comes
twice, and a name resolves to the first of them that binds it.
-/

namespace Scriptlet

namespace Heap

/-- A scope and all that it lies within, from the inside out. -/
def chain (h : Heap) (s : ScopeId) : List ScopeId :=
  match link : h.outer? s with
  | some outer =>
    have := lt_of_outer? link
    s :: h.chain outer
  | none => [s]
termination_by s

variable {h : Heap} {s outer : ScopeId} {name : String}

/-- The chain of a scope goes on with that of the scope around it. -/
theorem chain_of_outer? (link : h.outer? s = some outer) : h.chain s = s :: h.chain outer := by
  rw [chain]
  split
  · next other found =>
    cases link.symm.trans found
    rfl
  · next none => cases link.symm.trans none

/-- The chain of an outermost scope is that scope. -/
theorem chain_of_outermost (outermost : h.outer? s = none) : h.chain s = [s] := by
  rw [chain]
  split
  · next found => cases outermost.symm.trans found
  · rfl

/-- Scopes further along a chain have been made earlier. -/
theorem le_of_mem_chain {t : ScopeId} (mem : t ∈ h.chain s) : t ≤ s := by
  fun_induction chain h s with
  | case1 s outer link below ih =>
    rcases List.mem_cons.mp mem with rfl | around
    · exact Nat.le_refl _
    · exact Nat.le_of_lt (Nat.lt_of_le_of_lt (ih around) below)
  | case2 s => exact Nat.le_of_eq (List.mem_singleton.mp mem)

/-- No scope comes twice. -/
theorem nodup_chain (h : Heap) (s : ScopeId) : (h.chain s).Nodup := by
  fun_induction chain h s with
  | case1 s outer link below ih =>
    refine List.nodup_cons.mpr ⟨fun mem => ?_, ih⟩
    exact Nat.not_le_of_lt below (le_of_mem_chain mem)
  | case2 s => exact List.nodup_cons.mpr ⟨nofun, .nil⟩

/-- A name resolves to the first scope of the chain that binds it. -/
theorem resolve?_eq_find?_chain (h : Heap) (s : ScopeId) (name : String) :
    h.resolve? s name = (h.chain s).find? fun t => (h.bindings t).binds name := by
  fun_induction chain h s with
  | case1 s outer link below ih =>
    cases bound : (h.bindings s).binds name with
    | true => rw [resolve?_of_binds bound, List.find?_cons, bound]
    | false =>
      rw [resolve?_of_not_binds (Bool.eq_false_iff.mp bound), link, List.find?_cons, bound]
      exact ih
  | case2 s outermost =>
    cases bound : (h.bindings s).binds name with
    | true => rw [resolve?_of_binds bound, List.find?_cons, bound]
    | false =>
      rw [resolve?_of_not_binds (Bool.eq_false_iff.mp bound), outermost, List.find?_cons, bound]
      rfl

end Heap
end Scriptlet
