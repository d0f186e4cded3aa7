import Scriptlet.Proofs.Evaluation.Events
import Scriptlet.Proofs.Heap

/-!
# Names keep their scopes

Every event extends the heap, so every later heap of a run extends every earlier one. A run therefore
never takes a binding away, never changes what a scope lies within, and gives a scope a new name only
where the name could not be resolved from there. Whatever a name has been resolved to it still
resolves to behind the run, whether that has ended in a value or in an error.
-/

namespace Scriptlet

namespace Heap

/-- Every event extends the heap. -/
theorem extends_apply (h : Heap) (event : Event) : h.Extends (h.apply event) := by
  cases event with
  | assign scope name value => exact extends_assign ..
  | call closure arguments => exact extends_newScope ..
  | function scope path signature body => exact extends_newFunction ..

theorem extends_replay (h : Heap) (events : List Event) : h.Extends (h.replay events) := by
  induction events generalizing h with
  | nil => exact .refl h
  | cons event rest ih => exact (h.extends_apply event).trans (ih (h.apply event))

end Heap

/-- **Resolution is stable.** A run leaves what comes of its events, and each of the heaps that it goes
through extends all those before it. So what a name resolves to from a scope it still resolves to
behind the run. -/
theorem Program.eval_resolve?_stable (p : Program) (limit : Nat) (scope : ScopeId) (heap : Heap) :
    p.left limit scope heap = heap.replay (p.events limit scope heap) ∧
    (∀ front middle back, p.events limit scope heap = front ++ middle ++ back →
      (heap.replay front).Extends (heap.replay (front ++ middle))) ∧
    ∀ s < heap.scopes.size, ∀ name t, heap.resolve? s name = some t →
      (p.left limit scope heap).resolve? s name = some t := by
  have replayed := p.left_eq_replay limit scope heap
  refine ⟨replayed, fun front middle _ _ => ?_, fun s inside name t found => ?_⟩
  · rw [Heap.replay_append]
    exact Heap.extends_replay ..
  · rw [replayed]
    exact (heap.extends_replay _).resolve? inside found

/-- A scope that binds `x`, and an empty one within it. -/
def nestedHeap : Heap :=
  ((Heap.empty.newScope none (Bindings.empty.set "x" .nothing)).2.newScope (some 0) .empty).2

/-- Assigns `x` and `y`, and fails at a name that is bound nowhere. -/
def assignAndFail : Program :=
  ⟨[.expression (.assign "x" (.assign "y" (.function ⟨none, []⟩ []))), .expression (.variable "z")]⟩

/-- Seen from the inner scope `x` stays the outer scope's, although it is assigned from there. -/
theorem eval_resolve?_stable_nested :
    1 < nestedHeap.scopes.size ∧ nestedHeap.resolve? 1 "x" = some 0 ∧
      (assignAndFail.left 0 1 nestedHeap).resolve? 1 "x" = some 0 ∧
      nestedHeap.Extends (assignAndFail.left 0 1 nestedHeap) := by
  have outer : nestedHeap.resolve? 1 "x" = some 0 := by
    rw [Heap.resolve?_of_not_binds (by decide)]
    exact Heap.resolve?_of_binds (by decide)
  obtain ⟨replayed, grown, stable⟩ := assignAndFail.eval_resolve?_stable 0 1 nestedHeap
  refine ⟨by decide, outer, stable 1 (by decide) "x" 0 outer, ?_⟩
  rw [replayed]
  exact grown [] _ [] (List.append_nil _).symm

end Scriptlet
