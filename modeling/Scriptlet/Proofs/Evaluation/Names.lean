import Scriptlet.Proofs.Evaluation.Events
import Scriptlet.Proofs.Heap

/-!
# Where names come from

An evaluation makes names in its own scope only, and only those that it assigns or declares outside
of function bodies. The scope that a call opens has the function's parameters and what the body makes
there; every other scope keeps the names it has.

`Confined own` says this of a stretch of a run, where `own` tells which names the scopes in front of it
may get. It composes because a scope that is opened in the first stretch is no scope in front of that,
so the second one cannot give it a name. A call is confined with nothing of its own, because the scope
that its body may give names to is the one that it opens (`Confined.opening`).
-/

namespace Scriptlet

/-- A scope has the parameters of a function, and besides them only names that its body assigns or
declares outside of the function bodies in it. -/
def Closure.Fills (closure : Closure) (h : Heap) (s : ScopeId) : Prop :=
  (∀ name ∈ closure.signature.parameters, h.Binds s name) ∧
    ∀ name, h.Binds s name →
      name ∈ closure.signature.parameters ∨ name ∈ blockTargets closure.body

/-- What a stretch of a run does to names. Each call in it opens a scope, in the order of the calls,
and the function fills it. Scopes in front of the stretch keep their names, and get only such as are
their `own`. -/
structure Confined (own : ScopeId → String → Prop) (before after : Heap) (events : List Event) :
    Prop where
  size_eq : after.scopes.size = before.scopes.size + (called events).length
  kept : ∀ s < before.scopes.size, ∀ name, before.Binds s name → after.Binds s name
  gained : ∀ s < before.scopes.size, ∀ name, after.Binds s name → before.Binds s name ∨ own s name
  filled : ∀ i (closure : Closure), (called events)[i]? = some closure →
    closure.Fills after (before.scopes.size + i)

namespace Confined

variable {own : ScopeId → String → Prop} {a b c : Heap} {events more : List Event}

/-- With no event, nothing is bound. -/
theorem refl (a : Heap) : Confined own a a [] :=
  ⟨rfl, fun _ _ _ => id, fun _ _ _ => .inl, nofun⟩

/-- What has a name of its own has it in front of the stretch. -/
theorem append (inside : ∀ s name, own s name → s < a.scopes.size) (first : Confined own a b events)
    (second : Confined own b c more) : Confined own a c (events ++ more) := by
  have longer : a.scopes.size ≤ b.scopes.size := first.size_eq ▸ Nat.le_add_right ..
  refine ⟨?_, fun s small name bound => ?_, fun s small name bound => ?_, fun i closure found => ?_⟩
  · rw [called_append, List.length_append, second.size_eq, first.size_eq, Nat.add_assoc]
  · exact second.kept s (Nat.lt_of_lt_of_le small longer) name (first.kept s small name bound)
  · rcases second.gained s (Nat.lt_of_lt_of_le small longer) name bound with old | new
    · exact first.gained s small name old
    · exact .inr new
  · rw [called_append] at found
    by_cases early : i < (called events).length
    · rw [List.getElem?_append_left early] at found
      -- the scope is there behind the first stretch, and gets no names in the second one
      have there : a.scopes.size + i < b.scopes.size := by
        rw [first.size_eq]
        exact Nat.add_lt_add_left early _
      obtain ⟨parameters, names⟩ := first.filled i closure found
      refine ⟨fun name parameter => second.kept _ there name (parameters name parameter), ?_⟩
      intro name bound
      rcases second.gained _ there name bound with old | new
      · exact names name old
      · exact absurd (inside _ name new) (Nat.not_lt.mpr (Nat.le_add_right ..))
    · have late := Nat.le_of_not_lt early
      rw [List.getElem?_append_right late] at found
      have filled := second.filled _ closure found
      rwa [first.size_eq, Nat.add_assoc, Nat.add_sub_cancel' late] at filled

/-- An assignment makes a name where it stands, if it makes one at all. -/
theorem assign (s : ScopeId) (name : String) (value : Value) (mine : own s name) :
    Confined own a (a.assign s name value) [.assign s name value] where
  size_eq := Heap.size_assign ..
  kept := (a.extends_assign s name value).kept
  gained t small other bound := by
    rcases Heap.binds_assign small bound with old | ⟨rfl, rfl, _⟩
    · exact .inl old
    · exact .inr mine
  filled := nofun

/-- The making of a function binds nothing. -/
theorem function (s : ScopeId) (path : List Nat) (signature : Signature) (body : List Stmt) :
    Confined own a (a.newFunction s signature body).2 [.function s path signature body] :=
  ⟨rfl, fun _ _ _ => id, fun _ _ _ => .inl, nofun⟩

/-- A call is confined when its body is, in the scope that the call opens. -/
theorem opening {closure : Closure} {arguments : List Value}
    (fits : closure.signature.parameters.length = arguments.length)
    (body : Confined (fun s name => s = a.scopes.size ∧ name ∈ blockTargets closure.body)
      (a.apply (.call closure arguments)) b events) :
    Confined own a b (.call closure arguments :: events) := by
  have size : (a.apply (.call closure arguments)).scopes.size = a.scopes.size + 1 :=
    Heap.size_newScope ..
  have old {s : ScopeId} (small : s < a.scopes.size) (name : String) :
      (a.apply (.call closure arguments)).Binds s name ↔ a.Binds s name :=
    Heap.binds_newScope_of_lt small ..
  have new (name : String) : (a.apply (.call closure arguments)).Binds a.scopes.size name ↔
      name ∈ closure.signature.parameters := by
    refine (Heap.binds_newScope_self ..).trans ?_
    rw [Bindings.binds_ofList, List.map_fst_zip (Nat.le_of_eq fits)]
  have here : a.scopes.size < (a.apply (.call closure arguments)).scopes.size := by
    rw [size]
    exact Nat.lt_succ_self _
  refine ⟨?_, fun s small name bound => ?_, fun s small name bound => ?_, fun i f found => ?_⟩
  · rw [body.size_eq, size]
    exact Nat.add_right_comm ..
  · exact body.kept s (Nat.lt_trans small here) name ((old small name).mpr bound)
  · rcases body.gained s (Nat.lt_trans small here) name bound with kept | ⟨rfl, _⟩
    · exact .inl ((old small name).mp kept)
    · exact absurd small (Nat.lt_irrefl _)
  -- The call itself is the first one of the stretch, and all others are calls of its body.
  · cases i with
    | zero =>
      cases found
      refine ⟨fun name parameter => body.kept _ here name ((new name).mpr parameter), ?_⟩
      intro name bound
      rcases body.gained _ here name bound with kept | ⟨_, made⟩
      · exact .inl ((new name).mp kept)
      · exact .inr made
    | succ i =>
      have filled := body.filled i f found
      rwa [size, Nat.add_right_comm] at filled

end Confined

/-- A stretch makes only certain names in a scope, and no others in any scope in front of it. -/
def MakesOnly (scope : ScopeId) (names : String → Prop) (before after : Heap)
    (events : List Event) : Prop :=
  scope < before.scopes.size →
    Confined (fun s name => s = scope ∧ names name) before after events

/-- Names made in two parts of a run are made in the one or the other. -/
theorem makesOnly_composes (scope : ScopeId) (names : String → Prop) :
    Composes (MakesOnly scope names) where
  nothing _ _ := .refl _
  append {a b _ _ _} first second inside := by
    have front := first inside
    have there : scope < b.scopes.size := front.size_eq ▸ Nat.lt_add_right _ inside
    exact front.append (fun _ _ mine => mine.1 ▸ inside) (second there)

/-- A stretch makes no names in any scope in front of it. -/
def MakesNothing (before after : Heap) (events : List Event) : Prop :=
  Confined (fun _ _ => False) before after events

/-- What makes nothing at all makes only what it may. -/
theorem MakesNothing.makesOnly {before after : Heap} {events : List Event}
    (h : MakesNothing before after events) (scope : ScopeId) (names : String → Prop) :
    MakesOnly scope names before after events := fun _ =>
  ⟨h.size_eq, h.kept, fun s small name bound => .inl ((h.gained s small name bound).resolve_right id),
    h.filled⟩

section

variable {calls : Calls} {history : Closure → List Value → History}
  (sealed : ∀ closure arguments, closure.signature.parameters.length = arguments.length →
    (calls closure arguments).Has MakesNothing (history closure arguments))
include sealed

/-- An evaluation makes only names that it may assign, as calls do not make any in its scope. -/
theorem makesOnly_keeps (scope : ScopeId) (names : String → Prop) :
    Keeps (MakesOnly scope names) calls history scope names :=
  { makesOnly_composes scope names with
    assign := fun name allowed _ value _ => .assign scope name value ⟨rfl, allowed⟩
    function := fun _ path signature body _ => .function scope path signature body
    call := fun closure arguments fits heap =>
      (sealed closure arguments fits heap).makesOnly scope names }

end

/-- **A call makes no names in any scope in front of it.** -/
theorem callsWithin_makesNothing (limit room : Nat) (closure : Closure) (arguments : List Value)
    (fits : closure.signature.parameters.length = arguments.length) :
    (callsWithin limit room closure arguments).Has MakesNothing
      (callEvents limit room closure arguments) := by
  induction room generalizing closure arguments with
  | zero => exact fun heap => Confined.refl heap
  | succ room ih =>
    intro heap
    have keeps := makesOnly_keeps ih heap.scopes.size (· ∈ blockTargets closure.body)
    have body := keeps.bind_quiet (keeps.evalBlock [] 0 .nothing closure.body fun _ => id)
      Eval.quiet_innermost (heap.apply (.call closure arguments))
    rw [callsWithin_succ]
    exact Confined.opening fits (body (Heap.size_newScope .. ▸ Nat.lt_succ_self _))

/-- **Names are made where they are assigned.** A run gives the scope it is evaluated in only names
that the program assigns or declares outside of function bodies, and gives none to the other scopes in
front of it. Every call opens one more scope, and the function fills it. -/
theorem Program.eval_makes_targets_only (p : Program) (limit : Nat) (scope : ScopeId) (heap : Heap)
    (inside : scope < heap.scopes.size) :
    p.left limit scope heap = heap.replay (p.events limit scope heap) ∧
    (∀ name, heap.Binds scope name → (p.left limit scope heap).Binds scope name) ∧
    (∀ name, (p.left limit scope heap).Binds scope name →
      heap.Binds scope name ∨ name ∈ p.targets) ∧
    (∀ s < heap.scopes.size, s ≠ scope → ∀ name,
      (p.left limit scope heap).Binds s name ↔ heap.Binds s name) ∧
    (p.left limit scope heap).scopes.size
      = heap.scopes.size + (called (p.events limit scope heap)).length ∧
    ∀ i (closure : Closure), (called (p.events limit scope heap))[i]? = some closure →
      closure.Fills (p.left limit scope heap) (heap.scopes.size + i) := by
  have keeps := makesOnly_keeps (callsWithin_makesNothing limit limit) scope (· ∈ p.targets)
  obtain ⟨size, kept, gained, filled⟩ := keeps.eval p (fun _ => id) heap inside
  refine ⟨p.left_eq_replay limit scope heap, kept scope inside, fun name bound => ?_,
    fun s small other name => ⟨fun bound => ?_, kept s small name⟩, size, filled⟩
  · exact (gained scope inside name bound).imp_right And.right
  · exact (gained s small name bound).resolve_right fun new => other new.1

/-- A function that makes `b`, and a function `g` that would make `c`. -/
def maker : Closure :=
  ⟨0, ⟨some "f", ["a"]⟩, [.expression (.assign "b" (.variable "a")),
    .declaration ⟨some "g", []⟩ [.expression (.assign "c" (.variable "b"))]], 0⟩

/-- A heap of one scope, which binds the function. -/
def makerHeap : Heap := (Heap.empty.newScope none (Bindings.empty.set "f" (.function maker))).2

/-- Makes `y` by calling the function. -/
def makerCall : Program := ⟨[.expression (.assign "y" (.call "f" [.function ⟨none, []⟩ []]))]⟩

/-- The first function called is the maker. -/
theorem called_makerCall : (called (makerCall.events 1 0 makerHeap))[0]? = some maker := by
  have bound : makerHeap.lookup? 0 "f" = some (.function maker) := by
    rw [Heap.lookup?, Heap.resolve?_of_binds (by decide)]
    rfl
  have found : callee 0 "f" 1 makerHeap = .ok maker makerHeap := callee_of_lookup? bound
  simp only [makerCall, Program.events, blockEvents, Stmt.events, Expr.events, History.andThen,
    List.length_singleton, found]
  rfl

/-- The call makes `y` in the scope it is made in, and `a`, `b` and `g` in its own. -/
theorem eval_makes_targets_only_makerCall :
    0 < makerHeap.scopes.size ∧
      (∀ name, (makerCall.left 1 0 makerHeap).Binds 0 name →
        makerHeap.Binds 0 name ∨ name ∈ ["y"]) ∧
      (called (makerCall.events 1 0 makerHeap))[0]? = some maker ∧
      maker.Fills (makerCall.left 1 0 makerHeap) 1 := by
  obtain ⟨_, _, own, _, _, filled⟩ := makerCall.eval_makes_targets_only 1 0 makerHeap (by decide)
  exact ⟨by decide, own, called_makerCall, filled 0 maker called_makerCall⟩

end Scriptlet
