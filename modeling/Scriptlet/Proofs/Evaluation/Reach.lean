import Scriptlet.Proofs.Evaluation.Interference
import Scriptlet.Proofs.Evaluation.Linkage
import Scriptlet.Proofs.Evaluation.Recursion

/-!
# What a run can reach

A run changes only scopes that it can reach from its own, or that it makes, and functions that it
gives or binds capture only such scopes. That is what the law of two runs says of a run and itself,
where a scope goes with itself if it can be reached (`Linkage.reach`).

So programs in scopes from which no common scope is reached do not affect each other. What one of them
leaves is, to the other, the heap that it was before but for its size: it does the same, with all that
it makes behind what the first one has made (`Linkage.behind`).
-/

namespace Scriptlet

namespace Heap

/-- Whether a scope could be reached from another one before a run, or has been made by the run. -/
def WithinReach (before after : Heap) (e s : ScopeId) : Prop :=
  before.Reaches e s ∨ before.scopes.size ≤ s ∧ s < after.scopes.size

/-- Whether no scope is reached both from one scope and from another. -/
def Apart (h : Heap) (e f : ScopeId) : Prop := ∀ s, h.Reaches e s → ¬ h.Reaches f s

/-- Whether a heap has all that is reached from a scope. -/
structure Holds (h : Heap) (e : ScopeId) : Prop where
  scopes : ∀ s, h.Reaches e s → s < h.scopes.size
  functions : ∀ s name closure, h.Reaches e s →
    (h.bindings s).find? name = some (.function closure) → closure.identity < h.functions

variable {h k : Heap} {e f s : ScopeId}

/-- Scopes apart are so either way. -/
theorem Apart.symm (apart : h.Apart e f) : h.Apart f e := fun s there here => apart s here there

/-- A scope that is the same in two heaps has the same bindings. -/
theorem bindings_congr (same : k.scopes[s]? = h.scopes[s]?) : k.bindings s = h.bindings s := by
  rw [bindings, same, bindings]

/-- A scope that is the same in two heaps lies within the same scope. -/
theorem outer?_congr (same : k.scopes[s]? = h.scopes[s]?) : k.outer? s = h.outer? s := by
  rw [outer?, same, outer?]

/-- What is reached stays the same as long as it is not changed. -/
theorem reaches_of_kept (kept : ∀ s, h.Reaches e s → k.scopes[s]? = h.scopes[s]?)
    (reached : k.Reaches e s) : h.Reaches e s := by
  induction reached with
  | root => exact .root
  | outer _ link ih => exact ih.outer (outer?_congr (kept _ ih) ▸ link)
  | captured _ found ih => exact ih.captured (bindings_congr (kept _ ih) ▸ found)

end Heap

namespace Linkage

/-- A heap and itself, where the scopes that are reached from a scope go together. -/
def reach (heap : Heap) (e : ScopeId) (known : Nat → Prop) : Linkage :=
  shared heap heap (fun _ _ => False) (heap.Reaches e) known fun _ _ => .inr rfl

variable {heap h k : Heap} {e s : ScopeId} {known : Nat → Prop} {x y : Value}

/-- A scope goes with itself if it is within reach. -/
theorem linksScope_reach_iff :
    (reach heap e known).LinksScope h s s ↔ heap.WithinReach h e s := by
  refine or_congr ⟨And.right, fun there => ⟨rfl, there⟩⟩ ?_
  exact ⟨fun ⟨new, made, _⟩ => ⟨new, made⟩, fun ⟨new, made⟩ => ⟨new, made, rfl⟩⟩

/-- The rule that rewrites nothing is sound. -/
theorem sound_nothing : Sound fun _ _ => False := fun _ _ => False.elim

/-- A run is parallel to itself. -/
theorem reach_run (p : Program) (limit : Nat) (captured : ∀ s name closure, heap.Reaches e s →
      (heap.bindings s).find? name = some (.function closure) → known closure.identity) :
    (reach heap e known).SameEnd heap (reach heap e known).SameValue
      (p.eval limit e heap) (p.eval limit e heap) := by
  have start : (reach heap e known).SameHeap heap heap :=
    shared_sameHeap (fun _ _ => rfl) (fun _ _ => .outer) fun s name closure there found =>
      ⟨captured s name closure there found, there.captured found⟩
  have root : (reach heap e known).LinksScope heap e e := linksScope_reach_iff.mpr (.inl .root)
  exact RewritesBlock.program_inParallel (L := reach heap e known) (.refl _) sound_nothing limit root
    heap heap (.refl heap) start

/-- A function that is bound within reach captures a scope within reach. -/
theorem SameHeap.captured (same : (reach heap e known).SameHeap h h) {name : String}
    {closure : Closure} (found : (h.bindings s).find? name = some (.function closure))
    (there : heap.WithinReach h e s) :
    (reach heap e known).SameClosure h closure closure := by
  have values := same.bound s s (linksScope_reach_iff.mpr there) name
  rw [found] at values
  cases values with
  | some value =>
    cases value with
    | function closures => exact closures

/-- A scope that was there and is not reached is as it was. -/
theorem SameHeap.kept (same : (reach heap e known).SameHeap h h) (old : s < heap.scopes.size)
    (unreached : ¬ heap.Reaches e s) : h.scopes[s]? = heap.scopes[s]? :=
  same.left s old fun _ linked => unreached linked.2

/-- What is reached behind a run was within reach. -/
theorem SameHeap.withinReach (same : (reach heap e known).SameHeap h h)
    (reached : h.Reaches e s) : heap.WithinReach h e s := by
  induction reached with
  | root => exact .inl .root
  | @outer s o _ link ih =>
    have links := same.outward s s (linksScope_reach_iff.mpr ih)
    rw [link] at links
    cases links with
    | some link => exact linksScope_reach_iff.mp link
  | captured _ found ih => exact linksScope_reach_iff.mp (same.captured found ih).scope

end Linkage

open Linkage

variable {heap : Heap} {e f s : ScopeId}

namespace Program

/-- A run and itself go together, by what can be reached. -/
theorem sameEnd_eval (p : Program) (limit : Nat) (e : ScopeId) (heap : Heap) :
    (reach heap e fun _ => True).SameEnd heap (reach heap e fun _ => True).SameValue
      (p.eval limit e heap) (p.eval limit e heap) :=
  reach_run p limit fun _ _ _ _ _ => trivial

theorem sameHeap_left (p : Program) (limit : Nat) (e : ScopeId) (heap : Heap) :
    (reach heap e fun _ => True).SameHeap (p.left limit e heap) (p.left limit e heap) :=
  (p.sameEnd_eval limit e heap).left

/-- A run only adds to the heap. -/
theorem grows_left (p : Program) (limit : Nat) (e : ScopeId) (heap : Heap) :
    heap.Grows (p.left limit e heap) := (p.sameHeap_left limit e heap).grows

/-- Scopes that a run cannot reach stay as they are. -/
theorem left_kept (p : Program) (limit : Nat) (old : s < heap.scopes.size)
    (unreached : ¬ heap.Reaches e s) : (p.left limit e heap).scopes[s]? = heap.scopes[s]? :=
  (p.sameHeap_left limit e heap).kept old unreached

end Program

/-! ## Apart -/

namespace Heap

variable {p : Program} {limit : Nat}

/-- What is reached in a scope apart is left as it was. -/
theorem Apart.kept (apart : heap.Apart e f) (holds : heap.Holds f) (p : Program) (limit : Nat)
    (reached : heap.Reaches f s) : (p.left limit e heap).scopes[s]? = heap.scopes[s]? :=
  p.left_kept limit (holds.scopes s reached) (apart.symm s reached)

/-- A run leaves a heap that has all it can reach. -/
theorem Holds.run (holds : heap.Holds e) (p : Program) (limit : Nat) :
    (p.left limit e heap).Holds e := by
  have same : (reach heap e (· < heap.functions)).SameHeap (p.left limit e heap)
      (p.left limit e heap) := (reach_run p limit holds.functions).left
  have grown := p.grows_left limit e heap
  constructor
  · intro s reached
    rcases same.withinReach reached with there | made
    · exact Nat.lt_of_lt_of_le (holds.scopes s there) grown.scopes
    · exact made.2
  · intro s name closure reached found
    rcases (same.captured found (same.withinReach reached)).identity with known | made
    · exact Nat.lt_of_lt_of_le known.2 grown.functions
    · exact made.2.1

/-- A run leaves a heap that has all that can be reached apart from it. -/
theorem Holds.run_apart (holds : heap.Holds f) (apart : heap.Apart e f) (p : Program) (limit : Nat) :
    (p.left limit e heap).Holds f := by
  have grown := p.grows_left limit e heap
  have before {s : ScopeId} := reaches_of_kept (s := s) fun _ => apart.kept holds p limit
  constructor
  · exact fun s reached => Nat.lt_of_lt_of_le (holds.scopes s (before reached)) grown.scopes
  · intro s name closure reached found
    rw [bindings_congr (apart.kept holds p limit (before reached))] at found
    exact Nat.lt_of_lt_of_le (holds.functions s name closure (before reached) found) grown.functions

/-- **Scopes that are apart stay apart**, whatever is run in one of them. -/
theorem Apart.run (apart : heap.Apart e f) (holds : heap.Holds f) (p : Program) (limit : Nat) :
    (p.left limit e heap).Apart e f := by
  intro s here there
  have other := reaches_of_kept (fun _ => apart.kept holds p limit) there
  rcases (p.sameHeap_left limit e heap).withinReach here with reached | made
  · exact apart s reached other
  · exact Nat.not_lt_of_le made.1 (holds.scopes s other)

end Heap

/-! ## One run behind another -/

/-- A number, once there are `new` numbers in front of those that come behind `old` ones. -/
def shifted (old new n : Nat) : Nat := if n < old then n else n - old + new

/-- Numbers from before stay as they are. -/
theorem shifted_of_lt {old new n : Nat} (small : n < old) : shifted old new n = n := if_pos small

/-- What is in step has been shifted. -/
theorem InStep.eq_shifted {old new size n m : Nat} (step : InStep old new size n m) :
    m = shifted old new n := by
  obtain ⟨large, _, same⟩ := step
  rw [shifted, if_neg (Nat.not_lt_of_le large)]
  omega

/-- Where a scope is once a heap has grown: what comes behind the heap comes behind it still. -/
def Heap.place (before after : Heap) (s : ScopeId) : ScopeId :=
  shifted before.scopes.size after.scopes.size s

/-- A function, made once a heap has grown. -/
def Closure.moved (before after : Heap) (closure : Closure) : Closure :=
  { closure with
    identity := shifted before.functions after.functions closure.identity
    scope := before.place after closure.scope }

/-- A value, come to once a heap has grown. -/
def Value.moved (before after : Heap) : Value → Value
  | .function closure => .function (closure.moved before after)
  | value => value

namespace Linkage

variable {first second h k : Heap} {s t : ScopeId} {x y : Value}

/-- A heap and what it has grown to, where the scopes that are reached from a scope are the same. -/
def behind (first second : Heap) (holds : first.Holds f) (grown : first.Grows second) : Linkage :=
  shared first second (fun _ _ => False) (first.Reaches f) (· < first.functions) fun s reached =>
    .inl ⟨holds.scopes s reached, Nat.lt_of_lt_of_le (holds.scopes s reached) grown.scopes⟩

variable {holds : first.Holds f} {grown : first.Grows second}

/-- A scope goes with its place behind the other run. -/
theorem LinksScope.eq_place (linked : (behind first second holds grown).LinksScope h s t) :
    t = first.place second s := by
  rcases linked with ⟨rfl, reached⟩ | step
  · exact (shifted_of_lt (holds.scopes s reached)).symm
  · exact step.eq_shifted

/-- A function goes with its number behind the other run. -/
theorem LinksFunction.eq_shifted {n m : Nat}
    (linked : (behind first second holds grown).LinksFunction h n m) :
    m = shifted first.functions second.functions n := by
  rcases linked with ⟨rfl, known⟩ | step
  · exact (shifted_of_lt known).symm
  · exact step.eq_shifted

/-- Each scope within reach goes with its place. -/
theorem linksScope_behind (there : first.WithinReach h f s) :
    (behind first second holds grown).LinksScope h s (first.place second s) := by
  unfold Heap.place
  rcases there with reached | ⟨new, made⟩
  · rw [shifted_of_lt (holds.scopes s reached)]
    exact .inl ⟨rfl, reached⟩
  · have step : InStep first.scopes.size second.scopes.size h.scopes.size s
        (s - first.scopes.size + second.scopes.size) := ⟨new, made, by omega⟩
    rw [← step.eq_shifted]
    exact .inr step

/-- The value that goes with another is that value moved. -/
theorem SameValue.eq_moved (same : (behind first second holds grown).SameValue h x y) :
    y = x.moved first second := by
  cases same with
  | @function f g closures =>
    obtain ⟨_, _, _, _⟩ := f
    obtain ⟨_, _, _, _⟩ := g
    cases closures.signature
    cases closures.identity.eq_shifted
    cases closures.scope.eq_place
    cases closures.body.eq fun _ _ => False.elim
    rfl
  | number | boolean | nothing => rfl

/-- A run is parallel to one that finds what it reaches unchanged. -/
theorem behind_run (holds : first.Holds f) (grown : first.Grows second)
    (kept : ∀ s, first.Reaches f s → second.scopes[s]? = first.scopes[s]?) (q : Program)
    (max : Nat) :
    (behind first second holds grown).SameEnd first (behind first second holds grown).SameValue
      (q.eval max f first) (q.eval max f second) := by
  have start : (behind first second holds grown).SameHeap first second :=
    shared_sameHeap kept (fun _ _ => .outer) fun s name closure there found =>
      ⟨holds.functions s name closure there found, there.captured found⟩
  have root : (behind first second holds grown).LinksScope first f f :=
    linksScope_first.mpr ⟨rfl, .root⟩
  exact RewritesBlock.program_inParallel (L := behind first second holds grown) (.refl _)
    sound_nothing max root first second (.refl first) start

end Linkage

/-- Whether a program does the same in two heaps, of which one has grown to the other: it has the same
outcome, and the scopes that it reaches or makes lie within the same scopes and bind the same names to
the same values. What it makes in the second heap comes behind what that has more. -/
structure Program.RunsAlike (q : Program) (max : Nat) (f : ScopeId) (before after : Heap) :
    Prop where
  outcome : (q.eval max f).outcome after
    = ((q.eval max f).outcome before).map (Value.moved before after)
  outer? : ∀ s, before.WithinReach (q.left max f before) f s →
    (q.left max f after).outer? (before.place after s)
      = ((q.left max f before).outer? s).map (before.place after)
  bindings : ∀ s, before.WithinReach (q.left max f before) f s → ∀ name,
    ((q.left max f after).bindings (before.place after s)).find? name
      = (((q.left max f before).bindings s).find? name).map (Value.moved before after)

/-- A program does the same where all that it reaches is unchanged. -/
theorem Program.runsAlike_of_kept {before after : Heap} (holds : before.Holds f)
    (grown : before.Grows after)
    (kept : ∀ s, before.Reaches f s → after.scopes[s]? = before.scopes[s]?) (q : Program)
    (max : Nat) : q.RunsAlike max f before after := by
  have ends := behind_run holds grown kept q max
  have same := ends.left
  refine ⟨?_, fun s there => ?_, fun s there name => ?_⟩
  · unfold Eval.outcome
    generalize q.eval max f before = r, q.eval max f after = s at ends
    cases ends with
    | ok _ _ values => exact congrArg Except.ok values.eq_moved
    | error => rfl
  · exact (same.outward _ _ (linksScope_behind there)).eq_map fun _ _ => LinksScope.eq_place
  · exact (same.bound _ _ (linksScope_behind there) name).eq_map fun _ _ => SameValue.eq_moved

/-- **A run touches only what it can reach.** With a value or with an error, scopes that are not
reached from the scope of the run stay as they are, and a function that the run gives or newly binds
captures a scope that was reached from there before or that the run has made.

So programs in two scopes from which no common scope is reached do not affect each other. Behind a run
in the one, a program does in the other what it would have done without. It leaves all that is reached
from the first scope as it is. And the two scopes are still apart behind the run in the one, so the
same holds of whatever is run in them next. -/
theorem Program.run_withinReach (p : Program) (limit : Nat) (e : ScopeId) (heap : Heap) :
    (∀ s < heap.scopes.size, ¬ heap.Reaches e s →
      (p.left limit e heap).scopes[s]? = heap.scopes[s]?) ∧
    (∀ closure left, p.eval limit e heap = .ok (.function closure) left →
      heap.WithinReach left e closure.scope) ∧
    (∀ s name closure, ((p.left limit e heap).bindings s).find? name = some (.function closure) →
      (heap.bindings s).find? name ≠ some (.function closure) →
        heap.WithinReach (p.left limit e heap) e closure.scope) ∧
    ∀ (q : Program) (max : Nat) (f : ScopeId), heap.Holds e → heap.Holds f → heap.Apart e f →
      q.RunsAlike max f heap (p.left limit e heap) ∧
      (∀ s, (p.left limit e heap).Reaches e s →
        (q.left max f (p.left limit e heap)).scopes[s]? = (p.left limit e heap).scopes[s]?) ∧
      (p.left limit e heap).Holds e ∧ (p.left limit e heap).Holds f ∧
      (p.left limit e heap).Apart e f := by
  have same := p.sameHeap_left limit e heap
  refine ⟨fun s => p.left_kept limit, fun closure left given => ?_,
    fun s name closure found new => ?_, fun q max f here there apart => ?_⟩
  · obtain ⟨_, _, again, values⟩ := (p.sameEnd_eval limit e heap).exists_ok given
    -- A run and itself go together, so what it gives goes with itself, which is to be within reach.
    cases given.symm.trans again
    cases values with
    | function closures => exact linksScope_reach_iff.mp closures.scope
  · by_cases within : heap.WithinReach (p.left limit e heap) e s
    · exact linksScope_reach_iff.mp (same.captured found within).scope
    · obtain ⟨unreached, unmade⟩ := not_or.mp within
      -- A scope that is not within reach has been there unchanged, or is not there at all.
      refine absurd found ?_
      by_cases old : s < heap.scopes.size
      · rwa [Heap.bindings_congr (p.left_kept limit old unreached)]
      · have outside : (p.left limit e heap).scopes.size ≤ s :=
          Nat.le_of_not_lt fun inside => unmade ⟨Nat.le_of_not_lt old, inside⟩
        rw [Heap.find?_of_size_le outside]
        exact nofun
  · have whole := here.run p limit
    have still := apart.run there p limit
    refine ⟨q.runsAlike_of_kept there (p.grows_left limit e heap)
      (fun _ => apart.kept there p limit) max, fun s reached => ?_, whole,
      there.run_apart apart p limit, still⟩
    exact still.symm.kept whole q max reached

/-! ## Two rooms -/

/-- Two scopes, neither within the other, in which nothing is bound. -/
def twoRooms : Heap := ((Heap.empty.newScope none .empty).2.newScope none .empty).2

/-- Declares a function that makes a function, and calls it. -/
def makeOne : Program :=
  ⟨[.declaration ⟨some "f", []⟩ [.result (.function ⟨none, []⟩ [])], .expression (.call "f" [])]⟩

/-- Nothing is bound in the two rooms. -/
theorem find?_twoRooms (name : String) : (twoRooms.bindings s).find? name = none := by
  rw [twoRooms, Heap.bindings_newScope, Heap.bindings_newScope]
  split_ifs <;> rfl

theorem outer?_twoRooms : twoRooms.outer? s = none := by
  rw [twoRooms, Heap.outer?_newScope, Heap.outer?_newScope]
  split_ifs <;> rfl

/-- From each room only itself is reached. -/
theorem eq_of_reaches_twoRooms (reached : twoRooms.Reaches e s) : s = e := by
  induction reached with
  | root => rfl
  | outer _ link => cases outer?_twoRooms.symm.trans link
  | captured _ found => cases (find?_twoRooms _).symm.trans found

/-- The heap has all that is reached from either room. -/
theorem holds_twoRooms (inside : e < 2) : twoRooms.Holds e where
  scopes _ reached := eq_of_reaches_twoRooms reached ▸ inside
  functions _ _ _ _ found := nomatch (find?_twoRooms _).symm.trans found

/-- In either room a scope and two functions are made, in the second one behind those of the first. -/
theorem run_withinReach_twoRooms :
    twoRooms.Holds 0 ∧ twoRooms.Holds 1 ∧ twoRooms.Apart 0 1 ∧
      (makeOne.left 1 0 twoRooms).scopes[1]? = twoRooms.scopes[1]? ∧
      (∃ left, makeOne.eval 1 0 twoRooms = .ok (.function ⟨1, ⟨none, []⟩, [], 2⟩) left ∧
        twoRooms.WithinReach left 0 2) ∧
      (∃ f, ((makeOne.left 1 0 twoRooms).bindings 0).find? "f" = some (.function f) ∧
        twoRooms.WithinReach (makeOne.left 1 0 twoRooms) 0 f.scope) ∧
      (makeOne.eval 1 1).outcome twoRooms = .ok (.function ⟨1, ⟨none, []⟩, [], 2⟩) ∧
      (makeOne.eval 1 1).outcome (makeOne.left 1 0 twoRooms)
        = .ok (.function ⟨3, ⟨none, []⟩, [], 3⟩) := by
  have apart : twoRooms.Apart 0 1 := fun s here there => by
    cases (eq_of_reaches_twoRooms here).symm.trans (eq_of_reaches_twoRooms there)
  have first := holds_twoRooms (e := 0) (by decide)
  have second := holds_twoRooms (e := 1) (by decide)
  obtain ⟨kept, given, bound, others⟩ := makeOne.run_withinReach 1 0 twoRooms
  have ran : makeOne.eval 1 0 twoRooms
      = .ok (.function ⟨1, ⟨none, []⟩, [], 2⟩) (makeOne.left 1 0 twoRooms) := by
    with_unfolding_all rfl
  have declared : ((makeOne.left 1 0 twoRooms).bindings 0).find? "f"
      = some (.function ⟨0, ⟨some "f", []⟩, [.result (.function ⟨none, []⟩ [])], 0⟩) := by
    with_unfolding_all rfl
  have new (closure : Closure) : (twoRooms.bindings 0).find? "f" ≠ some (.function closure) := by
    rw [find?_twoRooms]
    exact (Option.some_ne_none _).symm
  have alone : (makeOne.eval 1 1).outcome twoRooms = .ok (.function ⟨1, ⟨none, []⟩, [], 2⟩) := by
    with_unfolding_all rfl
  have places : twoRooms.functions = 0 ∧ (makeOne.left 1 0 twoRooms).functions = 2 ∧
      twoRooms.scopes.size = 2 ∧ (makeOne.left 1 0 twoRooms).scopes.size = 3 := by
    with_unfolding_all exact ⟨rfl, rfl, rfl, rfl⟩
  refine ⟨first, second, apart, kept 1 (by decide) (apart.symm 1 .root),
    ⟨_, ran, given _ _ ran⟩, ⟨_, declared, bound 0 "f" _ declared (new _)⟩, alone, ?_⟩
  rw [(others makeOne 1 1 first second apart).1.outcome, alone]
  obtain ⟨before, after, scopes, more⟩ := places
  simp only [Except.map, Value.moved, Closure.moved, Heap.place, shifted, before, after, scopes, more]
  rfl

end Scriptlet
