import Mathlib.Data.List.Chain
import Scriptlet.Proofs.Evaluation.Termination
import Scriptlet.Proofs.Heap

/-!
# The calls that are open

The recursion of `Task.body` carries the number of open calls along with the heap: a call adds one to
it in front of its body and takes it away again behind it. Here this number is compared with what
has happened. A run of the recursion is told as a list of marks, one where a task is begun and one
where it has ended (`Plan.Runs`). The marks of which the task belongs to a call say that a body has
been entered or left, so they can be counted without a look at the number that is carried along.

What is done for a task is orderly (`Plan.Orderly`): it asks for tasks at one depth only, it passes on
every error at once, and it does not run out of calls by itself. Only a call without room does that.
So one induction over runs shows how each mark follows from those in front of it (`Plan.Runs.tells`),
and another one what comes behind the beginning of a call (`Plan.Runs.isChain_append`).
-/

namespace Scriptlet

open Plan

/-! ## Runs -/

/-- A task has been begun or has ended, at the request of another one or of none. -/
inductive Mark where
  | entered (caller : Option Task) (task : Task) (standing : Standing)
  | left (caller : Option Task) (task : Task) (outcome : Except RuntimeError task.Result)
      (standing : Standing)

namespace Mark

/-- Where the evaluation stands at a mark. -/
def standing : Mark → Standing
  | entered _ _ standing => standing
  | left _ _ _ standing => standing

/-- Whether the body of a function is entered: that is all that a call asks for. -/
def entersBody : Mark → Bool
  | entered (some (.call _ _)) _ _ => true
  | _ => false

/-- Whether the body of a function is left. -/
def leavesBody : Mark → Bool
  | left (some (.call _ _)) _ _ _ => true
  | _ => false

/-- Whether a call is begun with as many calls open as there may be. -/
def Overflows (limit : Nat) : Mark → Prop
  | entered _ (.call _ _) standing => standing.depth = limit
  | _ => False

/-- Where a call is begun without room, as many calls are open as there may be. -/
theorem Overflows.depth_eq {limit : Nat} {mark : Mark} (h : mark.Overflows limit) :
    mark.standing.depth = limit := by
  cases mark with
  | entered caller task standing =>
    cases task with
    | call closure arguments => exact h
    | program | block | stmt | expr => exact h.elim
  | left => exact h.elim

/-- What comes behind the beginning of a call: without room the call ends at once, and with room its
body is entered in a new scope. -/
def Leads (limit : Nat) : Mark → Mark → Prop
  | entered caller (.call closure arguments) standing, next =>
    next = if limit ≤ standing.depth
      then left caller (.call closure arguments) (.error (.tooManyCalls limit)) standing
      else entered (some (.call closure arguments)) (.block closure.body standing.heap.scopes.size)
        ⟨standing.heap.apply (.call closure arguments), standing.depth + 1⟩
  | _, _ => True

end Mark

/-- A plan that is carried out on behalf of a task is done in the end, and what has been begun and
has ended on the way. -/
inductive Plan.Runs (limit : Nat) : {α : Type} → Option Task → Plan α → List Mark →
    Except RuntimeError α → Standing → Prop where
  | done {α : Type} (caller : Option Task) (outcome : Except RuntimeError α) (left : Standing) :
      Runs limit caller (.done outcome left) [] outcome left
  | ask {α : Type} {caller : Option Task} {task : Task} {standing there left : Standing}
      {next : Except RuntimeError task.Result → Standing → Plan α} {inner rest : List Mark}
      {result : Except RuntimeError task.Result} {outcome : Except RuntimeError α} :
      Runs limit (some task) (task.body limit standing) inner result there →
      Runs limit caller (next result there) rest outcome left →
      Runs limit caller (.ask task standing next)
        (.entered caller task standing :: inner ++ .left caller task result there :: rest)
        outcome left

/-- The number of bodies that have been entered. -/
def entries (marks : List Mark) : Nat := marks.countP Mark.entersBody

/-- The number of bodies that have been left. -/
def exits (marks : List Mark) : Nat := marks.countP Mark.leavesBody

/-- Some call has been begun with as many calls open as there may be. -/
def Overflowed (limit : Nat) (marks : List Mark) : Prop := ∃ mark ∈ marks, mark.Overflows limit

/-- How a mark follows from those in front of it, in what is begun with some number of calls open. -/
structure Mark.Tallies (limit depth : Nat) (front : List Mark) (mark : Mark) : Prop where
  /-- As many calls are open as in front of all, and as there are bodies entered and not left. -/
  counted : mark.standing.depth + exits front = depth + entries (front ++ [mark])
  within : mark.standing.depth ≤ limit
  /-- There is a call to close behind a body. -/
  open_of_leavesBody : mark.leavesBody → 0 < mark.standing.depth
  /-- What ends has run out of calls if a call has overflowed, and for no other reason. -/
  overflowed : ∀ caller task outcome standing, mark = .left caller task outcome standing →
    ∀ k, outcome = .error (.tooManyCalls k) ↔ k = limit ∧ Overflowed limit front

variable {α β : Type} {limit depth more : Nat}

/-- A plan runs in one way. -/
theorem Plan.Runs.unique {caller : Option Task} {plan : Plan α} {marks others : List Mark}
    {outcome final : Except RuntimeError α} {left last : Standing}
    (run : plan.Runs limit caller marks outcome left)
    (also : plan.Runs limit caller others final last) :
    others = marks ∧ final = outcome ∧ last = left := by
  induction run generalizing others last with
  | done => cases also; exact ⟨rfl, rfl, rfl⟩
  | ask _ _ first second =>
    cases also with
    | ask inside behind =>
      obtain ⟨rfl, rfl, rfl⟩ := first inside
      obtain ⟨rfl, rfl, rfl⟩ := second behind
      exact ⟨rfl, rfl, rfl⟩

/-- A plan that ends with what follows it has run before that. -/
theorem exists_runs_of_andThen (n : Nat) : ∀ {α β : Type} (caller : Option Task) (plan : Plan α)
    (next : Except RuntimeError α → Standing → Plan β) {final : Except RuntimeError β}
    {last : Standing}, (step limit)^[n] (plan.andThen next) = .done final last →
    ∃ marks outcome left, plan.Runs limit caller marks outcome left ∧
      ∃ m ≤ n, (step limit)^[m] (next outcome left) = .done final last := by
  induction n using Nat.strongRecOn with
  | ind n ih =>
    intro α β caller plan next final last ended
    cases plan with
    | done outcome left => exact ⟨[], outcome, left, .done .., n, Nat.le_refl n, ended⟩
    | ask task standing rest =>
      cases n with
      | zero => cases ended
      | succ n =>
        rw [Function.iterate_succ_apply] at ended
        -- The steps of the task are a plan of their own, which is run first, with the rest of the
        -- asking plan behind it.
        obtain ⟨inner, result, there, first, m, fewer, ended⟩ :=
          ih n (Nat.lt_succ_self n) (some task) (task.body limit standing)
            (fun result there => (rest result there).andThen next) ended
        obtain ⟨marks, outcome, left, second, l, still, ended⟩ :=
          ih m (Nat.lt_succ_of_le fewer) caller (rest result there) next ended
        exact ⟨_, outcome, left, .ask first second, l,
          Nat.le_succ_of_le (Nat.le_trans still fewer), ended⟩

/-- What ends runs. -/
theorem Plan.Ends.exists_runs {plan : Plan α} {outcome : Except RuntimeError α} {left : Standing}
    (ends : plan.Ends limit outcome left) (caller : Option Task) :
    ∃ marks, plan.Runs limit caller marks outcome left := by
  obtain ⟨n, ended⟩ := ends
  rw [← plan.andThen_done] at ended
  obtain ⟨marks, final, last, run, m, -, same⟩ := exists_runs_of_andThen n caller plan .done ended
  rw [step_iterate_done] at same
  cases same
  exact ⟨marks, run⟩

/-! ## Order -/

/-- A plan of a task that is begun with some number of calls open. It asks for other tasks with
`more` calls open, passes on every error that one of these ends with, and ends with as many calls
open as in front of it. It does not run out of calls of its own accord. -/
def Plan.Orderly (depth more : Nat) : Plan α → Prop
  | .done outcome left => left.depth = depth ∧ ∀ k, outcome ≠ .error (.tooManyCalls k)
  | .ask _ standing next => standing.depth = depth + more ∧
      (∀ e left, left.depth = depth + more →
        ∃ last, next (.error e) left = .done (.error e) last ∧ last.depth = depth) ∧
      ∀ a left, left.depth = depth + more → (next (.ok a) left).Orderly depth more

namespace Plan.Orderly

/-- Plans behind one another are orderly if the second is wherever the first goes on, and passes on
errors. -/
theorem andThen {plan : Plan α} {next : Except RuntimeError α → Standing → Plan β}
    (orderly : plan.Orderly depth more)
    (passes : ∀ e left, next (.error e) left = .done (.error e) left)
    (further : ∀ a left, left.depth = depth → (next (.ok a) left).Orderly depth more) :
    (plan.andThen next).Orderly depth more := by
  induction plan with
  | done outcome left =>
    obtain ⟨same, within⟩ := orderly
    cases outcome with
    | ok a => exact further a left same
    | error e =>
      change Orderly depth more (next (.error e) left)
      rw [passes]
      exact ⟨same, fun k out => within k (by cases out; rfl)⟩
  | ask task standing rest ih =>
    obtain ⟨there, fails, goesOn⟩ := orderly
    refine ⟨there, fun e left same => ?_, fun a left same => ih _ _ (goesOn a left same)⟩
    obtain ⟨last, ended, back⟩ := fails e left same
    refine ⟨last, ?_, back⟩
    change (rest (.error e) left).andThen next = _
    rw [ended]
    exact passes e last

end Plan.Orderly

/-- What is up to every limit runs out of none. -/
theorem ne_tooManyCalls_of_upTo {y : Eval α} (upTo : ∀ k, Eval.UpTo k y y) (heap : Heap) (k : Nat) :
    y.outcome heap ≠ .error (.tooManyCalls k) := by
  unfold Eval.outcome
  rcases upTo (k + 1) heap with ⟨left, out⟩ | ⟨-, never⟩
  · rw [out]
    intro same
    cases same
  · cases ended : y heap with
    | ok a left => exact nofun
    | error e left =>
      intro same
      cases same
      exact never k left ended

/-- What is done without a call is orderly as far as it asks for what is orderly. -/
theorem spreads_orderly : Procedure.Spreads fun {α} (x : Procedure α) (_ : Eval α) =>
    ∀ heap, (x ⟨heap, depth⟩).Orderly depth 0 where
  lift upTo heap := ⟨rfl, ne_tooManyCalls_of_upTo upTo heap⟩
  bind first next heap := by
    refine (first heap).andThen (fun e left => rfl) fun a left same => ?_
    obtain ⟨there, _⟩ := left
    subst same
    exact next a there

/-- The number of calls that are opened for what is asked for. -/
def opened : Option Task → Nat
  | some (.call _ _) => 1
  | _ => 0

/-- A task that is no call asks for its tasks with as many calls open as there are. -/
theorem body_orderly_of_not_call (task : Task) (outside : opened (some task) = 0) (heap : Heap) :
    (task.body limit ⟨heap, depth⟩).Orderly depth 0 := by
  refine @Procedure.Spreads.body _ limit depth spreads_orderly task (fun other _ heap => ?_) ?_ heap
  · exact ⟨rfl, fun e left same => ⟨left, rfl, same⟩, fun a left same => ⟨same, nofun⟩⟩
  · rintro closure arguments rfl
    cases outside

/-- A call without room for it fails. -/
theorem call_body_of_le (closure : Closure) (arguments : List Value) (heap : Heap)
    (full : limit ≤ depth) :
    (Task.call closure arguments).body limit ⟨heap, depth⟩
      = .done (.error (.tooManyCalls limit)) ⟨heap, depth⟩ := by
  change Plan.andThen (demandRoom limit ⟨heap, depth⟩) _ = _
  rw [show demandRoom limit ⟨heap, depth⟩ = .done (.error (.tooManyCalls limit)) ⟨heap, depth⟩
    from if_pos full]
  rfl

/-- A call with room for it asks for its body in a new scope. -/
theorem call_body_of_lt (closure : Closure) (arguments : List Value) (heap : Heap)
    (room : depth < limit) :
    (Task.call closure arguments).body limit ⟨heap, depth⟩
      = (evaluateInCall (.block closure.body heap.scopes.size) >>= fun flow => liftM flow.innermost)
        ⟨heap.apply (.call closure arguments), depth⟩ := by
  change Plan.andThen (demandRoom limit ⟨heap, depth⟩) _ = _
  rw [demandRoom_of_lt room]
  rfl

/-- A body is asked for with one call more open. -/
theorem evaluateInCall_orderly (body : List Stmt) (scope : ScopeId) (heap : Heap) :
    ((evaluateInCall (.block body scope) >>= fun flow => (liftM flow.innermost : Procedure Value))
      ⟨heap, depth⟩).Orderly depth 1 := by
  have closed (left : Standing) (same : left.depth = depth + 1) : left.depth - 1 = depth := by
    rw [same, Nat.add_sub_cancel]
  refine ⟨rfl, fun e left same => ⟨_, rfl, closed left same⟩, fun flow left same => ?_⟩
  refine ⟨closed left same, ?_⟩
  cases flow <;> exact nofun

/-! ## What a run tells -/

/-- Something holds of each mark and those in front of it. -/
def Along (P : List Mark → Mark → Prop) (marks : List Mark) : Prop :=
  ∀ front mark back, marks = front ++ mark :: back → P front mark

namespace Along

variable {P : List Mark → Mark → Prop} {marks others : List Mark}

/-- No mark stands along an empty list. -/
theorem nil : Along P [] := fun _ _ _ split =>
  absurd (List.append_eq_nil_iff.mp split.symm).2 (List.cons_ne_nil _ _)

/-- Along two lists one behind the other, the marks of the second have the first in front as well.
-/
theorem append (first : Along P marks) (second : Along (fun front => P (marks ++ front)) others) :
    Along P (marks ++ others) := by
  intro front mark back split
  rcases List.append_eq_append_iff.mp split with ⟨middle, rfl, same⟩ | ⟨middle, same, ahead⟩
  · exact second middle mark back same
  · cases middle with
    | nil =>
      obtain rfl : marks = front := same.trans (List.append_nil front)
      have here : P (marks ++ []) mark := second [] mark back ahead.symm
      rwa [List.append_nil] at here
    | cons other rest =>
      obtain ⟨rfl, -⟩ := List.cons.inj ahead
      exact first front mark rest same

/-- A single mark has nothing in front. -/
theorem one {mark : Mark} (here : P [] mark) : Along P [mark] := by
  intro front other back split
  cases front with
  | nil => cases split; exact here
  | cons _ _ => exact absurd (List.cons.inj split).2.symm (List.append_ne_nil_of_right_ne_nil _ nofun)

/-- Along a list with a mark in front, that mark is in front of all others. -/
theorem cons {mark : Mark} (here : P [] mark) (later : Along (fun front => P (mark :: front)) marks) :
    Along P (mark :: marks) := append (one here) later

end Along

section

variable {caller : Option Task} {task : Task} {standing : Standing} {marks others : List Mark}

/-- Bodies entered in two parts of a run are entered in the one or the other. -/
theorem entries_append : entries (marks ++ others) = entries marks + entries others :=
  List.countP_append

/-- Bodies left likewise. -/
theorem exits_append : exits (marks ++ others) = exits marks + exits others := List.countP_append

/-- A task of a call enters its body. -/
@[simp]
theorem entries_entered :
    entries (.entered caller task standing :: marks) = opened caller + entries marks := by
  rw [Nat.add_comm]
  exact List.countP_cons.trans (congrArg (entries marks + ·) (by
    rcases caller with _ | (_ | _ | _ | _ | _) <;> rfl))

/-- The beginning of a task leaves no body. -/
@[simp]
theorem exits_entered : exits (.entered caller task standing :: marks) = exits marks :=
  List.countP_cons_of_neg nofun

/-- The end of a task enters none. -/
@[simp]
theorem entries_left {outcome : Except RuntimeError task.Result} :
    entries (.left caller task outcome standing :: marks) = entries marks :=
  List.countP_cons_of_neg nofun

/-- The end of a task of a call leaves its body. -/
@[simp]
theorem exits_left {outcome : Except RuntimeError task.Result} :
    exits (.left caller task outcome standing :: marks) = opened caller + exits marks := by
  rw [Nat.add_comm]
  exact List.countP_cons.trans (congrArg (exits marks + ·) (by
    rcases caller with _ | (_ | _ | _ | _ | _) <;> rfl))

end

/-- Calls without room in two parts of a run are in the one or the other. -/
theorem overflowed_append {marks others : List Mark} :
    Overflowed limit (marks ++ others) ↔ Overflowed limit marks ∨ Overflowed limit others := by
  simp only [Overflowed, List.mem_append, or_and_right, exists_or]

/-- A call without room is at the first mark or behind it. -/
theorem overflowed_cons {mark : Mark} {marks : List Mark} :
    Overflowed limit (mark :: marks) ↔ mark.Overflows limit ∨ Overflowed limit marks := by
  simp only [Overflowed, List.mem_cons, or_and_right, exists_or, exists_eq_left]

/-- Without marks there is no such call. -/
theorem not_overflowed_nil : ¬Overflowed limit [] := by
  rintro ⟨mark, mem, -⟩
  cases mem

/-- Marks tally behind others as well, where as many calls are open behind these. -/
theorem Mark.Tallies.behind {inside : Nat} {ahead front : List Mark} {mark : Mark}
    (tallies : mark.Tallies limit inside front)
    (here : inside + exits ahead = depth + entries ahead) (room : ¬Overflowed limit ahead) :
    mark.Tallies limit depth (ahead ++ front) where
  counted := by
    have counted := tallies.counted
    rw [exits_append, List.append_assoc, entries_append]
    omega
  within := tallies.within
  open_of_leavesBody := tallies.open_of_leavesBody
  overflowed caller task outcome standing same k := by
    rw [overflowed_append, or_iff_right room]
    exact tallies.overflowed caller task outcome standing same k

/-- What is told by the marks so far, with `more` calls open that will be closed behind them. -/
structure Tells (limit depth more : Nat) (marks : List Mark) (outcome : Except RuntimeError α)
    (left : Standing) : Prop where
  depth_eq : left.depth = depth + more
  entries_eq : entries marks = exits marks + more
  tallies : Along (Mark.Tallies limit depth) marks
  overflowed : ∀ k, outcome = .error (.tooManyCalls k) ↔ k = limit ∧ Overflowed limit marks

namespace Tells

variable {caller : Option Task} {task : Task} {standing there left : Standing}
  {marks rest : List Mark} {result : Except RuntimeError task.Result}
  {outcome : Except RuntimeError α}

/-- Without marks nothing has been entered, left or refused. -/
theorem nil (same : left.depth = depth) (within : ∀ k, outcome ≠ .error (.tooManyCalls k)) :
    Tells limit depth 0 [] outcome left where
  depth_eq := same
  entries_eq := rfl
  tallies := .nil
  overflowed k := iff_of_false (within k) fun exceeds => not_overflowed_nil exceeds.2

/-- The beginning of a task tallies, as nothing is in front of it but the call it belongs to. -/
theorem tallies_entered (here : standing.depth = depth + opened caller)
    (within : standing.depth ≤ limit) :
    (Mark.entered caller task standing).Tallies limit depth [] where
  counted := by
    rw [List.nil_append, entries_entered]
    exact here
  within := within
  open_of_leavesBody leaves := by cases leaves
  overflowed _ _ _ _ same := by cases same

/-- A task that is begun with room for it tells what is told behind its beginning. -/
theorem entered (here : standing.depth = depth + opened caller) (within : standing.depth ≤ limit)
    (room : ¬(Mark.entered caller task standing).Overflows limit)
    (told : Tells limit standing.depth 0 marks result there) :
    Tells limit depth (opened caller) (.entered caller task standing :: marks) result there where
  depth_eq := told.depth_eq.trans here
  entries_eq := by
    rw [entries_entered, exits_entered, told.entries_eq, Nat.add_zero, Nat.add_comm]
  tallies := by
    refine .cons (tallies_entered here within) fun front mark back split => ?_
    have open_here : standing.depth + exits [.entered caller task standing]
        = depth + entries [.entered caller task standing] := by
      rw [exits_entered, entries_entered]
      exact here
    refine (told.tallies front mark back split).behind open_here ?_
    rw [overflowed_cons, or_iff_left not_overflowed_nil]
    exact room
  overflowed k := by rw [overflowed_cons, told.overflowed, or_iff_right room]

/-- A call that is begun without room for it ends at once. -/
theorem full {closure : Closure} {arguments : List Value}
    (here : standing.depth = depth + opened caller) (full : standing.depth = limit) :
    Tells limit depth (opened caller) [.entered caller (.call closure arguments) standing]
      (.error (.tooManyCalls limit) : Except RuntimeError α) standing where
  depth_eq := here
  entries_eq := by
    rw [entries_entered, exits_entered]
    exact Nat.add_comm ..
  tallies := .one (tallies_entered here (Nat.le_of_eq full))
  overflowed k := by
    rw [overflowed_cons]
    constructor
    · intro same
      cases same
      exact ⟨rfl, .inl full⟩
    · rintro ⟨rfl, -⟩
      rfl

/-- The end of a task tallies with what was told in front of it. -/
theorem tallies_left (told : Tells limit depth (opened caller) marks result there)
    (within : depth + opened caller ≤ limit) :
    (Mark.left caller task result there).Tallies limit depth marks where
  counted := by
    have depth_eq := told.depth_eq
    have entries_eq := told.entries_eq
    rw [entries_append, entries_left]
    change there.depth + exits marks = depth + (entries marks + 0)
    omega
  within := Nat.le_trans (Nat.le_of_eq told.depth_eq) within
  open_of_leavesBody leaves := by
    change 0 < there.depth
    rw [told.depth_eq]
    rcases caller with _ | (_ | _ | _ | _ | _) <;> cases leaves
    exact Nat.succ_pos _
  overflowed _ _ _ _ same := by cases same; exact told.overflowed

/-- No call is begun where a task ends. -/
theorem not_overflowed_left : ¬(Mark.left caller task result there).Overflows limit := id

/-- The end of a task closes the call that has been opened for it. -/
theorem closed (told : Tells limit depth (opened caller) marks result there)
    (within : depth + opened caller ≤ limit) (same : left.depth = depth) :
    Tells limit depth 0 (marks ++ [.left caller task result there]) result left where
  depth_eq := same
  entries_eq := by
    rw [entries_append, exits_append, entries_left, exits_left, told.entries_eq]
    exact Nat.add_assoc ..
  tallies := by
    refine told.tallies.append (.one ?_)
    rw [List.append_nil]
    exact tallies_left told within
  overflowed k := by
    rw [overflowed_append, overflowed_cons, or_iff_right not_overflowed_left,
      or_iff_left not_overflowed_nil]
    exact told.overflowed k

/-- An error that is passed on is told by the same marks, whatever was to be computed. -/
theorem error {β : Type} {e : RuntimeError} {more : Nat}
    (told : Tells limit depth more marks (.error e : Except RuntimeError β) left) :
    Tells limit depth more marks (.error e : Except RuntimeError α) left where
  depth_eq := told.depth_eq
  entries_eq := told.entries_eq
  tallies := told.tallies
  overflowed k := by
    rw [← told.overflowed, Except.error.injEq, Except.error.injEq]

/-- What is told in two parts, the first of which succeeds, is told by both together. -/
theorem append {β : Type} {b : β}
    (first : Tells limit depth 0 marks (.ok b : Except RuntimeError β) there)
    (second : Tells limit depth 0 rest outcome left) :
    Tells limit depth 0 (marks ++ rest) outcome left := by
  have room : ¬Overflowed limit marks := by
    intro exceeds
    cases (first.overflowed limit).mpr ⟨rfl, exceeds⟩
  constructor
  case depth_eq => exact second.depth_eq
  case entries_eq =>
    rw [entries_append, exits_append, first.entries_eq, second.entries_eq]
    rfl
  case tallies =>
    refine first.tallies.append fun front mark back split => ?_
    refine (second.tallies front mark back split).behind ?_ room
    rw [first.entries_eq]
    rfl
  case overflowed =>
    intro k
    rw [second.overflowed, overflowed_append, or_iff_right room]

end Tells

/-- What is done for a task is orderly if there is room for it, and there is room for all it asks. -/
theorem body_orderly {caller : Option Task} (task : Task) (standing : Standing)
    (within : standing.depth ≤ limit)
    (room : ¬(Mark.entered caller task standing).Overflows limit) :
    standing.depth + opened (some task) ≤ limit ∧
      (task.body limit standing).Orderly standing.depth (opened (some task)) := by
  obtain ⟨heap, depth⟩ := standing
  cases task with
  | call closure arguments =>
    have less : depth < limit := Nat.lt_of_le_of_ne within room
    rw [call_body_of_lt closure arguments heap less]
    exact ⟨less, evaluateInCall_orderly _ _ _⟩
  | program | block | stmt | expr => exact ⟨within, body_orderly_of_not_call _ rfl heap⟩

/-- Every run of an orderly plan tells its marks, by induction on the run. -/
theorem Plan.Runs.tells {caller : Option Task} {plan : Plan α} {marks : List Mark}
    {outcome : Except RuntimeError α} {left : Standing}
    (run : plan.Runs limit caller marks outcome left)
    (orderly : plan.Orderly depth (opened caller)) (within : depth + opened caller ≤ limit) :
    Tells limit depth 0 marks outcome left := by
  induction run generalizing depth with
  | done caller outcome left => exact .nil orderly.1 orderly.2
  | @ask α caller task standing there left next inner rest result outcome first second
      ihInner ihRest =>
    obtain ⟨here, fails, goesOn⟩ := orderly
    have inside : standing.depth ≤ limit := here.symm ▸ within
    have told : Tells limit depth (opened caller) (.entered caller task standing :: inner)
        result there := by
      -- Only a call can overflow, and then it has no marks between its beginning and its end.
      by_cases exceeds : (Mark.entered caller task standing).Overflows limit
      · cases task with
        | call closure arguments =>
          have ended := call_body_of_le closure arguments standing.heap (Nat.le_of_eq exceeds.symm)
          rw [ended] at first
          cases first
          exact .full here exceeds
        | program | block | stmt | expr => exact exceeds.elim
      · obtain ⟨room, orderly⟩ := body_orderly task standing inside exceeds
        exact .entered here inside exceeds (ihInner orderly room)
    rw [List.append_cons]
    cases result with
    | ok a =>
      have ended : Tells limit depth 0 _ (.ok a : Except RuntimeError task.Result)
        { there with depth := depth } := told.closed within rfl
      exact ended.append (ihRest (goesOn a there told.depth_eq) within)
    | error e =>
      -- An error is passed on, so nothing else is begun behind it.
      obtain ⟨last, passed, back⟩ := fails e there told.depth_eq
      rw [passed] at second
      cases second
      rw [List.append_nil]
      exact (told.closed within back).error

/-! ## What comes next -/

/-- Behind the beginning of a call comes its end, or the beginning of its body if there is room. Of
other tasks nothing is said. -/
theorem leads_head {caller : Option Task} {task : Task} {standing there : Standing}
    {inner back : List Mark} {result : Except RuntimeError task.Result}
    (run : (task.body limit standing).Runs limit (some task) inner result there) :
    ∀ next ∈ (inner ++ .left caller task result there :: back).head?,
      Mark.Leads limit (.entered caller task standing) next := by
  intro next first
  cases task with
  | program | block | stmt | expr => trivial
  | call closure arguments =>
    by_cases full : limit ≤ standing.depth
    · rw [call_body_of_le closure arguments standing.heap full] at run
      cases run
      obtain rfl := Option.mem_some.mp first
      exact (if_pos full).symm
    · have body := call_body_of_lt closure arguments standing.heap (Nat.lt_of_not_le full)
      rw [body] at run
      cases run
      obtain rfl := Option.mem_some.mp first
      exact (if_neg full).symm

/-- In every run, what comes behind the beginning of a call is what the call does. This is said with
something behind the run, since the run may end with anything. -/
theorem Plan.Runs.isChain_append {caller : Option Task} {plan : Plan α} {marks back : List Mark}
    {outcome : Except RuntimeError α} {left : Standing}
    (run : plan.Runs limit caller marks outcome left) (behind : back.IsChain (Mark.Leads limit)) :
    (marks ++ back).IsChain (Mark.Leads limit) := by
  induction run generalizing back with
  | done => exact behind
  | ask first _ ihInner ihRest =>
    simp only [List.cons_append, List.append_assoc]
    refine List.isChain_cons.mpr ⟨leads_head first, ihInner ?_⟩
    exact List.isChain_cons.mpr ⟨fun _ _ => trivial, ihRest behind⟩

/-- **The number of open calls is exact.** Every task, begun with as many calls open as may be or
fewer, runs in exactly one way, ends as it does by `callsWithin`, and leaves as many calls open. All
along the run, as many are open as in front of it and as there are bodies entered and not left, and
never more than the limit. A call is begun with as many open as there may be, and then its body is not
entered, if and only if the run ends with the error that says so. -/
theorem openCalls_exact (task : Task) (heap : Heap) (within : depth ≤ limit) :
    ∃ marks,
      (∀ others outcome left,
        (evaluate task ⟨heap, depth⟩).Runs limit none others outcome left ↔
          others = marks ∧ outcome = (task.eval limit depth).outcome heap ∧
            left = ⟨(task.eval limit depth).left heap, depth⟩) ∧
      entries marks = exits marks ∧
      (∀ front mark back, marks = front ++ mark :: back → mark.Tallies limit depth front) ∧
      marks.IsChain (Mark.Leads limit) ∧
      ∀ k, (task.eval limit depth).outcome heap = .error (.tooManyCalls k) ↔
        k = limit ∧ Overflowed limit marks := by
  have ends : (evaluate task ⟨heap, depth⟩).Ends limit _ _ := task.settles limit depth heap
  obtain ⟨marks, run⟩ := ends.exists_runs none
  have orderly : (evaluate task ⟨heap, depth⟩).Orderly depth 0 :=
    -- The plan that only asks for the task is orderly, with no call opened for it.
    ⟨rfl, fun e left same => ⟨left, rfl, same⟩, fun a left same => ⟨same, nofun⟩⟩
  have told := run.tells orderly within
  refine ⟨marks, fun others outcome left => ⟨run.unique, ?_⟩, told.entries_eq, told.tallies, ?_,
    told.overflowed⟩
  · rintro ⟨rfl, rfl, rfl⟩
    exact run
  · have chain := run.isChain_append .nil
    rwa [List.append_nil] at chain

/-- A function that calls itself. -/
def circular : Closure := ⟨0, ⟨some "f", []⟩, [.expression (.call "f" [])], 0⟩

/-- A heap of one scope, which binds the function that calls itself. -/
def circularHeap : Heap :=
  (Heap.empty.newScope none (Bindings.empty.set "f" (.function circular))).2

/-- The heap in which the function calls itself, with the scope of the first call. -/
def circularInside : Heap := circularHeap.apply (.call circular [])

/-- The circular function is found by its name in the root. -/
theorem callee_circularHeap : callee 0 "f" 0 circularHeap = .ok circular circularHeap := by
  have found : circularHeap.lookup? 0 "f" = some (.function circular) := by
    rw [Heap.lookup?, Heap.resolve?_of_binds (by decide)]
    rfl
  exact callee_of_lookup? found

/-- The circular function is found from within its own body too. -/
theorem callee_circularInside : callee 1 "f" 0 circularInside = .ok circular circularInside := by
  have outer : circularInside.outer? 1 = some 0 := rfl
  have found : circularInside.lookup? 1 "f" = some (.function circular) := by
    rw [Heap.lookup?, Heap.resolve?_of_not_binds (by decide), outer, Option.bind_some,
      Heap.resolve?_of_binds (by decide)]
    rfl
  exact callee_of_lookup? found

/-- The first call has room, and the one in its body has none. -/
theorem eval_circular : (Task.program idleCall 0).eval 1 0 circularHeap
    = .error (.tooManyCalls 1) circularInside := by
  have body : evalBlock (callsWithin 1 0) 1 .nothing [.expression (.call "f" [])] circularInside
      = .error (.tooManyCalls 1) circularInside := by
    simp only [evalBlock, evalStmt, evalExpr, Eval.bind_apply, List.length_nil,
      callee_circularInside]
    rfl
  have call : callsWithin 1 1 circular [] circularHeap
      = .error (.tooManyCalls 1) circularInside := by
    have opened : openCall circular [] circularHeap = .ok 1 circularInside := rfl
    rw [callsWithin_succ, Eval.bind_apply, opened]
    simp only [Eval.bind_apply, circular, body]
  simp only [Task.eval, idleCall, evalBlock, evalStmt, evalExpr, evalArguments, Eval.bind_apply,
    List.length_nil, callee_circularHeap]
  simp only [Nat.sub_zero, call, pure, EStateM.pure]

/-- With one call that may be open, a body is entered, the call in it overflows, and the body is
left. -/
theorem openCalls_exact_circular :
    0 ≤ 1 ∧ ∃ marks,
      (evaluate (.program idleCall 0) ⟨circularHeap, 0⟩).Runs 1 none marks
        (.error (.tooManyCalls 1)) ⟨circularInside, 0⟩ ∧
      Overflowed 1 marks ∧ 0 < entries marks ∧ exits marks = entries marks := by
  refine ⟨Nat.zero_le 1, ?_⟩
  obtain ⟨marks, runs, balanced, tallies, -, exceeds⟩ :=
    openCalls_exact (.program idleCall 0) circularHeap (Nat.zero_le 1)
  have fails : ((Task.program idleCall 0).eval 1 0).outcome circularHeap
      = .error (.tooManyCalls 1) := by
    rw [Eval.outcome, eval_circular]
  have same : ((Task.program idleCall 0).eval 1 0).left circularHeap = circularInside :=
    Eval.left_eq_of_error eval_circular
  rw [fails, same] at runs
  have overflowed := ((exceeds 1).mp fails).2
  refine ⟨marks, (runs _ _ _).mpr ⟨rfl, rfl, rfl⟩, overflowed, ?_, balanced.symm⟩
  -- the call that overflows is begun with one call open, so a body has been entered in front of it
  obtain ⟨mark, member, full⟩ := overflowed
  obtain ⟨front, back, rfl⟩ := List.append_of_mem member
  have depth := full.depth_eq
  have counted := (tallies front mark back rfl).counted
  rw [List.append_cons, entries_append]
  omega

end Scriptlet
