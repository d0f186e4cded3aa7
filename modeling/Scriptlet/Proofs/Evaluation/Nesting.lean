import Mathlib.Data.List.Forall2
import Mathlib.Data.List.Induction
import Scriptlet.Proofs.Evaluation.Provenance
import Scriptlet.Proofs.Heap.Chain
import Scriptlet.Session

/-!
# Chains mirror nesting

Programs are run one after the other in one root. The scope that a function captures lies in a chain
that leads through the scopes of calls to the root, and there is one such scope for each function
that stands around it in its program, however many calls are open (`Session.chains_mirror_nesting`).

Where a function stands is read off the events: the event that has made it gives its path in the
text of the scope that it captures. That is the program of the run that has made it, or the body of
the function that has been called to open the scope, which stands somewhere itself
(`Session.Stands`). So functions of one text are told apart by where they stand.

A function is made in a scope whose text has it at its path: the root, or the scope of a call, which
lies within what the function that was called captures. That one was made before the scope was
opened, so the chain is built up by induction on the scope (`Session.mirrors`).
-/

namespace Scriptlet

/-! ## Sequences of runs -/

namespace Session

/-- Runs programs one after the other, each with a limit of its own, whatever each of them ends in.
-/
def runEach : Session → List (Program × Nat) → Session
  | s, [] => s
  | s, (p, limit) :: rest => ({ s with limit }.run p).2.runEach rest

/-- The events of programs that are run one after the other. -/
def events : Session → List (Program × Nat) → List Event
  | _, [] => []
  | s, (p, limit) :: rest => p.events limit s.root s.heap ++ ({ s with limit }.run p).2.events rest

/-- Behind a run the heap is what the program leaves, and the rest of the session is as it was. -/
theorem run_snd (s : Session) (p : Program) :
    (s.run p).2 = { s with heap := p.left s.limit s.root s.heap } := by
  unfold run Program.left Eval.left
  cases p.eval s.limit s.root s.heap <;> rfl

/-- A run that succeeds has evaluated its program from the heap of the session. -/
theorem eval_of_run_fst {s : Session} {p : Program} {value : Value}
    (ended : (s.run p).1 = .ok value) :
    p.eval s.limit s.root s.heap = .ok value (s.run p).2.heap := by
  unfold run at ended ⊢
  cases result : p.eval s.limit s.root s.heap with
  | ok a left =>
    rw [result] at ended
    cases ended
    rfl
  | error e left =>
    rw [result] at ended
    cases ended

variable (s : Session) (runs front back : List (Program × Nat))

/-- The root stays the same from run to run. -/
theorem root_runEach : (s.runEach runs).root = s.root := by
  induction runs generalizing s with
  | nil => rfl
  | cons r rest ih =>
    rw [runEach, ih, run_snd]

/-- Programs that are run one after the other leave what comes of their events. -/
theorem heap_runEach : (s.runEach runs).heap = s.heap.replay (s.events runs) := by
  induction runs generalizing s with
  | nil => rfl
  | cons r rest ih =>
    rw [runEach, ih, events, Heap.replay_append, ← Program.left_eq_replay, run_snd]

/-- The events of runs in two parts are those of the first part, and then those of the second from
where the first has ended. -/
theorem events_append :
    s.events (front ++ back) = s.events front ++ (s.runEach front).events back := by
  induction front generalizing s with
  | nil => rfl
  | cons r rest ih => rw [List.cons_append, events, events, runEach, ih, List.append_assoc]

variable {s runs front}

/-- A heap that programs run one after the other come to, between two of them or within one, and the
events up to there. -/
def Reaches (s : Session) (runs : List (Program × Nat)) (past : List Event) (heap : Heap) : Prop :=
  past <+: s.events runs ∧ heap = s.heap.replay past

/-- The heap between two runs is reached. -/
theorem reaches_of_prefix (initial : front <+: runs) :
    s.Reaches runs (s.events front) (s.runEach front).heap := by
  obtain ⟨back, rfl⟩ := initial
  exact ⟨⟨_, (events_append s front back).symm⟩, heap_runEach s front⟩

/-- Every event of programs that are run in the root is justified. -/
theorem justified_events {programs : List Program} {past : List Event} (root : s.root = 0)
    (accounts : Accounts past s.heap) (members : ∀ r ∈ runs, r.1 ∈ programs) :
    Justified programs past (s.events runs) := by
  induction runs generalizing s past with
  | nil => trivial
  | cons r rest ih =>
    obtain ⟨first, others⟩ := List.forall_mem_cons.mp members
    have justified := (Program.eval_traces first r.2 accounts).justified
    have replayed := accounts.replay justified
    rw [← Program.left_eq_replay] at replayed
    rw [events, root]
    refine justified_append.mpr ⟨justified, ?_⟩
    rw [run_snd]
    exact ih rfl replayed others

/-! ## Positions -/

/-- The place among the runs of the one that makes a function. -/
def Makes (s : Session) (runs : List (Program × Nat)) (place identity : Nat) : Prop :=
  (made (s.events (runs.take place))).length ≤ identity ∧
    identity < (made (s.events (runs.take (place + 1)))).length

/-- A function stands at a position in the program of a run. In the root it is the program of the
run that makes it. In the scope of a call it is where the function stands that has been called, and
its path is that in the body. -/
inductive Stands (s : Session) (runs : List (Program × Nat)) (past : List Event) :
    (identity place : Nat) → Position → Prop
  | outermost {identity place : Nat} {path : List Nat} {code : Code} :
      (made past)[identity]? = some ⟨0, path, code⟩ → s.Makes runs place identity →
        Stands s runs past identity place [path]
  | within {identity place i : Nat} {path : List Nat} {code : Code} {outer : Closure}
      {around : Position} :
      (made past)[identity]? = some ⟨i + 1, path, code⟩ → (called past)[i]? = some outer →
        Stands s runs past outer.identity place around →
          Stands s runs past identity place (path :: around)

/-- More runs make more functions. -/
theorem length_made_take_le {few many : Nat} (le : few ≤ many) :
    (made (s.events (runs.take few))).length ≤ (made (s.events (runs.take many))).length := by
  obtain ⟨back, whole⟩ := List.take_prefix_take_left (l := runs) le
  rw [← whole, events_append, made_append, List.length_append]
  exact Nat.le_add_right ..

/-- A function is made by one run only. -/
theorem Makes.le {place other identity : Nat} (h : s.Makes runs place identity)
    (also : s.Makes runs other identity) : place ≤ other := by
  refine Nat.le_of_not_lt fun lt => ?_
  have le : (made (s.events (runs.take (other + 1)))).length
      ≤ (made (s.events (runs.take place))).length := length_made_take_le lt
  exact absurd (Nat.lt_of_lt_of_le also.2 le) (Nat.not_lt.mpr h.1)

/-- One run makes a function. -/
theorem Makes.unique {place other identity : Nat} (h : s.Makes runs place identity)
    (also : s.Makes runs other identity) : other = place :=
  Nat.le_antisymm (also.le h) (h.le also)

/-- A function stands at one position, in the program of one run. -/
theorem Stands.unique {past : List Event} {identity place other : Nat} {position final : Position}
    (h : s.Stands runs past identity place position)
    (also : s.Stands runs past identity other final) : other = place ∧ final = position := by
  induction h generalizing other final with
  | outermost made makes =>
    cases also with
    | outermost made' makes' =>
      cases made.symm.trans made'
      exact ⟨makes.unique makes', rfl⟩
    | within made' _ _ => cases made.symm.trans made'
  | within made found _ ih =>
    cases also with
    | outermost made' _ => cases made.symm.trans made'
    | within made' found' outer' =>
      cases made.symm.trans made'
      cases found.symm.trans found'
      obtain ⟨rfl, rfl⟩ := ih outer'
      exact ⟨rfl, rfl⟩

/-! ## Where functions stand -/

variable {first : Nat} {past : List Event} {heap : Heap} {closure : Closure}

/-- A heap that is reached from the start is accounted for by the events so far. -/
theorem Reaches.accounts (reached : (start first).Reaches runs past heap) : Accounts past heap := by
  obtain ⟨⟨rest, whole⟩, rfl⟩ := reached
  have justified : Justified (runs.map Prod.fst) [] ((start first).events runs) :=
    justified_events rfl accounts_rootHeap fun r member => List.mem_map_of_mem member
  rw [← whole] at justified
  exact accounts_rootHeap.replay (justified_append.mp justified).1

/-- Every function is made by a run, and stands in the text of its scope while the program of that
run is the text of the root. -/
theorem exists_run_of_made (first : Nat) (runs : List (Program × Nat)) {i : Nat} {site : Site}
    (found : (made ((start first).events runs))[i]? = some site) :
    ∃ place p limit, runs[place]? = some (p, limit) ∧ (start first).Makes runs place i ∧
      site.StandsIn [p] ((start first).events runs) := by
  induction runs using List.reverseRecOn with
  | nil => cases found
  | append_singleton front r ih =>
    obtain ⟨p, limit⟩ := r
    -- A function made by an earlier run stands in the text that was the root's then.
    by_cases old : i < (made ((start first).events front)).length
    · rw [events_append, made_append, List.getElem?_append_left old] at found
      obtain ⟨place, q, bound, run, makes, text, hosts, here⟩ := ih found
      have inside := (List.getElem?_eq_some_iff.mp run).1
      refine ⟨place, q, bound, getElem?_append run, ?_, text, events_append .. ▸ hosts.append, here⟩
      rwa [Makes, List.take_append_of_le_length (Nat.le_of_lt inside),
        List.take_append_of_le_length inside]
    · have late := Nat.le_of_not_lt old
      refine ⟨front.length, p, limit, List.getElem?_concat_length, ⟨?_, ?_⟩, ?_⟩
      · rwa [List.take_left]
      · rw [List.take_of_length_le (by simp)]
        exact (List.getElem?_eq_some_iff.mp found).1
      -- One that the last run makes stands in its program or in a body, by what the events of that
      -- run justify.
      · have before : (start first).Reaches front ((start first).events front)
            ((start first).runEach front).heap := reaches_of_prefix (List.prefix_refl front)
        have alone : p ∈ [p] := List.mem_singleton.mpr rfl
        have justified := (Program.eval_traces alone limit before.accounts).justified
        have root : ((start first).runEach front).root = 0 := root_runEach ..
        rw [events_append, events, events, List.append_nil, root] at found ⊢
        exact justified.standsIn late found

/-- The same of the functions that are there on the way. -/
theorem Reaches.exists_run (reached : (start first).Reaches runs past heap) {i : Nat} {site : Site}
    (found : (made past)[i]? = some site) :
    ∃ place p limit, runs[place]? = some (p, limit) ∧ (start first).Makes runs place i ∧
      site.StandsIn [p] past := by
  have there := reached.accounts.placed site (List.mem_of_getElem? found)
  obtain ⟨rest, whole⟩ := reached.1
  have later : (made ((start first).events runs))[i]? = some site := by
    rw [← whole, made_append]
    exact getElem?_append found
  obtain ⟨place, p, limit, run, makes, text, hosts, here⟩ := exists_run_of_made first runs later
  rw [← whole] at hosts
  exact ⟨place, p, limit, run, makes, text, hosts.of_append there, here⟩

end Session

/-! ## Chains -/

/-- A scope that has been opened by a call of the function at a position in the program of a run. -/
def OpenedFor (s : Session) (runs : List (Program × Nat)) (past : List Event) (place : Nat)
    (p : Program) (scope : ScopeId) (position : Position) : Prop :=
  ∃ i outer, scope = i + 1 ∧ (called past)[i]? = some outer ∧
    s.Stands runs past outer.identity place position ∧ p.function? position = some outer.code

/-- What a function captures that stands at a position in the program of a run. -/
structure Closure.Mirrors (s : Session) (runs : List (Program × Nat)) (past : List Event)
    (heap : Heap) (closure : Closure) (place : Nat) (p : Program) (position : Position) : Prop where
  run : ∃ limit, runs[place]? = some (p, limit)
  /-- The event that has made the function has made it in the scope that it captures. -/
  made : closure.Originates past
  stands : s.Stands runs past closure.identity place position
  /-- The function stands nowhere else, however many others have the same text. -/
  only : ∀ other final, s.Stands runs past closure.identity other final →
    other = place ∧ final = position
  function : p.function? position = some closure.code
  /-- The scope that is captured lies within one scope of a call for each function around the
  position, the innermost first, and then the root. -/
  nested : ∃ scopes, heap.chain closure.scope = scopes ++ [0] ∧
    List.Forall₂ (OpenedFor s runs past place p) scopes position.around
  length : (heap.chain closure.scope).length = position.length

/-- A function stands at a position in the program of a run, and what it captures mirrors that. -/
def Closure.MirrorsNesting (s : Session) (runs : List (Program × Nat)) (past : List Event)
    (heap : Heap) (closure : Closure) : Prop :=
  ∃ place p position, closure.Mirrors s runs past heap place p position

namespace Session

variable {first : Nat} {runs : List (Program × Nat)} {past : List Event} {heap : Heap}
  {closure : Closure}

/-- A function made in the root stands in the program itself, with no function around it. -/
theorem Reaches.mirrors_of_root (reached : (start first).Reaches runs past heap)
    (known : closure.Originates past) (root : closure.scope = 0) :
    closure.MirrorsNesting (start first) runs past heap := by
  obtain ⟨path, made⟩ := known
  obtain ⟨place, p, limit, run, makes, text, hosts, here⟩ := reached.exists_run made
  rw [root] at made hosts
  obtain ⟨_, member, rfl⟩ := hosts
  obtain rfl := List.mem_singleton.mp member
  have chain := Heap.chain_of_outermost reached.accounts.root
  have stands : (start first).Stands runs past closure.identity place [path] :=
    .outermost made makes
  refine ⟨place, _, [path], ⟨limit, run⟩, ⟨path, root ▸ made⟩, stands,
    fun _ _ also => stands.unique also, here, ?_, ?_⟩
  · exact ⟨[], root ▸ chain, .nil⟩
  · rw [root, chain]
    rfl

/-- A function made in the scope of a call stands in the body of the function called, and its chain
is one scope longer than what that one captures. -/
theorem Reaches.mirrors_of_called {i : Nat} {outer : Closure}
    (reached : (start first).Reaches runs past heap) (known : closure.Originates past)
    (inside : closure.scope = i + 1) (found : (called past)[i]? = some outer)
    (around : outer.MirrorsNesting (start first) runs past heap) :
    closure.MirrorsNesting (start first) runs past heap := by
  obtain ⟨path, made⟩ := known
  obtain ⟨_, _, _, _, _, text, hosts, here⟩ := reached.exists_run made
  rw [inside] at made hosts
  obtain ⟨_, same, rfl⟩ := hosts
  obtain rfl := Option.some.inj (found.symm.trans same)
  obtain ⟨_, link, _⟩ := reached.accounts.opened i outer found
  obtain ⟨place, p, position, m⟩ := around
  have stands : (start first).Stands runs past closure.identity place (path :: position) :=
    .within made found m.stands
  have function : p.function? (path :: position) = some closure.code := by
    rw [Program.function?, Program.text?_of_function? m.function]
    exact here
  obtain ⟨scopes, chain, opened⟩ := m.nested
  obtain ⟨next, outside, rfl⟩ : ∃ next outside, position = next :: outside := by
    cases position with
    | nil => cases m.function
    | cons next outside => exact ⟨next, outside, rfl⟩
  refine ⟨place, p, _, m.run, ⟨path, inside ▸ made⟩, stands, fun _ _ also => stands.unique also,
    function, ⟨(i + 1) :: scopes, ?_, .cons ?_ opened⟩, ?_⟩
  · rw [inside, Heap.chain_of_outer? link, chain, List.cons_append]
  · exact ⟨i, outer, rfl, found, m.stands, m.function⟩
  · rw [inside, Heap.chain_of_outer? link, List.length_cons, m.length]
    rfl

/-- Every function that a run has made mirrors the nesting. -/
theorem Reaches.mirrors (reached : (start first).Reaches runs past heap)
    (known : closure.Originates past) :
    closure.MirrorsNesting (start first) runs past heap := by
  -- by induction on the scope that is captured: the function that has opened it captures an
  -- earlier one
  induction captured : closure.scope using Nat.strongRecOn generalizing closure with
  | ind s ih =>
    subst captured
    cases scope : closure.scope with
    | zero => exact reached.mirrors_of_root known scope
    | succ i =>
      have opened : i < (called past).length := by
        have there := reached.accounts.scope_le known
        rw [scope] at there
        exact there
      have found := List.getElem?_eq_getElem opened
      obtain ⟨earlier, _, origin⟩ := reached.accounts.opened i _ found
      have around := ih _ (scope ▸ Nat.lt_succ_of_le earlier) origin rfl
      exact reached.mirrors_of_called known scope found around

/-- What a function captures lies in no longer chain than functions nest in accepted programs. -/
theorem length_chain_le_of_mirrors {s : Session}
    (mirrors : closure.MirrorsNesting s runs past heap)
    (read : ∀ p ∈ runs.map Prod.fst, ∃ text, parse text = .ok p) :
    (heap.chain closure.scope).length ≤ maxNesting := by
  obtain ⟨place, p, position, m⟩ := mirrors
  obtain ⟨limit, run⟩ := m.run
  obtain ⟨text, read⟩ := read p (List.mem_map_of_mem (List.mem_of_getElem? run))
  rw [m.length]
  exact Program.length_le_of_parse m.function read

/-- A scope is the root, or that of a call and one link away from what a function captures. -/
theorem Reaches.length_chain_le (reached : (start first).Reaches runs past heap)
    (read : ∀ p ∈ runs.map Prod.fst, ∃ text, parse text = .ok p) {s : ScopeId}
    (inside : s < heap.scopes.size) : (heap.chain s).length ≤ maxNesting + 1 := by
  have accounts := reached.accounts
  cases s with
  | zero =>
    rw [Heap.chain_of_outermost accounts.root]
    exact Nat.succ_le_succ (Nat.zero_le _)
  -- The scope of a call need not be captured by anything, so it is the function called that is
  -- looked at.
  | succ i =>
    have called : i < (called past).length := by
      rw [accounts.size_eq] at inside
      exact Nat.lt_of_succ_lt_succ inside
    obtain ⟨_, link, known⟩ := accounts.opened i _ (List.getElem?_eq_getElem called)
    rw [Heap.chain_of_outer? link]
    exact Nat.succ_le_succ (length_chain_le_of_mirrors (reached.mirrors known) read)

/-- What a run comes to originates in the events up to its end. -/
theorem originates_of_run {front : List (Program × Nat)} {p : Program} {limit : Nat}
    {closure : Closure} (initial : front ++ [(p, limit)] <+: runs)
    (ended : ({ (start first).runEach front with limit }.run p).1 = .ok (.function closure)) :
    closure.Originates ((start first).events (front ++ [(p, limit)])) := by
  have before : (start first).Reaches runs ((start first).events front)
      ((start first).runEach front).heap :=
    reaches_of_prefix ((List.prefix_append front _).trans initial)
  have root : ((start first).runEach front).root = 0 := root_runEach ..
  have value := (Program.eval_traces (List.mem_singleton.mpr rfl) limit before.accounts).good _ _
    (root ▸ eval_of_run_fst ended) closure rfl
  rw [events_append, events, events, List.append_nil, root]
  exact value

/-- **Chains of scopes mirror the nesting of functions.** Programs are run one after the other in a
root in which nothing is bound, each with a limit of its own, whether they end in values or in
errors. In every heap that they come to, every function that is bound in a scope or that a run has
come to captures one scope of a call for each function around it in its program, the innermost
first, and then the root. So its chain has one scope more than there are functions around it, and
none comes twice. A lookup goes through a chain, and for programs that have been read none is longer
than `maxNesting + 1`. -/
theorem chains_mirror_nesting (first : Nat) (runs : List (Program × Nat)) (past : List Event)
    (heap : Heap) (reached : (start first).Reaches runs past heap) :
    (∀ s name closure, (heap.bindings s).find? name = some (.function closure) →
      closure.MirrorsNesting (start first) runs past heap) ∧
    (∀ front p limit, front ++ [(p, limit)] <+: runs →
      (start first).events (front ++ [(p, limit)]) <+: past → ∀ closure,
        ({ (start first).runEach front with limit }.run p).1 = .ok (.function closure) →
          closure.MirrorsNesting (start first) runs past heap) ∧
    (∀ s, (heap.chain s).Nodup ∧ ∀ name,
      heap.resolve? s name = (heap.chain s).find? fun t => (heap.bindings t).binds name) ∧
    ((∀ p ∈ runs.map Prod.fst, ∃ text, parse text = .ok p) →
      ∀ s < heap.scopes.size, (heap.chain s).length ≤ maxNesting + 1) ∧
    ∀ front, front <+: runs → (start first).Reaches runs ((start first).events front)
      ((start first).runEach front).heap := by
  refine ⟨fun s name closure bound => ?_, fun front p limit initial earlier closure ended => ?_,
    fun s => ⟨heap.nodup_chain s, heap.resolve?_eq_find?_chain s⟩,
    fun read s inside => reached.length_chain_le read inside, fun front => reaches_of_prefix⟩
  · exact reached.mirrors (reached.accounts.bound s name _ bound closure rfl)
  · obtain ⟨later, rfl⟩ := earlier
    exact reached.mirrors (originates_of_run initial ended).append

/-- Makes a function without a name, and declares one that makes another of the same text. -/
def declareMaker : Program :=
  ⟨[.expression (.function ⟨none, []⟩ []),
    .declaration ⟨some "f", []⟩ [.result (.function ⟨none, []⟩ [])]]⟩

/-- Makes the other one, and gives it a name. -/
def callMaker : Program := ⟨[.expression (.assign "g" (.call "f" []))]⟩

/-- What is declared. -/
def declared : Closure := ⟨1, ⟨some "f", []⟩, [.result (.function ⟨none, []⟩ [])], 0⟩

/-- The heap that the declaration leaves, in which the call is made. -/
def declaredHeap : Heap :=
  ((rootHeap.newFunction 0 ⟨none, []⟩ []).2.newFunction 0 declared.signature declared.body).2.assign
    0 "f" (.function declared)

/-- The declared function is found by its name. -/
theorem callee_declaredHeap : callee 0 "f" 0 declaredHeap = .ok declared declaredHeap :=
  callee_of_lookup? (Heap.lookup?_assign_self (by decide))

/-- The root is the only scope so far. -/
theorem size_declaredHeap : declaredHeap.scopes.size = 1 := Heap.size_assign ..

/-- The maker gives a function made in the scope of its call. -/
theorem run_callMaker :
    (run ⟨declaredHeap, 0, 1⟩ callMaker).1 = .ok (.function ⟨2, ⟨none, []⟩, [], 1⟩) := by
  have ended : (run ⟨declaredHeap, 0, 1⟩ callMaker).1
      = .ok (.function ⟨2, ⟨none, []⟩, [], declaredHeap.scopes.size⟩) := by
    simp only [run, callMaker, Program.eval, evalBlock, evalStmt, evalExpr, Eval.bind_apply,
      List.length_nil, callee_declaredHeap]
    rfl
  rw [ended, size_declaredHeap]

/-- The text of the maker is accepted. -/
theorem parse_declareMaker :
    parse "function()\x7b\x7d\nfunction f()\x7breturn function()\x7b\x7d\x7d" = .ok declareMaker := by
  have spells : Source.Spells
      "function()\x7b\x7d\nfunction f()\x7breturn function()\x7b\x7d\x7d".toList
      [.functionWord, .leftParen, .rightParen, .leftBrace, .rightBrace, .newLine,
        .functionWord, .identifier "f", .leftParen, .rightParen, .leftBrace, .returnWord,
        .functionWord, .leftParen, .rightParen, .leftBrace, .rightBrace, .rightBrace] :=
    .cons nofun (fun _ => ⟨_, _, rfl⟩) (.cons nofun (fun _ => ⟨_, _, rfl⟩)
      (.cons nofun (fun _ => ⟨_, _, rfl⟩) (.cons nofun (fun _ => ⟨_, _, rfl⟩)
      (.cons nofun (fun _ => ⟨_, _, rfl⟩) (.cons nofun (fun _ => ⟨_, _, rfl⟩)
      (.cons nofun (fun _ => ⟨_, _, rfl⟩) (.cons nofun (fun _ => ⟨_, _, rfl⟩)
      (.cons nofun (fun _ => ⟨_, _, rfl⟩) (.cons nofun (fun _ => ⟨_, _, rfl⟩)
      (.cons nofun (fun _ => ⟨_, _, rfl⟩) (.cons nofun (fun _ => ⟨_, _, rfl⟩)
      (.cons nofun (fun _ => ⟨_, _, rfl⟩) (.cons nofun (fun _ => ⟨_, _, rfl⟩)
      (.cons nofun (fun _ => ⟨_, _, rfl⟩) (.cons nofun (fun _ => ⟨_, _, rfl⟩)
      (.cons nofun (fun _ => ⟨_, _, rfl⟩) (.cons nofun (fun _ => ⟨_, _, rfl⟩) .nil)))))))))))))))))
  have empty : Derivation _ (.expression (.function ⟨none, []⟩ [])) :=
    .anonymous (.function [] (.block .noStatements))
  have r : Derivation _ (.statements declareMaker.statements) :=
    .nextStatement (.bare empty)
      (.lastStatement (.declaration "f" (.function [] (.block (.lastStatement (.result empty))))))
  exact parse_eq_ok_iff.mpr ⟨_, spells, r, r.levels_le_length.trans (by decide)⟩

/-- The text of the call is accepted. -/
theorem parse_callMaker : parse "g=f()" = .ok callMaker := by
  have spells : Source.Spells "g=f()".toList
      [.identifier "g", .assign, .identifier "f", .leftParen, .rightParen] :=
    .cons nofun (fun _ => ⟨_, _, rfl⟩) (.cons nofun (fun _ => ⟨_, _, rfl⟩)
      (.cons nofun (fun _ => ⟨_, _, rfl⟩) (.cons nofun (fun _ => ⟨_, _, rfl⟩)
      (.cons nofun (fun _ => ⟨_, _, rfl⟩) .nil))))
  have r : Derivation _ (.statements callMaker.statements) :=
    .lastStatement (.bare (.assign "g" (.comparison (.single nofun (.single nofun (.single nofun
      (.unsigned (.base (.call "f" .noArguments)))))))))
  exact parse_eq_ok_iff.mpr ⟨_, spells, r, r.levels_le_length.trans (by decide)⟩

/-- The one run behind the other. -/
def makerRuns : List (Program × Nat) := [(declareMaker, 1), (callMaker, 1)]

/-- The call makes a function within its own scope, with the path that it has in the body. -/
theorem events_makerRuns : (start 1).events makerRuns =
    [.function 0 [0, 0] ⟨none, []⟩ [], .function 0 [1] declared.signature declared.body,
      .assign 0 "f" (.function declared), .call declared [], .function 1 [0, 0] ⟨none, []⟩ [],
      .assign 0 "g" (.function ⟨2, ⟨none, []⟩, [], 1⟩)] := by
  have second : callMaker.events 1 0 declaredHeap = [.call declared [],
      .function declaredHeap.scopes.size [0, 0] ⟨none, []⟩ [],
      .assign 0 "g" (.function ⟨2, ⟨none, []⟩, [], declaredHeap.scopes.size⟩)] := by
    simp only [callMaker, Program.events, blockEvents, Stmt.events, Expr.events, evalStmt, evalExpr,
      History.andThen, Eval.bind_apply, List.length_nil, callee_declaredHeap]
    rfl
  rw [size_declaredHeap] at second
  change declareMaker.events 1 0 rootHeap ++ (callMaker.events 1 0 declaredHeap ++ []) = _
  rw [second]
  rfl

/-- The first function and the last one have the same text. The last one is made by the second run,
in the scope of a call, and stands within the second function of the first program: it captures the
scope of the call, and the root. -/
theorem chains_mirror_nesting_callMaker :
    ((start 1).Reaches makerRuns ((start 1).events makerRuns) ((start 1).runEach makerRuns).heap ∧
      (run ⟨declaredHeap, 0, 1⟩ callMaker).1 = .ok (.function ⟨2, ⟨none, []⟩, [], 1⟩) ∧
      ∀ p ∈ makerRuns.map Prod.fst, ∃ text, parse text = .ok p) ∧
    declareMaker.function? [[0, 0]] = some ⟨⟨none, []⟩, []⟩ ∧
    Closure.Mirrors (start 1) makerRuns ((start 1).events makerRuns)
      ((start 1).runEach makerRuns).heap ⟨2, ⟨none, []⟩, [], 1⟩ 0 declareMaker [[0, 0], [1]] ∧
    ∀ s < ((start 1).runEach makerRuns).heap.scopes.size,
      (((start 1).runEach makerRuns).heap.chain s).length ≤ maxNesting + 1 := by
  have reached : (start 1).Reaches makerRuns ((start 1).events makerRuns)
      ((start 1).runEach makerRuns).heap := reaches_of_prefix (List.prefix_refl makerRuns)
  have read : ∀ p ∈ makerRuns.map Prod.fst, ∃ text, parse text = .ok p :=
    List.forall_mem_cons.mpr ⟨⟨_, parse_declareMaker⟩,
      List.forall_mem_singleton.mpr ⟨_, parse_callMaker⟩⟩
  obtain ⟨_, results, _, short, _⟩ := chains_mirror_nesting 1 makerRuns _ _ reached
  obtain ⟨place, p, position, mirrors⟩ := results [(declareMaker, 1)] callMaker 1
    (List.prefix_refl makerRuns) (List.prefix_refl _) _ run_callMaker
  have outer : (made ((start 1).events makerRuns))[1]? = some ⟨0, [1], declared.code⟩ :=
    events_makerRuns ▸ rfl
  have inner : (made ((start 1).events makerRuns))[2]? = some ⟨1, [0, 0], ⟨none, []⟩, []⟩ :=
    events_makerRuns ▸ rfl
  have opened : (called ((start 1).events makerRuns))[0]? = some declared := events_makerRuns ▸ rfl
  have stands : (start 1).Stands makerRuns ((start 1).events makerRuns) 2 0 [[0, 0], [1]] :=
    .within inner opened (.outermost outer ⟨Nat.zero_le _, Nat.lt_add_one 1⟩)
  obtain ⟨rfl, rfl⟩ := mirrors.only _ _ stands
  obtain ⟨limit, run⟩ := mirrors.run
  cases run
  exact ⟨⟨reached, run_callMaker, read⟩, rfl, mirrors, short read⟩

end Session

end Scriptlet
