import Scriptlet.Proofs.Evaluation.Events
import Scriptlet.Proofs.Heap
import Scriptlet.Proofs.Program.Nesting

/-!
# Where functions come from

Programs that run in a root where nothing is bound have no functions but those they make. Each is
made by an event, in the scope where its declaration is evaluated, and the event knows the path at
which it stands in the text of that scope. The text of the root is that of a program, and the text
of the scope of a call is the body of the function that is called (`Hosts`). A function `Originates`
in the events that are past if one of them has made it.

An event is `Justified` by those in front of it if it deals only with functions that originate
there, and makes only what stands in the text at the path. Every heap that comes of justified events
is accounted for by them (`Accounts`): this is kept by each event (`Accounts.apply`) and so by all
(`Accounts.replay`). Every event of a run is justified (`Program.eval_traces`), because names only
have values that have been bound before. This is one induction over programs, and one over the room
that there is for calls.
-/

namespace Scriptlet

/-- What a program has of a function. -/
def Closure.code (closure : Closure) : Code := ⟨closure.signature, closure.body⟩

/-- A function that has been made: the scope it has been made in, and the path at which it stands in
the text that is evaluated there. -/
structure Site where
  scope : ScopeId
  path : List Nat
  code : Code

/-- The function that an event makes. -/
def Event.made? : Event → Option Site
  | .function scope path signature body => some ⟨scope, path, ⟨signature, body⟩⟩
  | _ => none

/-- The functions made in some events, in the order in which they are made. -/
def made (events : List Event) : List Site := events.filterMap Event.made?

/-- What is made by events in two parts is made by the one or the other, in this order. -/
theorem made_append (events more : List Event) :
    made (events ++ more) = made events ++ made more := List.filterMap_append

/-- Behind a call the function called comes last. -/
theorem called_call (past : List Event) (closure : Closure) (arguments : List Value) :
    called (past ++ [.call closure arguments]) = called past ++ [closure] := called_append ..

/-- Behind a function made it comes last. -/
theorem made_function (past : List Event) (scope : ScopeId) (path : List Nat)
    (signature : Signature) (body : List Stmt) :
    made (past ++ [.function scope path signature body])
      = made past ++ [⟨scope, path, ⟨signature, body⟩⟩] := made_append ..

/-- A heap of one scope in which nothing is bound, the root. -/
def rootHeap : Heap := (Heap.empty.newScope none .empty).2

/-- A function has been made by the event of its identity, in the scope that it captures. -/
def Closure.Originates (past : List Event) (closure : Closure) : Prop :=
  ∃ path, (made past)[closure.identity]? = some ⟨closure.scope, path, closure.code⟩

/-- A value that originates in some events if it is a function. -/
def Value.Originates (past : List Event) (value : Value) : Prop :=
  ∀ closure, value = .function closure → closure.Originates past

/-- What is known of a heap that comes of justified events: how many scopes and functions there are,
what each scope lies within, and that all functions in it originate in the events. -/
structure Accounts (past : List Event) (heap : Heap) : Prop where
  size_eq : heap.scopes.size = (called past).length + 1
  functions_eq : heap.functions = (made past).length
  root : heap.outer? 0 = none
  placed : ∀ site ∈ made past, site.scope ≤ (called past).length
  opened : ∀ i closure, (called past)[i]? = some closure →
    closure.scope ≤ i ∧ heap.outer? (i + 1) = some closure.scope ∧ closure.Originates past
  bound : ∀ s name value, (heap.bindings s).find? name = some value → value.Originates past

variable (programs : List Program)

/-- What is evaluated in a scope: in the root the programs, and in the scope of a call the body of
the function that is called. Each call among the events opens one scope behind the root. -/
def Hosts (past : List Event) : ScopeId → List Stmt → Prop
  | 0, text => ∃ p ∈ programs, p.statements = text
  | i + 1, text => ∃ closure, (called past)[i]? = some closure ∧ closure.body = text

/-- What is evaluated in the scope has the function at the path. -/
def Site.StandsIn (past : List Event) (site : Site) : Prop :=
  ∃ text, Hosts programs past site.scope text ∧ blockFunction? text site.path = some site.code

/-- An event that deals only with functions that originate in what is past, and makes only functions
that stand in the text of their scope. -/
def Event.Justified (past : List Event) : Event → Prop
  | .assign _ _ value => value.Originates past
  | .call closure arguments =>
    closure.Originates past ∧ ∀ value ∈ arguments, value.Originates past
  | .function scope path signature body =>
    Site.StandsIn programs past ⟨scope, path, ⟨signature, body⟩⟩

/-- Events each of which is justified by those in front of it. -/
def Justified : (past : List Event) → List Event → Prop
  | _, [] => True
  | past, event :: rest => event.Justified programs past ∧ Justified (past ++ [event]) rest

section

variable {programs} {past more : List Event} {heap : Heap}

/-- Events in two parts are justified if the first are, and the others behind these. -/
theorem justified_append {events : List Event} : Justified programs past (events ++ more) ↔
    Justified programs past events ∧ Justified programs (past ++ events) more := by
  induction events generalizing past with
  | nil => simp [Justified]
  | cons event rest ih =>
    rw [List.cons_append, Justified, Justified, ih, and_assoc, List.append_assoc,
      List.singleton_append]

/-- What stands in a list still stands there when something is added behind. -/
theorem getElem?_append {α : Type} {front back : List α} {i : Nat} {a : α}
    (found : front[i]? = some a) : (front ++ back)[i]? = some a :=
  (List.getElem?_append_left (List.getElem?_eq_some_iff.mp found).1).trans found

/-- What is evaluated in a scope stays what it is. -/
theorem Hosts.append {s : ScopeId} {text : List Stmt} (hosts : Hosts programs past s text) :
    Hosts programs (past ++ more) s text := by
  cases s with
  | zero => exact hosts
  | succ i =>
    obtain ⟨closure, found, same⟩ := hosts
    exact ⟨closure, called_append past more ▸ getElem?_append found, same⟩

/-- A function that originates in the past does so whatever comes behind. -/
theorem Closure.Originates.append {closure : Closure} (known : closure.Originates past) :
    closure.Originates (past ++ more) := by
  obtain ⟨path, made⟩ := known
  exact ⟨path, made_append past more ▸ getElem?_append made⟩

theorem Value.Originates.append {value : Value} (known : value.Originates past) :
    value.Originates (past ++ more) :=
  fun closure same => (known closure same).append

/-- What is evaluated in a scope that is there already is known already. -/
theorem Hosts.of_append {s : ScopeId} {text : List Stmt}
    (hosts : Hosts programs (past ++ more) s text) (there : s ≤ (called past).length) :
    Hosts programs past s text := by
  cases s with
  | zero => exact hosts
  | succ i =>
    obtain ⟨closure, found, same⟩ := hosts
    rw [called_append, List.getElem?_append_left there] at found
    exact ⟨closure, found, same⟩

/-- Only a scope that is there has a text. -/
theorem Hosts.le {s : ScopeId} {text : List Stmt} (hosts : Hosts programs past s text) :
    s ≤ (called past).length := by
  cases s with
  | zero => exact Nat.zero_le _
  | succ i =>
    obtain ⟨closure, found, _⟩ := hosts
    exact (List.getElem?_eq_some_iff.mp found).1

/-- A function captures a scope that is there. -/
theorem Accounts.scope_le {closure : Closure} (accounts : Accounts past heap)
    (known : closure.Originates past) : closure.scope ≤ (called past).length := by
  obtain ⟨_, made⟩ := known
  exact accounts.placed _ (List.mem_of_getElem? made)

/-- The root accounts for itself before anything has happened. -/
theorem accounts_rootHeap : Accounts [] rootHeap := by
  refine ⟨rfl, rfl, rfl, nofun, nofun, fun s name value found => ?_⟩
  rcases Heap.find?_newScope found with own | old
  · cases own
  · cases old

/-- Binding a value that is known makes no function and opens no scope. -/
theorem Accounts.assign (accounts : Accounts past heap) (scope : ScopeId) (name : String)
    {value : Value} (known : value.Originates past) :
    Accounts (past ++ [.assign scope name value]) (heap.assign scope name value) := by
  have calls : called (past ++ [.assign scope name value]) = called past := by
    rw [called_append]
    exact List.append_nil _
  have functions : made (past ++ [.assign scope name value]) = made past := by
    rw [made_append]
    exact List.append_nil _
  refine ⟨?_, ?_, ?_, ?_, fun i closure found => ?_, fun s other new found => ?_⟩
  · rw [calls, ← accounts.size_eq]
    exact Heap.size_assign ..
  · rw [functions, ← accounts.functions_eq]
    rfl
  · exact (Heap.outer?_assign ..).trans accounts.root
  · rw [calls, functions]
    exact accounts.placed
  · rw [calls] at found
    obtain ⟨earlier, link, origin⟩ := accounts.opened i closure found
    exact ⟨earlier, (Heap.outer?_assign ..).trans link, origin.append⟩
  · rcases Heap.find?_define found with rfl | old
    · exact known.append
    · exact (accounts.bound s other new old).append

/-- The scope of a call lies within the one that the function captures, which is there already. -/
theorem Accounts.call (accounts : Accounts past heap) {closure : Closure}
    {arguments : List Value} (known : closure.Originates past)
    (knownArguments : ∀ value ∈ arguments, value.Originates past) :
    Accounts (past ++ [.call closure arguments])
      (heap.apply (.call closure arguments)) := by
  have calls := called_call past closure arguments
  have functions : made (past ++ [.call closure arguments]) = made past := by
    rw [made_append]
    exact List.append_nil _
  refine ⟨?_, ?_, ?_, fun site member => ?_, fun i other found => ?_, fun s name value found => ?_⟩
  · rw [calls, List.length_append, List.length_singleton, ← accounts.size_eq]
    exact Heap.size_newScope ..
  · rw [functions, ← accounts.functions_eq]
    rfl
  · refine (Heap.outer?_newScope_of_lt ?_ ..).trans accounts.root
    exact accounts.size_eq ▸ Nat.succ_pos _
  · rw [functions] at member
    rw [calls, List.length_append]
    exact Nat.le_add_right_of_le (accounts.placed site member)
  · rw [calls] at found
    -- The scopes of earlier calls are as they were, and the last one is that of this call.
    by_cases old : i < (called past).length
    · rw [List.getElem?_append_left old] at found
      obtain ⟨earlier, link, origin⟩ := accounts.opened i other found
      refine ⟨earlier, (Heap.outer?_newScope_of_lt ?_ ..).trans link, origin.append⟩
      exact accounts.size_eq ▸ Nat.succ_lt_succ old
    · have last : i = (called past).length := by
        have inside := (List.getElem?_eq_some_iff.mp found).1
        rw [List.length_append, List.length_singleton] at inside
        exact Nat.le_antisymm (Nat.le_of_lt_succ inside) (Nat.le_of_not_lt old)
      rw [last, List.getElem?_concat_length] at found
      cases found
      have earlier := accounts.scope_le known
      have there : closure.scope < heap.scopes.size := accounts.size_eq ▸ Nat.lt_succ_of_le earlier
      refine ⟨last ▸ earlier, ?_, known.append⟩
      rw [last, ← accounts.size_eq]
      refine (Heap.outer?_newScope_self ..).trans ?_
      rw [Option.filter_some, if_pos (decide_eq_true there)]
  · rcases Heap.find?_newScope found with own | old
    -- The scope of the call binds the arguments, which are known, and nothing else.
    · have argument := (List.of_mem_zip (Bindings.mem_of_find?_ofList own)).2
      exact (knownArguments value argument).append
    · exact (accounts.bound s name value old).append

/-- A function made in a scope that is there is the last one made, at its own place. -/
theorem Accounts.function (accounts : Accounts past heap) (scope : ScopeId) (path : List Nat)
    (signature : Signature) (body : List Stmt) (there : scope ≤ (called past).length) :
    Accounts (past ++ [.function scope path signature body])
      (heap.newFunction scope signature body).2 := by
  have calls : called (past ++ [.function scope path signature body]) = called past := by
    rw [called_append]
    exact List.append_nil _
  have functions := made_function past scope path signature body
  refine ⟨?_, ?_, accounts.root, fun site member => ?_, fun i closure found => ?_,
    fun s name value found => ?_⟩
  · rw [calls, ← accounts.size_eq]
    rfl
  · rw [functions, List.length_append, ← accounts.functions_eq]
    rfl
  · rw [functions] at member
    rw [calls]
    rcases List.mem_append.mp member with old | new
    · exact accounts.placed site old
    -- The site that is new is that of the function, whose scope is there.
    · exact List.mem_singleton.mp new ▸ there
  · rw [calls] at found
    obtain ⟨earlier, link, origin⟩ := accounts.opened i closure found
    exact ⟨earlier, link, origin.append⟩
  · exact (accounts.bound s name value found).append

/-- A function that justified events make stands in the text of its scope. -/
theorem Justified.standsIn {events : List Event} {i : Nat} {site : Site}
    (justified : Justified programs past events) (late : (made past).length ≤ i)
    (found : (made (past ++ events))[i]? = some site) : site.StandsIn programs (past ++ events) := by
  induction events generalizing past with
  | nil =>
    rw [List.append_nil] at found
    exact absurd (List.getElem?_eq_some_iff.mp found).1 (Nat.not_lt.mpr late)
  | cons event rest ih =>
    obtain ⟨first, others⟩ := justified
    rw [List.append_cons] at found ⊢
    by_cases early : i < (made (past ++ [event])).length
    · -- this event has made the function, so its justification is that of the function
      rw [made_append] at found
      rw [List.getElem?_append_left early, made_append, List.getElem?_append_right late] at found
      obtain ⟨text, hosts, here⟩ : site.StandsIn programs past := by
        cases event with
        | function scope path signature body =>
          obtain rfl : (⟨scope, path, ⟨signature, body⟩⟩ : Site) = site :=
            List.mem_singleton.mp (List.mem_of_getElem? found) |>.symm
          exact first
        | assign => cases found
        | call => cases found
      exact ⟨text, hosts.append.append, here⟩
    · exact ih others (Nat.le_of_not_lt early) found

/-- What a justified event makes of a heap is accounted for by one event more. -/
theorem Accounts.apply {event : Event} (accounts : Accounts past heap)
    (justified : event.Justified programs past) :
    Accounts (past ++ [event]) (heap.apply event) := by
  cases event with
  | assign scope name value => exact accounts.assign scope name justified
  | call closure arguments => exact accounts.call justified.1 justified.2
  | function scope path signature body =>
    obtain ⟨text, hosts, _⟩ := justified
    exact accounts.function scope path signature body hosts.le

/-- A run of justified events is accounted for, and so is every heap on the way. -/
theorem Accounts.replay {events : List Event} (accounts : Accounts past heap)
    (justified : Justified programs past events) :
    Accounts (past ++ events) (heap.replay events) := by
  induction events generalizing past heap with
  | nil => exact (List.append_nil past).symm ▸ accounts
  | cons event rest ih =>
    obtain ⟨first, others⟩ := justified
    have whole := ih (accounts.apply first) others
    rwa [List.append_assoc] at whole

end

/-! ## Computations -/

/-- From a heap that some events account for, the events of a computation are justified, they are
what the computation does to the heap, and a value that it gives is good behind them. -/
structure Eval.Traces {α : Type} (x : Eval α) (history : History) (past : List Event) (heap : Heap)
    (good : List Event → α → Prop) : Prop where
  justified : Justified programs past (history heap)
  left : x.left heap = heap.replay (history heap)
  good : ∀ a left, x heap = .ok a left → good (past ++ history heap) a

/-- The value that statements come to. -/
def Flow.value : Flow → Value
  | .normal value | .returned value => value

section

open Eval

variable {programs} {α β : Type} {past : List Event} {heap : Heap} {x : Eval α}
  {f : α → Eval β} {history : History} {next : α → History} {good : List Event → α → Prop}
  {last : List Event → β → Prop}

/-- What leaves the heap as it is has no events to justify. -/
theorem Eval.Traces.quiet (quiet : x.Quiet) (known : ∀ a left, x heap = .ok a left → good past a) :
    x.Traces programs .none past heap good :=
  ⟨trivial, quiet heap, fun a left ended => (List.append_nil past).symm ▸ known a left ended⟩

/-- A value given at once has no events. -/
theorem Eval.Traces.pure {a : α} (known : good past a) :
    (pure a : Eval α).Traces programs .none past heap good :=
  .quiet (quiet_pure a) fun _ _ ended => by cases ended; exact known

/-- An error thrown at once has none either. -/
theorem Eval.Traces.throw (e : RuntimeError) :
    (throw e : Eval α).Traces programs .none past heap good :=
  .quiet (quiet_throw e) nofun

/-- What goes on from a value does so from a heap that is accounted for by the events up to there.
-/
theorem Eval.Traces.bind (accounts : Accounts past heap)
    (first : x.Traces programs history past heap good)
    (rest : ∀ more a left, Accounts (past ++ more) left → good (past ++ more) a →
      (f a).Traces programs (next a) (past ++ more) left last) :
    (x >>= f).Traces programs (history.andThen x next) past heap last := by
  cases ended : x heap with
  | ok a left =>
    have events : history.andThen x next heap = history heap ++ next a left := by
      rw [History.andThen, ended]
    -- The second computation begins with the heap that the events of the first lead to, so the law
    -- may be used behind them.
    have replayed : left = heap.replay (history heap) := left_eq_of_ok ended ▸ first.left
    have second := rest (history heap) a left (replayed ▸ accounts.replay first.justified)
      (first.good a left ended)
    constructor
    · exact events ▸ justified_append.mpr ⟨first.justified, second.justified⟩
    · rw [left_bind, ended, events, Heap.replay_append, ← replayed]
      exact second.left
    · intro b final both
      rw [bind_apply, ended] at both
      rw [events, ← List.append_assoc]
      exact second.good b final both
  | error e left =>
    have events : history.andThen x next heap = history heap := by
      rw [History.andThen, ended]
      exact List.append_nil _
    constructor
    · exact events ▸ first.justified
    · rw [left_bind, ended, events, ← first.left, left_eq_of_error ended]
    · intro b final both
      rw [bind_apply, ended] at both
      cases both

/-- What only makes something of a value has no events. -/
theorem Eval.Traces.bind_quiet (first : x.Traces programs history past heap good)
    (quiet : ∀ a, (f a).Quiet)
    (known : ∀ more a left b final, good (past ++ more) a → f a left = .ok b final →
      last (past ++ more) b) :
    (x >>= f).Traces programs history past heap last := by
  cases ended : x heap with
  | ok a left =>
    constructor
    · exact first.justified
    · rw [left_bind, ended, ← first.left, left_eq_of_ok ended]
      exact quiet a left
    · intro b final both
      rw [bind_apply, ended] at both
      exact known _ a left b final (first.good a left ended) both
  | error e left =>
    constructor
    · exact first.justified
    · rw [left_bind, ended, ← first.left, left_eq_of_error ended]
    · intro b final both
      rw [bind_apply, ended] at both
      cases both

end

/-! ## Steps -/

section

open Eval

variable {programs} {past : List Event} {heap : Heap} {scope : ScopeId}

/-- An operator gives no function. -/
theorem BinaryOp.originates_of_apply {op : BinaryOp} {x y value : Value}
    (result : op.apply x y = .ok value) : value.Originates past :=
  fun closure same => absurd same (BinaryOp.ne_function_of_apply result closure)

theorem UnaryOp.originates_of_apply {op : UnaryOp} {x value : Value}
    (result : op.apply x = .ok value) : value.Originates past :=
  fun closure same => absurd same (UnaryOp.ne_function_of_apply result closure)

/-- A plain outcome is the one an evaluation ends with. -/
theorem Eval.eq_ok_of_ofExcept {α : Type} {r : Except RuntimeError α} {a : α} {left : Heap}
    (ended : ofExcept r heap = .ok a left) : r = .ok a := by
  cases r with
  | ok b => cases ended; rfl
  | error e => cases ended

/-- The value of a name has been bound, so it is known. -/
theorem originates_of_readName {name : String} {value : Value} {left : Heap}
    (accounts : Accounts past heap) (ended : readName scope name heap = .ok value left) :
    value.Originates past := by
  unfold readName at ended
  rw [bind_apply, get_apply] at ended
  cases found : heap.lookup? scope name with
  | some new =>
    simp only [found] at ended
    cases ended
    obtain ⟨s, _, bound⟩ := Option.bind_eq_some_iff.mp found
    exact accounts.bound s name value bound
  | none =>
    simp only [found] at ended
    cases ended

/-- So the function that a call names is known. -/
theorem originates_of_callee {name : String} {count : Nat} {closure : Closure} {left : Heap}
    (accounts : Accounts past heap)
    (ended : callee scope name count heap = .ok closure left) :
    closure.Originates past := by
  unfold callee at ended
  rw [bind_apply] at ended
  split at ended
  · next value _ read =>
    split at ended
    · split at ended
      · cases ended
        exact originates_of_readName accounts read closure rfl
      · cases ended
    · cases ended
  · cases ended

/-- An assignment of a value that is known is justified. -/
theorem assignName_traces (name : String) {value : Value}
    (known : value.Originates past) :
    (assignName scope name value).Traces programs (.one (.assign scope name value)) past heap
      fun _ _ => True :=
  ⟨⟨known, trivial⟩, rfl, fun _ _ _ => trivial⟩

/-- A function is made where its text stands, so that is justified and the function is known. -/
theorem makeFunction_traces (accounts : Accounts past heap) {text : List Stmt} {path : List Nat}
    {signature : Signature} {body : List Stmt} (hosts : Hosts programs past scope text)
    (stands : blockFunction? text path = some ⟨signature, body⟩) :
    (makeFunction scope signature body).Traces programs (.one (.function scope path signature body))
      past heap fun past value => value.Originates past := by
  refine ⟨⟨⟨text, hosts, stands⟩, trivial⟩, rfl, fun value left ended closure same => ?_⟩
  cases ended
  cases same
  refine ⟨path, ?_⟩
  exact made_function past scope path signature body ▸ accounts.functions_eq ▸
    List.getElem?_concat_length

/-- A call of a function that is known is justified, and the body is the text of the scope it opens.
-/
theorem openCall_traces (accounts : Accounts past heap) {closure : Closure}
    {arguments : List Value} (known : closure.Originates past)
    (knownArguments : ∀ value ∈ arguments, value.Originates past) :
    (openCall closure arguments).Traces programs (.one (.call closure arguments)) past heap
      fun past scope => Hosts programs past scope closure.body := by
  refine ⟨⟨⟨known, knownArguments⟩, trivial⟩, rfl, fun scope left ended => ?_⟩
  cases ended
  change Hosts programs (past ++ [.call closure arguments]) heap.scopes.size closure.body
  rw [accounts.size_eq]
  exact ⟨closure, called_call past closure arguments ▸ List.getElem?_concat_length, rfl⟩

end

/-! ## Evaluation -/

/-- A tree stands at a path in a text: what is at a path in the tree is further down in the text. -/
def Tree.StandsAt (text : List Stmt) (path : List Nat) (t : Tree) : Prop :=
  ∀ more code, t.function? more = some code → blockFunction? text (path ++ more) = some code

/-- What is part of a tree stands one step further down than that, unless the tree is a function. -/
theorem Tree.StandsAt.part {text : List Stmt} {path : List Nat} {t u : Tree}
    (h : t.StandsAt text path) (noFunction : t.code? = none) (place : Nat)
    (part : t.parts[place]?.map Prod.snd = some u) : u.StandsAt text (path ++ [place]) := by
  intro more code found
  obtain ⟨⟨hold, _⟩, here, rfl⟩ := Option.map_eq_some_iff.mp part
  rw [List.append_assoc]
  refine h (place :: more) code ?_
  rw [Tree.function?, noFunction, here]
  exact found

/-- Trees stand one behind the other, the first of them at some place below a path. -/
def standInRow (text : List Stmt) (path : List Nat) (place : Nat) (row : List Tree) : Prop :=
  ∀ i (t : Tree), row[i]? = some t → t.StandsAt text (path ++ [place + i])

/-- The parts of a node from some place on stand in a row below it. -/
theorem Tree.StandsAt.row {text : List Stmt} {path : List Nat} {t : Tree} {row : List Tree}
    (h : t.StandsAt text path) (noFunction : t.code? = none) (place : Nat)
    (parts : (t.parts.map Prod.snd).drop place = row) : standInRow text path place row := by
  intro i u here
  refine h.part noFunction (place + i) ?_
  rw [← List.getElem?_map, ← List.getElem?_drop, parts]
  exact here

/-- A text stands in a row from its first statement on. -/
theorem standInRow_self (text : List Stmt) : standInRow text [] 0 (text.map .stmt) := by
  intro i t here more code found
  obtain ⟨s, there, rfl⟩ := Option.map_eq_some_iff.mp (List.getElem?_map ▸ here)
  rw [Nat.zero_add]
  change (text[i]?.bind fun s => (Tree.stmt s).function? more) = some code
  rw [there]
  exact found

/-- What stands in a row stands at its own place, and the others at the places behind. -/
theorem standInRow_cons {text : List Stmt} {path : List Nat} {place : Nat} {t : Tree}
    {row : List Tree} (h : standInRow text path place (t :: row)) :
    t.StandsAt text (path ++ [place]) ∧ standInRow text path (place + 1) row :=
  ⟨h 0 t rfl, fun i u here => Nat.add_right_comm place 1 i ▸ h (i + 1) u here⟩

/-- Calls of functions that originate in the past with arguments that do. -/
def Calls.Trace (calls : Calls) (history : Closure → List Value → History) : Prop :=
  ∀ past heap, Accounts past heap → ∀ closure : Closure, closure.Originates past →
    ∀ arguments : List Value, (∀ value ∈ arguments, value.Originates past) →
      (calls closure arguments).Traces programs (history closure arguments) past heap
        fun past value => value.Originates past

section

open Eval

variable {programs} {calls : Calls} {history : Closure → List Value → History}
  {scope : ScopeId} {text : List Stmt} {past : List Event} {heap : Heap}

namespace Calls.Trace

mutual
/-- Expressions that stand in the text of a scope are evaluated there by justified events. -/
theorem evalExpr (trace : Calls.Trace programs calls history) (path : List Nat) :
    ∀ e : Expr, Tree.StandsAt text path (.expr e) → ∀ past heap, Accounts past heap →
      Hosts programs past scope text →
        (Scriptlet.evalExpr calls scope e).Traces programs (e.events calls history scope path)
          past heap fun past value => value.Originates past
  | .number _, _, _, _, _, _ => .pure nofun
  | .variable name, _, _, _, accounts, _ =>
    .quiet (quiet_readName scope name) fun _ _ => originates_of_readName accounts
  | .assign name e, stands, past, heap, accounts, hosts => by
    have inside := stands.part rfl 0 rfl
    refine .bind accounts (trace.evalExpr _ e inside past heap accounts hosts) ?_
    intro more value left _ known
    exact .bind_quiet (assignName_traces name known) (fun _ => quiet_pure value)
      fun _ _ _ _ _ _ ended => by cases ended; exact known.append
  | .binary op first second, stands, past, heap, accounts, hosts => by
    have inFirst := stands.part rfl 0 rfl
    have inSecond := stands.part rfl 1 rfl
    refine .bind accounts (trace.evalExpr _ first inFirst past heap accounts hosts) ?_
    intro more x left after _
    exact .bind_quiet (trace.evalExpr _ second inSecond _ left after hosts.append)
      (fun y => quiet_ofExcept (op.apply x y))
      fun _ _ _ _ _ _ ended => BinaryOp.originates_of_apply (eq_ok_of_ofExcept ended)
  | .unary op operand, stands, past, heap, accounts, hosts => by
    have inside := stands.part rfl 0 rfl
    exact .bind_quiet (trace.evalExpr _ operand inside past heap accounts hosts)
      (fun x => quiet_ofExcept (op.apply x))
      fun _ _ _ _ _ _ ended => UnaryOp.originates_of_apply (eq_ok_of_ofExcept ended)
  | .call name arguments, stands, past, heap, accounts, hosts => by
    have inside : standInRow text path 0 (arguments.map .expr) :=
      stands.row rfl 0 (by simp [Tree.parts, Function.comp_def])
    have found : (callee scope name arguments.length).Traces programs .none past heap
        fun past closure => closure.Originates past :=
      .quiet (quiet_callee scope name arguments.length) fun _ _ => originates_of_callee accounts
    refine .bind accounts found ?_
    intro more closure left after known
    refine .bind after (trace.evalArguments path 0 arguments inside _ left after hosts.append) ?_
    intro others values last final knownValues
    -- The function called has been found and the arguments are known, so the call itself is
    -- justified.
    exact trace _ last final closure known.append values knownValues
  | .function signature body, stands, _, _, accounts, hosts =>
    makeFunction_traces accounts hosts (List.append_nil path ▸ stands [] _ rfl)

theorem evalArguments (trace : Calls.Trace programs calls history) (path : List Nat) (place : Nat) :
    ∀ es : List Expr, standInRow text path place (es.map .expr) → ∀ past heap, Accounts past heap →
      Hosts programs past scope text →
        (Scriptlet.evalArguments calls scope es).Traces programs
          (argumentEvents calls history scope path place es) past heap
          fun past values => ∀ value ∈ values, value.Originates past
  | [], _, _, _, _, _ => .pure nofun
  | e :: rest, stand, past, heap, accounts, hosts => by
    obtain ⟨first, others⟩ := standInRow_cons stand
    refine .bind accounts (trace.evalExpr _ e first past heap accounts hosts) ?_
    intro more value left after known
    refine .bind_quiet (trace.evalArguments path _ rest others _ left after hosts.append)
      (fun values => quiet_pure _) ?_
    intro _ values _ _ _ knownValues ended
    cases ended
    exact List.forall_mem_cons.mpr ⟨known.append, knownValues⟩

theorem evalStmt (trace : Calls.Trace programs calls history) (path : List Nat) :
    ∀ s : Stmt, Tree.StandsAt text path (.stmt s) → ∀ past heap, Accounts past heap →
      Hosts programs past scope text →
        (Scriptlet.evalStmt calls scope s).Traces programs (s.events calls history scope path)
          past heap fun past flow => flow.value.Originates past
  | .expression e, stands, past, heap, accounts, hosts => by
    have inside := stands.part rfl 0 rfl
    exact .bind_quiet (trace.evalExpr _ e inside past heap accounts hosts) (fun _ => quiet_pure _)
      fun _ _ _ _ _ known ended => by cases ended; exact known
  | .result e, stands, past, heap, accounts, hosts => by
    have inside := stands.part rfl 0 rfl
    exact .bind_quiet (trace.evalExpr _ e inside past heap accounts hosts) (fun _ => quiet_pure _)
      fun _ _ _ _ _ known ended => by cases ended; exact known
  | .block body, stands, past, heap, accounts, hosts => by
    have inside : standInRow text path 0 (body.map .stmt) :=
      stands.row rfl 0 (by simp [Tree.parts, Function.comp_def])
    exact trace.evalBlock path 0 .nothing body inside past heap accounts hosts nofun
  | .conditional condition body, stands, past, heap, accounts, hosts => by
    have inCondition := stands.part rfl 0 rfl
    -- the condition has the first place below the node, so those of the body begin behind it
    have inside : standInRow text path 1 (body.map .stmt) :=
      stands.row rfl 1 (by simp [Tree.parts, Function.comp_def])
    refine .bind accounts (trace.evalExpr _ condition inCondition past heap accounts hosts) ?_
    intro more value left after _
    -- A condition that is no boolean is an error, and then nothing more happens.
    rcases value with _ | (_ | _) | _ | _
    case boolean.true =>
      have block := trace.evalBlock path 1 .nothing body inside _ left after hosts.append nofun
      refine .bind_quiet block (fun flow => ?_) ?_
      · cases flow <;> exact quiet_pure _
      · intro _ flow _ _ _ known ended
        cases flow <;> cases ended
        · exact nofun
        · exact known
    case boolean.false => exact .pure nofun
    all_goals exact .throw _
  | .declaration ⟨some name, parameters⟩ body, stands, past, heap, accounts, hosts => by
    have function := makeFunction_traces accounts hosts (List.append_nil path ▸ stands [] _ rfl)
    simp only [Scriptlet.evalStmt, Stmt.events]
    refine .bind accounts function ?_
    intro more value left after known
    exact .bind_quiet (assignName_traces name known) (fun _ => quiet_pure _)
      fun _ _ _ _ _ _ ended => by cases ended; exact known.append
  | .declaration ⟨none, parameters⟩ body, stands, past, heap, accounts, hosts => by
    have function := makeFunction_traces accounts hosts (List.append_nil path ▸ stands [] _ rfl)
    simp only [Scriptlet.evalStmt, Stmt.events]
    refine .bind accounts function ?_
    intro more value left after known
    exact .pure known

theorem evalBlock (trace : Calls.Trace programs calls history) (path : List Nat) (place : Nat)
    (last : Value) : ∀ body : List Stmt, standInRow text path place (body.map .stmt) → ∀ past heap,
      Accounts past heap → Hosts programs past scope text → last.Originates past →
        (Scriptlet.evalBlock calls scope last body).Traces programs
          (blockEvents calls history scope path place body) past heap
          fun past flow => flow.value.Originates past
  | [], _, _, _, _, _, known => .pure known
  | s :: rest, stand, past, heap, accounts, hosts, _ => by
    obtain ⟨first, others⟩ := standInRow_cons stand
    refine .bind accounts (trace.evalStmt _ s first past heap accounts hosts) ?_
    intro more flow left after known
    cases flow with
    | normal value => exact trace.evalBlock path _ value rest others _ left after hosts.append known
    | returned value => exact .pure known
end

end Calls.Trace

/-- Calls are justified, by induction on the room there is for them. -/
theorem callsWithin_trace (limit room : Nat) :
    Calls.Trace programs (callsWithin limit room) (callEvents limit room) := by
  induction room with
  | zero => exact fun _ _ _ _ _ _ _ => .throw _
  | succ room ih =>
    intro past heap accounts closure known arguments knownArguments
    rw [callsWithin_succ]
    -- Behind the opening of its scope, the body is the text of that scope.
    refine .bind accounts (openCall_traces accounts known knownArguments) ?_
    intro more scope left after hosts
    have stand := standInRow_self closure.body
    refine .bind_quiet (ih.evalBlock [] 0 .nothing closure.body stand _ left after hosts nofun)
      quiet_innermost ?_
    intro _ flow _ _ _ origin ended
    cases flow <;> cases ended
    · exact nofun
    · exact origin

/-- **Every event of a run is justified**, and a function that the run comes to originates in the
events. -/
theorem Program.eval_traces {p : Program} (member : p ∈ programs) (limit : Nat)
    (accounts : Accounts past heap) :
    (p.eval limit 0).Traces programs (p.events limit 0) past heap
      fun past value => value.Originates past := by
  rw [p.eval_eq]
  have stand := standInRow_self p.statements
  have trace : Calls.Trace programs _ _ := callsWithin_trace limit limit
  refine .bind_quiet (trace.evalBlock [] 0 .nothing p.statements stand past heap accounts
    ⟨p, member, rfl⟩ nofun) quiet_outermost ?_
  intro _ flow _ _ _ origin ended
  cases flow <;> cases ended
  exact origin

end

end Scriptlet
