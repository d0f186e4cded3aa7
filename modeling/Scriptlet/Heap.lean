import Scriptlet.Value

/-!
# Scopes in a heap

A scope binds names to values and may lie within another one. All scopes of a run live in one heap,
because closures share them: an assignment through one holder of a scope is seen by every other.

A scope is made after the one it lies within, so links lead to earlier scopes only (`outer_lt`), and
following them ends. A name is resolved to the first scope on this way outward that binds it
(`resolve?`). Looking a name up reads that scope; assigning writes it, or the scope where the search
began when the name is bound nowhere.

`find?_set` is the law of a scope's own bindings.
-/

namespace Scriptlet

/-! ## Bindings -/

/-- Names with the values they are bound to, in the order in which they were first bound. -/
structure Bindings where
  entries : List (String × Value)
  distinct : (entries.map Prod.fst).Nodup

namespace Bindings

/-- The value of the first entry for a name. -/
def findIn (name : String) : List (String × Value) → Option Value
  | [] => none
  | (key, value) :: rest => if key = name then some value else findIn name rest

/-- Puts a value in the place of the first entry for a name, or behind all entries. -/
def setIn (name : String) (value : Value) : List (String × Value) → List (String × Value)
  | [] => [(name, value)]
  | (key, old) :: rest =>
    if key = name then (key, value) :: rest else (key, old) :: setIn name value rest

/-- Behind an entry that was set, its name finds it and other names find what they found. -/
theorem findIn_setIn (name other : String) (value : Value) (entries : List (String × Value)) :
    findIn other (setIn name value entries)
      = if name = other then some value else findIn other entries := by
  induction entries with
  | nil => rfl
  | cons entry rest ih =>
    obtain ⟨key, old⟩ := entry
    by_cases same : key = name
    · by_cases wanted : name = other <;> simp [setIn, findIn, same, wanted]
    · by_cases wanted : key = other
      · subst wanted
        simp [setIn, findIn, same, Ne.symm same]
      · simp [setIn, findIn, same, wanted, ih]

/-- The names of the entries are those before and the one that was set. -/
theorem mem_keys_setIn {name other : String} {value : Value} {entries : List (String × Value)} :
    other ∈ (setIn name value entries).map Prod.fst
      ↔ other = name ∨ other ∈ entries.map Prod.fst := by
  induction entries with
  | nil => simp [setIn]
  | cons entry rest ih =>
    obtain ⟨key, old⟩ := entry
    by_cases same : key = name
    · simp [setIn, same]
    · simp only [setIn, if_neg same, List.map_cons, List.mem_cons, ih]
      exact or_left_comm

/-- No name gets two entries. -/
theorem nodup_keys_setIn {name : String} {value : Value} {entries : List (String × Value)}
    (distinct : (entries.map Prod.fst).Nodup) :
    ((setIn name value entries).map Prod.fst).Nodup := by
  induction entries with
  | nil => simp [setIn]
  | cons entry rest ih =>
    obtain ⟨key, old⟩ := entry
    obtain ⟨absent, restDistinct⟩ := List.nodup_cons.mp distinct
    by_cases same : key = name
    · simpa [setIn, same] using distinct
    · simp only [setIn, if_neg same, List.map_cons]
      refine List.nodup_cons.mpr ⟨fun present => ?_, ih restDistinct⟩
      cases mem_keys_setIn.mp present with
      | inl isName => exact same isName
      | inr isOld => exact absent isOld

/-- No names at all. -/
def empty : Bindings := ⟨[], .nil⟩

/-- The value that a name is bound to. -/
def find? (b : Bindings) (name : String) : Option Value := findIn name b.entries

/-- Whether a name is bound. -/
def binds (b : Bindings) (name : String) : Bool := (b.find? name).isSome

/-- Binds a name, in place of what it was bound to. -/
def set (b : Bindings) (name : String) (value : Value) : Bindings :=
  ⟨setIn name value b.entries, nodup_keys_setIn b.distinct⟩

/-- Binds names to values one after the other; of two values for one name the later one stays. -/
def ofList (pairs : List (String × Value)) : Bindings :=
  pairs.foldl (fun b pair => b.set pair.1 pair.2) empty

/-- The number of names bound. -/
def size (b : Bindings) : Nat := b.entries.length

@[simp] theorem find?_empty (name : String) : empty.find? name = none := rfl

/-- The same of bindings. -/
theorem find?_set (b : Bindings) (name other : String) (value : Value) :
    (b.set name value).find? other = if name = other then some value else b.find? other :=
  findIn_setIn name other value b.entries

end Bindings

/-! ## Heaps -/

/-- Bindings, and the scope that they lie within. -/
structure Scope where
  bindings : Bindings
  outer : Option ScopeId

/-- All scopes of a run, and the number of functions made so far. -/
structure Heap where
  scopes : Array Scope
  functions : Nat
  outer_lt : ∀ s (h : s < scopes.size) outer, scopes[s].outer = some outer → outer < s

namespace Heap

/-- A heap without scopes. -/
def empty : Heap := ⟨#[], 0, fun _ h => absurd h (Nat.not_lt_zero _)⟩

/-- The bindings of a scope; a scope outside the heap has none. -/
def bindings (h : Heap) (s : ScopeId) : Bindings :=
  match h.scopes[s]? with
  | some scope => scope.bindings
  | none => .empty

/-- The scope that a scope lies within. -/
def outer? (h : Heap) (s : ScopeId) : Option ScopeId := h.scopes[s]?.bind Scope.outer

/-- A scope lies within one that was made earlier. -/
theorem lt_of_outer? {h : Heap} {s outer : ScopeId} (link : h.outer? s = some outer) :
    outer < s := by
  unfold outer? at link
  obtain ⟨scope, found, isOuter⟩ := Option.bind_eq_some_iff.mp link
  obtain ⟨inside, rfl⟩ := Array.getElem?_eq_some_iff.mp found
  exact h.outer_lt s inside outer isOuter

/-- The first scope that binds a name, from a scope outward. -/
def resolve? (h : Heap) (s : ScopeId) (name : String) : Option ScopeId :=
  if (h.bindings s).binds name then some s
  else
    match link : h.outer? s with
    | some outer =>
      have := lt_of_outer? link
      h.resolve? outer name
    | none => none
termination_by s

/-- The value of a name, as seen from a scope. -/
def lookup? (h : Heap) (s : ScopeId) (name : String) : Option Value :=
  (h.resolve? s name).bind fun found => (h.bindings found).find? name

/-- Binds a name in a scope itself. -/
def define (h : Heap) (s : ScopeId) (name : String) (value : Value) : Heap where
  scopes := h.scopes.modify s fun scope => { scope with bindings := scope.bindings.set name value }
  functions := h.functions
  outer_lt t inside outer link := by
    rw [Array.getElem_modify] at link
    refine h.outer_lt t (by simpa using inside) outer ?_
    split at link <;> exact link

/-- Binds a name where it is bound already, as seen from a scope, or else in that scope. -/
def assign (h : Heap) (s : ScopeId) (name : String) (value : Value) : Heap :=
  h.define ((h.resolve? s name).getD s) name value

/-- Makes a scope, and gives its place. It lies within `outer`, if the heap has that scope. -/
def newScope (h : Heap) (outer : Option ScopeId) (bindings : Bindings) : ScopeId × Heap :=
  (h.scopes.size,
    { scopes := h.scopes.push ⟨bindings, outer.filter (· < h.scopes.size)⟩
      functions := h.functions
      outer_lt := by
        intro s inside o link
        rw [Array.getElem_push] at link
        split at link
        · exact h.outer_lt s ‹_› o link
        · have below : o < h.scopes.size := by simpa using (Option.filter_eq_some_iff.mp link).2
          exact Nat.lt_of_lt_of_le below (Nat.le_of_not_lt ‹_›) })

/-- Makes a function that is declared in a scope. -/
def newFunction (h : Heap) (s : ScopeId) (signature : Signature) (body : List Stmt) : Value × Heap :=
  (.function ⟨h.functions, signature, body, s⟩, { h with functions := h.functions + 1 })

end Heap
end Scriptlet
