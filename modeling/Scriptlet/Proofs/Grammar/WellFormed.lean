import Scriptlet.Proofs.Grammar.Depth
import Scriptlet.Proofs.Source.Spelling

/-!
# The shape of accepted programs

Trees can be built that no text stands for: a variable called `1 + 2`, a number whose value is not
the one its text says, a declaration without a name. In a program that has been read no node is of
that kind (`parse_wellFormed`). The reason is that everything a tree carries comes from a token, and
every token has been read from the text.
-/

namespace Scriptlet

namespace Tree

variable {P : Tree → Prop} {t u v : Tree}

/-- A node of a tree, at the root or anywhere below. -/
inductive Contains : Tree → Tree → Prop
  | root (t : Tree) : Contains t t
  | part {t u v : Tree} {hold : Hold} : (hold, u) ∈ t.parts → Contains u v → Contains t v

/-- What holds of all nodes of a tree. -/
def All (P : Tree → Prop) (t : Tree) : Prop := ∀ u, t.Contains u → P u

/-- A property holds of all of a tree if it holds at its root and of all of its parts. -/
theorem all_iff : t.All P ↔ P t ∧ ∀ part ∈ t.parts, part.2.All P := by
  constructor
  · intro all
    exact ⟨all t (.root t), fun part member u below => all u (.part member below)⟩
  · rintro ⟨here, parts⟩ u inside
    cases inside with
    | root => exact here
    | part member below => exact parts _ member u below

theorem All.root (h : t.All P) : P t := h t (.root t)

theorem All.parts (h : t.All P) : ∀ part ∈ t.parts, part.2.All P := (all_iff.mp h).2

section

variable {op : BinaryOp} {left right condition : Expr} {es : List Expr} {ss : List Stmt}

theorem All.only {hold : Hold} (h : t.All P) (only : t.parts = [(hold, u)]) : u.All P :=
  h.parts (hold, u) (only ▸ List.mem_cons_self)

theorem All.operands (h : All P (.expr (.binary op left right))) :
    All P (.expr left) ∧ All P (.expr right) :=
  (List.forall_mem_cons.mp h.parts).imp_right fun later => later _ List.mem_cons_self

theorem All.arguments (h : t.All P) (parts : t.parts = es.map fun e => (.within, .expr e)) :
    ∀ e ∈ es, All P (.expr e) :=
  fun _ member => h.parts _ (parts ▸ List.mem_map_of_mem member)

theorem All.body (h : t.All P) (parts : t.parts = ss.map fun s => (.within, .stmt s)) :
    ∀ s ∈ ss, All P (.stmt s) :=
  fun _ member => h.parts _ (parts ▸ List.mem_map_of_mem member)

theorem All.conditional (h : All P (.stmt (.conditional condition ss))) :
    All P (.expr condition) ∧ ∀ s ∈ ss, All P (.stmt s) :=
  (List.forall_mem_cons.mp h.parts).imp_right fun later _ member =>
    later _ (List.mem_map_of_mem member)

end

/-- Whether a node carries what a text can give it. -/
def WellFormed : Tree → Prop
  | .expr (.number numeral) => IsNumeral numeral.text ∧ numeral = .ofLexeme numeral.text
  | .expr (.variable name) | .expr (.assign name _) | .expr (.call name _) => IsIdentifier name
  | .expr (.function signature _) =>
    signature.name = none ∧ ∀ name ∈ signature.parameters, IsIdentifier name
  | .stmt (.declaration signature _) =>
    (∃ name, signature.name = some name ∧ IsIdentifier name) ∧
      ∀ name ∈ signature.parameters, IsIdentifier name
  | _ => True

end Tree

/-- A node of a program. -/
def Program.Contains (p : Program) (t : Tree) : Prop :=
  ∃ s ∈ p.statements, Tree.Contains (.stmt s) t

/-- Whether the nodes of what a phrase means carry what a text can give them. -/
def Phrase.WellFormed : Phrase → Prop
  | .atom e | .chain _ e | .signed e | .expression e => Tree.All Tree.WellFormed (.expr e)
  | .arguments es => ∀ e ∈ es, Tree.All Tree.WellFormed (.expr e)
  | .block body | .statements body => ∀ s ∈ body, Tree.All Tree.WellFormed (.stmt s)
  | .function parameters body =>
    (∀ name ∈ parameters, IsIdentifier name) ∧ ∀ s ∈ body, Tree.All Tree.WellFormed (.stmt s)
  | .statement s => Tree.All Tree.WellFormed (.stmt s)

/-- An operand is well formed as the expression that it is. -/
theorem Phrase.wellFormed_operand {level : Level} {e : Expr} :
    (Phrase.operand level e).WellFormed ↔ Tree.All Tree.WellFormed (.expr e) := by
  cases level <;> exact Iff.rfl

/-- Each parameter is among the kinds of the parameters. -/
theorem mem_parameterKinds {name : String} {parameters : List String}
    (member : name ∈ parameters) : .identifier name ∈ parameterKinds parameters := by
  induction parameters with
  | nil => cases member
  | cons first rest ih =>
    cases rest with
    | nil => exact List.mem_map_of_mem member
    | cons second rest =>
      rcases List.mem_cons.mp member with rfl | member
      · exact List.mem_cons_self
      · exact List.mem_cons_of_mem _ (List.mem_cons_of_mem _ (ih member))

/-- **What is read from tokens carries what they do.** -/
theorem Derivation.wellFormed {ks : List TokenKind} {phrase : Phrase} (r : Derivation ks phrase)
    (spelled : ∀ kind ∈ ks, kind.IsSpelled) : phrase.WellFormed := by
  induction r with
  | number numeral => exact Tree.all_iff.mpr ⟨⟨numeral, rfl⟩, nofun⟩
  | name x =>
    rw [List.forall_mem_singleton] at spelled
    exact Tree.all_iff.mpr ⟨spelled, nofun⟩
  -- A rule with tokens of its own splits the kinds, and each part derives from its own share.
  | call name r ih =>
    simp only [List.forall_mem_cons, List.forall_mem_append] at spelled
    exact Tree.all_iff.mpr ⟨spelled.1, List.forall_mem_map.mpr (ih spelled.2.2.1)⟩
  | group r ih =>
    simp only [List.forall_mem_cons, List.forall_mem_append] at spelled
    exact ih spelled.2.1
  | base r ih | unsigned r ih | comparison r ih => exact ih spelled
  | power r s base exponent =>
    simp only [List.forall_mem_append, List.forall_mem_cons] at spelled
    exact Tree.all_iff.mpr ⟨trivial, List.forall_mem_cons.mpr
      ⟨base spelled.1, List.forall_mem_singleton.mpr (exponent spelled.2.2)⟩⟩
  | sign op r ih =>
    rw [List.forall_mem_cons] at spelled
    exact Tree.all_iff.mpr ⟨trivial, List.forall_mem_singleton.mpr (ih spelled.2)⟩
  | single left r ih => exact Phrase.wellFormed_operand.mp (ih spelled)
  | fold op left same r s chain operand =>
    simp only [List.forall_mem_append, List.forall_mem_cons] at spelled
    exact Tree.all_iff.mpr ⟨trivial, List.forall_mem_cons.mpr ⟨chain spelled.1,
      List.forall_mem_singleton.mpr (Phrase.wellFormed_operand.mp (operand spelled.2.2))⟩⟩
  | noArguments | noStatements => exact nofun
  | lastArgument r ih | lastStatement r ih => exact List.forall_mem_singleton.mpr (ih spelled)
  | nextArgument r s first rest | nextStatement r s first rest =>
    simp only [List.forall_mem_append, List.forall_mem_cons] at spelled
    exact List.forall_mem_cons.mpr ⟨first spelled.1, rest spelled.2.2⟩
  | assign name r ih =>
    simp only [List.forall_mem_cons] at spelled
    exact Tree.all_iff.mpr ⟨spelled.1, List.forall_mem_singleton.mpr (ih spelled.2.2)⟩
  | anonymous r ih =>
    rw [List.forall_mem_cons] at spelled
    obtain ⟨parameters, body⟩ := ih spelled.2
    exact Tree.all_iff.mpr ⟨⟨rfl, parameters⟩, List.forall_mem_map.mpr body⟩
  | block r ih =>
    simp only [List.forall_mem_cons, List.forall_mem_append] at spelled
    exact ih spelled.2.1
  | function parameters r ih =>
    simp only [List.forall_mem_cons, List.forall_mem_append] at spelled
    exact ⟨fun name member => spelled.2.1 _ (mem_parameterKinds member), ih spelled.2.2.2⟩
  | declaration name r ih =>
    simp only [List.forall_mem_cons] at spelled
    obtain ⟨parameters, body⟩ := ih spelled.2.2
    exact Tree.all_iff.mpr ⟨⟨⟨name, rfl, spelled.2.1⟩, parameters⟩, List.forall_mem_map.mpr body⟩
  | conditional r s condition body =>
    simp only [List.forall_mem_cons, List.forall_mem_append] at spelled
    obtain ⟨_, _, first, _, second⟩ := spelled
    exact Tree.all_iff.mpr ⟨trivial,
      List.forall_mem_cons.mpr ⟨condition first, List.forall_mem_map.mpr (body second)⟩⟩
  | result r ih =>
    rw [List.forall_mem_cons] at spelled
    exact Tree.all_iff.mpr ⟨trivial, List.forall_mem_singleton.mpr (ih spelled.2)⟩
  | braces r ih => exact Tree.all_iff.mpr ⟨trivial, List.forall_mem_map.mpr (ih spelled)⟩
  | bare r ih => exact Tree.all_iff.mpr ⟨trivial, List.forall_mem_singleton.mpr (ih spelled)⟩
  | newLine r ih =>
    rw [List.forall_mem_cons] at spelled
    exact ih spelled.2

/-- **No text stands for a tree that is not well-formed.** -/
theorem parse_wellFormed {source : String} {p : Program} (read : parse source = .ok p) :
    ∀ s ∈ p.statements, Tree.All Tree.WellFormed (.stmt s) := by
  obtain ⟨kinds, spells, r, _⟩ := parse_eq_ok_iff.mp read
  exact r.wellFormed spells.isSpelled

end Scriptlet
