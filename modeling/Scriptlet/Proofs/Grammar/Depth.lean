import Scriptlet.Proofs.Grammar.Acceptance

/-!
# How deep accepted programs are

A program is dropped node by node, so the depth of its tree matters and not only the number of
levels open while it is read. The two are not the same. Reading a node opens a level for each of its
parts but two: the left operand of a binary operator is read before the level of the operator is
opened, and the condition of a conditional is read beside the level of its body. Such a part hangs
`beside` its node, and all others hang `within`.

On a path from the root to a leaf, the nodes that are left for a part within them are never more
than the levels of the derivation (`Derivation.within_levels`). So what is accepted is at most
`maxNesting` nodes deep along every path that goes within all the way, and only a path that
somewhere goes beside can be deeper.
-/

namespace Scriptlet

/-! ## Trees and paths -/

/-- How a part hangs below its node: within a level that is opened for it, or beside it. -/
inductive Hold where
  | within
  | beside
deriving DecidableEq

/-- How many nodes more a part may have that hangs beside its node. -/
def Hold.spare : Hold → Nat
  | within => 0
  | beside => 1

/-- A node of a program with everything below it. -/
inductive Tree where
  | expr (e : Expr)
  | stmt (s : Stmt)

namespace Tree

/-- Whether a node counts for the depth. Numbers and names have nothing below them, and what only
carries one expression is not nested. -/
def counts : Tree → Bool
  | .expr (.number _) | .expr (.variable _) | .stmt (.expression _) | .stmt (.result _) => false
  | _ => true

/-- The parts right below a node. -/
def parts : Tree → List (Hold × Tree)
  | .expr (.number _) | .expr (.variable _) => []
  | .expr (.assign _ e) | .expr (.unary _ e) => [(.within, .expr e)]
  | .expr (.binary _ l r) => [(.beside, .expr l), (.within, .expr r)]
  | .expr (.call _ es) => es.map fun e => (.within, .expr e)
  | .stmt (.expression e) | .stmt (.result e) => [(.within, .expr e)]
  | .stmt (.conditional e body) => (.beside, .expr e) :: body.map fun s => (.within, .stmt s)
  | .expr (.function _ body) | .stmt (.block body) | .stmt (.declaration _ body) =>
    body.map fun s => (.within, .stmt s)

/-- A path from the root of a tree to a leaf, as the holds by which it leaves the nodes that count.
It leaves a leaf for nothing, which counts as within. -/
inductive Path : Tree → List Hold → Prop
  | leaf {t : Tree} : t.parts = [] → Path t (if t.counts then [.within] else [])
  | part {t u : Tree} {hold : Hold} {path : List Hold} :
      (hold, u) ∈ t.parts → Path u path → Path t (if t.counts then hold :: path else path)

end Tree

/-- A path from a statement of a program to a leaf. -/
def Program.Path (p : Program) (path : List Hold) : Prop :=
  ∃ s ∈ p.statements, Tree.Path (.stmt s) path

/-! ## Paths and levels -/

/-- Every path of a tree leaves few nodes for parts within them. -/
def Tree.Within (n : Nat) (t : Tree) : Prop := ∀ path, t.Path path → path.count .within ≤ n

namespace Tree

variable {t u : Tree} {m n : Nat}

/-- A tree within some depth is within every greater one. -/
theorem Within.mono (h : t.Within m) (le : m ≤ n) : t.Within n :=
  fun path whole => Nat.le_trans (h path whole) le

/-- A node adds one to the paths of the parts within it, and nothing to those beside it. -/
theorem within_succ (parts : ∀ part ∈ t.parts, part.2.Within (n + part.1.spare)) :
    t.Within (n + 1) := by
  intro path whole
  cases whole with
  | leaf =>
    split
    · exact Nat.le_add_left 1 n
    · exact Nat.zero_le _
  | @part _ u hold path member below =>
    have few := parts _ member path below
    cases hold with
    | within =>
      split
      · rw [List.count_cons_self]
        exact Nat.succ_le_succ few
      · exact Nat.le_succ_of_le few
    | beside =>
      split
      · rw [List.count_cons_of_ne (by decide)]
        exact few
      · exact few

/-- A node that does not count has the paths of its parts. -/
theorem within_of_not_counts (free : t.counts = false) (parts : ∀ part ∈ t.parts, part.2.Within n) :
    t.Within n := by
  intro path whole
  cases whole with
  | leaf => simp [free]
  | part member below =>
    rw [free]
    exact parts _ member _ below

/-- Nodes with the same parts have the same paths. -/
theorem Within.of_parts (h : u.Within n) (parts : t.parts = u.parts)
    (counts : t.counts = u.counts) : t.Within n := by
  intro path whole
  cases whole with
  | leaf nothing => exact h _ (counts ▸ .leaf (parts ▸ nothing))
  | part member below => exact h _ (counts ▸ .part (parts ▸ member) below)

/-- Trees of a list are within the greater of two depths, one for the first and one for the others.
-/
theorem forall_within_cons {α : Type} {tree : α → Tree} {a : α} {rest : List α}
    (first : (tree a).Within m) (others : ∀ b ∈ rest, (tree b).Within n) :
    ∀ b ∈ a :: rest, (tree b).Within (max m n) := by
  intro b member
  rcases List.mem_cons.mp member with rfl | member
  · exact first.mono (Nat.le_max_left m n)
  · exact (others b member).mono (Nat.le_max_right m n)

/-- A condition hangs beside, so it may be as deep as the conditional itself. -/
theorem conditional_within {e : Expr} {body : List Stmt} (condition : Within n (.expr e))
    (block : Within n (.stmt (.block body))) : Within n (.stmt (.conditional e body)) := by
  intro path whole
  cases whole with
  | leaf nothing => cases nothing
  | @part _ _ _ path member below =>
    rcases member with _ | ⟨_, member⟩
    · refine Nat.le_trans (Nat.le_of_eq ?_) (condition path below)
      exact List.count_cons_of_ne (by decide)
    · exact block _ (.part member below)

end Tree

/-- Within few levels a phrase has few nodes that are left for a part within them. A phrase whose
reader is called in a level opened before it may have one more. A block is the node of its braces.
-/
def Phrase.Within (n : Nat) : Phrase → Prop
  | .atom e | .chain _ e | .signed e => Tree.Within (n + 1) (.expr e)
  | .arguments es => ∀ e ∈ es, Tree.Within n (.expr e)
  | .expression e => Tree.Within n (.expr e)
  | .block body | .function _ body => Tree.Within n (.stmt (.block body))
  | .statement s => Tree.Within n (.stmt s)
  | .statements body => ∀ s ∈ body, Tree.Within n (.stmt s)

/-- An operand may be one node deeper than its derivation has levels. -/
theorem Phrase.within_operand {level : Level} {e : Expr} {n : Nat} :
    (Phrase.operand level e).Within n ↔ Tree.Within (n + 1) (.expr e) := by
  cases level <;> exact Iff.rfl

/-- The left operand hangs beside, so it may be one node deeper than the right one. -/
theorem Tree.binary_within {op : BinaryOp} {e f : Expr} {m n k : Nat}
    (left : Within (m + 1) (.expr e)) (right : Within n (.expr f)) (first : m ≤ k)
    (second : n ≤ k) : Within (k + 1) (.expr (.binary op e f)) :=
  within_succ (List.forall_mem_cons.mpr
    ⟨left.mono (Nat.succ_le_succ first), List.forall_mem_singleton.mpr (right.mono second)⟩)

/-- **Levels bound what is within.** -/
theorem Derivation.within_levels {ks : List TokenKind} {phrase : Phrase}
    (r : Derivation ks phrase) : phrase.Within r.levels := by
  induction r with
  | number | name => exact Tree.within_of_not_counts rfl nofun
  | call name r ih => exact Tree.within_succ (List.forall_mem_map.mpr ih)
  | group r ih => exact Tree.Within.mono ih (Nat.le_succ _)
  | base r ih | unsigned r ih => exact ih
  -- The base is read before the level of the exponent is opened, so it hangs beside.
  | power r s base exponent =>
    exact Tree.binary_within base exponent (Nat.le_max_left ..) (Nat.le_max_right ..)
  | sign op r ih => exact Tree.within_succ (List.forall_mem_singleton.mpr ih)
  | single left r ih => exact Phrase.within_operand.mp ih
  | fold op left same r s chain operand =>
    apply Tree.binary_within chain (Phrase.within_operand.mp operand) (Nat.le_max_left ..)
    exact Nat.le_trans (by omega) (Nat.le_max_right ..)
  | noArguments => exact nofun
  | lastArgument r ih => exact List.forall_mem_singleton.mpr ih
  | nextArgument r s first rest => exact Tree.forall_within_cons first rest
  | assign name r ih => exact Tree.within_succ (List.forall_mem_singleton.mpr ih)
  -- An expression opens a level of its own besides that of the block, and this one is not needed.
  | anonymous r ih => exact Tree.Within.mono (Tree.Within.of_parts ih rfl rfl) (Nat.le_succ _)
  | comparison r ih => exact ih
  | block r ih => exact Tree.within_succ (List.forall_mem_map.mpr ih)
  | function parameters r ih => exact ih
  | declaration name r ih => exact Tree.Within.of_parts ih rfl rfl
  -- Condition and body are read one after the other, so the deeper of the two counts.
  | conditional r s condition body =>
    exact Tree.conditional_within (Tree.Within.mono condition (Nat.le_max_left ..))
      (Tree.Within.mono body (Nat.le_max_right ..))
  | result r ih | bare r ih =>
    exact Tree.within_of_not_counts rfl (List.forall_mem_singleton.mpr ih)
  | braces r ih => exact ih
  | noStatements => exact nofun
  | newLine r ih => exact ih
  | lastStatement r ih => exact List.forall_mem_singleton.mpr ih
  | nextStatement r s first rest => exact Tree.forall_within_cons first rest

/-! ## Accepted programs -/

/-- Each step of a path goes within or beside. -/
theorem length_eq_count_add_count (path : List Hold) :
    path.length = path.count .within + path.count .beside := by
  induction path with
  | nil => rfl
  | cons hold path ih =>
    cases hold with
    | within =>
      rw [List.count_cons_self, List.count_cons_of_ne (by decide), List.length_cons]
      omega
    | beside =>
      rw [List.count_cons_self, List.count_cons_of_ne (by decide), List.length_cons]
      omega

/-- An accepted program is left for a part within at most as often as levels may be open. -/
theorem count_within_le_of_parse {text : String} {p : Program} (read : parse text = .ok p)
    {path : List Hold} (whole : p.Path path) : path.count .within ≤ maxNesting := by
  obtain ⟨kinds, _, r, few⟩ := parse_eq_ok_iff.mp read
  obtain ⟨s, member, whole⟩ := whole
  exact Nat.le_trans (r.within_levels s member path whole) few

/-! ## Programs that lean to the left -/

/-- Some signs before a name. -/
def signs : Nat → Expr
  | 0 => .variable "x"
  | n + 1 => .unary .minus (signs n)

/-- An expression multiplied by a name some times. -/
def multiplied (e : Expr) : Nat → Expr
  | 0 => e
  | n + 1 => .binary .multiply (multiplied e n) (.variable "x")

/-- The text of `m` signs before a name that is multiplied `n` times. The signs are read, and their
levels closed, before the first factor opens one. -/
def leaningText (m n : Nat) : List Char :=
  List.replicate m '-' ++ 'x' :: (List.replicate n ['*', 'x']).flatten

/-- The kinds of `leaningText`. -/
def leaningKinds (m n : Nat) : List TokenKind :=
  List.replicate m .minus ++
    .identifier "x" :: (List.replicate n [.asterisk, .identifier "x"]).flatten

/-- The program of `leaningText`. -/
def leaning (m n : Nat) : Program := ⟨[.expression (multiplied (signs m) n)]⟩

/-- The leaning text spells its kinds. -/
theorem spells_leaning (m n : Nat) : Source.Spells (leaningText m n) (leaningKinds m n) := by
  induction m with
  | zero =>
    induction n with
    | zero => exact Source.Spells.nil.cons nofun fun l => ⟨l, l.advance 'x', rfl⟩
    | succ n ih =>
      have times : Source.Spells ('*' :: leaningText 0 n) (.asterisk :: leaningKinds 0 n) :=
        ih.cons nofun fun l => ⟨l, l.advance '*', rfl⟩
      exact times.cons nofun fun l => ⟨l, l.advance 'x', rfl⟩
  | succ m ih =>
    refine Source.Spells.cons nofun (fun l => ⟨l, l.advance '-', ?_⟩) ih
    cases m <;> rfl

/-- Signs in a row derive with a level each. -/
theorem exists_signs (m : Nat) :
    ∃ r : Derivation (leaningKinds m 0) (.signed (signs m)), r.levels = m := by
  induction m with
  | zero => exact ⟨.unsigned (.base (.name "x")), rfl⟩
  | succ m ih =>
    obtain ⟨r, levels⟩ := ih
    exact ⟨.sign .minus r, congrArg (· + 1) levels⟩

/-- One factor more puts its operator and its name behind. -/
theorem leaningKinds_succ (m n : Nat) :
    leaningKinds m (n + 1) = leaningKinds m n ++ [.asterisk, .identifier "x"] := by
  simp only [leaningKinds, List.replicate_succ', List.flatten_append, List.flatten_cons,
    List.flatten_nil, List.append_nil, List.append_assoc, List.cons_append]

/-- Factors behind the signs derive with an operator each, and with no more levels than either
needs. -/
theorem exists_multiplied (m n : Nat) :
    ∃ r : Derivation (leaningKinds m n) (.chain .multiplicative (multiplied (signs m) n)),
      r.operators = n ∧ r.levels ≤ max m n := by
  induction n with
  | zero =>
    obtain ⟨r, levels⟩ := exists_signs m
    exact ⟨.single nofun r, rfl, levels.trans_le (Nat.le_max_left ..)⟩
  | succ n ih =>
    obtain ⟨r, operators, levels⟩ := ih
    rw [leaningKinds_succ]
    refine ⟨.fold .multiply nofun rfl r (.unsigned (.base (.name "x"))),
      congrArg (· + 1) operators, ?_⟩
    simp only [Derivation.levels]
    omega

/-- So the leaning text is accepted, as long as neither its signs nor its factors are too many. -/
theorem parse_leaning {m n : Nat} (few : max m n < maxNesting) :
    parse (.ofList (leaningText m n)) = .ok (leaning m n) := by
  obtain ⟨r, _, levels⟩ := exists_multiplied m n
  refine parse_eq_ok_iff.mpr ⟨leaningKinds m n, ?_, ?_⟩
  · rw [String.toList_ofList]
    exact spells_leaning m n
  · refine ⟨.lastStatement (.bare (.comparison (.single nofun (.single nofun r)))), ?_⟩
    exact Nat.succ_le_of_lt (Nat.lt_of_le_of_lt levels few)

/-- A path through the signs goes within all the way. -/
theorem path_signs (m : Nat) : Tree.Path (.expr (signs m)) (List.replicate m .within) := by
  induction m with
  | zero => exact .leaf rfl
  | succ m ih => exact .part List.mem_cons_self ih

/-- The path through factors and signs goes beside first, and then within. -/
theorem path_leaning (m n : Nat) :
    (leaning m n).Path (List.replicate n .beside ++ List.replicate m .within) := by
  refine ⟨_, List.mem_cons_self, .part List.mem_cons_self ?_⟩
  induction n with
  | zero => exact path_signs m
  | succ n ih => exact .part List.mem_cons_self ih

/-! ## The depth of accepted programs -/

/-- **Which accepted programs are too deep.** A path of an accepted program has no more nodes than
there may be levels, and one for each node that it leaves beside it. So the program is no deeper
than there may be levels exactly when none of the paths that somewhere go beside is. -/
theorem depth_le_maxNesting_iff (text : String) (p : Program) (read : parse text = .ok p) :
    ((∀ path, p.Path path → path.length ≤ maxNesting) ↔
      ∀ path, p.Path path → .beside ∈ path → path.length ≤ maxNesting) ∧
    ∀ path, p.Path path → path.length ≤ maxNesting + path.count .beside := by
  have bound (path : List Hold) (whole : p.Path path) :
      path.length ≤ maxNesting + path.count .beside := by
    rw [length_eq_count_add_count]
    exact Nat.add_le_add_right (count_within_le_of_parse read whole) _
  refine ⟨⟨fun all path whole _ => all path whole, fun some path whole => ?_⟩, bound⟩
  by_cases beside : .beside ∈ path
  · exact some path whole beside
  · have few := bound path whole
    rwa [List.count_eq_zero.mpr beside] at few

/-- Three nodes go beside their level in `--x*x*x*x`, which is not too deep. -/
theorem depth_of_leaning :
    parse (.ofList (leaningText 2 3)) = .ok (leaning 2 3) ∧
      (((∀ path, (leaning 2 3).Path path → path.length ≤ maxNesting) ↔
        ∀ path, (leaning 2 3).Path path → .beside ∈ path → path.length ≤ maxNesting) ∧
      ∀ path, (leaning 2 3).Path path → path.length ≤ maxNesting + path.count .beside) :=
  ⟨parse_leaning (by decide),
    depth_le_maxNesting_iff _ (leaning 2 3) (parse_leaning (by decide))⟩

/-- A path of a thousand and one nodes is accepted, and hardly more than half as many levels are
ever open. -/
theorem deeper_than_maxNesting_accepted : ∃ p path,
    parse (.ofList (leaningText 501 500)) = .ok p ∧ p.Path path ∧ maxNesting < path.length := by
  refine ⟨_, _, parse_leaning (by decide), path_leaning 501 500, ?_⟩
  rw [List.length_append, List.length_replicate, List.length_replicate]
  decide

end Scriptlet
