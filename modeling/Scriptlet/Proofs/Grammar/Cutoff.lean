import Scriptlet.Proofs.Grammar.Refusal

/-!
# The bound on levels only cuts off

A reader never decides by the levels that are open. Some levels deeper it answers the same, at the
same tokens (`Reply.under`), unless it runs out of levels first. Then it has been refused at a token
that the reader with more levels left has come to as well, and perhaps passed (`SameUnless`).

This compares the answers of one reader at cursors with the same tokens, so it is shown once for each
way readers are put together (`pervades_cutsOff`) and holds of all of them.
-/

namespace Scriptlet

/-! ## Places of a reader -/

namespace Cursor

variable {α : Type} {c d m : Cursor} {r : Reply α}

/-- Whether a cursor in the same tokens stands where this one does, or further on. -/
structure LeadsTo (c d : Cursor) : Prop where
  tokens : d.tokens <:+ c.tokens
  limit : d.limit = c.limit

/-- What leads to a cursor leads on from there. -/
theorem LeadsTo.trans (first : c.LeadsTo d) (second : d.LeadsTo m) : c.LeadsTo m :=
  ⟨second.tokens.trans first.tokens, second.limit.trans first.limit⟩

/-- A cursor leads to the one that an error leaves. -/
theorem leadsTo_leaves (c : Cursor) (e : SyntaxError) : c.LeadsTo (e.leaves c) := by
  cases e with
  | invalidNumeral => exact ⟨List.tail_suffix _, rfl⟩
  | _ => exact ⟨List.suffix_refl _, rfl⟩

/-- Passing over tokens leads on. -/
theorem Passes.leadsTo {ks : List TokenKind} (front : Passes ks c d) : c.LeadsTo d :=
  ⟨front.tokens_suffix, front.same.2⟩

/-- A reader stops where its cursor leads. -/
theorem Stops.leadsTo (h : Stops c r) : c.LeadsTo r.cursor := by
  cases r with
  | ok a d =>
    obtain ⟨ks, front⟩ := h
    exact front.leadsTo
  | error e d =>
    obtain ⟨ks, m, front, _, rfl⟩ := h
    exact front.leadsTo.trans (leadsTo_leaves m e)

/-- As many levels are open where a reader stops as where it began. -/
theorem Stops.depth_eq (h : Stops c r) : r.cursor.depth = c.depth := by
  cases r with
  | ok a d =>
    obtain ⟨ks, front⟩ := h
    exact front.same.1
  | error e d =>
    obtain ⟨ks, m, front, _, rfl⟩ := h
    cases e <;> exact front.same.1

/-- Whether a refusal for too many levels names the number that there may be. -/
def NamesLimit (r : Reply α) : Prop :=
  ∀ e d, r = .error e d → ∀ limit l, e = .nestingTooDeep limit l → limit = d.limit

/-- A level that there is no room for is reported with the limit of the cursor, by every reader. -/
theorem persists_namesLimit : Persists fun _ r => NamesLimit r := by
  refine persists_errors (fun _ _ _ _ => nofun) (fun _ _ _ _ => nofun) ?_ fun _ _ => id
  rintro _ d _ _ ⟨⟩
  rfl

end Cursor

/-! ## Answers some levels deeper -/

namespace Reply

variable {α β : Type} {n : Nat} {r deep : Reply α}

/-- The same answer, at the cursor some levels deeper. -/
def under (n : Nat) : Reply α → Reply α
  | .ok a d => .ok a (d.under n)
  | .error e d => .error e (d.under n)

/-- Whether an answer says that too many levels are open. -/
def IsTooDeep : Reply α → Prop
  | .error (.nestingTooDeep _ _) _ => True
  | _ => False

/-- How an answer relates to the one `n` levels deeper. That one is the same, unless too many levels
are open there. Where too many are open for this answer already, so there are for the other one, at
the same token or at an earlier one. -/
structure OnlyCutOff (n : Nat) (r deep : Reply α) : Prop where
  same : ¬ deep.IsTooDeep → deep = r.under n
  noLater : ∀ limit l m, r = .error (.nestingTooDeep limit l) m → l = m.current.location ∧
    ∃ l' m', deep = .error (.nestingTooDeep limit l') m' ∧ l' = m'.current.location ∧
      m.tokens <:+ m'.tokens

/-- Whether the answer `n` levels deeper is the same one, unless it has been refused for the levels
at a token that this one has come to. -/
def SameUnless (n : Nat) (r deep : Reply α) : Prop :=
  deep = r.under n ∨
    ∃ m : Cursor, deep = .error (.nestingTooDeep m.limit m.current.location) m ∧ m.LeadsTo r.cursor

/-- Closing a level on both sides keeps them the same. -/
theorem SameUnless.close (same : SameUnless n r deep) (level : 0 < r.cursor.depth) :
    SameUnless n r.close deep.close := by
  rcases same with rfl | ⟨m, rfl, leads⟩
  · left
    have still {d : Cursor} (level : 0 < d.depth) : (d.under n).closed = d.closed.under n := by
      unfold Cursor.closed Cursor.under
      rw [Nat.sub_add_comm level]
    cases r with
    | ok a d => exact congrArg (EStateM.Result.ok a) (still level)
    | error e d => exact congrArg (EStateM.Result.error e) (still level)
  · refine .inr ⟨m.closed, rfl, ?_⟩
    cases r <;> exact ⟨leads.tokens, leads.limit⟩

/-- What goes on from the same value is the same, unless its second part is cut off. -/
theorem SameUnless.andThen {next : α → Cursor → Reply β} (same : SameUnless n r deep)
    (onward : ∀ a d, r = .ok a d → d.LeadsTo (next a d).cursor)
    (later : ∀ a d, r = .ok a d → SameUnless n (next a d) (next a (d.under n))) :
    SameUnless n (r.andThen next) (deep.andThen next) := by
  -- The deeper answer is the same so far, or it has been refused, and then nothing follows.
  rcases same with rfl | ⟨m, rfl, leads⟩
  · cases r with
    | ok a d => exact later a d rfl
    | error e d => exact .inl rfl
  · refine .inr ⟨m, rfl, ?_⟩
    cases r with
    | ok a d => exact leads.trans (onward a d rfl)
    | error e d => exact leads

end Reply

namespace Cursor

open Reply

variable {α : Type} {c : Cursor}

/-- Whether a reader stops, and answers the same with more levels open, unless it is cut off. -/
def CutsOff (read : Cursor → Reply α) (c : Cursor) : Prop :=
  Stops c (read c) ∧ NamesLimit (read c) ∧ ∀ n, SameUnless n (read c) (read (c.under n))

/-- A level more is cut off where the levels are used up, whatever is read in it. -/
theorem sameUnless_deeper {body : Cursor → Reply α} {n : Nat} (stops : Stops c (c.deeper body))
    (level : (body (c.under 1)).cursor.depth = c.depth + 1)
    (same : SameUnless n (body (c.under 1)) (body ((c.under 1).under n))) :
    SameUnless n (c.deeper body) ((c.under n).deeper body) := by
  by_cases deepFull : c.limit ≤ c.depth + n
  · have deep : (c.under n).deeper body
        = .error (.nestingTooDeep c.limit c.current.location) (c.under n) := if_pos deepFull
    exact .inr ⟨c.under n, deep, stops.leadsTo.tokens, stops.leadsTo.limit⟩
  · have room : ¬ c.limit ≤ c.depth := fun full => deepFull (Nat.le_add_right_of_le full)
    have whole : c.deeper body = (body (c.under 1)).close := if_neg room
    have deep : (c.under n).deeper body = (body ((c.under 1).under n)).close := by
      rw [under_under, Nat.add_comm, ← under_under]
      exact if_neg deepFull
    rw [whole, deep]
    exact same.close (level ▸ Nat.succ_pos _)

/-- Every reader is cut off by the limit, and not otherwise changed by it. -/
theorem pervades_cutsOff : Pervades fun read c => CutsOff read c where
  ok a c := ⟨persists_stops.ok a c, persists_namesLimit.ok a c, fun _ => .inl rfl⟩
  refusal expected c :=
    ⟨persists_stops.refusal expected c, persists_namesLimit.refusal expected c, fun _ => .inl rfl⟩
  noNumeral first unread := ⟨persists_stops.noNumeral first unread,
    persists_namesLimit.noNumeral first unread, fun _ => .inl rfl⟩
  lookahead _ _ h := h
  advance more h := ⟨persists_stops.advance more h.1, h.2⟩
  andThen {_ _ c _ _} first later :=
    ⟨persists_stops.andThen first.1 fun a d answer => (later a d answer).1,
      persists_namesLimit.andThen (c := c) first.2.1 fun a d answer => (later a d answer).2.1,
      fun n => (first.2.2 n).andThen (fun a d answer => (later a d answer).1.leadsTo)
        fun a d answer => (later a d answer).2.2 n⟩
  deeper h :=
    have stops := persists_stops.deeper h.1
    ⟨stops, persists_namesLimit.deeper h.2.1,
      fun n => sameUnless_deeper stops h.1.depth_eq (h.2.2 n)⟩

/-- What is cut off does the same with more levels open, unless it is cut off. -/
theorem CutsOff.onlyCutOff {read : Cursor → Reply α} (h : CutsOff read c) (n : Nat) :
    OnlyCutOff n (read c) (read (c.under n)) := by
  obtain ⟨stops, names, same⟩ := h
  refine ⟨fun enough => ?_, fun limit l m refused => ?_⟩
  · rcases same n with same | ⟨m, tooDeep, _⟩
    · exact same
    · rw [tooDeep] at enough
      exact absurd trivial enough
  -- The level that is refused here is refused deeper too, where it has not been refused before.
  · obtain rfl := names _ m refused limit l rfl
    rw [refused] at stops
    obtain ⟨_, _, _, about, rfl⟩ := stops
    refine ⟨about.symm, ?_⟩
    rcases same n with same | ⟨m', tooDeep, leads⟩
    · rw [refused] at same
      exact ⟨_, _, same, about.symm, List.suffix_refl _⟩
    · rw [refused] at leads
      exact ⟨_, m', leads.limit ▸ tooDeep, rfl, leads.tokens⟩

/-- **The bound on levels only cuts off.** However many levels more are open, an expression, a
statement or a list of statements is read as the same thing, or refused for the same reason, and the
same tokens are left, unless too many levels are open. Where they are, this is noticed no later than
it would be with fewer of them open. -/
theorem levels_onlyCutOff (c : Cursor) (n : Nat) :
    OnlyCutOff n c.expression.val (c.under n).expression.val ∧
    OnlyCutOff n c.statement.val (c.under n).statement.val ∧
    ∀ stop, OnlyCutOff n (c.statements stop) ((c.under n).statements stop) :=
  have readers := pervades_cutsOff.readers c
  ⟨readers.expression.onlyCutOff n, readers.statement.onlyCutOff n,
    fun stop => (pervades_cutsOff.statements stop c).onlyCutOff n⟩

end Cursor
end Scriptlet
