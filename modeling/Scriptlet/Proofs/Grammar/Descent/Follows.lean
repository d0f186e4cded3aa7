import Scriptlet.Proofs.Grammar.Descent

/-!
# The descent and the readers

The descent with a window does what the readers do with a cursor. The window shows the tokens of the
cursor up to the first end (`Window.Shows`), whatever comes behind that and whether there is an end at
all. What is done for a routine leads the cursor on, step by step (`Cursor.Leads`), to where the
reader stops, and gives what the reader answers (`Follows`). This holds for every room from some bound
on, so the descent ends.
-/

namespace Scriptlet

/-! ## What a window shows -/

/-- The window shows tokens one after the other up to the first end, or else the end behind them. -/
inductive Window.Shows : Window → List Token → Location → Prop where
  | ended {w : Window} {tokens : List Token} {finish : Location}
    (here : w.current = tokens.headD ⟨.endOfText, finish⟩) (last : w.current.kind = .endOfText) :
    Shows w tokens finish
  | onward {w : Window} {t : Token} {rest : List Token} {finish : Location} (here : w.current = t)
    (more : t.kind ≠ .endOfText) (behind : w.advance.Shows rest finish) : Shows w (t :: rest) finish

/-- The window behind some steps. -/
def Window.after (w : Window) (steps : List Step) : Window :=
  steps.foldl (fun w step => match step.move with
    | .advance _ => w.advance
    | _ => w) w

/-- A window is led behind some steps and then behind more as it is behind all of them. -/
theorem Window.after_append (w : Window) (steps more : List Step) :
    w.after (steps ++ more) = (w.after steps).after more := List.foldl_append

namespace Cursor

variable {c d e : Cursor} {w : Window} {steps more : List Step}

/-- A window that shows the tokens of a cursor. -/
abbrev ShownBy (c : Cursor) (w : Window) : Prop := w.Shows c.tokens c.finish

/-- The window's token is the cursor's. -/
theorem ShownBy.current_eq (shown : c.ShownBy w) : w.current = c.current := by
  obtain ⟨tokens, finish, depth, limit⟩ := c
  cases shown with
  | ended here _ => exact here
  | onward here _ _ => exact here

/-- Up to the first end, cursor and window move on together. -/
theorem ShownBy.advance (shown : c.ShownBy w) (more : c.current.kind ≠ .endOfText) :
    c.advance.ShownBy w.advance := by
  have same := shown.current_eq
  obtain ⟨tokens, finish, depth, limit⟩ := c
  cases shown with
  | ended _ last =>
    rw [same] at last
    exact absurd last more
  | onward _ _ behind => exact behind

/-- The token the window looks ahead to is the one behind the cursor's. -/
theorem ShownBy.next_eq (shown : c.ShownBy w) (more : c.current.kind ≠ .endOfText) :
    w.next = c.following := (shown.advance more).current_eq

/-! ## Steps -/

/-- Steps that can be made at a cursor, and where they lead. An end is never taken, a level is opened
where there is room for it, and no more levels are given back than are open. -/
inductive Leads : Cursor → List Step → Cursor → Prop where
  | nil (c : Cursor) : Leads c [] c
  | advance {c d : Cursor} {steps : List Step} (more : c.current.kind ≠ .endOfText)
    (later : Leads c.advance steps d) : Leads c (⟨.advance c.current, c.depth⟩ :: steps) d
  | enter {c d : Cursor} {steps : List Step} (room : c.depth < c.limit)
    (later : Leads (c.under 1) steps d) : Leads c (⟨.enter, c.depth + 1⟩ :: steps) d
  | leave {c d : Cursor} {steps : List Step} (levels : Nat) (later : Leads c steps d) :
    Leads (c.under levels) (⟨.leave levels, c.depth⟩ :: steps) d

/-- Where a level is open, it can be opened again behind its end. -/
theorem closed_under_succ_of_pos {n : Nat} (level : 0 < c.depth) :
    c.closed.under (n + 1) = c.under n := by
  unfold closed under
  rw [Nat.add_comm n, ← Nat.add_assoc, Nat.sub_add_cancel level]

/-- Closing the level that was opened last and opening one again gives the same cursor. -/
theorem closed_under_one (level : 0 < c.depth) : c.closed.under 1 = c :=
  closed_under_succ_of_pos (n := 0) level

/-- What leads on and then further on leads all the way. -/
theorem Leads.append (first : Leads c steps d) (second : Leads d more e) :
    Leads c (steps ++ more) e := by
  induction first with
  | nil => exact second
  | advance going _ ih => exact .advance going (ih second)
  | enter room _ ih => exact .enter room (ih second)
  | leave levels _ ih => exact .leave levels (ih second)

/-- No step changes the limit. -/
theorem Leads.limit_eq (leads : Leads c steps d) : d.limit = c.limit := by
  induction leads with
  | nil => rfl
  | advance _ _ ih => exact ih
  | enter _ _ ih => exact ih
  | leave _ _ ih => exact ih

/-- A window that shows the cursor still shows it behind steps that lead on. -/
theorem Leads.shownBy (leads : Leads c steps d) (shown : c.ShownBy w) : d.ShownBy (w.after steps) := by
  induction leads generalizing w with
  | nil => exact shown
  | advance more _ ih => exact ih (shown.advance more)
  | enter _ _ ih => exact ih shown
  | leave _ _ ih => exact ih shown

variable {α : Type}

/-- To expect a token is one routine, and what follows it is another. -/
theorem expecting_eq_andThen (c : Cursor) (kind : TokenKind) (next : Cursor → Reply α) :
    c.expecting kind next = (c.expecting kind fun d => .ok () d).andThen fun _ d => next d := by
  unfold Cursor.expecting
  split <;> rfl

/-- What is done to the answer may be done inside the level or behind it. -/
theorem deeper_map {β : Type} (c : Cursor) (f : α → β) (body : Cursor → Reply α) :
    (c.deeper fun d => (body d).map f) = (c.deeper body).map f := by
  unfold Cursor.deeper
  split
  · rfl
  · change (Reply.map f (body (c.under 1))).close = (body (c.under 1)).close.map f
    cases body (c.under 1) <;> rfl

/-- To expect an identifier is one routine, and what follows it is another. -/
theorem expectingIdentifier_eq_andThen (c : Cursor) (next : String → Cursor → Reply α) :
    c.expectingIdentifier next
      = (c.expectingIdentifier fun name d => .ok name d).andThen next := by
  unfold Cursor.expectingIdentifier
  split <;> rfl

end Cursor

open Cursor Parse

/-! ## The window in front of some tokens -/

namespace Window

/-- The window that indexing gives: two tokens, and those behind them. -/
def indexed (tokens : List Token) (finish : Location) : Window :=
  ⟨tokens.headD ⟨.endOfText, finish⟩, tokens.tail.headD ⟨.endOfText, finish⟩, tokens.tail.tail⟩

/-- Moving the window is indexing one token further on, as ends stand where the last token does. -/
theorem advance_indexed {t : Token} {rest : List Token} {finish : Location}
    (last : ∀ u ∈ (t :: rest).getLast?, u.location = finish) :
    (indexed (t :: rest) finish).advance = indexed rest finish := by
  match rest with
  | [] => rfl
  | [u] =>
    have place : u.location = finish := last u rfl
    subst place
    rfl
  | _ :: _ :: _ => rfl

/-- A window on tokens whose last one stands at the end shows all of them. -/
theorem shows_indexed {tokens : List Token} {finish : Location}
    (last : ∀ t ∈ tokens.getLast?, t.location = finish) :
    (indexed tokens finish).Shows tokens finish := by
  induction tokens with
  | nil => exact .ended rfl rfl
  | cons t rest ih =>
    by_cases ends : t.kind = .endOfText
    · exact .ended rfl ends
    · refine .onward rfl ends ?_
      rw [advance_indexed last]
      refine ih fun u member => last u ?_
      rw [List.getLast?_cons, Option.mem_def.mp member]
      rfl

/-- A parser in front of some tokens sees what a cursor does. -/
theorem shownBy_ofTokens (tokens : List Token) :
    (Cursor.ofTokens tokens).ShownBy (Window.ofTokens tokens) := by
  have indexed_eq : Window.ofTokens tokens = indexed tokens (Cursor.ofTokens tokens).finish := by
    match tokens with
    | [] => rfl
    | [_] => rfl
    | _ :: _ :: _ => rfl
  rw [indexed_eq]
  refine shows_indexed fun t member => ?_
  unfold Cursor.ofTokens
  rw [member]

/-- What stands behind an end is not shown. -/
theorem Shows.cut {w : Window} {front more other : List Token} {e : Token} {l l' : Location}
    (shows : w.Shows (front ++ e :: more) l) (ends : e.kind = .endOfText) :
    w.Shows (front ++ e :: other) l' := by
  induction front generalizing w with
  | nil =>
    cases shows with
    | ended here last => exact .ended here last
    | onward _ going _ => exact absurd ends going
  | cons t rest ih =>
    cases shows with
    | ended here last => exact .ended here last
    | onward here going behind => exact .onward here going (ih behind)

/-- An end behind the tokens is shown whether it is one of them or not. -/
theorem Shows.unclosed {w : Window} {tokens : List Token} {l l' : Location}
    (shows : w.Shows (tokens ++ [⟨.endOfText, l⟩]) l') : w.Shows tokens l := by
  induction tokens generalizing w with
  | nil =>
    cases shows with
    | ended here last => exact .ended here last
    | onward _ going _ => exact absurd rfl going
  | cons t rest ih =>
    cases shows with
    | ended here last => exact .ended here last
    | onward here going behind => exact .onward here going (ih behind)

end Window

/-! ## What is done at a cursor -/

/-- The value, or the refusal, that a parser is left with. -/
def ending {α : Type} (o : Except SyntaxError α) (p : Parser) : EStateM.Result Halt Parser α :=
  match o with
  | .ok a => .ok a p
  | .error e => .error (.refused e) p

/-- With room enough, what is done at a cursor ends in this way and at that cursor, whatever the
window holds behind an end. -/
def Does {α : Type} (bound : Nat) (x : Nat → Parse α) (c : Cursor) (o : Except SyntaxError α)
    (d : Cursor) : Prop :=
  c.limit = maxNesting → ∃ steps, Leads c steps d ∧
    ∀ room, bound ≤ room → ∀ w record, c.ShownBy w →
      x room ⟨w, c.depth, record⟩ = ending o ⟨w.after steps, d.depth, record ++ steps⟩

variable {α β : Type} {bound : Nat} {c d e : Cursor}

namespace Does

variable {x : Nat → Parse α} {y : α → Nat → Parse β} {o : Except SyntaxError α}

/-- Giving a value takes no step. -/
theorem pure (a : α) : Does bound (fun _ => pure a) c (.ok a) c :=
  fun _ => ⟨[], .nil c, fun _ _ w record _ => by rw [List.append_nil]; rfl⟩

/-- A refusal takes no step. -/
theorem refuse (cause : SyntaxError) : Does bound (fun _ => refuse (α := α) cause) c (.error cause) c :=
  fun _ => ⟨[], .nil c, fun _ _ w record _ => by rw [List.append_nil]; rfl⟩

/-- Two routines behind one another do what the second does where the first stops. -/
theorem bind {a : α} {o : Except SyntaxError β} (first : Does bound x c (.ok a) d)
    (second : Does bound (y a) d o e) : Does bound (fun room => x room >>= fun a => y a room) c o e := by
  intro full
  obtain ⟨steps, leads, runs⟩ := first full
  obtain ⟨more, later, goesOn⟩ := second (leads.limit_eq.trans full)
  refine ⟨steps ++ more, leads.append later, fun room enough w record shown => ?_⟩
  refine (bind_apply _ _ _).trans ?_
  rw [runs room enough w record shown, Window.after_append, ← List.append_assoc]
  exact goesOn room enough _ _ (leads.shownBy shown)

/-- Behind a refusal nothing more is done. -/
theorem bind_refused {cause : SyntaxError} (first : Does bound x c (.error cause) d) :
    Does bound (fun room => x room >>= fun a => y a room) c (.error cause) d := by
  intro full
  obtain ⟨steps, leads, runs⟩ := first full
  refine ⟨steps, leads, fun room enough w record shown => ?_⟩
  refine (bind_apply _ _ _).trans ?_
  rw [runs room enough w record shown]
  rfl

/-- Looking at the token takes no step. -/
theorem current : Does bound (fun _ => current) c (.ok c.current) c := fun _ =>
  ⟨[], .nil c, fun _ _ w record shown => by rw [List.append_nil, ← shown.current_eq]; rfl⟩

/-- Moving on from a token that is not the end moves the cursor on. -/
theorem advance (more : c.current.kind ≠ .endOfText) :
    Does bound (fun _ => advance) c (.ok c.current) c.advance := by
  refine fun _ => ⟨_, .advance more (.nil _), fun _ _ w record shown => ?_⟩
  rw [← shown.current_eq]
  rfl

/-- Where there is room for a level, entering opens it. -/
theorem enter (room : c.depth < c.limit) : Does bound (fun _ => enter) c (.ok ()) (c.under 1) := by
  refine fun full => ⟨_, .enter room (.nil _), fun _ _ w record _ => ?_⟩
  rw [full] at room
  exact (enter_apply _).trans (if_neg (Nat.not_le_of_lt room))

/-- Where there is none, entering is refused and the cursor stays. -/
theorem enter_refused (used : c.limit ≤ c.depth) :
    Does bound (fun _ => Parse.enter) c (.error (.nestingTooDeep c.limit c.current.location)) c := by
  refine fun full => ⟨[], .nil c, fun _ _ w record shown => ?_⟩
  rw [full] at used ⊢
  rw [← shown.current_eq, List.append_nil]
  exact (enter_apply _).trans (if_pos used)

/-- Leaving closes as many levels as it says. -/
theorem leave (levels : Nat) : Does bound (fun _ => leave levels) (c.under levels) (.ok ()) c := by
  refine fun _ => ⟨_, .leave levels (.nil _), fun _ _ w record _ => ?_⟩
  have back : (c.under levels).depth - levels = c.depth := Nat.add_sub_cancel ..
  rw [← back]
  rfl

/-- An attempt does what the routine does, and answers with its outcome. -/
theorem attempt (h : Does bound x c o d) :
    Does bound (fun room => attempt (x room)) c (.ok o) d := by
  intro full
  obtain ⟨steps, leads, runs⟩ := h full
  refine ⟨steps, leads, fun room enough w record shown => ?_⟩
  refine (attempt_apply _ _).trans ?_
  rw [runs room enough w record shown]
  cases o <;> rfl

/-- Settling an outcome takes no step. -/
theorem settle : Does bound (fun _ => settle o) c o c := by
  cases o with
  | ok a => exact .pure a
  | error e => exact .refuse e

/-- What is done for a routine takes one more of the room. -/
theorem body {r : Routine} {o : Except SyntaxError r.Result}
    (h : Does bound (fun room => r.body (read room)) c o d) :
    Does (bound + 1) (fun room => read room r) c o d := by
  intro full
  obtain ⟨steps, leads, runs⟩ := h full
  refine ⟨steps, leads, fun room enough => ?_⟩
  obtain ⟨room, rfl⟩ : ∃ less, room = less + 1 := ⟨room - 1, by omega⟩
  exact runs room (Nat.le_of_succ_le_succ enough)

end Does

/-! ## What follows a reader -/

/-- Closing a level keeps the outcome. -/
theorem Reply.outcome_close (r : Reply α) : r.close.outcome = r.outcome := by cases r <;> rfl

/-- Closing a level of a reply closes it for its cursor. -/
theorem Reply.cursor_close (r : Reply α) : r.close.cursor = r.cursor.closed := by cases r <;> rfl

/-- What is done at a cursor ends as a reader answers, and gives back all the levels it has opened. -/
structure Follows (bound : Nat) (x : Nat → Parse α) (c : Cursor) (r : Reply α) : Prop where
  does : Does bound x c r.outcome r.cursor
  depth_eq : r.cursor.depth = c.depth

namespace Follows

variable {x : Nat → Parse α} {r : Reply α}

/-- Giving a value follows the reader that accepts at once. -/
theorem ok (a : α) (c : Cursor) : Follows bound (fun _ => Pure.pure a) c (.ok a c) := ⟨.pure a, rfl⟩

/-- What is done for a routine takes one more of the room. -/
theorem body {s : Routine} {r : Reply s.Result}
    (h : Follows bound (fun room => s.body (read room)) c r) :
    Follows (bound + 1) (read · s) c r := ⟨h.does.body, h.depth_eq⟩

/-- What comes behind something that ends at a cursor with as many levels open. -/
theorem behind {a : α} {y : α → Nat → Parse β} {r : Reply β} (first : Does bound x c (.ok a) d)
    (same : d.depth = c.depth) (later : Follows bound (y a) d r) :
    Follows bound (fun room => x room >>= fun a => y a room) c r :=
  ⟨first.bind later.does, later.depth_eq.trans same⟩

/-- Routines one behind the other follow readers one behind the other, if the second does so wherever
the first accepts. -/
theorem andThen {y : α → Nat → Parse β} {next : α → Cursor → Reply β} (first : Follows bound x c r)
    (later : ∀ a d, r = .ok a d → Follows bound (y a) d (next a d)) :
    Follows bound (fun room => x room >>= fun a => y a room) c (r.andThen next) := by
  cases r with
  | ok a d => exact .behind first.does first.depth_eq (later a d rfl)
  | error e d => exact ⟨first.does.bind_refused, first.depth_eq⟩

theorem map (f : α → β) (h : Follows bound x c r) :
    Follows bound (fun room => x room >>= fun a => Pure.pure (f a)) c (r.map f) :=
  h.andThen fun a d _ => .ok (f a) d

theorem current {y : Token → Nat → Parse α} (h : Follows bound (y c.current) c r) :
    Follows bound (fun room => Parse.current >>= fun t => y t room) c r := .behind .current rfl h

/-- A refusal of the token follows the reader's refusal. -/
theorem refusal (expected : Expected) (c : Cursor) :
    Follows (α := α) bound (fun _ => refuseCurrent expected) c (c.refusal expected) :=
  current ⟨.refuse _, rfl⟩

theorem advance {y : Token → Nat → Parse α} (more : c.current.kind ≠ .endOfText)
    (h : Follows bound (y c.current) c.advance r) :
    Follows bound (fun room => Parse.advance >>= fun t => y t room) c r := .behind (.advance more) rfl h

/-- The token behind an end is not looked at. -/
theorem peek {y : TokenKind × TokenKind → Nat → Parse α}
    (blind : c.current.kind = .endOfText → ∀ kind,
      y (.endOfText, kind) = y (.endOfText, c.following.kind))
    (h : Follows bound (y (c.current.kind, c.following.kind)) c r) :
    Follows bound (fun room => Parse.peek >>= fun kinds => y kinds room) c r := by
  refine ⟨fun full => ?_, h.depth_eq⟩
  obtain ⟨steps, leads, runs⟩ := h.does full
  refine ⟨steps, leads, fun room enough w record shown => ?_⟩
  rw [bind_apply, ← runs room enough w record shown]
  change y (w.current.kind, w.next.kind) room _ = _
  rw [shown.current_eq]
  by_cases last : c.current.kind = .endOfText
  · rw [last, blind last]
  · rw [shown.next_eq last]

/-- Looking for a token goes one of two ways, and the reader has to be followed on either. -/
theorem nextIf {kind : TokenKind} {y : Bool → Nat → Parse α} (more : kind ≠ .endOfText)
    (yes : c.current.kind = kind → Follows bound (y true) c.advance r)
    (no : c.current.kind ≠ kind → Follows bound (y false) c r) :
    Follows bound (fun room => Parse.nextIf kind >>= fun found => y found room) c r := by
  by_cases found : c.current.kind = kind
  · refine .behind (d := c.advance) (a := true) ?_ rfl (yes found)
    refine Does.current.bind ?_
    simp only [found, if_true]
    exact (Does.advance (found ▸ more)).bind (.pure true)
  · refine .behind (d := c) (a := false) ?_ rfl (no found)
    refine Does.current.bind ?_
    simp only [found, if_false]
    exact .pure false

/-- Expecting a token follows the reader that expects it. -/
theorem expect {kind : TokenKind} (more : kind ≠ .endOfText) :
    Follows bound (fun _ => Parse.expect kind) c (c.expecting kind fun d => .ok () d) := by
  refine .current ?_
  unfold Cursor.expecting
  by_cases found : c.current.kind = kind
  · simp only [found, if_true]
    exact .advance (found ▸ more) (.ok () _)
  · simp only [found, if_false]
    exact .refusal _ c

/-- Behind an expected token, only the reader behind that token has to be followed. -/
theorem expecting {kind : TokenKind} {y : Nat → Parse α} {next : Cursor → Reply α}
    (more : kind ≠ .endOfText)
    (h : c.current.kind = kind → Follows bound y c.advance (next c.advance)) :
    Follows bound (fun room => Parse.expect kind >>= fun _ => y room) c (c.expecting kind next) := by
  rw [expecting_eq_andThen]
  refine (expect more).andThen fun _ d read => ?_
  obtain ⟨found, ended⟩ := expecting_eq_ok.mp read
  cases ended
  exact h found

/-- Reading an identifier follows the reader that expects one. -/
theorem identifier :
    Follows bound (fun _ => Parse.identifier) c (c.expectingIdentifier fun name d => .ok name d) := by
  refine .current ?_
  unfold Cursor.expectingIdentifier
  cases found : c.current.kind with
  | identifier name => exact .advance (found ▸ nofun) (.ok name _)
  | _ => exact .refusal _ c

/-- Behind an identifier, only the reader that is given its name has to be followed. -/
theorem expectingIdentifier {y : String → Nat → Parse α} {next : String → Cursor → Reply α}
    (h : ∀ name, c.current.kind = .identifier name →
      Follows bound (y name) c.advance (next name c.advance)) :
    Follows bound (fun room => Parse.identifier >>= fun name => y name room) c
      (c.expectingIdentifier next) := by
  rw [expectingIdentifier_eq_andThen]
  refine identifier.andThen fun name d read => ?_
  obtain ⟨_, found, ended⟩ := expectingIdentifier_eq_ok.mp read
  cases ended
  exact h name found

/-- A token that is known to be of a kind is taken. -/
theorem take {kind : TokenKind} {y : Nat → Parse α} (found : c.current.kind = kind)
    (more : kind ≠ .endOfText) (h : Follows bound y c.advance r) :
    Follows bound (fun room => Parse.expect kind >>= fun _ => y room) c r := by
  have same : c.expecting kind (fun _ => r) = r := if_pos found
  exact same ▸ expecting more fun _ => h

/-- An identifier that is known to stand there is taken. -/
theorem takeIdentifier {name : String} {y : String → Nat → Parse α}
    (found : c.current.kind = .identifier name) (h : Follows bound (y name) c.advance r) :
    Follows bound (fun room => Parse.identifier >>= fun name => y name room) c r := by
  have same : c.expectingIdentifier (fun _ _ => r) = r := by
    unfold Cursor.expectingIdentifier
    rw [found]
  refine same ▸ expectingIdentifier fun other first => ?_
  cases found.symm.trans first
  exact h

/-- A routine within a level follows the reader one level deeper. -/
theorem nested {f : Cursor → Reply α} (h : Follows bound x (c.under 1) (f (c.under 1))) :
    Follows bound (fun room => Parse.nested (x room)) c (c.deeper f) := by
  unfold Cursor.deeper
  by_cases used : c.limit ≤ c.depth
  · rw [if_pos used]
    exact ⟨(Does.enter_refused used).bind_refused, rfl⟩
  · rw [if_neg used]
    obtain ⟨does, same⟩ := h
    generalize f (c.under 1) = r at does same
    refine ⟨?_, ?_⟩
    · rw [r.outcome_close, r.cursor_close]
      refine (Does.enter (Nat.lt_of_not_le used)).bind (does.attempt.bind ?_)
      rw [← closed_under_one (same ▸ Nat.succ_pos _ : 0 < r.cursor.depth)]
      exact (Does.leave 1).bind .settle
    · rw [r.cursor_close]
      exact Nat.sub_eq_of_eq_add same

/-- A sequence in parentheses is empty or read from its first element on. -/
theorem sequence {f : Cursor → Reply (List α)} {x : Nat → Parse (List α)}
    (h : Follows bound x c (f c)) :
    Follows bound (fun room => Parse.sequence (x room)) c
      (if c.current.kind = .rightParen then .ok [] c.advance else f c) := by
  refine .nextIf nofun (fun closing => ?_) fun other => ?_
  · rw [if_pos closing]
    exact .ok [] _
  · rw [if_neg other]
    exact h

/-- From an element on, a sequence goes on behind a comma and ends with the parenthesis. -/
theorem sequenceFrom {y : List α → Nat → Parse (List α)} {before : List α}
    {f : List α → Cursor → Reply (List α)} (element : Follows bound x c r)
    (later : ∀ a d, r = .ok a d → d.current.kind = .comma →
      Follows bound (y (a :: before)) d.advance (f (a :: before) d.advance)) :
    Follows bound (fun room => Parse.sequenceFrom (x room) (y · room) before) c
      (r.andThen fun a d => if d.current.kind = .comma then f (a :: before) d.advance
        else d.expecting .rightParen fun e => .ok (a :: before).reverse e) := by
  refine element.andThen fun a d read => .nextIf nofun (fun comma => ?_) fun other => ?_
  · rw [if_pos comma]
    exact later a d read comma
  · rw [if_neg other]
    exact .expecting nofun fun _ => .ok _ _

end Follows

end Scriptlet
