/-!
# Locations in a source text

A location says how far into a text a reader has come: the number of characters before it, and the
line and column that a person would name. Only a line feed starts a new line; every other
character, tabs and carriage returns included, takes one column.

`after` moves a location past a piece of text. It is an action of concatenation (`after_append`),
so the location of any place in a text is `start` moved past everything before it.
-/

namespace Scriptlet

/-- A place in a source text: characters before it, and its line and column, both counted from one. -/
structure Location where
  offset : Nat
  line : Nat
  column : Nat
deriving DecidableEq

namespace Location

/-- The place before the first character. -/
def start : Location := ⟨0, 1, 1⟩

/-- The place behind one more character. -/
def advance (l : Location) (c : Char) : Location :=
  if c = '\n' then ⟨l.offset + 1, l.line + 1, 1⟩ else ⟨l.offset + 1, l.line, l.column + 1⟩

/-- The place behind a piece of text that begins at `l`. -/
def after (l : Location) (text : List Char) : Location := text.foldl advance l

/-- A location as messages name it. -/
def describe (l : Location) : String :=
  "line " ++ l.line.repr ++ ", column " ++ l.column.repr

@[simp] theorem after_nil (l : Location) : l.after [] = l := rfl

@[simp] theorem after_cons (l : Location) (c : Char) (text : List Char) :
    l.after (c :: text) = (l.advance c).after text := rfl

/-- A place behind two texts is the place behind the second from behind the first. -/
theorem after_append (l : Location) (text more : List Char) :
    l.after (text ++ more) = (l.after text).after more := List.foldl_append

/-- Each character is one further on. -/
@[simp] theorem offset_advance (l : Location) (c : Char) : (l.advance c).offset = l.offset + 1 := by
  unfold advance
  split <;> rfl

/-- A text is as many characters further on as it has. -/
@[simp] theorem offset_after (l : Location) (text : List Char) :
    (l.after text).offset = l.offset + text.length := by
  induction text generalizing l with
  | nil => rfl
  | cons c text ih =>
    rw [after_cons, ih, offset_advance, List.length_cons]
    omega

end Location
end Scriptlet
