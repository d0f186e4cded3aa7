import Scriptlet.Evaluation
import Scriptlet.Grammar

/-!
# Sessions

A session runs programs one after the other in one outermost scope. What a program has bound, before
it ended or failed, the next one finds. `execute` is a session of one program.
-/

namespace Scriptlet

/-- A heap kept from one program to the next, the scope that programs run in, and the number of
calls that may be open at once. -/
structure Session where
  heap : Heap
  root : ScopeId
  limit : Nat

namespace Session

/-- A session in which nothing is bound. -/
def start (limit : Nat) : Session :=
  let (root, heap) := Heap.empty.newScope none .empty
  ⟨heap, root, limit⟩

/-- Runs a program, and keeps what it leaves. -/
def run (s : Session) (p : Program) : Except RuntimeError Value × Session :=
  match p.eval s.limit s.root s.heap with
  | .ok value heap => (.ok value, { s with heap })
  | .error e heap => (.error e, { s with heap })

end Session

/-! ## Single programs -/

/-- Why a text could not be had, or not as text. -/
inductive InputError where
  | notFound
  | isDirectory
  | notDirectory
  | notUtf8
  | other (text : String)
deriving DecidableEq

/-- Everything that can make a run end in failure. -/
inductive RunError where
  | file (path : String) (cause : InputError)
  | source (cause : SyntaxError)
  | evaluation (cause : RuntimeError)
  | console (cause : InputError)
deriving DecidableEq

/-- A cause in the words of the system. -/
def InputError.message : InputError → String
  | notFound => "No such file or directory (os error 2)"
  | isDirectory => "Is a directory (os error 21)"
  | notDirectory => "Not a directory (os error 20)"
  | notUtf8 => "stream did not contain valid UTF-8"
  | other text => text

/-- A failure in words. -/
def RunError.message : RunError → String
  | file path cause => "Could not read " ++ path ++ ": " ++ cause.message
  | source cause => "Syntax error: " ++ cause.message
  | evaluation cause => "Runtime error: " ++ cause.message
  | console cause => "Readline error: " ++ cause.message

/-- Reads and runs a program that nothing else has run before. -/
def execute (text : String) (limit : Nat) : Except RunError Value :=
  match parse text with
  | .error e => .error (.source e)
  | .ok p =>
    match ((Session.start limit).run p).1 with
    | .ok value => .ok value
    | .error e => .error (.evaluation e)

end Scriptlet
