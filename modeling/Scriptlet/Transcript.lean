import Scriptlet.Session
import Scriptlet.WhiteSpace

/-!
# What is printed

A script prints its value, and a console line prints its value or what was wrong with it. Nothing is
printed where there is no value.

A console carries one session from line to line. A line that is no program is answered with a mark
under the character at fault, which allows for the prompt in front of the line. A line that is not
UTF-8 ends the console.

A console gets whole lines. How a line is typed, changed, dropped or called back while it is being
entered is the business of the terminal.
-/

namespace Scriptlet

/-- What a run has printed, and the failure it ended in. -/
structure Transcript where
  output : String
  failure : Option RunError

/-- A value with the line end behind it. -/
def printed (value : Value) : String :=
  if value.isNothing then "" else value.text ++ "\n"

/-- A text from its bytes. -/
def decode? (bytes : List UInt8) : Option String := String.fromUTF8? ⟨bytes.toArray⟩

/-- Runs the script at a path whose content, or the reason for having none, is given. -/
def runScript (path : String) (content : Except InputError (List UInt8)) (limit : Nat) :
    Transcript :=
  match content with
  | .error cause => ⟨"", some (.file path cause)⟩
  | .ok bytes =>
    match decode? bytes with
    | none => ⟨"", some (.file path .notUtf8)⟩
    | some text =>
      match execute text limit with
      | .ok value => ⟨printed value, none⟩
      | .error e => ⟨"", some e⟩

namespace Console

/-- What stands in front of a line that is being typed. -/
def prompt : String := "> "

/-- A mark under the place of an error in the line behind the prompt, and the error. -/
def complaint (e : SyntaxError) : String :=
  "".pushn ' ' (prompt.length + (e.location.column - 1)) ++ "^\n"
    ++ (RunError.source e).message ++ "\n"

/-- Answers one line. A blank line gets no answer. -/
def respond (s : Session) (line : String) : String × Session :=
  if line.toList.all isWhiteSpace then ("", s)
  else
    match parse line with
    | .error e => (complaint e, s)
    | .ok p =>
      match s.run p with
      | (.ok value, next) => (printed value, next)
      | (.error e, next) => ((RunError.evaluation e).message ++ "\n", next)

/-- The lines of an input without their ends, which are a line feed or a carriage return and a line
feed. The last line may lack its end. -/
def lines (input : List UInt8) : List (List UInt8) :=
  go [] input
where
  /-- The line that is being read comes in reverse. -/
  go : List UInt8 → List UInt8 → List (List UInt8)
    | [], [] => []
    | line, [] => [line.reverse]
    | line, byte :: rest =>
      if byte = 10 then
        (if line.head? = some 13 then line.tail.reverse else line.reverse) :: go [] rest
      else go (byte :: line) rest

/-- Answers lines in order, behind what has been printed already. -/
def converse (s : Session) (output : String) : List (List UInt8) → Transcript
  | [] => ⟨output, none⟩
  | line :: rest =>
    match decode? line with
    | none => ⟨output, some (.console .notUtf8)⟩
    | some text =>
      let (answer, next) := respond s text
      converse next (output ++ answer) rest

end Console

/-- Answers everything typed into a new console. -/
def runConsole (input : List UInt8) (limit : Nat) : Transcript :=
  Console.converse (.start limit) "" (Console.lines input)

end Scriptlet
