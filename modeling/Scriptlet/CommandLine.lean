import Scriptlet.Transcript

/-!
# The command line

```text
[PATH] [--max-depth N] [--log-level FILTER]
```

With a path the script there is run, and without one a console is started. An option's value follows
it or is joined to it by an equals sign. Each option, and the path, may be given once. Two hyphens end
the options.

The filter of the log is accepted for the sake of callers that set one; there is no log to filter.
-/

namespace Scriptlet.CommandLine

/-- What a command line asks for. -/
structure Invocation where
  path : Option String
  limit : Option Nat
  logFilter : Option String
deriving DecidableEq

/-- What is to be done. -/
inductive Request where
  | run (invocation : Invocation)
  | help
  | version
deriving DecidableEq

/-- The options that take a value. -/
inductive Setting where
  | maxDepth
  | logLevel
deriving DecidableEq

/-- What is wrong with a command line. -/
inductive UsageError where
  | unknownArgument (text : String)
  | repeated (setting : Setting)
  | missingValue (setting : Setting)
  | invalidValue (setting : Setting) (text : String)
  | emptyPath
deriving DecidableEq

/-- What the program has left when it ends. -/
structure Outcome where
  exitCode : Nat
  stdout : String
  stderr : String

namespace Setting

/-- The option as it is written. -/
def name : Setting → String
  | maxDepth => "--max-depth"
  | logLevel => "--log-level"

end Setting

/-- A fault in words. -/
def UsageError.message : UsageError → String
  | unknownArgument text => "unexpected argument '" ++ text ++ "' found"
  | repeated setting => "the argument '" ++ setting.name ++ "' cannot be used multiple times"
  | missingValue setting => "a value is required for '" ++ setting.name ++ "'"
  | invalidValue setting text => "invalid value '" ++ text ++ "' for '" ++ setting.name ++ "'"
  | emptyPath => "a value is required for the path"

/-- How the program is called. -/
def usage : String := "Usage: [PATH] [--max-depth N] [--log-level FILTER]\n"

/-- The version of the program. -/
def version : String := "0.1.0\n"

/-- A number of calls: digits, with a plus sign in front if one likes, below `2 ^ 64`. -/
def readLimit? (text : String) : Option Nat :=
  let digits := match text.toList with
    | '+' :: rest => rest
    | rest => rest
  if digits.isEmpty || !digits.all Char.isDigit then none
  else
    let n := Decimal.ofDigits digits
    if n < Nat.pow 2 64 then some n else none

/-- Whether an argument can only be an option: it begins with a hyphen and goes on. -/
def looksLikeOption (text : String) : Bool :=
  match text.toList with
  | '-' :: _ :: _ => true
  | _ => false

/-- Takes the value of an option. -/
def set (i : Invocation) (setting : Setting) (value : String) :
    Except UsageError Invocation :=
  match setting with
  | .maxDepth =>
    if i.limit.isSome then .error (.repeated setting)
    else
      match readLimit? value with
      | some n => .ok { i with limit := some n }
      | none => .error (.invalidValue setting value)
  | .logLevel =>
    if i.logFilter.isSome then .error (.repeated setting)
    else .ok { i with logFilter := some value }

/-- Takes a path. -/
def setPath (i : Invocation) (path : String) : Except UsageError Invocation :=
  if path = "" then .error .emptyPath
  else if i.path.isSome then .error (.unknownArgument path)
  else .ok { i with path := some path }

/-- Takes arguments that are no options. -/
def readPaths (i : Invocation) : List String → Except UsageError Invocation
  | [] => .ok i
  | path :: rest => do readPaths (← setPath i path) rest

/-- The option that an argument sets, with the value joined to it, if there is one. -/
def setting? (argument : String) : Option (Setting × Option String) :=
  [Setting.maxDepth, Setting.logLevel].findSome? fun setting =>
    if argument = setting.name then some (setting, none)
    else
      let start := (setting.name ++ "=").toList
      if start.isPrefixOf argument.toList then
        some (setting, some (String.ofList (argument.toList.drop start.length)))
      else none

/-- Takes arguments from left to right. -/
def readArguments (i : Invocation) : List String → Except UsageError Request
  | [] => .ok (.run i)
  | argument :: rest =>
    if argument = "--" then (readPaths i rest).map .run
    else if argument = "--help" || argument = "-h" then .ok .help
    else if argument = "--version" || argument = "-V" then .ok .version
    else
      match setting? argument, rest with
      | some (setting, some value), rest => do readArguments (← set i setting value) rest
      | some (setting, none), [] => .error (.missingValue setting)
      | some (setting, none), value :: rest =>
        if looksLikeOption value then .error (.missingValue setting)
        else do readArguments (← set i setting value) rest
      | none, rest =>
        if looksLikeOption argument then .error (.unknownArgument argument)
        else do readArguments (← setPath i argument) rest

/-- Reads a command line. -/
def read (arguments : List String) : Except UsageError Request :=
  readArguments ⟨none, none, none⟩ arguments

/-- The number of calls that may be open at once. -/
def Invocation.callLimit (i : Invocation) : Nat := i.limit.getD defaultLimit

/-- What a run leaves behind. -/
def Outcome.ofTranscript (t : Transcript) : Outcome :=
  match t.failure with
  | none => ⟨0, t.output, ""⟩
  | some e => ⟨1, t.output, e.message ++ "\n"⟩

/-- What a faulty command line leaves behind. -/
def Outcome.ofUsageError (e : UsageError) : Outcome :=
  ⟨2, "", "error: " ++ e.message ++ "\n\n" ++ usage⟩

/-- Carries out a command line, given what is at each path and what is typed in. -/
def run (arguments : List String) (fileAt : String → Except InputError (List UInt8))
    (typed : List UInt8) : Outcome :=
  match read arguments with
  | .error e => .ofUsageError e
  | .ok .help => ⟨0, usage, ""⟩
  | .ok .version => ⟨0, version, ""⟩
  | .ok (.run i) =>
    .ofTranscript <| match i.path with
      | some path => runScript path (fileAt path) i.callLimit
      | none => runConsole typed i.callLimit

end Scriptlet.CommandLine
