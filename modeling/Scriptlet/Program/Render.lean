import Scriptlet.Program

/-!
# Programs as text

A program is printed one statement a line. Every operator and every assignment is put in
parentheses, so that the text shows the tree; the statements of a body stand on one line, each with
a semicolon behind it.
-/

namespace Scriptlet

/-- The head of a function: its name, if it has one, and its parameters. -/
def Signature.render (s : Signature) : String :=
  let name := match s.name with
    | some name => " " ++ name
    | none => ""
  "function" ++ name ++ "(" ++ String.intercalate ", " s.parameters ++ ")"

/-- A body's text in braces. -/
def braced (body : String) : String := "\x7b" ++ body ++ "\x7d"

mutual
/-- The text of an expression. -/
def Expr.render : Expr → String
  | .number numeral => numeral.text
  | .variable name => name
  | .assign name value => "(" ++ name ++ " = " ++ value.render ++ ")"
  | .binary op left right => "(" ++ left.render ++ " " ++ op.symbol ++ " " ++ right.render ++ ")"
  | .unary op operand => "(" ++ op.symbol ++ operand.render ++ ")"
  | .call name arguments => name ++ "(" ++ renderArguments arguments ++ ")"
  | .function signature body => signature.render ++ " " ++ braced (renderStatements body)

/-- The text of a statement, without the semicolon behind it. -/
def Stmt.render : Stmt → String
  | .expression e => e.render
  | .result value => "return " ++ value.render
  | .block body => braced (renderStatements body)
  | .conditional condition body => "if (" ++ condition.render ++ ") " ++ braced (renderStatements body)
  | .declaration signature body => signature.render ++ " " ++ braced (renderStatements body)

/-- Arguments with commas between them. -/
def renderArguments : List Expr → String
  | [] => ""
  | [e] => e.render
  | e :: rest => e.render ++ ", " ++ renderArguments rest

/-- Statements with a semicolon behind each. -/
def renderStatements : List Stmt → String
  | [] => ""
  | s :: rest => s.render ++ ";" ++ renderStatements rest
end

/-- The text of a program, a statement a line. -/
def Program.render (p : Program) : String :=
  String.join (p.statements.map fun s => s.render ++ ";\n")

end Scriptlet
