import StackScript.Json.Printer
import StackScript.Program.Basic

set_option autoImplicit false

/-!
# Programs as JSON

The written form of a program tree: every node is an object with all its fields in their fixed
order. A program without a source has null for it, and a default arm has null for its case value.
-/

namespace StackScript

namespace Program.Encode

/-- A position. -/
def position (p : Position) : Json :=
  .object [("line", .ofNat p.line.toNat), ("column", .ofNat p.column.toNat)]

/-- A node under its tag. -/
def tagged (tag : String) (fields : List (String × Json)) : Json := .object [(tag, .object fields)]

mutual

/-- An expression. -/
def expr : Expr → Json
  | .binary left operator right p =>
    tagged "Binary" [("left", expr left), ("operator", .string operator), ("right", expr right),
      ("position", position p)]
  | .call callee arguments p =>
    tagged "Call" [("callee", expr callee), ("arguments", .array (exprs arguments)),
      ("position", position p)]
  | .parens inner p => tagged "Parentheses" [("inner", expr inner), ("position", position p)]
  | .number literal p => tagged "Number" [("literal", .string literal), ("position", position p)]
  | .identifier name p => tagged "Identifier" [("name", .string name), ("position", position p)]
  | .member object name p =>
    tagged "MemberAccess" [("object", expr object), ("member", .string name),
      ("position", position p)]

/-- Expressions in order. -/
def exprs : List Expr → List Json
  | [] => []
  | e :: rest => expr e :: exprs rest

end

/-- The tag of a statement. -/
def tag : Stmt → String
  | .ifThen .. => "If"
  | .whileDo .. => "While"
  | .switch .. => "Switch"
  | .expression .. => "Expression"
  | .declare .. => "VariableDeclaration"
  | .assign .. => "VariableAssignment"

/-- A block of statements that are already written. -/
def block (statements : List Json) : Json := .object [("statements", .array statements)]

mutual

/-- The fields of a statement. -/
def fields : Stmt → List (String × Json)
  | .ifThen condition body p | .whileDo condition body p =>
    [("condition", expr condition), ("body", block (stmts body)), ("position", position p)]
  | .switch condition cases p =>
    [("condition", expr condition), ("bodies", .array (arms cases)), ("position", position p)]
  | .expression value p => [("expr", expr value), ("position", position p)]
  | .declare name value p | .assign name value p =>
    [("name", .string name), ("expr", expr value), ("position", position p)]

/-- Statements in order. -/
def stmts : List Stmt → List Json
  | [] => []
  | s :: rest => tagged (tag s) (fields s) :: stmts rest

/-- An arm of a switch. -/
def arm : Arm → Json
  | .case value body => .object [("case_value", expr value), ("block", block (stmts body))]
  | .otherwise body => .object [("case_value", .null), ("block", block (stmts body))]

/-- Arms in order. -/
def arms : List Arm → List Json
  | [] => []
  | a :: rest => arm a :: arms rest

end

/-- The path of a program's source. -/
def source : Option String → Json
  | none => .null
  | some path => .string path

end Program.Encode

/-- The JSON value of a program. -/
def Program.toJson (p : Program) : Json :=
  .object [("source", Encode.source p.source), ("statements", .array (Encode.stmts p.statements))]

/-- The compact JSON text of a program. -/
def Program.toText (p : Program) : String := p.toJson.compact

end StackScript
