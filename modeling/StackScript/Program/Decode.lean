import StackScript.Json.Reader
import StackScript.Program.Basic

set_option autoImplicit false

/-!
# Programs from JSON

The format of program trees. A node with fields is an object, in which fields may come in any order
and unknown fields are ignored, or an array of its fields in their fixed order. A field with a
default may be left out; in an array only at the end. An expression or statement is an object with
one field, whose key says what it is and whose value is the node.

Decoding has a certain room for nesting: each array or object that is part of the program takes one
unit of it. Text has room for 127; a value that is already there has as much as it needs. What an
unknown field holds takes no room.
-/

namespace StackScript

namespace Program.Decode

/-! ## Fields and leaves -/

/-- The value of a known field among the fields of an object; `some none` where it is left out.
It may not occur twice. -/
def field? (given : List (String × Json)) (name : String) : Option (Option Json) :=
  match given.filter (fun entry => entry.1 == name) with
  | [] => some none
  | [(_, v)] => some (some v)
  | _ => none

/-- The values of the known fields of a node, in their fixed order; `none` where a field is left
out. -/
def fields? (names : List String) : Json → Option (List (Option Json))
  | .object given => names.mapM (field? given)
  | .array given =>
    if given.length ≤ names.length then
      some (given.map some ++ List.replicate (names.length - given.length) none)
    else none
  | _ => none

/-- A text. -/
def text? : Json → Option String
  | .string s => some s
  | _ => none

/-- A 32-bit number without sign, fraction and exponent. -/
def word? (v : Json) : Option UInt32 :=
  match v.nat? with
  | some n => if n < 4294967296 then some n.toUInt32 else none
  | none => none

/-- A position. Both its numbers are needed. -/
def position? (room : Nat) (v : Json) : Option Position :=
  match room, fields? ["line", "column"] v with
  | _ + 1, some [some line, some column] => do
    return ⟨← word? line, ← word? column⟩
  | _, _ => none

/-- A position that may be left out. -/
def positionOr? (room : Nat) : Option Json → Option Position
  | none => some {}
  | some v => position? room v

/-! ## Expressions -/

/-- An expression. The arguments of a call may be left out. -/
def expr? : Nat → Json → Option Expr
  | room + 2, .object [(tag, node)] =>
    match tag with
    | "Binary" =>
      match fields? ["left", "operator", "right", "position"] node with
      | some [some left, some operator, some right, position] => do
        return .binary (← expr? room left) (← text? operator) (← expr? room right)
          (← positionOr? room position)
      | _ => none
    | "Call" =>
      match fields? ["callee", "arguments", "position"] node with
      | some [some callee, arguments, position] => do
        let arguments ←
          match room, arguments with
          | _, none => some []
          | room + 1, some (.array elements) => elements.mapM (expr? room)
          | _, _ => none
        return .call (← expr? room callee) arguments (← positionOr? room position)
      | _ => none
    | "Parentheses" =>
      match fields? ["inner", "position"] node with
      | some [some inner, position] => do
        return .parens (← expr? room inner) (← positionOr? room position)
      | _ => none
    | "Number" =>
      match fields? ["literal", "position"] node with
      | some [some literal, position] => do
        return .number (← text? literal) (← positionOr? room position)
      | _ => none
    | "Identifier" =>
      match fields? ["name", "position"] node with
      | some [some name, position] => do
        return .identifier (← text? name) (← positionOr? room position)
      | _ => none
    | "MemberAccess" =>
      match fields? ["object", "member", "position"] node with
      | some [some object, some member, position] => do
        return .member (← expr? room object) (← text? member) (← positionOr? room position)
      | _ => none
    | _ => none
  | _, _ => none

/-! ## Statements -/

mutual

/-- A statement. -/
def stmt? : Nat → Json → Option Stmt
  | room + 2, .object [(tag, node)] =>
    match tag with
    | "If" =>
      match fields? ["condition", "body", "position"] node with
      | some [some condition, some body, position] => do
        return .ifThen (← expr? room condition) (← block? room body) (← positionOr? room position)
      | _ => none
    | "While" =>
      match fields? ["condition", "body", "position"] node with
      | some [some condition, some body, position] => do
        return .whileDo (← expr? room condition) (← block? room body) (← positionOr? room position)
      | _ => none
    | "Switch" =>
      match fields? ["condition", "bodies", "position"] node with
      | some [some condition, some bodies, position] => do
        let arms ←
          match room, bodies with
          | room + 1, .array elements => elements.mapM (arm? room)
          | _, _ => none
        return .switch (← expr? room condition) arms (← positionOr? room position)
      | _ => none
    | "Expression" =>
      match fields? ["expr", "position"] node with
      | some [some value, position] => do
        return .expression (← expr? room value) (← positionOr? room position)
      | _ => none
    | "VariableDeclaration" =>
      match fields? ["name", "expr", "position"] node with
      | some [some name, some value, position] => do
        return .declare (← text? name) (← expr? room value) (← positionOr? room position)
      | _ => none
    | "VariableAssignment" =>
      match fields? ["name", "expr", "position"] node with
      | some [some name, some value, position] => do
        return .assign (← text? name) (← expr? room value) (← positionOr? room position)
      | _ => none
    | _ => none
  | _, _ => none

/-- A block: a node whose one field is an array of statements. -/
def block? : Nat → Json → Option (List Stmt)
  | room + 2, node =>
    match fields? ["statements"] node with
    | some [some (.array elements)] => elements.mapM (stmt? room)
    | _ => none
  | _, _ => none

/-- An arm of a switch. An arm without a case value, or with null for it, is the default arm. -/
def arm? : Nat → Json → Option Arm
  | room + 1, node =>
    match fields? ["case_value", "block"] node with
    | some [none, some block] | some [some .null, some block] => do
      return .otherwise (← block? room block)
    | some [some value, some block] => do
      return .case (← expr? room value) (← block? room block)
    | _ => none
  | _, _ => none

end

/-! ## Programs -/

/-- The path of a program's source, which may be left out or null. -/
def source? : Option Json → Option (Option String)
  | none | some .null => some none
  | some v => (text? v).map some

/-- A program. -/
def program? : Nat → Json → Option Program
  | room + 2, node =>
    match fields? ["source", "statements"] node with
    | some [source, some (.array elements)] => do
      return ⟨← source? source, ← elements.mapM (stmt? room)⟩
    | _ => none
  | _, _ => none

end Program.Decode

/-- How deep the program in a JSON text may be nested. -/
def Program.textRoom : Nat := 127

/-- The program that a JSON value represents. -/
def Program.ofJson? (v : Json) : Option Program := Decode.program? v.depth v

/-- The program that a JSON text represents. -/
def Program.ofText? (text : String) : Option Program :=
  match Json.parse? text with
  | some v => Decode.program? textRoom v
  | none => none

end StackScript
