import StackScript.CompileError

set_option autoImplicit false

/-!
# Source texts and excerpts

A line of a text ends at a line feed, which may have a carriage return before it; the last line may
end without one. `SourceText.render` shows a diagnostic together with the line it points at and a
caret below the column.
-/

namespace StackScript

/-- A named text. -/
structure SourceText where
  name : String
  text : String
deriving DecidableEq, Inhabited

namespace SourceText

/-- A line read up to its line feed, last character first, without the carriage return. -/
def ended : List Char → List Char
  | '\r' :: line => line.reverse
  | line => line.reverse

/-- The lines of a text, after the beginning of a line, last character first. -/
def linesFrom : List Char → List Char → List (List Char)
  | [], [] => []
  | line, [] => [line.reverse]
  | line, c :: rest =>
    if c = '\n' then ended line :: linesFrom [] rest else linesFrom (c :: line) rest

/-- The lines of a source, without what ends them. -/
def lines (source : SourceText) : List String :=
  (linesFrom [] source.text.toList).map String.ofList

/-- The line with a number, counted from one. -/
def line? (source : SourceText) (n : Nat) : Option String :=
  match n with
  | 0 => none
  | n + 1 => source.lines[n]?

/-- A caret below a column, counted from one, of a line shown behind a line number. -/
def caret (number : String) (column : Nat) : String :=
  String.ofList (List.replicate (number.length + 3 + column - 1) ' ' ++ ['^'])

/-- A diagnostic, with the line it points at if the source has it. -/
def render (source : SourceText) (d : Diagnostic) : String :=
  let report := source.name ++ ":" ++ d.message
  match source.line? d.position.line.toNat with
  | none => report
  | some line =>
    let number := toString d.position.line.toNat
    let excerpt := report ++ "\n" ++ number ++ " | " ++ line
    if d.position.column = 0 then excerpt
    else excerpt ++ "\n" ++ caret number d.position.column.toNat

end SourceText

end StackScript
