import StackScript.Instruction
import StackScript.Position

set_option autoImplicit false

/-!
# Errors of compilation

Each type lists causes; its `message` is the only place where a cause gets its wording. A
`CompileError` is either a mistake in the program, which has a position, or an internal error,
which has none.
-/

namespace StackScript

/-- A mistake in a program. -/
inductive Mistake
  | unknownVariable (name : String)
  | unknownOperator (operator : String)
  | numberFormat (literal : String)
  | unsupported (feature : String)
deriving DecidableEq, Inhabited

/-- The wording of a mistake. -/
def Mistake.message : Mistake → String
  | unknownVariable name => "unknown variable '" ++ name ++ "'"
  | unknownOperator operator => "unknown operator '" ++ operator ++ "'"
  | numberFormat literal => "cannot convert '" ++ literal ++ "' to a 32-bit integer"
  | unsupported feature => feature ++ " is not supported"

/-- A mistake and where it was made. -/
structure Diagnostic where
  position : Position
  mistake : Mistake
deriving DecidableEq, Inhabited

/-- The wording of a diagnostic: its position, then its mistake. -/
def Diagnostic.message (d : Diagnostic) : String := d.position.text ++ ": " ++ d.mistake.message

/-- A failure of the compiler itself: a missing operation, a misused label, or a number that does
not fit its operand. -/
inductive InternalError
  | unresolvedOperation (name : String)
  | unboundLabel (label : Label)
  | labelRebound (label : Label)
  | unknownLabel (label : Label)
  | tooManyLocals
  | tooManyOperands (what : String) (count : Nat)
deriving DecidableEq, Inhabited

/-- The wording of an internal error. -/
def InternalError.message : InternalError → String
  | unresolvedOperation name => "runtime operation '" ++ name ++ "' could not be resolved"
  | unboundLabel label => "label " ++ label.text ++ " was never bound"
  | labelRebound label => "label " ++ label.text ++ " is already bound"
  | unknownLabel label => "label " ++ label.text ++ " was not created by this sink"
  | tooManyLocals => "more than 65536 local slots are required"
  | tooManyOperands what count =>
    toString count ++ " " ++ what ++ " do not fit a 16-bit operand"

/-- Why a program did not compile. -/
inductive CompileError
  | diagnosed (diagnostic : Diagnostic)
  | internal (error : InternalError)
deriving DecidableEq, Inhabited

namespace CompileError

/-- The wording of a compile error. -/
def message : CompileError → String
  | diagnosed d => d.message
  | internal e => "internal compiler error: " ++ e.message

/-- The diagnostic of an error that has a position. -/
def diagnostic? : CompileError → Option Diagnostic
  | diagnosed d => some d
  | internal _ => none

/-- The mistake behind an error that has a position. -/
def mistake? (e : CompileError) : Option Mistake := e.diagnostic?.map Diagnostic.mistake

end CompileError

end StackScript
