import StackScript.Operation

set_option autoImplicit false

/-!
# Errors of execution

A `RunError` says why a run stopped before its end. Natives may stop a run with any of them; their
own errors carry the name of the native.
-/

namespace StackScript

/-- Why a run stopped early. -/
inductive RunError
  | typeError (detail : String)
  | notCallable (value : String)
  | overflow (operation : String)
  | divisionByZero
  | native (name message : String)
  | malformed (detail : String)
  | unknownEntryPoint (entry : EntryPoint)
  | stepLimit (limit : Nat)
deriving DecidableEq, Inhabited

/-- The wording of a run error. -/
def RunError.message : RunError → String
  | typeError detail => "TypeError: " ++ detail
  | notCallable value => "TypeError: " ++ value ++ " is not callable"
  | overflow operation => "RangeError: integer overflow in " ++ operation
  | divisionByZero => "RangeError: division by zero"
  | native name message => name ++ ": " ++ message
  | malformed detail => "InternalError: malformed bytecode: " ++ detail
  | unknownEntryPoint entry =>
    "InternalError: unknown runtime entry point " ++ toString entry.index.toNat
  | stepLimit limit => "execution exceeded " ++ toString limit ++ " steps"

end StackScript
