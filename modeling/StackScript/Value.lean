import StackScript.Decimal
import StackScript.RunError

set_option autoImplicit false

/-!
# Values and the operations on them

Values are null, truth values, 32-bit integers and native functions. A native function is a
handle: two handles are the same function exactly when they are equal, and what the function does
is the host's business. `Operation.apply` is the meaning of the binary operations: arithmetic is
exact or reported, and equality holds between any two values.
-/

namespace StackScript

/-- A handle of a native function, with the name it is shown by. -/
structure Native where
  id : Nat
  name : String
deriving DecidableEq, Inhabited

/-- A value of the language. -/
inductive Value
  | null
  | bool (b : Bool)
  | int (n : Int32)
  | native (f : Native)
deriving DecidableEq, Inhabited

namespace Value

/-- The text a program sees when it prints a value. -/
def display : Value → String
  | null => "null"
  | bool b => if b then "true" else "false"
  | int n => toString n.toInt
  | native f => "[Function: " ++ f.name ++ " (native)]"

/-- The text of a value in reports on malformed code, which shows its kind as well. -/
def inspect : Value → String
  | null => "Null"
  | bool b => if b then "Bool(true)" else "Bool(false)"
  | int n => "Int(" ++ toString n.toInt ++ ")"
  | native f => "Native(NativeFunction(" ++ f.name ++ "))"

/-- The name of a value's type. -/
def typeName : Value → String
  | null => "null"
  | bool _ => "bool"
  | int _ => "int"
  | native _ => "function"

/-- The truth value of a value: null, false and zero are false. -/
def truth : Value → Bool
  | null => false
  | bool b => b
  | int n => n != 0
  | native _ => true

/-- The integer inside a value. -/
def int? : Value → Option Int32
  | int n => some n
  | _ => none

/-- Whether a value is null. -/
def isNull : Value → Bool
  | null => true
  | _ => false

/-- Whether a value can be called. -/
def isCallable : Value → Bool
  | native _ => true
  | _ => false

end Value

namespace Operation

/-- An exact result, or an overflow of the operation where it does not fit. -/
def exactly (op : Operation) (n : Int) : Except RunError Value :=
  match narrow? n with
  | some c => .ok (.int c)
  | none => .error (.overflow op.name)

/-- A result of division, which exists unless the divisor is zero. Quotient and remainder overflow
on the same operands: those whose quotient does not fit. -/
def divide (op : Operation) (a b : Int) (result : Int) : Except RunError Value :=
  if b = 0 then .error .divisionByZero
  else if narrow? (a.tdiv b) = none then .error (.overflow op.name)
  else op.exactly result

/-- The binary operations on two integers. Division truncates toward zero. -/
def applyInts (op : Operation) (a b : Int) : Except RunError Value :=
  match op with
  | add => op.exactly (a + b)
  | sub => op.exactly (a - b)
  | mul => op.exactly (a * b)
  | div => op.divide a b (a.tdiv b)
  | rem => op.divide a b (a.tmod b)
  | lt => .ok (.bool (a < b))
  | _ => .error (.malformed (op.name ++ " is not a binary operation"))

/-- The binary operations on two values. All but equality need integers. -/
def apply (op : Operation) (left right : Value) : Except RunError Value :=
  match op, left, right with
  | eq, _, _ => .ok (.bool (left = right))
  | _, .int a, .int b => op.applyInts a.toInt b.toInt
  | _, _, _ =>
    .error (.typeError
      ("cannot apply " ++ op.name ++ " to " ++ left.typeName ++ " and " ++ right.typeName))

end Operation

end StackScript
