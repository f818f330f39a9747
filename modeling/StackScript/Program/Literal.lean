import StackScript.Decimal

set_option autoImplicit false

/-!
# Integer literals

A literal is a non-empty sequence of decimal digits, without a sign, whose value is at most the
greatest 32-bit integer. Leading zeros are allowed. It is read from left to right in 32-bit
arithmetic: the integer read so far is multiplied by ten, then the digit is added, and neither
result may leave the 32-bit range.
-/

namespace StackScript.Literal

/-- The integer read so far with one more digit. -/
def push? (n : Int32) (c : Char) : Option Int32 := do
  let tens ← narrow? (n.toInt * 10)
  narrow? (tens.toInt + Decimal.digit c)

/-- The integer written by a literal. -/
def parse? (literal : String) : Option Int32 :=
  let digits := literal.toList
  if digits.isEmpty || !digits.all Char.isDigit then none else digits.foldlM push? 0

end StackScript.Literal
