set_option autoImplicit false

/-!
# Numbers of 32 bits and decimal text

`narrow?` is the one place where an exact integer becomes one of 32 bits. The rest is about reading
and writing unsigned decimal numbers. `Decimal.parse?` accepts exactly the non-empty sequences of
the digits `0` to `9`, leading zeros included; `Decimal.padded` writes at least a given number of
digits.
-/

namespace StackScript

/-- The 32-bit integer equal to an integer, if there is one. -/
def narrow? (n : Int) : Option Int32 :=
  if -2147483648 ≤ n ∧ n ≤ 2147483647 then some (Int32.ofInt n) else none

namespace Decimal

/-- The number that a digit character stands for. -/
def digit (c : Char) : Nat := c.toNat - 48

/-- The number written by a sequence of digits, most significant first. -/
def value (digits : List Char) : Nat := digits.foldl (fun n c => 10 * n + digit c) 0

/-- Reads a non-empty sequence of digits. -/
def parse? (text : List Char) : Option Nat :=
  if !text.isEmpty && text.all Char.isDigit then some (value text) else none

/-- The decimal text of a number, filled up with leading zeros to at least `width` digits. -/
def padded (width n : Nat) : String :=
  let digits := Nat.toDigits 10 n
  String.ofList (List.replicate (width - digits.length) '0' ++ digits)

end Decimal

end StackScript
