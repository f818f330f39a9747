set_option autoImplicit false

/-!
# JSON values

A JSON value keeps what a reader of programs can tell apart: objects are ordered lists of fields, in
which a key may occur more than once, and numbers are told apart by how they are written. A string
literal may escape half of a surrogate pair; such a literal is correct JSON but stands for no text.
A value that needs its text is `garbled`.
-/

namespace StackScript

/-- A number as it is written: digits with or without a minus sign, or any text with a fraction or
an exponent. -/
inductive Json.Number
  | integer (negative : Bool) (magnitude : Nat)
  | decimal (text : String)
deriving DecidableEq, Inhabited

/-- A JSON value. -/
inductive Json
  | null
  | bool (b : Bool)
  | number (n : Json.Number)
  | string (s : String)
  | garbled
  | array (elements : List Json)
  | object (fields : List (String × Json))
deriving Inhabited

namespace Json

mutual

/-- How deep the arrays and objects of a value are nested. -/
def depth : Json → Nat
  | array elements => depthOfElements elements + 1
  | object fields => depthOfFields fields + 1
  | _ => 0

/-- The greatest depth among elements. -/
def depthOfElements : List Json → Nat
  | [] => 0
  | v :: rest => max v.depth (depthOfElements rest)

/-- The greatest depth among the values of fields. -/
def depthOfFields : List (String × Json) → Nat
  | [] => 0
  | (_, v) :: rest => max v.depth (depthOfFields rest)

end

/-- The number `n`. -/
def ofNat (n : Nat) : Json := number (.integer false n)

/-- The natural number that a number without sign, fraction and exponent writes. -/
def nat? : Json → Option Nat
  | number (.integer false n) => some n
  | _ => none

end Json

end StackScript
