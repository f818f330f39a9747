import StackScript.Json.Basic

set_option autoImplicit false

/-!
# Compact JSON text

The compact text of a JSON value has no blanks. In strings the quote, the backslash and the control
characters are escaped, the latter by a letter where there is one and else by four lower-case
hexadecimal digits; all else is written as it is.
-/

namespace StackScript.Json

/-- A hexadecimal digit, in lower case. -/
def hexDigit (n : Nat) : Char := Nat.digitChar (n % 16)

/-- The characters that write one character of a string. -/
def escaped (c : Char) : List Char :=
  if c = '\x22' then ['\\', '\x22']
  else if c = '\\' then ['\\', '\\']
  else if c = '\x08' then ['\\', 'b']
  else if c = '\x0c' then ['\\', 'f']
  else if c = '\n' then ['\\', 'n']
  else if c = '\r' then ['\\', 'r']
  else if c = '\t' then ['\\', 't']
  else if c.toNat < 32 then ['\\', 'u', '0', '0', hexDigit (c.toNat / 16), hexDigit c.toNat]
  else [c]

/-- A string with its quotes. -/
def quoted (s : String) : List Char := '\x22' :: s.toList.flatMap escaped ++ ['\x22']

/-- A number as it is written. -/
def Number.chars : Number → List Char
  | integer negative n => (if negative then ['-'] else []) ++ Nat.toDigits 10 n
  | decimal text => text.toList

mutual

/-- The characters of a value's compact text. A garbled value is written as null. -/
def chars : Json → List Char
  | null | garbled => ['n', 'u', 'l', 'l']
  | bool true => ['t', 'r', 'u', 'e']
  | bool false => ['f', 'a', 'l', 's', 'e']
  | number n => n.chars
  | string s => quoted s
  | array elements => '[' :: elementChars elements ++ [']']
  | object fields => '\x7b' :: fieldChars fields ++ ['\x7d']

/-- Elements with commas between them. -/
def elementChars : List Json → List Char
  | [] => []
  | [v] => v.chars
  | v :: rest => v.chars ++ ',' :: elementChars rest

/-- Fields with commas between them. -/
def fieldChars : List (String × Json) → List Char
  | [] => []
  | [(key, v)] => quoted key ++ ':' :: v.chars
  | (key, v) :: rest => quoted key ++ ':' :: (v.chars ++ ',' :: fieldChars rest)

end

/-- The compact text of a value. -/
def compact (v : Json) : String := String.ofList v.chars

end StackScript.Json
