import StackScript.Decimal
import StackScript.Json.Basic

set_option autoImplicit false

/-!
# JSON tokens

`Token.scan?` splits JSON text into tokens. It is a machine that takes one character at a time: its
`Mode` says what it is in the middle of, and `advance` gives the next mode and the tokens that have
become complete. Between tokens only the four blanks of JSON are allowed.

A string token holds its text, or nothing if an escape in it is half of a surrogate pair without the
other half.
-/

namespace StackScript.Json

/-- A token of JSON text. -/
inductive Token
  | openBrace
  | closeBrace
  | openBracket
  | closeBracket
  | colon
  | comma
  | null
  | bool (b : Bool)
  | number (n : Number)
  | string (text : Option String)
deriving DecidableEq, Inhabited

namespace Token

/-! ## Strings -/

/-- A part of a string literal: a character that stands for itself or is escaped by a letter, or a
16-bit unit given by four hexadecimal digits. -/
inductive Part
  | plain (c : Char)
  | unit (n : Nat)
deriving DecidableEq, Inhabited

/-- Whether a unit is the first half of a surrogate pair. -/
def isHigh (n : Nat) : Bool := 0xD800 ≤ n && n < 0xDC00

/-- Whether a unit is the second half of a surrogate pair. -/
def isLow (n : Nat) : Bool := 0xDC00 ≤ n && n < 0xE000

/-- The characters that parts stand for. Units that are halves must come in pairs. -/
def text? : List Part → Option (List Char)
  | [] => some []
  | .plain c :: rest => (text? rest).map (c :: ·)
  | .unit high :: .unit low :: rest =>
    if isHigh high && isLow low then
      (text? rest).map (Char.ofNat (0x10000 + (high - 0xD800) * 0x400 + (low - 0xDC00)) :: ·)
    else if isHigh high || isLow high then none
    else (text? (.unit low :: rest)).map (Char.ofNat high :: ·)
  | .unit n :: rest =>
    if isHigh n || isLow n then none else (text? rest).map (Char.ofNat n :: ·)

/-- The character that a letter after a backslash stands for. -/
def escape? (c : Char) : Option Char :=
  if c = '\x22' then some '\x22'
  else if c = '\\' then some '\\'
  else if c = '/' then some '/'
  else if c = 'b' then some '\x08'
  else if c = 'f' then some '\x0c'
  else if c = 'n' then some '\n'
  else if c = 'r' then some '\r'
  else if c = 't' then some '\t'
  else none

/-- The number that a hexadecimal digit of either case stands for. -/
def hexValue? (c : Char) : Option Nat :=
  if '0' ≤ c && c ≤ '9' then some (c.toNat - 48)
  else if 'a' ≤ c && c ≤ 'f' then some (c.toNat - 87)
  else if 'A' ≤ c && c ≤ 'F' then some (c.toNat - 55)
  else none

/-! ## Numbers -/

/-- How much of a number has been read. -/
inductive Phase
  | sign
  | zero
  | digits
  | point
  | fraction
  | mark
  | markSign
  | exponent
deriving DecidableEq, Inhabited

/-- The phase after one more character of a number, if the character can belong to it. -/
def Phase.next? (c : Char) : Phase → Option Phase
  | sign => if c = '0' then some zero else if c.isDigit then some digits else none
  | zero => if c = '.' then some point else if c = 'e' || c = 'E' then some mark else none
  | digits =>
    if c.isDigit then some digits
    else if c = '.' then some point
    else if c = 'e' || c = 'E' then some mark
    else none
  | point => if c.isDigit then some fraction else none
  | fraction =>
    if c.isDigit then some fraction else if c = 'e' || c = 'E' then some mark else none
  | mark =>
    if c = '+' || c = '-' then some markSign else if c.isDigit then some exponent else none
  | markSign => if c.isDigit then some exponent else none
  | exponent => if c.isDigit then some exponent else none

/-- The number whose characters have been read, last one first, if it may end here. -/
def Phase.number? (read : List Char) : Phase → Option Number
  | zero | digits =>
    match read.reverse with
    | '-' :: rest => some (.integer true (Decimal.value rest))
    | all => some (.integer false (Decimal.value all))
  | fraction | exponent => some (.decimal (String.ofList read.reverse))
  | _ => none

/-! ## The machine -/

/-- What the scanner is in the middle of. Parts and characters read are kept last one first. -/
inductive Mode
  | between
  | word (next : Char) (missing : List Char) (token : Token)
  | quote (parts : List Part)
  | backslash (parts : List Part)
  | hex (parts : List Part) (missing : Nat) (value : Nat)
  | number (phase : Phase) (read : List Char)
deriving Inhabited

/-- Whether a character may stand between tokens. -/
def isBlank (c : Char) : Bool := c = ' ' || c = '\t' || c = '\n' || c = '\r'

/-- The first character of a token, or a blank. -/
def begin? (c : Char) : Option (Mode × List Token) :=
  if isBlank c then some (.between, [])
  else if c = '\x7b' then some (.between, [openBrace])
  else if c = '\x7d' then some (.between, [closeBrace])
  else if c = '[' then some (.between, [openBracket])
  else if c = ']' then some (.between, [closeBracket])
  else if c = ':' then some (.between, [colon])
  else if c = ',' then some (.between, [comma])
  else if c = '\x22' then some (.quote [], [])
  else if c = 'n' then some (.word 'u' ['l', 'l'] null, [])
  else if c = 't' then some (.word 'r' ['u', 'e'] (bool true), [])
  else if c = 'f' then some (.word 'a' ['l', 's', 'e'] (bool false), [])
  else if c = '-' then some (.number .sign [c], [])
  else if c = '0' then some (.number .zero [c], [])
  else if c.isDigit then some (.number .digits [c], [])
  else none

/-- Takes one character: the next mode and the tokens it completes. A number is complete when a
character comes that cannot belong to it; that character then begins the next token. -/
def advance (c : Char) : Mode → Option (Mode × List Token)
  | .between => begin? c
  | .word next missing token =>
    if c = next then
      match missing with
      | [] => some (.between, [token])
      | next :: missing => some (.word next missing token, [])
    else none
  | .quote parts =>
    if c = '\x22' then
      some (.between, [string ((text? parts.reverse).map String.ofList)])
    else if c = '\\' then some (.backslash parts, [])
    else if c.toNat < 32 then none
    else some (.quote (.plain c :: parts), [])
  | .backslash parts =>
    if c = 'u' then some (.hex parts 4 0, [])
    else (escape? c).map fun c => (.quote (.plain c :: parts), [])
  | .hex parts missing value =>
    match hexValue? c with
    | none => none
    | some digit =>
      let value := 16 * value + digit
      if missing ≤ 1 then some (.quote (.unit value :: parts), [])
      else some (.hex parts (missing - 1) value, [])
  | .number phase read =>
    match phase.next? c with
    | some phase => some (.number phase (c :: read), [])
    | none =>
      match phase.number? read with
      | none => none
      | some n => (begin? c).map fun (mode, tokens) => (mode, .number n :: tokens)

/-- The tokens completed by the end of the text. -/
def Mode.ending? : Mode → Option (List Token)
  | .between => some []
  | .number phase read => (phase.number? read).map fun n => [.number n]
  | _ => none

/-- Scans the rest of a text from a mode, with the tokens so far, last one first. -/
def scanFrom? : Mode → List Token → List Char → Option (List Token)
  | mode, tokens, [] => mode.ending?.map fun rest => tokens.reverse ++ rest
  | mode, tokens, c :: rest =>
    match advance c mode with
    | none => none
    | some (mode, new) => scanFrom? mode (new.reverse ++ tokens) rest

/-- The tokens of a text, or nothing if it is not made of JSON tokens. -/
def scan? (text : List Char) : Option (List Token) := scanFrom? .between [] text

end Token

end StackScript.Json
