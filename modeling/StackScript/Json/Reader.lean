import StackScript.Json.Token

set_option autoImplicit false

/-!
# Reading JSON text

`Json.parse?` reads a text as one JSON value. Tokens are fed to a machine that keeps the open arrays
and objects on a stack, so that values may be nested to any depth. An object with a key that stands
for no text is garbled.
-/

namespace StackScript.Json

namespace Reader

/-- An array or object that is still open: what it holds so far, last one first, and for an object
the key whose value comes next. -/
inductive Open
  | array (elements : List Json)
  | object (fields : List (Option String × Json)) (key : Option String)
deriving Inhabited

/-- What the reader waits for, inside the open arrays and objects, innermost first. -/
inductive State
  /-- A value. -/
  | value (stack : List Open)
  /-- The first element of an array, or its end. -/
  | elementOrEnd (stack : List Open)
  /-- The first key of an object, or its end. -/
  | keyOrEnd (stack : List Open)
  /-- The next key of an object. -/
  | key (fields : List (Option String × Json)) (stack : List Open)
  /-- The colon behind a key. -/
  | colon (fields : List (Option String × Json)) (key : Option String) (stack : List Open)
  /-- What follows a complete value. -/
  | after (value : Json) (stack : List Open)
deriving Inhabited

/-- A field whose key stands for a text. -/
def field? : Option String × Json → Option (String × Json)
  | (some key, v) => some (key, v)
  | (none, _) => none

/-- The object with given fields, last one first. -/
def close (fields : List (Option String × Json)) : Json :=
  match fields.reverse.mapM field? with
  | some fields => .object fields
  | none => .garbled

/-- Takes the first token of a value. -/
def begin? (stack : List Open) : Token → Option State
  | .null => some (.after .null stack)
  | .bool b => some (.after (.bool b) stack)
  | .number n => some (.after (.number n) stack)
  | .string (some s) => some (.after (.string s) stack)
  | .string none => some (.after .garbled stack)
  | .openBracket => some (.elementOrEnd stack)
  | .openBrace => some (.keyOrEnd stack)
  | _ => none

/-- Takes one token. -/
def advance (token : Token) : State → Option State
  | .value stack => begin? stack token
  | .elementOrEnd stack =>
    match token with
    | .closeBracket => some (.after (.array []) stack)
    | token => begin? (.array [] :: stack) token
  | .keyOrEnd stack =>
    match token with
    | .closeBrace => some (.after (.object []) stack)
    | .string key => some (.colon [] key stack)
    | _ => none
  | .key fields stack =>
    match token with
    | .string key => some (.colon fields key stack)
    | _ => none
  | .colon fields key stack =>
    match token with
    | .colon => some (.value (.object fields key :: stack))
    | _ => none
  | .after v (.array elements :: stack) =>
    match token with
    | .comma => some (.value (.array (v :: elements) :: stack))
    | .closeBracket => some (.after (.array (v :: elements).reverse) stack)
    | _ => none
  | .after v (.object fields key :: stack) =>
    match token with
    | .comma => some (.key ((key, v) :: fields) stack)
    | .closeBrace => some (.after (close ((key, v) :: fields)) stack)
    | _ => none
  | .after _ [] => none

/-- The value of a complete text. -/
def State.result? : State → Option Json
  | .after v [] => some v
  | _ => none

/-- Feeds tokens to the reader. -/
def feed? : State → List Token → Option State
  | state, [] => some state
  | state, token :: rest =>
    match advance token state with
    | none => none
    | some state => feed? state rest

end Reader

/-- The value that a sequence of tokens writes. -/
def ofTokens? (tokens : List Token) : Option Json :=
  match Reader.feed? (.value []) tokens with
  | some state => state.result?
  | none => none

/-- Reads a text as one JSON value. -/
def parse? (text : String) : Option Json :=
  match Token.scan? text.toList with
  | some tokens => ofTokens? tokens
  | none => none

end StackScript.Json
