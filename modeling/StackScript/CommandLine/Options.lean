import StackScript.Decimal

set_option autoImplicit false

/-!
# Command-line arguments

Arguments are taken from left to right: flags, which may be joined behind one dash in their short
form, a step limit, and files. No option may be repeated. After two dashes everything is a file. A
request for the version or for help answers as soon as it is reached; an error in an argument before
it comes first.
-/

namespace StackScript.CommandLine

/-- What the command line asks to be done with files. -/
structure Options where
  files : List String := []
  run : Bool := false
  disassemble : Bool := false
  noBuiltins : Bool := false
  verbose : Bool := false
  maxSteps : Option Nat := none
deriving DecidableEq, Inhabited

/-- What a command line asks for. -/
inductive Invocation
  | process (options : Options)
  | version
  | help
deriving DecidableEq, Inhabited

/-- What is wrong with a command line. -/
inductive UsageError
  | unknownOption (name : String)
  | repeatedOption (name : String)
  | unexpectedValue (name : String)
  | missingValue (name : String)
  | invalidValue (name value : String)
  | missingFiles
  | emptyFileName
deriving DecidableEq, Inhabited

/-- The wording of a usage error. -/
def UsageError.message : UsageError → String
  | unknownOption name => "unexpected argument '" ++ name ++ "' found"
  | repeatedOption name => "the argument '" ++ name ++ "' cannot be used multiple times"
  | unexpectedValue name => "unexpected value for '" ++ name ++ "' found"
  | missingValue name => "a value is required for '" ++ name ++ "' but none was supplied"
  | invalidValue name value => "invalid value '" ++ value ++ "' for '" ++ name ++ "'"
  | missingFiles => "the following required arguments were not provided: <FILES>..."
  | emptyFileName => "a value is required for '<FILES>...' but none was supplied"

/-- The options without a value. -/
inductive Flag
  | run
  | disassemble
  | noBuiltins
  | verbose
  | help
  | version
deriving DecidableEq, Inhabited

namespace Flag

/-- The flag with a long name. -/
def ofLong? (name : String) : Option Flag :=
  match name with
  | "run" => some run
  | "disassemble" => some disassemble
  | "no-builtins" => some noBuiltins
  | "verbose" => some verbose
  | "help" => some help
  | "version" => some version
  | _ => none

/-- The flag with a short name. -/
def ofShort? (letter : Char) : Option Flag :=
  match letter with
  | 'r' => some run
  | 'd' => some disassemble
  | 'v' => some verbose
  | 'h' => some help
  | 'V' => some version
  | _ => none

end Flag

/-- Sets an option that may be set once. -/
def once (name : String) (isSet : Bool) (options : Options) : Except UsageError Options :=
  if isSet then .error (.repeatedOption name) else .ok options

namespace Options

/-- Takes a flag: more options, or an answer. -/
def flag (o : Options) (f : Flag) : Except UsageError (Invocation ⊕ Options) :=
  match f with
  | .run => (once "--run" o.run { o with run := true }).map .inr
  | .disassemble => (once "--disassemble" o.disassemble { o with disassemble := true }).map .inr
  | .noBuiltins => (once "--no-builtins" o.noBuiltins { o with noBuiltins := true }).map .inr
  | .verbose => (once "--verbose" o.verbose { o with verbose := true }).map .inr
  | .help => .ok (.inl .help)
  | .version => .ok (.inl .version)

/-- Takes joined short flags. -/
def flags (o : Options) : List Char → Except UsageError (Invocation ⊕ Options)
  | [] => .ok (.inr o)
  | letter :: rest =>
    match Flag.ofShort? letter with
    | none => .error (.unknownOption (String.ofList ['-', letter]))
    | some f =>
      match o.flag f with
      | .ok (.inr o) => o.flags rest
      | other => other

/-- A step count: digits, perhaps behind a plus sign, of a 64-bit number. -/
def stepCount? (value : String) : Option Nat :=
  let digits :=
    match value.toList with
    | '+' :: digits => digits
    | digits => digits
  match Decimal.parse? digits with
  | some n => if n < 18446744073709551616 then some n else none
  | none => none

/-- Takes the step limit. -/
def limit (o : Options) (value : String) : Except UsageError Options :=
  match stepCount? value with
  | none => .error (.invalidValue "--max-steps" value)
  | some n => once "--max-steps" o.maxSteps.isSome { o with maxSteps := some n }

/-- Takes a file. -/
def file (o : Options) (name : String) : Except UsageError Options :=
  if name.isEmpty then .error .emptyFileName else .ok { o with files := o.files ++ [name] }

end Options

/-- The form of an argument. -/
inductive Argument
  | endOfOptions
  | long (name : String) (value : Option String)
  | short (letters : List Char)
  | file (name : String)
deriving DecidableEq, Inhabited

/-- The form of an argument. A single dash is a file. -/
def Argument.ofString (argument : String) : Argument :=
  match argument.toList with
  | ['-', '-'] => endOfOptions
  | '-' :: '-' :: body =>
    let name := String.ofList (body.takeWhile (· != '='))
    match body.dropWhile (· != '=') with
    | [] => long name none
    | _ :: value => long name (some (String.ofList value))
  | '-' :: letter :: letters => short (letter :: letters)
  | _ => file argument

/-- Takes the arguments from left to right. -/
def parseFrom (o : Options) : List String → Except UsageError Invocation
  | [] => if o.files.isEmpty then .error .missingFiles else .ok (.process o)
  | argument :: rest =>
    match Argument.ofString argument with
    | .endOfOptions => do
      let o ← rest.foldlM Options.file o
      if o.files.isEmpty then .error .missingFiles else .ok (.process o)
    | .file name => do
      let o ← o.file name
      parseFrom o rest
    | .short letters => do
      match ← o.flags letters with
      | .inl answer => return answer
      | .inr o => parseFrom o rest
    | .long "max-steps" value =>
      match value, rest with
      | some value, rest => do
        let o ← o.limit value
        parseFrom o rest
      | none, value :: rest => do
        let o ← o.limit value
        parseFrom o rest
      | none, [] => .error (.missingValue "--max-steps")
    | .long name value =>
      match Flag.ofLong? name, value with
      | none, _ => .error (.unknownOption ("--" ++ name))
      | some _, some _ => .error (.unexpectedValue ("--" ++ name))
      | some f, none => do
        match ← o.flag f with
        | .inl answer => return answer
        | .inr o => parseFrom o rest

/-- What a command line asks for. -/
def parse (arguments : List String) : Except UsageError Invocation := parseFrom {} arguments

end StackScript.CommandLine
