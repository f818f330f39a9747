import StackScript.Builtins
import StackScript.Instruction

set_option autoImplicit false

/-!
# The stack machine

A machine state has an instruction pointer, an evaluation stack, local values and a console. `step`
performs one instruction; `runFor` performs at most a given number of them; `execute` runs a chunk
from its start under a step limit. A run stops at a `Return`, at the end of the code or at an error;
what can be seen of it afterwards is its `Outcome`. Code is not trusted: an instruction that does
not fit its operand or the stack stops the run with a malformed-code error.
-/

namespace StackScript.Machine

/-- An entry of the evaluation stack. -/
inductive Entry
  | raw (n : Int32)
  | boxed (v : Value)
  | truth (b : Bool)
  | args (values : Array Value)
deriving DecidableEq, Inhabited

/-- The text of an entry in reports on malformed code. -/
def Entry.inspect : Entry → String
  | raw n => "Raw(" ++ toString n.toInt ++ ")"
  | boxed v => "Boxed(" ++ v.inspect ++ ")"
  | truth b => if b then "Truth(true)" else "Truth(false)"
  | args values => "Args([" ++ ", ".intercalate (values.toList.map Value.inspect) ++ "])"

/-! ## Reports on malformed code -/

/-- An operand that the opcode cannot use. -/
def badOperand (op : Opcode) : RunError := .malformed ("bad operand for " ++ op.name)

/-- A pop from the empty stack. -/
def stackUnderflow : RunError := .malformed "stack underflow"

/-- An entry of the wrong kind. -/
def unexpected (wanted : String) (found : Entry) : RunError :=
  .malformed ("expected " ++ wanted ++ " on stack, found " ++ found.inspect)

/-- A local slot outside the chunk's locals. -/
def noLocal (s : Slot) : RunError := .malformed ("no local " ++ toString s.index.toNat)

/-- A builtin index outside the builtin table. -/
def noBuiltin (n : UInt16) : RunError := .malformed ("no builtin " ++ toString n.toNat)

/-- An argument index without an argument collection that has it. -/
def noArguments (n : UInt16) : RunError :=
  .malformed ("StoreArg [" ++ toString n.toNat ++ "] without argument collection")

/-! ## States -/

/-- What a machine is given besides code: the operations behind entry points, the builtin values
and the behaviour of native functions. -/
structure Host (σ : Type) where
  operation : EntryPoint → Option Operation
  builtins : BuiltinTable
  natives : Natives σ

/-- The state of a run between two instructions. -/
structure State (σ : Type) where
  ip : Nat
  stack : List Entry
  locals : Array Value
  console : Console σ
deriving Inhabited

/-- What a finished run leaves behind. -/
structure Outcome (σ : Type) where
  result : Except RunError Unit
  locals : Array Value
  console : Console σ
deriving Inhabited

/-- A run that can go on, or one that has stopped. -/
inductive Progress (σ : Type)
  | running (state : State σ)
  | stopped (outcome : Outcome σ)

section

variable {σ : Type}

/-- The outcome of a run that stops in a state, with a given result. -/
def State.outcome (s : State σ) (result : Except RunError Unit) : Outcome σ :=
  ⟨result, s.locals, s.console⟩

/-- The state in which a chunk starts: every local is null. -/
def State.start (chunk : Chunk) (console : Console σ) : State σ :=
  ⟨0, [], Array.replicate chunk.localCount .null, console⟩

/-! ## Single instructions -/

/-- Takes a boxed value from a stack. -/
def popValue : List Entry → Except RunError (Value × List Entry)
  | .boxed v :: rest => .ok (v, rest)
  | entry :: _ => .error (unexpected "boxed value" entry)
  | [] => .error stackUnderflow

/-- Takes an argument collection from a stack. -/
def popArguments : List Entry → Except RunError (Array Value × List Entry)
  | .args values :: rest => .ok (values, rest)
  | entry :: _ => .error (unexpected "argument collection" entry)
  | [] => .error stackUnderflow

/-- Performs a binary operation on the two values on top of the stack. -/
def callBinary (op : Operation) : State σ → Progress σ
  | ⟨ip, stack, locals, console⟩ =>
    match popValue stack with
    | .error e => .stopped ⟨.error e, locals, console⟩
    | .ok (right, rest) =>
      match popValue rest with
      | .error e => .stopped ⟨.error e, locals, console⟩
      | .ok (left, rest) =>
        match op.apply left right with
        | .error e => .stopped ⟨.error e, locals, console⟩
        | .ok v => .running ⟨ip, .boxed v :: rest, locals, console⟩

/-- Performs an operation on the top of the stack. -/
def callOperation (host : Host σ) (op : Operation) : State σ → Progress σ
  | ⟨ip, stack, locals, console⟩ =>
    match op with
    | .toBool =>
      match popValue stack with
      | .error e => .stopped ⟨.error e, locals, console⟩
      | .ok (v, rest) => .running ⟨ip, .truth v.truth :: rest, locals, console⟩
    | .call =>
      match popArguments stack with
      | .error e => .stopped ⟨.error e, locals, console⟩
      | .ok (arguments, rest) =>
        match popValue rest with
        | .error e => .stopped ⟨.error e, locals, console⟩
        | .ok (callee, rest) =>
          match callee.call host.natives arguments console with
          | (.error e, console) => .stopped ⟨.error e, locals, console⟩
          | (.ok v, console) => .running ⟨ip, .boxed v :: rest, locals, console⟩
    | op => callBinary op ⟨ip, stack, locals, console⟩

/-- Performs an instruction in a state whose instruction pointer is already behind it. -/
def perform (host : Host σ) (i : Instruction) : State σ → Progress σ
  | ⟨ip, stack, locals, console⟩ =>
    let bad : RunError := badOperand i.opcode
    match i.opcode with
    | .ret => .stopped ⟨.ok (), locals, console⟩
    | .loadInt =>
      match i.operand with
      | some (.int n) => .running ⟨ip, .raw n :: stack, locals, console⟩
      | _ => .stopped ⟨.error bad, locals, console⟩
    | .boxInt =>
      match stack with
      | .raw n :: rest => .running ⟨ip, .boxed (.int n) :: rest, locals, console⟩
      | entry :: _ => .stopped ⟨.error (unexpected "raw integer" entry), locals, console⟩
      | [] => .stopped ⟨.error stackUnderflow, locals, console⟩
    | .pop =>
      match stack with
      | _ :: rest => .running ⟨ip, rest, locals, console⟩
      | [] => .stopped ⟨.error stackUnderflow, locals, console⟩
    | .loadLocal =>
      match i.operand with
      | some (.slot s) =>
        match locals[s.index.toNat]? with
        | some v => .running ⟨ip, .boxed v :: stack, locals, console⟩
        | none => .stopped ⟨.error (noLocal s), locals, console⟩
      | _ => .stopped ⟨.error bad, locals, console⟩
    | .storeLocal =>
      match i.operand with
      | some (.slot s) =>
        match popValue stack with
        | .error e => .stopped ⟨.error e, locals, console⟩
        | .ok (v, rest) =>
          if h : s.index.toNat < locals.size then
            .running ⟨ip, rest, locals.set s.index.toNat v h, console⟩
          else .stopped ⟨.error (noLocal s), locals, console⟩
      | _ => .stopped ⟨.error bad, locals, console⟩
    | .loadBuiltin =>
      match i.operand with
      | some (.builtin n) =>
        match host.builtins.get? n.toNat with
        | some (_, v) => .running ⟨ip, .boxed v :: stack, locals, console⟩
        | none => .stopped ⟨.error (noBuiltin n), locals, console⟩
      | _ => .stopped ⟨.error bad, locals, console⟩
    | .newArgs =>
      match i.operand with
      | some (.count n) =>
        .running ⟨ip, .args (Array.replicate n.toNat .null) :: stack, locals, console⟩
      | _ => .stopped ⟨.error bad, locals, console⟩
    | .storeArg =>
      match i.operand with
      | some (.index n) =>
        match popValue stack with
        | .error e => .stopped ⟨.error e, locals, console⟩
        | .ok (v, .args values :: rest) =>
          if h : n.toNat < values.size then
            .running ⟨ip, .args (values.set n.toNat v h) :: rest, locals, console⟩
          else .stopped ⟨.error (noArguments n), locals, console⟩
        | .ok _ => .stopped ⟨.error (noArguments n), locals, console⟩
      | _ => .stopped ⟨.error bad, locals, console⟩
    | .callRuntime =>
      match i.operand with
      | some (.entry e) =>
        match host.operation e with
        | some op => callOperation host op ⟨ip, stack, locals, console⟩
        | none => .stopped ⟨.error (.unknownEntryPoint e), locals, console⟩
      | _ => .stopped ⟨.error bad, locals, console⟩
    | .jump =>
      match i.target? with
      | some a => .running ⟨a.toNat, stack, locals, console⟩
      | none => .stopped ⟨.error bad, locals, console⟩
    | .jumpIfFalse =>
      match i.target? with
      | some a =>
        match stack with
        | .truth b :: rest => .running ⟨if b then ip else a.toNat, rest, locals, console⟩
        | entry :: _ => .stopped ⟨.error (unexpected "truth value" entry), locals, console⟩
        | [] => .stopped ⟨.error stackUnderflow, locals, console⟩
      | none => .stopped ⟨.error bad, locals, console⟩

/-! ## Runs -/

/-- Performs the instruction at the instruction pointer. At the end of the code there is none, and
the run stops without an error. -/
def step (host : Host σ) (code : Array Instruction) : State σ → Progress σ
  | ⟨ip, stack, locals, console⟩ =>
    match code[ip]? with
    | some i => perform host i ⟨ip + 1, stack, locals, console⟩
    | none => .stopped ⟨.ok (), locals, console⟩

/-- Performs up to a number of steps. -/
def runFor (host : Host σ) (code : Array Instruction) : Nat → State σ → Progress σ
  | 0, s => .running s
  | n + 1, s =>
    match step host code s with
    | .running s => runFor host code n s
    | .stopped outcome => .stopped outcome

/-- Runs a chunk from its start under a step limit. The limit counts instructions: a run that
reaches the end of the code in as many steps as it allows has not exceeded it. -/
def execute (host : Host σ) (limit : Nat) (chunk : Chunk) (console : Console σ) : Outcome σ :=
  match runFor host chunk.code limit (State.start chunk console) with
  | .stopped outcome => outcome
  | .running s =>
    if s.ip < chunk.code.size then s.outcome (.error (.stepLimit limit)) else s.outcome (.ok ())

end

end StackScript.Machine
