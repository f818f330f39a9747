set_option autoImplicit false

/-!
# Operations and the libraries that export them

An `Operation` is something compiled code asks its host to do with values. Compiled code names an
operation by an entry point of a `Library`; `Library.lookup` is what the compiler asks, and
`Library.operation` is what the machine asks. A `Resolver` remembers the entries found so far, so
that a library is asked for an operation only until it has answered once.
-/

namespace StackScript

/-- The operations on values that compiled code can ask for. -/
inductive Operation
  | add
  | sub
  | mul
  | div
  | rem
  | lt
  | eq
  | toBool
  | call
deriving DecidableEq, Inhabited

namespace Operation

/-- The exported name of an operation. -/
def name : Operation → String
  | add => "Add"
  | sub => "Sub"
  | mul => "Mul"
  | div => "Div"
  | rem => "Rem"
  | lt => "Lt"
  | eq => "Eq"
  | toBool => "ToBool"
  | call => "Call"

/-- Every operation, in the order of the standard entry points. -/
def all : List Operation := [add, sub, mul, div, rem, lt, eq, toBool, call]

/-- The operation with an exported name. -/
def ofName? (name : String) : Option Operation := all.find? (fun op => op.name == name)

/-- The operation that an operator of the source language stands for. -/
def ofOperator? (operator : String) : Option Operation :=
  match operator with
  | "+" => some add
  | "-" => some sub
  | "*" => some mul
  | "/" => some div
  | "%" => some rem
  | "<" => some lt
  | "==" => some eq
  | _ => none

end Operation

/-- The number under which a library exports an operation. -/
structure EntryPoint where
  index : UInt16
deriving DecidableEq, Inhabited

/-- A library of operations, seen from the compiler (`lookup`) and from the machine
(`operation`). The two need not agree. -/
structure Library where
  lookup : String → Option EntryPoint
  operation : EntryPoint → Option Operation

namespace Library

/-- The library whose entry points number the operations in the order of `Operation.all`. -/
def standard : Library where
  lookup name := (Operation.all.findIdx? (fun op => op.name == name)).map (⟨·.toUInt16⟩)
  operation entry := Operation.all[entry.index.toNat]?

end Library

/-- The entries a compilation has resolved, and the names it has asked its library for. -/
structure Resolver where
  resolved : List (Operation × EntryPoint) := []
  asked : Array String := #[]

/-- The entry of an operation: a remembered one, or else the library's answer, which is remembered
if there is one. -/
def Resolver.resolve (library : Library) (op : Operation) :
    Resolver → Option EntryPoint × Resolver
  | ⟨resolved, asked⟩ =>
    match resolved.lookup op with
    | some entry => (some entry, ⟨resolved, asked⟩)
    | none =>
      match library.lookup op.name with
      | some entry => (some entry, ⟨(op, entry) :: resolved, asked.push op.name⟩)
      | none => (none, ⟨resolved, asked.push op.name⟩)

end StackScript
