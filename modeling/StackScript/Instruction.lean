import StackScript.Decimal
import StackScript.Operation

set_option autoImplicit false

/-!
# Instructions and chunks

An instruction is an opcode with at most one operand. A `Chunk` is a sequence of instructions
together with the number of local slots it needs; `Chunk.listing` is its printed form, one
numbered line per instruction.
-/

namespace StackScript

/-- The number of a local slot. -/
structure Slot where
  index : UInt16
deriving DecidableEq, Inhabited

/-- The text `%n`. -/
def Slot.text (s : Slot) : String := "%" ++ toString s.index.toNat

/-- The number of a label, a place in code that is yet to be fixed. -/
structure Label where
  id : UInt32
deriving DecidableEq, Inhabited

/-- The text `Ln`. -/
def Label.text (l : Label) : String := "L" ++ toString l.id.toNat

/-- What an instruction does. -/
inductive Opcode
  | loadInt
  | boxInt
  | pop
  | loadLocal
  | storeLocal
  | loadBuiltin
  | newArgs
  | storeArg
  | callRuntime
  | jump
  | jumpIfFalse
  | ret
deriving DecidableEq, Inhabited

namespace Opcode

/-- The printed name of an opcode. -/
def name : Opcode → String
  | loadInt => "LoadInt"
  | boxInt => "BoxInt"
  | pop => "Pop"
  | loadLocal => "LoadLocal"
  | storeLocal => "StoreLocal"
  | loadBuiltin => "LoadBuiltin"
  | newArgs => "NewArgs"
  | storeArg => "StoreArg"
  | callRuntime => "CallRuntime"
  | jump => "Jump"
  | jumpIfFalse => "JumpIfFalse"
  | ret => "Return"

/-- Every opcode. -/
def all : List Opcode :=
  [loadInt, boxInt, pop, loadLocal, storeLocal, loadBuiltin, newArgs, storeArg, callRuntime, jump,
    jumpIfFalse, ret]

/-- The opcode with a printed name. -/
def ofName? (name : String) : Option Opcode := all.find? (fun op => op.name == name)

end Opcode

/-- The operand of an instruction. -/
inductive Operand
  | int (n : Int32)
  | slot (s : Slot)
  | builtin (index : UInt16)
  | count (n : UInt16)
  | index (n : UInt16)
  | entry (e : EntryPoint)
  | target (address : UInt32)
deriving DecidableEq, Inhabited

/-- The printed form of an operand. Addresses have at least four digits. -/
def Operand.text : Operand → String
  | int n => toString n.toInt
  | slot s => s.text
  | builtin n => "builtin#" ++ toString n.toNat
  | count n => toString n.toNat
  | index n => "[" ++ toString n.toNat ++ "]"
  | entry e => "@" ++ toString e.index.toNat
  | target a => "-> " ++ Decimal.padded 4 a.toNat

/-- An opcode with at most one operand. Nothing ties the kind of operand to the opcode. -/
structure Instruction where
  opcode : Opcode
  operand : Option Operand := none
deriving DecidableEq, Inhabited

namespace Instruction

/-- The printed form of an instruction. -/
def text (i : Instruction) : String :=
  match i.operand with
  | none => i.opcode.name
  | some operand => i.opcode.name ++ " " ++ operand.text

/-- The address an instruction may jump to. -/
def target? (i : Instruction) : Option UInt32 :=
  match i.operand with
  | some (.target a) => some a
  | _ => none

/-- Pushes an unboxed integer. -/
def loadInt (n : Int32) : Instruction := ⟨.loadInt, some (.int n)⟩

/-- Boxes the integer on top. -/
def boxInt : Instruction := ⟨.boxInt, none⟩

/-- Drops the top entry. -/
def pop : Instruction := ⟨.pop, none⟩

/-- Pushes the value of a local slot. -/
def loadLocal (s : Slot) : Instruction := ⟨.loadLocal, some (.slot s)⟩

/-- Pops a value into a local slot. -/
def storeLocal (s : Slot) : Instruction := ⟨.storeLocal, some (.slot s)⟩

/-- Pushes a builtin value. -/
def loadBuiltin (n : UInt16) : Instruction := ⟨.loadBuiltin, some (.builtin n)⟩

/-- Pushes an argument collection of a given size. -/
def newArgs (n : UInt16) : Instruction := ⟨.newArgs, some (.count n)⟩

/-- Pops a value into the argument collection below it. -/
def storeArg (n : UInt16) : Instruction := ⟨.storeArg, some (.index n)⟩

/-- Performs the operation behind an entry point. -/
def callRuntime (e : EntryPoint) : Instruction := ⟨.callRuntime, some (.entry e)⟩

/-- Continues at an address. -/
def jump (a : UInt32) : Instruction := ⟨.jump, some (.target a)⟩

/-- Pops a truth value and continues at an address if it is false. -/
def jumpIfFalse (a : UInt32) : Instruction := ⟨.jumpIfFalse, some (.target a)⟩

/-- Ends the run. -/
def ret : Instruction := ⟨.ret, none⟩

end Instruction

/-- A sequence of instructions and the number of local slots it needs. -/
structure Chunk where
  code : Array Instruction := #[]
  localCount : Nat := 0
deriving DecidableEq, Inhabited

namespace Chunk

/-- One line of a listing: the address, two blanks and the instruction. -/
def listingLine (address : Nat) (i : Instruction) : String :=
  Decimal.padded 4 address ++ "  " ++ i.text ++ "\n"

/-- The printed form of a chunk: the number of local slots, then one line per instruction. -/
def listing (c : Chunk) : String :=
  "; locals: " ++ toString c.localCount ++ "\n" ++
    String.join (c.code.toList.mapIdx listingLine)

end Chunk

end StackScript
