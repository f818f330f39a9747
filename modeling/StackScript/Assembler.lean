import StackScript.Directive

set_option autoImplicit false

/-!
# The assembler

The assembler collects instructions and resolves labels in two passes. While directives arrive it
notes where each label is bound and which instructions branch to a label; `finish` fills in the
branch targets. A label's place and a label's number are cut to 32 bits.
-/

namespace StackScript

/-- The code so far, the place of each label once it is bound, and the branches still without a
target. -/
structure Assembler where
  code : Array Instruction := #[]
  labels : Array (Option UInt32) := #[]
  branches : Array (Nat × Label) := #[]

namespace Assembler

/-- The assembler without code and labels. -/
def empty : Assembler := {}

/-- Appends an instruction as it is. -/
def emit (i : Instruction) : Assembler → Assembler
  | ⟨code, labels, branches⟩ => ⟨code.push i, labels, branches⟩

/-- Creates the next label. -/
def newLabel : Assembler → Label × Assembler
  | ⟨code, labels, branches⟩ => (⟨labels.size.toUInt32⟩, ⟨code, labels.push none, branches⟩)

/-- Binds a label to the place of the next instruction. The label must have been created and not
yet bound. -/
def bind (label : Label) : Assembler → Except InternalError Unit × Assembler
  | ⟨code, labels, branches⟩ =>
    match labels[label.id.toNat]? with
    | none => (.error (.unknownLabel label), ⟨code, labels, branches⟩)
    | some (some _) => (.error (.labelRebound label), ⟨code, labels, branches⟩)
    | some none =>
      let place := some code.size.toUInt32
      (.ok (), ⟨code, labels.setIfInBounds label.id.toNat place, branches⟩)

/-- Appends a branch to a label; its target is filled in by `finish`. -/
def branchTo (opcode : Opcode) (label : Label) : Assembler → Assembler
  | ⟨code, labels, branches⟩ =>
    let place := code.size
    ⟨code.push ⟨opcode, some (.target 0)⟩, labels, branches.push (place, label)⟩

/-- Appends a branch that is taken on a false truth value. -/
def branchIfFalse (label : Label) (a : Assembler) : Assembler := a.branchTo .jumpIfFalse label

/-- Appends a branch that is always taken. -/
def branch (label : Label) (a : Assembler) : Assembler := a.branchTo .jump label

/-- Fills in the target of one branch. -/
def patch (labels : Array (Option UInt32)) (code : Array Instruction) :
    Nat × Label → Except InternalError (Array Instruction)
  | (place, label) =>
    match labels[label.id.toNat]? with
    | some (some target) => .ok (code.modify place ({ · with operand := some (.target target) }))
    | _ => .error (.unknownLabel label)

/-- Ends assembly. The lowest label that was never bound is reported first, then the first branch
to a label that was never created. -/
def finish (localCount : Nat) : Assembler → Except InternalError Chunk
  | ⟨code, labels, branches⟩ =>
    match labels.findIdx? Option.isNone with
    | some i => .error (.unboundLabel ⟨i.toUInt32⟩)
    | none => do
      let code ← branches.toList.foldlM (patch labels) code
      return ⟨code, localCount⟩

/-- The assembler as a sink, whose result is a chunk. -/
def sink : Sink Assembler Chunk where
  start := {}
  emit := emit
  newLabel := newLabel
  bind := bind
  branchIfFalse := branchIfFalse
  branch := branch
  finish := finish

end Assembler

end StackScript
