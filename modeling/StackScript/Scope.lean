import Std.Data.TreeMap
import Std.Data.TreeSet
import StackScript.CompileError

set_option autoImplicit false

/-!
# Lexical scope

A scope binds the visible names to slots in one table. Entering a block pushes a frame; the first
declaration of a name inside the block records in that frame which binding it hides, or that there
was none. Leaving the block takes the frame back and undoes its records, last one first. Slots are
numbered in order of allocation and never used twice; there are 65536 of them.
-/

namespace StackScript

/-- The bindings hidden inside one block. -/
structure Scope.Frame where
  /-- The names declared in the block with their outer bindings, last one first. -/
  hidden : List (String × Option Slot) := []
  /-- The names in `hidden`. -/
  seen : Std.TreeSet String := ∅

/-- The visible bindings, the frames of the open blocks, innermost first, and the number of slots
allocated. -/
structure Scope where
  bindings : Std.TreeMap String Slot := ∅
  frames : List Scope.Frame := []
  slotCount : Nat := 0

namespace Scope

/-- The number of slots that a slot number can tell apart. -/
def capacity : Nat := 65536

/-- The scope without names, blocks and slots. -/
def empty : Scope := {}

/-- The number of open blocks. -/
def depth (scope : Scope) : Nat := scope.frames.length

/-- The slot of a visible name. -/
def resolve? (scope : Scope) (name : String) : Option Slot := scope.bindings[name]?

/-- Opens a block. -/
def enter : Scope → Scope
  | ⟨bindings, frames, slotCount⟩ => ⟨bindings, {} :: frames, slotCount⟩

/-- Gives a name the binding it had before, or none. -/
def restore (bindings : Std.TreeMap String Slot) (name : String) :
    Option Slot → Std.TreeMap String Slot
  | some slot => bindings.insert name slot
  | none => bindings.erase name

/-- Closes the innermost block. Without an open block nothing happens. -/
def exit : Scope → Scope
  | ⟨bindings, [], slotCount⟩ => ⟨bindings, [], slotCount⟩
  | ⟨bindings, frame :: frames, slotCount⟩ =>
    ⟨frame.hidden.foldl (fun table entry => restore table entry.1 entry.2) bindings, frames,
      slotCount⟩

/-- Allocates the next slot, without a name. -/
def fresh : Scope → Except InternalError Slot × Scope
  | ⟨bindings, frames, slotCount⟩ =>
    if slotCount < capacity then
      (.ok ⟨slotCount.toUInt16⟩, ⟨bindings, frames, slotCount + 1⟩)
    else (.error .tooManyLocals, ⟨bindings, frames, slotCount⟩)

/-- Binds a name to a slot, recording the hidden binding if the innermost block has not yet
declared the name. -/
def bind (name : String) (slot : Slot) : Scope → Scope
  | ⟨bindings, [], slotCount⟩ => ⟨bindings.insert name slot, [], slotCount⟩
  | ⟨bindings, ⟨hidden, seen⟩ :: frames, slotCount⟩ =>
    if seen.contains name then
      ⟨bindings.insert name slot, ⟨hidden, seen⟩ :: frames, slotCount⟩
    else
      let hidden := (name, bindings[name]?) :: hidden
      ⟨bindings.insert name slot, ⟨hidden, seen.insert name⟩ :: frames, slotCount⟩

/-- Declares a name in a fresh slot. -/
def declare (name : String) (scope : Scope) : Except InternalError Slot × Scope :=
  match scope.fresh with
  | (.ok slot, scope) => (.ok slot, scope.bind name slot)
  | (.error e, scope) => (.error e, scope)

end Scope

end StackScript
