import StackScript.Console

set_option autoImplicit false

/-!
# Builtin tables

A builtin table lists the values that a program finds under global names, in the order in which
they are installed. A name may occur more than once; a later entry hides an earlier one.
-/

namespace StackScript

/-- Named values in order of installation. -/
structure BuiltinTable where
  entries : Array (String × Value) := #[]
deriving DecidableEq, Inhabited

namespace BuiltinTable

/-- The table without entries. -/
def empty : BuiltinTable := {}

/-- The globals every program starts with. -/
def standard : BuiltinTable :=
  ⟨#[("print", .native .print), ("true", .bool true), ("false", .bool false), ("null", .null)]⟩

/-- Adds an entry at the end. -/
def push (table : BuiltinTable) (name : String) (value : Value) : BuiltinTable :=
  ⟨table.entries.push (name, value)⟩

/-- The number of entries. -/
def size (table : BuiltinTable) : Nat := table.entries.size

/-- Whether there are no entries. -/
def isEmpty (table : BuiltinTable) : Bool := table.entries.isEmpty

/-- The entry at an index. -/
def get? (table : BuiltinTable) (i : Nat) : Option (String × Value) := table.entries[i]?

/-- The names in order of installation. -/
def names (table : BuiltinTable) : List String := table.entries.toList.map Prod.fst

end BuiltinTable

end StackScript
