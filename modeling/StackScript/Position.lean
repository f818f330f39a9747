set_option autoImplicit false

/-!
# Positions in a source text

A position is a line and a column, both 32-bit and both counted from one; `0:0` stands for a node
that was written without a position.
-/

namespace StackScript

/-- A line and a column. -/
structure Position where
  line : UInt32 := 0
  column : UInt32 := 0
deriving DecidableEq, Inhabited

/-- The text `line:column`. -/
def Position.text (p : Position) : String :=
  toString p.line.toNat ++ ":" ++ toString p.column.toNat

end StackScript
