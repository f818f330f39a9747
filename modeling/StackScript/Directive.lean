import StackScript.CompileError

set_option autoImplicit false

/-!
# Directives and sinks

Lowering a program asks for instructions to be written, and for labels to be created, bound to the
place reached so far, and branched to. Whoever serves these requests is a `Sink`. It may refuse to
bind a label, and to end. A `Directive` is one request, written down.
-/

namespace StackScript

/-- One thing that lowering asks for. -/
inductive Directive
  | emit (i : Instruction)
  | newLabel (label : Label)
  | bind (label : Label)
  | branchIfFalse (label : Label)
  | branch (label : Label)
deriving DecidableEq, Inhabited

/-- A consumer of what lowering asks for, with states in `σ`, that ends in a result of type `ω`. -/
structure Sink (σ ω : Type) where
  start : σ
  emit : Instruction → σ → σ
  newLabel : σ → Label × σ
  bind : Label → σ → Except InternalError Unit × σ
  branchIfFalse : Label → σ → σ
  branch : Label → σ → σ
  finish : Nat → σ → Except InternalError ω

end StackScript
