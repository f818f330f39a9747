import StackScript.Directive

set_option autoImplicit false

/-!
# A sink that keeps a log

The recorder writes down every call it receives, in order. It can be told to refuse one of the
binds, counted from zero, as if that label were already bound.
-/

namespace StackScript

/-- A call that a recorder has received: a directive, or the end with the number of local slots. -/
inductive Recorder.Entry
  | directive (d : Directive)
  | finish (localCount : Nat)
deriving DecidableEq, Inhabited

/-- The printed form of a call. -/
def Recorder.Entry.text : Recorder.Entry → String
  | directive (.emit i) => i.text
  | directive (.newLabel label) => "new " ++ label.text
  | directive (.bind label) => label.text ++ ":"
  | directive (.branchIfFalse label) => "brfalse " ++ label.text
  | directive (.branch label) => "br " ++ label.text
  | finish localCount => "finish " ++ toString localCount

/-- The calls received so far, and how many labels were created and bound. -/
structure Recorder where
  log : Array Recorder.Entry := #[]
  created : Nat := 0
  bound : Nat := 0

namespace Recorder

/-- Adds a directive to the log. -/
def note (d : Directive) : Recorder → Recorder
  | ⟨log, created, bound⟩ => ⟨log.push (.directive d), created, bound⟩

/-- Creates the next label. -/
def newLabel : Recorder → Label × Recorder
  | ⟨log, created, bound⟩ =>
    let label : Label := ⟨created.toUInt32⟩
    (label, ⟨log.push (.directive (.newLabel label)), created + 1, bound⟩)

/-- Binds a label, unless this is the bind to refuse. -/
def bind (refused : Option Nat) (label : Label) :
    Recorder → Except InternalError Unit × Recorder
  | ⟨log, created, bound⟩ =>
    if refused = some bound then (.error (.labelRebound label), ⟨log, created, bound⟩)
    else (.ok (), ⟨log.push (.directive (.bind label)), created, bound + 1⟩)

/-- The recorder as a sink, whose result is the log. -/
def sink (refused : Option Nat) : Sink Recorder (Array Entry) where
  start := {}
  emit i := note (.emit i)
  newLabel := newLabel
  bind := bind refused
  branchIfFalse label := note (.branchIfFalse label)
  branch label := note (.branch label)
  finish localCount recorder := .ok (recorder.log.push (.finish localCount))

end Recorder

end StackScript
