import StackScript.Value

set_option autoImplicit false

/-!
# The console and native functions

What native functions can see and change is a `Console`: the lines written so far and a state that
belongs to the host. `Natives` gives every handle its behaviour, as a function of the arguments and
the console. The one native function of the language itself is `print`.
-/

namespace StackScript

/-- The lines written so far, and the host's own state. -/
structure Console (σ : Type) where
  output : Array String := #[]
  state : σ
deriving Inhabited

/-- The behaviour of native functions: what a call returns and what it leaves of the console. -/
abbrev Natives (σ : Type) : Type :=
  Native → Array Value → Console σ → Except RunError Value × Console σ

section

variable {σ : Type}

/-- Adds a line. -/
def Console.write (line : String) (console : Console σ) : Console σ :=
  { console with output := console.output.push line }

/-- Writes the display texts of the arguments on one line, with blanks between them. -/
def Console.print (arguments : Array Value) (console : Console σ) :
    Except RunError Value × Console σ :=
  (.ok .null, console.write (" ".intercalate (arguments.toList.map Value.display)))

/-- The handle of the language's own `print`. -/
def Native.print : Native := ⟨0, "print"⟩

/-- The natives of a host that offers `print` alone. -/
def Natives.standard : Natives σ := fun f arguments console =>
  if f = Native.print then console.print arguments
  else (.error (.native f.name "no such function"), console)

/-- Calls a value. Only native functions can be called. -/
def Value.call (natives : Natives σ) (callee : Value) (arguments : Array Value)
    (console : Console σ) : Except RunError Value × Console σ :=
  match callee with
  | .native f => natives f arguments console
  | other => (.error (.notCallable other.display), console)

end

end StackScript
