import StackScript.Assembler
import StackScript.Builtins
import StackScript.Lowering

set_option autoImplicit false

/-!
# Compiling programs

A program compiles to a chunk: it is lowered into the assembler. Only the names of the builtins
matter to compilation.
-/

namespace StackScript

/-- Compiles a program over a library, with the names of a builtin table as globals. -/
def Program.compile (library : Library) (builtins : BuiltinTable) (p : Program) :
    Except CompileError Chunk :=
  (p.compileInto Assembler.sink library builtins.names).result

/-- Compiles programs on their own, each with the standard library and the standard builtins. -/
def Program.compileAll (programs : List Program) : List (Except CompileError Chunk) :=
  programs.map (Program.compile .standard .standard)

end StackScript
