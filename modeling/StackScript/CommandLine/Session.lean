import StackScript.CommandLine.Files
import StackScript.CommandLine.Options
import StackScript.Compile
import StackScript.Machine
import StackScript.Program.Decode
import StackScript.SourceText

set_option autoImplicit false

/-!
# Command-line sessions

A session loads all its files and stops at the first one that cannot be read or decoded. Otherwise
it compiles them all, and each file is then a `Job` of its own: its code is listed and run, or its
compile error reported, as the options say.

What a session does outside itself goes through a `World`, and the session is written for any world:
the program runs it in the real one. `World.recording` is a world of given files, in which all that
is printed is kept. A run without a step limit may not end, so loops have a bound there, and a
session that needs more has no transcript.
-/

namespace StackScript.CommandLine

/-! ## Worlds -/

/-- What a session needs of its surroundings, as actions in `m`. A loop repeats an action on a state
until it gives a result. What the decoder has to say about a text that is not a program is also left
to the world. -/
structure World (m : Type → Type) where
  read : String → m Content
  print : String → m Unit
  printError : String → m Unit
  loop : {α β : Type} → (α → m (β ⊕ α)) → α → m β
  explain : String → String

/-- What has been printed. -/
structure Printed where
  stdout : String := ""
  stderr : String := ""
deriving DecidableEq, Inhabited

/-- Actions that add to what has been printed. They fail where a loop exceeds its bound. -/
abbrev Recording : Type → Type := StateT Printed Option

/-- Repeats an action, for a number of rounds at most. -/
def Recording.loop {α β : Type} (body : α → Recording (β ⊕ α)) : Nat → α → Recording β
  | 0, _ => failure
  | rounds + 1, a => do
    match ← body a with
    | .inl b => return b
    | .inr a => loop body rounds a

/-- Why a file gave no program. -/
inductive LoadError
  | unreadable (path : String) (error : ReadError)
  | invalid (path cause : String)
deriving DecidableEq, Inhabited

/-- The wording of a load error: what was tried, and what came of it. -/
def LoadError.message : LoadError → String
  | unreadable path e => "failed to read '" ++ path ++ "': " ++ e.message
  | invalid path cause => "'" ++ path ++ "' is not a valid program: " ++ cause

/-- The program in the content of a file. -/
def decode (explain : String → String) (path : String) (content : Content) :
    Except LoadError Program :=
  match content.text with
  | .error e => .error (.unreadable path e)
  | .ok text =>
    match Program.ofText? text with
    | some p => .ok p
    | none => .error (.invalid path (explain text))

section

variable {m : Type → Type} [Monad m] (world : World m)

/-- Loads the program in a file. -/
def World.load (path : String) : ExceptT LoadError m Program := do
  let content ← world.read path
  ExceptT.mk (return decode world.explain path content)

/-! ## Reports -/

/-- Text in bold and in a colour. -/
def coloured (code text : String) : String :=
  "\x1b[1m\x1b[" ++ code ++ "m" ++ text ++ "\x1b[39m\x1b[0m"

/-- One report: a title in red, and the matter. -/
def report (title matter : String) : String := coloured "31" title ++ ": " ++ matter ++ "\n"

/-- Reports a load error. -/
def World.loadError (e : LoadError) : m Unit := world.printError (report "Error" e.message)

/-- Reports a compile error. A mistake is shown in the program's source if it names one; a source
that cannot be read is only named. -/
def World.compileError (path : String) (p : Program) (e : CompileError) : m Unit := do
  match e.diagnostic?, p.source with
  | some d, some source =>
    match (← world.read source).text with
    | .ok text => world.printError (report "Compile error" (SourceText.render ⟨source, text⟩ d))
    | .error _ => world.printError (report "Compile error" (source ++ ": " ++ d.message))
  | _, _ => world.printError (report "Compile error" (path ++ ": " ++ e.message))

/-- Reports a run error. -/
def World.runError (path : String) (e : RunError) : m Unit :=
  world.printError (report "Runtime error" (path ++ ": " ++ e.message))

/-! ## Runs -/

/-- The builtins that the options leave. -/
def Options.builtins (o : Options) : BuiltinTable :=
  if o.noBuiltins then .empty else .standard

/-- The host that jobs run on. -/
def Options.host (o : Options) : Machine.Host Unit :=
  ⟨Library.standard.operation, o.builtins, Natives.standard⟩

/-- A run on its way: where it is, how many steps its limit leaves, and how many lines of its output
have been printed. -/
structure Run where
  state : Machine.State Unit
  left : Option Nat
  printed : Nat := 0

/-- The run of a chunk, at its start. -/
def Run.start (o : Options) (chunk : Chunk) : Run where
  state := .start chunk { state := () }
  left := o.maxSteps

/-- How many steps a run makes between two looks at its output. -/
def slice : Nat := 4096

/-- Lines of text, each with its line feed. -/
def unlines (lines : Array String) : String := String.join (lines.toList.map (· ++ "\n"))

/-- Prints the lines of a console from a number on. -/
def World.echo (printed : Nat) (console : Console Unit) : m Unit :=
  world.print (unlines (console.output.extract printed console.output.size))

/-- Keeps a run going for some steps and prints its lines. It ends by itself or at its limit. -/
def World.advance (o : Options) (chunk : Chunk) (run : Run) : m (Except RunError Unit ⊕ Run) := do
  let steps := min slice (run.left.getD slice)
  match Machine.runFor o.host chunk.code steps run.state with
  | .stopped outcome =>
    world.echo run.printed outcome.console
    return .inl outcome.result
  | .running state =>
    world.echo run.printed state.console
    match run.left.map (· - steps) with
    | some 0 =>
      if state.ip < chunk.code.size then return .inl (.error (.stepLimit (o.maxSteps.getD 0)))
      else return .inl (.ok ())
    | left => return .inr ⟨state, left, state.console.output.size⟩

/-- Runs a chunk to its end and prints its lines as they come. -/
def World.execute (o : Options) (chunk : Chunk) : m (Except RunError Unit) :=
  world.loop (world.advance o chunk) (.start o chunk)

/-! ## Jobs -/

/-- A file whose program has been compiled. -/
structure Job where
  path : String
  program : Program
  result : Except CompileError Chunk

/-- Whether listings are printed. -/
def Options.lists (o : Options) : Bool := o.disassemble || !o.run

/-- A listing, behind a header line if there is more than one file. -/
def listing (o : Options) (path : String) (chunk : Chunk) : String :=
  let header :=
    if o.files.length > 1 then coloured "36" ("== " ++ path ++ " ==") ++ "\n" else ""
  header ++ chunk.listing

/-- Prints the listing of a file, if listings are printed. -/
def World.list (o : Options) (path : String) (chunk : Chunk) : m Unit :=
  if o.lists then world.print (listing o path chunk) else return ()

/-- Runs the code of a file, if it is to be run, and says whether that went well. -/
def World.run (o : Options) (path : String) (chunk : Chunk) : m Bool := do
  if o.run then
    match ← world.execute o chunk with
    | .ok () => return true
    | .error e =>
      world.runError path e
      return false
  else return true

/-- Does a job, and says whether it went well. -/
def World.perform (o : Options) (job : Job) : m Bool := do
  match job.result with
  | .error e =>
    world.compileError job.path job.program e
    return false
  | .ok chunk =>
    world.list o job.path chunk
    world.run o job.path chunk

/-! ## Sessions -/

/-- Compiles the programs of a session. -/
def Options.compileAll (o : Options) (programs : List Program) :
    List (Except CompileError Chunk) :=
  if o.noBuiltins then programs.map (Program.compile .standard .empty)
  else Program.compileAll programs

/-- The jobs of a session, in the order of its files. -/
def Options.jobs (o : Options) (programs : List Program) : List Job :=
  ((o.files.zip programs).zip (o.compileAll programs)).map fun ((path, program), result) =>
    ⟨path, program, result⟩

/-- Does jobs one after the other, and says whether they all went well. -/
def World.performAll (o : Options) (jobs : List Job) : m Bool :=
  jobs.foldlM (fun ok job => return (← world.perform o job) && ok) true

/-- A session. The result is its exit code. -/
def World.session (o : Options) : m UInt32 := do
  match ← (o.files.mapM world.load).run with
  | .error e =>
    world.loadError e
    return 1
  | .ok programs => return if ← world.performAll o (o.jobs programs) then 0 else 1

end

/-- The answer to a request for the version. -/
def versionText : String := "quire 0.1.0\n"

/-- The answer to a request for help. -/
def helpText : String :=
  unlines #[
    "Usage: quire [OPTIONS] <FILES>...",
    "",
    "Arguments:",
    "  <FILES>...  JSON-encoded programs to compile",
    "",
    "Options:",
    "  -r, --run            Execute each program on the reference VM",
    "  -d, --disassemble    Print the disassembly (default unless --run)",
    "      --no-builtins    Compile without the standard builtin globals",
    "      --max-steps <N>  Abort execution after this many instructions",
    "  -v, --verbose        Enable debug logging",
    "  -h, --help           Print help",
    "  -V, --version        Print version"]

end StackScript.CommandLine
