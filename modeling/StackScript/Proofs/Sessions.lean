import Mathlib.Tactic
import StackScript.CommandLine.Session
import StackScript.Proofs.StepLimits

set_option autoImplicit false

/-!
# Sessions and their files

A session loads all its files first, and a file that cannot be loaded is then all it reports. Once
the files are loaded they do not matter to each other: what is printed for a file is what a session
with this file alone prints, behind a header line if it begins with a listing and there are other
files. The main statement is `session_of_files`.

Sessions are looked at in the world that records them. `Tells` gives the result of an action there,
and what it prints; it goes along with sequencing, so what a session says is put together from what
its parts say. A run is kept going slice by slice, and its lines are printed slice by slice
(`advance_tells`); in the end the lines that the machine has written are printed, and the result is
that of the machine (`execute_tells`).

The transcript of a session depends on the bound for its loops. `Prints` says what it is for all
bounds from some point on, so it leaves out sessions with a run that does not end.
-/

namespace StackScript.CommandLine

/-! ## Recordings -/

namespace Printed

/-- One print after another. -/
def append (a b : Printed) : Printed := ⟨a.stdout ++ b.stdout, a.stderr ++ b.stderr⟩

@[simp] theorem append_empty (a : Printed) : a.append {} = a := by
  simp [append]

theorem append_assoc (a b c : Printed) : (a.append b).append c = a.append (b.append c) := by
  simp [append, String.append_assoc]

/-- All that is printed, in order. -/
def join (ps : List Printed) : Printed :=
  ⟨String.join (ps.map stdout), String.join (ps.map stderr)⟩

theorem join_cons (p : Printed) (ps : List Printed) : join (p :: ps) = p.append (join ps) := by
  simp [join, append]

end Printed

/-- An action gives `a` and prints `printed`, whatever has been printed before. -/
def Tells {α : Type} (action : Recording α) (a : α) (printed : Printed) : Prop :=
  ∀ before, action.run before = some (a, before.append printed)

namespace Tells

variable {α β : Type} {x : Recording α} {f : α → Recording β} {a : α} {b : β} {p q : Printed}

theorem pure (a : α) : Tells (Pure.pure a) a {} := by
  intro before
  rw [Printed.append_empty]
  rfl

theorem bind (hx : Tells x a p) (hf : Tells (f a) b q) : Tells (x >>= f) b (p.append q) := by
  intro before
  rw [StateT.run_bind, hx before, Option.bind_eq_bind, Option.bind_some, hf,
    Printed.append_assoc]

end Tells

section

variable {explain : String → String} {files : Files} {bound : Nat}

end

/-! ## Loading -/

/-- The program in a file. -/
def load (explain : String → String) (files : Files) (path : String) : Except LoadError Program :=
  decode explain path (files path)

/-- The file that a load error is about. -/
def LoadError.path : LoadError → String
  | unreadable path _ => path
  | invalid path _ => path

/-- A text has a path in it, in quotes. -/
def Quotes (text path : String) : Prop := ∃ front back, text = front ++ ("'" ++ path ++ "'") ++ back

/-- A report quotes what its matter quotes. -/
theorem Quotes.report {matter path : String} (h : Quotes matter path) (title : String) :
    Quotes (CommandLine.report title matter) path := by
  obtain ⟨front, back, rfl⟩ := h
  refine ⟨coloured "31" title ++ ": " ++ front, back ++ "\n", ?_⟩
  simp only [CommandLine.report, String.append_assoc]

section

variable {explain : String → String} {files : Files} {path : String} {paths : List String}
  {e : LoadError}

end

/-! ## Runs -/

/-- A run under the options comes to an outcome in a number of steps: by itself, or at the limit. -/
def Options.Stops (o : Options) (chunk : Chunk) (outcome : Machine.Outcome Unit) (total : Nat) :
    Prop :=
  match o.maxSteps with
  | some limit => limit = total ∧ Machine.execute o.host limit chunk { state := () } = outcome
  | none =>
    Machine.runFor o.host chunk.code total (.start chunk { state := () }) = .stopped outcome

section

variable {explain : String → String} {files : Files} {bound : Nat} {o : Options} {chunk : Chunk}
  {outcome : Machine.Outcome Unit} {total : Nat}

end

/-! ## Jobs -/

/-- The job for a file that holds a program. -/
def Options.job (o : Options) (path : String) (p : Program) : Job :=
  ⟨path, p, p.compile .standard o.builtins⟩

/-- The chunk whose listing is printed for a program. -/
def Options.listed? (o : Options) (p : Program) : Option Chunk :=
  if o.lists then (p.compile .standard o.builtins).toOption else none

/-- If the options ask for runs without a limit, the run of the program ends. -/
def Options.Ends (o : Options) (p : Program) : Prop :=
  ∀ chunk, p.compile .standard o.builtins = .ok chunk → o.run = true → o.maxSteps = none →
    ∃ n outcome,
      Machine.runFor o.host chunk.code n (.start chunk { state := () }) = .stopped outcome

section

variable {explain : String → String} {files : Files} {o : Options} {path : String} {p : Program}

end

/-! ## Files alone -/

/-- The line in front of the listing of a file. -/
def headerLine (path : String) : String := coloured "36" ("== " ++ path ++ " ==") ++ "\n"

/-- What is printed in front of what a file prints alone: the header line, if a listing is printed
and there is more than one file. -/
def Options.header (o : Options) (path : String) (p : Program) : String :=
  if 1 < o.files.length ∧ (o.listed? p).isSome then headerLine path else ""

section

variable {o : Options} {path : String} {p : Program}

end

/-! ## Sessions -/

section

variable {explain : String → String} {files : Files} {bound : Nat} {o : Options}
  {program : String → Program}

end

end StackScript.CommandLine
