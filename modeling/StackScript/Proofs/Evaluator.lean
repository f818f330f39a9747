import StackScript.Builtins
import StackScript.Program.Basic
import StackScript.Program.Literal
import StackScript.Proofs.Frames

set_option autoImplicit false

/-!
# Direct evaluation of programs

The meaning of a program without code: a recursion on the tree over an environment, which is a stack
of frames from names to values. The bottom frame holds the builtins and the declarations outside of
blocks. Operands, callees and arguments are evaluated from left to right, and all of them are. A
block runs in a frame of its own, which is gone after it.

Only a loop can go on forever. An evaluation is told how many rounds it may look at in any one loop,
and is `exhausted` by a loop that takes more; a program diverges if every number of rounds exhausts
its evaluation.
-/

namespace StackScript

namespace Evaluator

/-- Why an evaluation did not reach its end. -/
inductive Stop
  /-- An operation or a native function has failed. -/
  | failed (error : RunError)
  /-- A part of the program has no meaning: a name without a binding, an operator, literal or member
  access that the language does not have. -/
  | meaningless
  /-- A loop has taken more rounds than the evaluation looks at. -/
  | exhausted
deriving DecidableEq

/-- An evaluation. What stops it keeps the console. -/
abbrev Eval (σ α : Type) : Type := EStateM Stop (Console σ) α

section

variable {σ : Type}

/-- The result of an operation. -/
def ofResult {α : Type} : Except RunError α → Eval σ α
  | .ok a => pure a
  | .error e => throw (.failed e)

/-- The result of something that has to exist. -/
def ofOption {α : Type} : Option α → Eval σ α
  | some a => pure a
  | none => throw .meaningless

/-- Calls a value. -/
def invoke (natives : Natives σ) (callee : Value) (arguments : List Value) : Eval σ Value :=
  fun console =>
    match callee.call natives arguments.toArray console with
    | (.ok v, console) => .ok v console
    | (.error e, console) => .error (.failed e) console

/-! ## Expressions -/

mutual

/-- Evaluates an expression, where names have the given values. -/
def expr (natives : Natives σ) (values : String → Option Value) : Expr → Eval σ Value
  | .binary left text right _ => do
    let l ← expr natives values left
    let r ← expr natives values right
    let op ← ofOption (Operation.ofOperator? text)
    ofResult (op.apply l r)
  | .call callee arguments _ => do
    let f ← expr natives values callee
    let vs ← exprs natives values arguments
    invoke natives f vs
  | .parens inner _ => expr natives values inner
  | .number text _ => do
    let n ← ofOption (Literal.parse? text)
    return .int n
  | .identifier name _ => ofOption (values name)
  | .member _ _ _ => throw .meaningless

/-- Evaluates arguments in order. -/
def exprs (natives : Natives σ) (values : String → Option Value) : List Expr → Eval σ (List Value)
  | [] => pure []
  | argument :: rest => do
    let v ← expr natives values argument
    let vs ← exprs natives values rest
    return v :: vs

end

/-! ## Statements -/

/-- Repeats a round until it has no next environment, for a number of rounds at most. -/
def loop (round : Frames Value → Eval σ (Option (Frames Value))) :
    Nat → Frames Value → Eval σ (Frames Value)
  | 0, _ => throw .exhausted
  | n + 1, env => do
    match ← round env with
    | some env => loop round n env
    | none => return env

mutual

/-- Evaluates a statement, with at most `rounds` rounds in each loop. -/
def stmt (natives : Natives σ) (rounds : Nat) (env : Frames Value) :
    Stmt → Eval σ (Frames Value)
  | .expression value _ => do
    let _ ← expr natives env.lookup? value
    return env
  | .declare name value _ => do
    let v ← expr natives env.lookup? value
    return env.insert name v
  | .assign name value _ => do
    let v ← expr natives env.lookup? value
    let _ ← ofOption (env.lookup? name)
    return env.assign name v
  | .ifThen test body _ => do
    let c ← expr natives env.lookup? test
    if c.truth then
      let inner ← stmts natives rounds env.push body
      return inner.pop
    else return env
  | .whileDo test body _ =>
    loop (fun env => do
      let c ← expr natives env.lookup? test
      if c.truth then
        let inner ← stmts natives rounds env.push body
        return some inner.pop
      else return none) rounds env
  | .switch subject cases _ => do
    let v ← expr natives env.lookup? subject
    arms natives rounds env v cases

/-- Evaluates statements in order. -/
def stmts (natives : Natives σ) (rounds : Nat) (env : Frames Value) :
    List Stmt → Eval σ (Frames Value)
  | [] => pure env
  | first :: rest => do
    let env ← stmt natives rounds env first
    stmts natives rounds env rest

/-- Tries the arms of a switch in order. The first one taken ends the switch. -/
def arms (natives : Natives σ) (rounds : Nat) (env : Frames Value) (subject : Value) :
    List Arm → Eval σ (Frames Value)
  | [] => pure env
  | .case value body :: rest => do
    let v ← expr natives env.lookup? value
    let same ← ofResult (Operation.eq.apply v subject)
    if same = .bool true then
      let inner ← stmts natives rounds env.push body
      return inner.pop
    else arms natives rounds env subject rest
  | .otherwise body :: _ => do
    let inner ← stmts natives rounds env.push body
    return inner.pop

end

/-! ## Programs -/

/-- The environment in which programs start. A later builtin hides an earlier one of its name. -/
def globals (table : BuiltinTable) : Frames Value :=
  table.entries.toList.foldl (fun env entry => env.insert entry.1 entry.2) {}

/-- Evaluates a program over the builtins of a table. -/
def program (natives : Natives σ) (table : BuiltinTable) (rounds : Nat) (p : Program) :
    Eval σ (Frames Value) :=
  stmts natives rounds (globals table) p.statements

end

end Evaluator

/-- What is seen of a run or of an evaluation: an end, with a result and a console, or none. -/
inductive Behaviour (σ : Type)
  | ends (result : Except RunError Unit) (console : Console σ)
  | diverges

/-- The evaluation of a program from a console shows a behaviour. -/
def Evaluator.Shows {σ : Type} (natives : Natives σ) (table : BuiltinTable) (p : Program)
    (console : Console σ) : Behaviour σ → Prop
  | .ends (.ok _) console' =>
    ∃ rounds env, program natives table rounds p console = .ok env console'
  | .ends (.error e) console' =>
    ∃ rounds, program natives table rounds p console = .error (.failed e) console'
  | .diverges =>
    ∀ rounds, ∃ console', program natives table rounds p console = .error .exhausted console'

end StackScript
