import StackScript.Directive
import StackScript.Program.Basic
import StackScript.Program.Literal
import StackScript.Scope

set_option autoImplicit false

/-!
# Lowering programs into a sink

Lowering walks a program once and talks to a sink. An expression leaves exactly one boxed value on
the stack; operands and arguments are evaluated from left to right, and all of them are. A statement
leaves the stack as it found it. A block runs in a scope of its own. The first error ends the walk,
also if it is the sink that refuses to bind a label; what the library has been asked for until then
is kept.

The shapes of the control statements, with the labels at the left margin:

```
if c { b }            while c { b }         switch c { case v { b } default { d } }

                      loop:
  c                     c                     c
  ToBool                ToBool                StoreLocal t
  branch-false after    branch-false after    v, LoadLocal t, Eq, ToBool
  b                     b                     branch-false skip
after:                  branch loop           b, branch end
                      after:                skip:
                                              d, branch end
                                            end:
```
-/

namespace StackScript

namespace Lowering

/-- What lowering carries along: the scope, the operations resolved and the state of its sink. -/
structure State (σ : Type) where
  scope : Scope
  resolver : Resolver
  sink : σ

/-- A part of the walk. An error keeps the state it happened in. -/
abbrev Lower (σ α : Type) : Type := EStateM CompileError (State σ) α

variable {σ ω : Type}

/-- Before anything is lowered. -/
def State.start (sink : Sink σ ω) : State σ := ⟨{}, {}, sink.start⟩

/-! ## Single actions -/

/-- Hands the sink something that it cannot refuse. -/
def hand (change : σ → σ) : Lower σ Unit := fun ⟨scope, resolver, s⟩ =>
  .ok () ⟨scope, resolver, change s⟩

/-- Writes an instruction. -/
def emit (sink : Sink σ ω) (i : Instruction) : Lower σ Unit := hand (sink.emit i)

/-- Writes a branch that is taken on a false truth value. -/
def branchIfFalse (sink : Sink σ ω) (label : Label) : Lower σ Unit :=
  hand (sink.branchIfFalse label)

/-- Writes a branch that is always taken. -/
def branch (sink : Sink σ ω) (label : Label) : Lower σ Unit := hand (sink.branch label)

/-- Creates a label. -/
def newLabel (sink : Sink σ ω) : Lower σ Label := fun ⟨scope, resolver, s⟩ =>
  match sink.newLabel s with
  | (label, s) => .ok label ⟨scope, resolver, s⟩

/-- Binds a label, unless the sink refuses. -/
def bindLabel (sink : Sink σ ω) (label : Label) : Lower σ Unit := fun ⟨scope, resolver, s⟩ =>
  match sink.bind label s with
  | (.ok _, s) => .ok () ⟨scope, resolver, s⟩
  | (.error e, s) => .error (.internal e) ⟨scope, resolver, s⟩

/-- Stops the walk at a mistake. -/
def mistake {α : Type} (position : Position) (m : Mistake) : Lower σ α :=
  throw (.diagnosed ⟨position, m⟩)

/-- Applies an action of the scope that allocates a slot. -/
def allocate (action : Scope → Except InternalError Slot × Scope) : Lower σ Slot :=
  fun ⟨scope, resolver, s⟩ =>
    match action scope with
    | (.ok slot, scope) => .ok slot ⟨scope, resolver, s⟩
    | (.error e, scope) => .error (.internal e) ⟨scope, resolver, s⟩

/-- Changes the scope. -/
def rescope (change : Scope → Scope) : Lower σ Unit := fun ⟨scope, resolver, s⟩ =>
  .ok () ⟨change scope, resolver, s⟩

/-- The slot of a name that must be visible. -/
def slotOf (name : String) (position : Position) : Lower σ Slot := fun state =>
  match state.scope.resolve? name with
  | some slot => .ok slot state
  | none => .error (.diagnosed ⟨position, .unknownVariable name⟩) state

/-- The entry point of an operation. -/
def entryOf (library : Library) (op : Operation) : Lower σ EntryPoint :=
  fun ⟨scope, resolver, s⟩ =>
    match resolver.resolve library op with
    | (some entry, resolver) => .ok entry ⟨scope, resolver, s⟩
    | (none, resolver) =>
      .error (.internal (.unresolvedOperation op.name)) ⟨scope, resolver, s⟩

/-- Writes the call of an operation. -/
def operate (sink : Sink σ ω) (library : Library) (op : Operation) : Lower σ Unit := do
  let entry ← entryOf library op
  emit sink (.callRuntime entry)

/-- A number as a 16-bit operand, one of `count` numbers of a kind. -/
def operand16 (what : String) (count n : Nat) : Lower σ UInt16 :=
  if n < 65536 then pure n.toUInt16 else throw (.internal (.tooManyOperands what count))

/-! ## Expressions -/

mutual

/-- Lowers an expression. A member access is refused without a look at its object. -/
def expr (sink : Sink σ ω) (library : Library) : Expr → Lower σ Unit
  | .binary left operator right position => do
    expr sink library left
    expr sink library right
    match Operation.ofOperator? operator with
    | some op => operate sink library op
    | none => mistake position (.unknownOperator operator)
  | .call callee arguments _ => do
    expr sink library callee
    let count ← operand16 "arguments" arguments.length arguments.length
    emit sink (.newArgs count)
    exprs sink library arguments.length 0 arguments
    operate sink library .call
  | .parens inner _ => expr sink library inner
  | .number literal position =>
    match Literal.parse? literal with
    | some n => do
      emit sink (.loadInt n)
      emit sink .boxInt
    | none => mistake position (.numberFormat literal)
  | .identifier name position => do
    let slot ← slotOf name position
    emit sink (.loadLocal slot)
  | .member _ _ position => mistake position (.unsupported "member access")

/-- Lowers arguments from a given index on, out of `total`. -/
def exprs (sink : Sink σ ω) (library : Library) (total index : Nat) : List Expr → Lower σ Unit
  | [] => pure ()
  | argument :: rest => do
    let n ← operand16 "arguments" total index
    expr sink library argument
    emit sink (.storeArg n)
    exprs sink library total (index + 1) rest

end

/-- Lowers a condition to a truth value on the stack. -/
def condition (sink : Sink σ ω) (library : Library) (e : Expr) : Lower σ Unit := do
  expr sink library e
  operate sink library .toBool

/-! ## Statements -/

mutual

/-- Lowers a statement. -/
def stmt (sink : Sink σ ω) (library : Library) : Stmt → Lower σ Unit
  | .expression value _ => do
    expr sink library value
    emit sink .pop
  | .declare name value _ => do
    expr sink library value
    let slot ← allocate (Scope.declare name)
    emit sink (.storeLocal slot)
  | .assign name value position => do
    let slot ← slotOf name position
    expr sink library value
    emit sink (.storeLocal slot)
  | .ifThen test body _ => do
    condition sink library test
    let after ← newLabel sink
    branchIfFalse sink after
    rescope Scope.enter
    stmts sink library body
    rescope Scope.exit
    bindLabel sink after
  | .whileDo test body _ => do
    let loop ← newLabel sink
    let after ← newLabel sink
    bindLabel sink loop
    condition sink library test
    branchIfFalse sink after
    rescope Scope.enter
    stmts sink library body
    rescope Scope.exit
    branch sink loop
    bindLabel sink after
  | .switch subject cases _ => do
    expr sink library subject
    let slot ← allocate Scope.fresh
    emit sink (.storeLocal slot)
    let done ← newLabel sink
    arms sink library slot done cases
    bindLabel sink done

/-- Lowers statements in order. -/
def stmts (sink : Sink σ ω) (library : Library) : List Stmt → Lower σ Unit
  | [] => pure ()
  | first :: rest => do
    stmt sink library first
    stmts sink library rest

/-- Lowers an arm of a switch whose subject is in `slot` and which ends at `done`. -/
def arm (sink : Sink σ ω) (library : Library) (slot : Slot) (done : Label) : Arm → Lower σ Unit
  | .case value body => do
    expr sink library value
    emit sink (.loadLocal slot)
    operate sink library .eq
    operate sink library .toBool
    let skip ← newLabel sink
    branchIfFalse sink skip
    rescope Scope.enter
    stmts sink library body
    rescope Scope.exit
    branch sink done
    bindLabel sink skip
  | .otherwise body => do
    rescope Scope.enter
    stmts sink library body
    rescope Scope.exit
    branch sink done

/-- Lowers arms in order. -/
def arms (sink : Sink σ ω) (library : Library) (slot : Slot) (done : Label) :
    List Arm → Lower σ Unit
  | [] => pure ()
  | first :: rest => do
    arm sink library slot done first
    arms sink library slot done rest

end

/-! ## Programs -/

/-- Installs the builtins from a given index on, out of `total`: each is loaded into a slot of its
own, under its name. -/
def builtins (sink : Sink σ ω) (total index : Nat) : List String → Lower σ Unit
  | [] => pure ()
  | name :: rest => do
    let n ← operand16 "builtins" total index
    let slot ← allocate (Scope.declare name)
    emit sink (.loadBuiltin n)
    emit sink (.storeLocal slot)
    builtins sink total (index + 1) rest

/-- Lowers a whole program: builtins, statements and the final return. -/
def program (sink : Sink σ ω) (library : Library) (globals : List String)
    (statements : List Stmt) : Lower σ Unit := do
  builtins sink globals.length 0 globals
  stmts sink library statements
  emit sink .ret

end Lowering

/-- What comes of a compilation: the names its library was asked for, in order, and the result. -/
structure Compilation (ω : Type) where
  lookups : Array String
  result : Except CompileError ω

/-- Compiles a program into a sink, over a library and global names. -/
def Program.compileInto {σ ω : Type} (sink : Sink σ ω) (library : Library) (globals : List String)
    (p : Program) : Compilation ω :=
  match Lowering.program sink library globals p.statements (.start sink) with
  | .ok _ ⟨scope, resolver, s⟩ =>
    ⟨resolver.asked, (sink.finish scope.slotCount s).mapError .internal⟩
  | .error e ⟨_, resolver, _⟩ => ⟨resolver.asked, .error e⟩

end StackScript
