import Mathlib.Tactic
import StackScript.Compile
import StackScript.Proofs.Assembly
import StackScript.Proofs.ScopeRefinement

set_option autoImplicit false

/-!
# Renaming

The names of a program are its own affair: an injective map, applied to every name of the program
and of the builtin table, changes nothing in the chunk, and of the errors only the name in
`unknownVariable` (`Program.compile_rename`).

Lowering is run on both programs side by side, into any sink. Their scopes bind corresponding names
to the same slots and have recorded corresponding names as hidden (`Scope.Renamed`); the rest of
their states is equal, so the sink is told the same. `Lowering.Lockstep` says that two parts of the
walk keep it so.
-/

namespace StackScript

/-! ## Renamed programs -/

mutual

/-- An expression with its identifiers renamed. The name of a member is not one of them. -/
def Expr.rename (f : String → String) : Expr → Expr
  | .binary left operator right p => .binary (left.rename f) operator (right.rename f) p
  | .call callee arguments p => .call (callee.rename f) (Expr.renameAll f arguments) p
  | .parens inner p => .parens (inner.rename f) p
  | .number literal p => .number literal p
  | .identifier name p => .identifier (f name) p
  | .member object name p => .member (object.rename f) name p

/-- Renames the identifiers of each expression. -/
def Expr.renameAll (f : String → String) : List Expr → List Expr
  | [] => []
  | e :: es => e.rename f :: Expr.renameAll f es

end

mutual

/-- A statement with the names it reads, declares and assigns renamed. -/
def Stmt.rename (f : String → String) : Stmt → Stmt
  | .ifThen test body p => .ifThen (test.rename f) (Stmt.renameAll f body) p
  | .whileDo test body p => .whileDo (test.rename f) (Stmt.renameAll f body) p
  | .switch subject arms p => .switch (subject.rename f) (Arm.renameAll f arms) p
  | .expression value p => .expression (value.rename f) p
  | .declare name value p => .declare (f name) (value.rename f) p
  | .assign name value p => .assign (f name) (value.rename f) p

/-- Renames the names of each statement. -/
def Stmt.renameAll (f : String → String) : List Stmt → List Stmt
  | [] => []
  | s :: ss => s.rename f :: Stmt.renameAll f ss

/-- An arm of a switch with its names renamed. -/
def Arm.rename (f : String → String) : Arm → Arm
  | .case value body => .case (value.rename f) (Stmt.renameAll f body)
  | .otherwise body => .otherwise (Stmt.renameAll f body)

/-- Renames the names of each arm. -/
def Arm.renameAll (f : String → String) : List Arm → List Arm
  | [] => []
  | a :: as => a.rename f :: Arm.renameAll f as

end

/-- A program with its names renamed. -/
def Program.rename (f : String → String) (p : Program) : Program :=
  { p with statements := Stmt.renameAll f p.statements }

/-- A builtin table with its names renamed. -/
def BuiltinTable.rename (f : String → String) (table : BuiltinTable) : BuiltinTable :=
  ⟨table.entries.map fun entry => (f entry.1, entry.2)⟩

/-- A mistake in a renamed program. Operators and literals are not names. -/
def Mistake.rename (f : String → String) : Mistake → Mistake
  | unknownVariable name => unknownVariable (f name)
  | m => m

/-- An error of a renamed program. Its position stays. -/
def CompileError.rename (f : String → String) : CompileError → CompileError
  | diagnosed d => diagnosed { d with mistake := d.mistake.rename f }
  | internal e => internal e

variable {f : String → String}

theorem Expr.length_renameAll (es : List Expr) : (Expr.renameAll f es).length = es.length := by
  induction es with
  | nil => rfl
  | cons e es ih => simp only [Expr.renameAll, List.length_cons, ih]

theorem BuiltinTable.names_rename (table : BuiltinTable) :
    (table.rename f).names = table.names.map f := by
  simp [BuiltinTable.rename, BuiltinTable.names]

/-! ## Renamed scopes -/

namespace Scope

/-- Two frames hide the same slots under corresponding names. -/
structure Frame.Renamed (f : String → String) (frame frame' : Frame) : Prop where
  hidden : frame'.hidden = frame.hidden.map fun entry => (f entry.1, entry.2)
  seen : ∀ x, frame'.seen.contains (f x) = frame.seen.contains x

/-- Two tables bind corresponding names to the same slots. The second one may bind others too. -/
def TableRenamed (f : String → String) (table table' : Std.TreeMap String Slot) : Prop :=
  ∀ x, table'[f x]? = table[x]?

/-- Two scopes bind and hide the same slots under corresponding names. -/
structure Renamed (f : String → String) (scope scope' : Scope) : Prop where
  bindings : TableRenamed f scope.bindings scope'.bindings
  frames : List.Forall₂ (Frame.Renamed f) scope.frames scope'.frames
  slotCount : scope'.slotCount = scope.slotCount

section

variable (hf : Function.Injective f)
include hf

theorem TableRenamed.insert {table table' : Std.TreeMap String Slot}
    (h : TableRenamed f table table') (name : String) (slot : Slot) :
    TableRenamed f (table.insert name slot) (table'.insert (f name) slot) := by
  intro x
  rw [NameMap.getElem?_insert, NameMap.getElem?_insert, h x]
  simp only [hf.eq_iff]

theorem TableRenamed.restore {table table' : Std.TreeMap String Slot}
    (h : TableRenamed f table table') (name : String) (old : Option Slot) :
    TableRenamed f (restore table name old) (Scope.restore table' (f name) old) := by
  intro x
  rw [getElem?_restore, getElem?_restore, h x]
  simp only [hf.eq_iff]

theorem TableRenamed.undo (hidden : List (String × Option Slot))
    {table table' : Std.TreeMap String Slot} (h : TableRenamed f table table') :
    TableRenamed f (undo hidden table)
      (Scope.undo (hidden.map fun entry => (f entry.1, entry.2)) table') := by
  -- the tables correspond after each record, so they do so at the end
  induction hidden generalizing table table' with
  | nil => exact h
  | cons entry hidden ih =>
    obtain ⟨name, old⟩ := entry
    exact ih (h.restore hf name old)

namespace Renamed

variable {scope scope' : Scope}

theorem exit (h : scope.Renamed f scope') : scope.exit.Renamed f scope'.exit := by
  obtain ⟨bindings, frames, slotCount⟩ := scope
  obtain ⟨bindings', frames', slotCount'⟩ := scope'
  obtain ⟨hbindings, hframes, hcount⟩ := h
  cases hframes with
  | nil => exact ⟨hbindings, .nil, hcount⟩
  | @cons frame frame' frames frames' hframe hrest =>
    -- both tables take back the records of their frames, name by name
    refine ⟨?_, hrest, hcount⟩
    show TableRenamed f (undo frame.hidden bindings) (undo frame'.hidden bindings')
    rw [hframe.hidden]
    exact TableRenamed.undo hf frame.hidden hbindings

theorem bind (h : scope.Renamed f scope') (name : String) (slot : Slot) :
    (scope.bind name slot).Renamed f (scope'.bind (f name) slot) := by
  obtain ⟨bindings, frames, slotCount⟩ := scope
  obtain ⟨bindings', frames', slotCount'⟩ := scope'
  obtain ⟨hbindings, hframes, hcount⟩ := h
  have hinsert := TableRenamed.insert hf hbindings name slot
  cases hframes with
  | nil => exact ⟨hinsert, .nil, hcount⟩
  | @cons frame frame' frames frames' hframe hrest =>
    obtain ⟨hidden, seen⟩ := frame
    obtain ⟨hidden', seen'⟩ := frame'
    have hseen : seen'.contains (f name) = seen.contains name := hframe.seen name
    simp only [Scope.bind, hseen]
    split
    · exact ⟨hinsert, .cons hframe hrest, hcount⟩
    · -- the first declaration of the name in this block is recorded in both
      refine ⟨hinsert, .cons ⟨?_, ?_⟩ hrest, hcount⟩
      · show (f name, bindings'[f name]?) :: hidden' = _
        rw [List.map_cons, hbindings name]
        exact congrArg _ hframe.hidden
      · intro x
        have hx : seen'.contains (f x) = seen.contains x := hframe.seen x
        simp only [Std.TreeSet.contains_insert, hx, Std.compare_beq_eq_beq]
        simp only [beq_eq_decide, hf.eq_iff]

end Renamed

end

namespace Renamed

variable {scope scope' : Scope}

theorem empty : Scope.Renamed f {} {} := ⟨fun x => by simp, .nil, rfl⟩

theorem enter (h : scope.Renamed f scope') : scope.enter.Renamed f scope'.enter :=
  ⟨h.bindings, .cons ⟨rfl, fun x => by simp⟩ h.frames, h.slotCount⟩

theorem fresh (h : scope.Renamed f scope') :
    scope'.fresh.1 = scope.fresh.1 ∧ scope.fresh.2.Renamed f scope'.fresh.2 := by
  obtain ⟨bindings, frames, slotCount⟩ := scope
  obtain ⟨bindings', frames', slotCount'⟩ := scope'
  obtain ⟨hbindings, hframes, rfl⟩ := h
  simp only [Scope.fresh]
  split
  · exact ⟨rfl, hbindings, hframes, rfl⟩
  · exact ⟨rfl, hbindings, hframes, rfl⟩

theorem declare (h : scope.Renamed f scope') (hf : Function.Injective f) (name : String) :
    (scope'.declare (f name)).1 = (scope.declare name).1 ∧
      (scope.declare name).2.Renamed f (scope'.declare (f name)).2 := by
  obtain ⟨hanswer, hfresh⟩ := h.fresh
  simp only [Scope.declare]
  rcases hnext : scope.fresh with ⟨_ | slot, next⟩
  all_goals
    rcases hnext' : scope'.fresh with ⟨answer, next'⟩
    rw [hnext, hnext'] at hanswer hfresh
    obtain rfl := hanswer
  · exact ⟨rfl, hfresh⟩
  · exact ⟨rfl, bind hf hfresh name slot⟩

end Renamed

end Scope

/-! ## Lowering in lockstep -/

namespace Lowering

variable {σ ω : Type} {sink : Sink σ ω}

/-- Two states of lowering that differ in names only. -/
structure State.Renamed (f : String → String) (st st' : State σ) : Prop where
  scope : st.scope.Renamed f st'.scope
  resolver : st'.resolver = st.resolver
  sink : st'.sink = st.sink

/-- Two ends of a part of the walk: the same result, or corresponding errors. -/
inductive Agree (f : String → String) {α : Type} :
    EStateM.Result CompileError (State σ) α → EStateM.Result CompileError (State σ) α → Prop
  | ok {st st' : State σ} (a : α) (h : st.Renamed f st') : Agree f (.ok a st) (.ok a st')
  | error {st st' : State σ} (e : CompileError) (h : st.Renamed f st') :
      Agree f (.error e st) (.error (e.rename f) st')

/-- Two parts of the walk that go alike from states that differ in names only. -/
def Lockstep (f : String → String) {α : Type} (m m' : Lower σ α) : Prop :=
  ∀ st st', st.Renamed f st' → Agree f (m st) (m' st')

namespace Lockstep

variable {α β : Type}

theorem pure (a : α) : Lockstep f (Pure.pure a : Lower σ α) (Pure.pure a) := by
  intro st st' h
  exact .ok a h

theorem bind {m m' : Lower σ α} {k k' : α → Lower σ β} (hm : Lockstep f m m')
    (hk : ∀ a, Lockstep f (k a) (k' a)) : Lockstep f (m >>= k) (m' >>= k') := by
  intro st st' h
  have hfirst := hm st st' h
  generalize hrun : m st = first, hrun' : m' st' = first' at hfirst
  cases hfirst with
  | ok a hnext =>
    rw [run_bind_of_ok hrun, run_bind_of_ok hrun']
    exact hk a _ _ hnext
  | error e hnext =>
    rw [run_bind_of_error hrun, run_bind_of_error hrun']
    exact .error e hnext

theorem throw {e e' : CompileError} (he : e' = e.rename f) :
    Lockstep f (MonadExcept.throw e : Lower σ α) (MonadExcept.throw e') := by
  intro st st' h
  subst he
  exact .error e h

theorem mistake (position : Position) {m : Mistake} (hm : m.rename f = m) :
    Lockstep f (Lowering.mistake position m : Lower σ α) (Lowering.mistake position m) := by
  apply throw
  rw [CompileError.rename, hm]

theorem hand (change : σ → σ) : Lockstep f (hand change) (hand change) := by
  intro st st' h
  exact .ok () ⟨h.scope, h.resolver, congrArg change h.sink⟩

theorem emit (i : Instruction) : Lockstep f (emit sink i) (emit sink i) := hand _

theorem branchIfFalse (label : Label) :
    Lockstep f (branchIfFalse sink label) (branchIfFalse sink label) := hand _

theorem branch (label : Label) : Lockstep f (branch sink label) (branch sink label) := hand _

theorem newLabel : Lockstep f (newLabel sink) (newLabel sink) := by
  rintro ⟨scope, _, _⟩ ⟨scope', resolver, s⟩ ⟨hscope, rfl, rfl⟩
  exact .ok _ ⟨hscope, rfl, rfl⟩

theorem bindLabel (label : Label) : Lockstep f (bindLabel sink label) (bindLabel sink label) := by
  rintro ⟨scope, _, _⟩ ⟨scope', resolver, s⟩ ⟨hscope, rfl, rfl⟩
  simp only [Lowering.bindLabel]
  rcases sink.bind label s with ⟨_ | _, next⟩
  · exact .error _ ⟨hscope, rfl, rfl⟩
  · exact .ok () ⟨hscope, rfl, rfl⟩

theorem allocate {action action' : Scope → Except InternalError Slot × Scope}
    (haction : ∀ scope scope' : Scope, scope.Renamed f scope' →
      (action' scope').1 = (action scope).1 ∧ (action scope).2.Renamed f (action' scope').2) :
    Lockstep f (allocate action : Lower σ Slot) (allocate action') := by
  rintro ⟨scope, _, _⟩ ⟨scope', resolver, s⟩ ⟨hscope, rfl, rfl⟩
  obtain ⟨hanswer, hnext⟩ := haction scope scope' hscope
  simp only [Lowering.allocate]
  generalize action scope = done, action' scope' = done' at hanswer hnext
  obtain ⟨_ | slot, next⟩ := done
  all_goals
    obtain ⟨answer, next'⟩ := done'
    obtain rfl := hanswer
  · exact .error _ ⟨hnext, rfl, rfl⟩
  · exact .ok slot ⟨hnext, rfl, rfl⟩

theorem rescope {change : Scope → Scope}
    (hchange : ∀ scope scope' : Scope, scope.Renamed f scope' →
      (change scope).Renamed f (change scope')) :
    Lockstep f (rescope change : Lower σ Unit) (rescope change) := by
  rintro ⟨scope, _, _⟩ ⟨scope', resolver, s⟩ ⟨hscope, rfl, rfl⟩
  exact .ok () ⟨hchange scope scope' hscope, rfl, rfl⟩

theorem slotOf (name : String) (position : Position) :
    Lockstep f (slotOf name position : Lower σ Slot) (slotOf (f name) position) := by
  intro st st' h
  simp only [Lowering.slotOf, Scope.resolve?, h.scope.bindings name]
  -- the one place where a name gets into an error
  cases st.scope.bindings[name]? with
  | some slot => exact .ok slot h
  | none => exact .error (.diagnosed ⟨position, .unknownVariable name⟩) h

theorem operate (library : Library) (op : Operation) :
    Lockstep f (operate sink library op) (operate sink library op) := by
  apply bind
  · rintro ⟨scope, _, _⟩ ⟨scope', resolver, s⟩ ⟨hscope, rfl, rfl⟩
    simp only [entryOf]
    rcases resolver.resolve library op with ⟨_ | entry, resolver'⟩
    · exact .error _ ⟨hscope, rfl, rfl⟩
    · exact .ok entry ⟨hscope, rfl, rfl⟩
  · intro entry
    exact emit _

theorem operand16 (what : String) (count n : Nat) :
    Lockstep f (operand16 what count n : Lower σ UInt16) (operand16 what count n) := by
  unfold Lowering.operand16
  split
  · exact pure _
  · exact throw rfl

mutual

theorem expr (library : Library) : ∀ e : Expr,
    Lockstep f (Lowering.expr sink library e) (Lowering.expr sink library (e.rename f))
  | .binary left text right position => by
    rw [Expr.rename, Lowering.expr, Lowering.expr]
    refine bind (expr library left) fun _ => bind (expr library right) fun _ => ?_
    split
    · exact operate library _
    · exact mistake _ rfl
  | .call callee arguments position => by
    -- the number of arguments is an operand, and is the same
    rw [Expr.rename, Lowering.expr, Lowering.expr, Expr.length_renameAll]
    refine bind (expr library callee) fun _ => bind (operand16 _ _ _) fun count => ?_
    refine bind (emit _) fun _ => bind (exprs library _ 0 arguments) fun _ => ?_
    exact operate library .call
  | .parens inner position => by
    rw [Expr.rename, Lowering.expr, Lowering.expr]
    exact expr library inner
  | .number literal position => by
    rw [Expr.rename, Lowering.expr]
    split
    · exact bind (emit _) fun _ => emit _
    · exact mistake _ rfl
  | .identifier name position => by
    rw [Expr.rename, Lowering.expr, Lowering.expr]
    exact bind (slotOf name position) fun slot => emit _
  | .member object name position => by
    rw [Expr.rename, Lowering.expr, Lowering.expr]
    exact mistake _ rfl

theorem exprs (library : Library) (total : Nat) : ∀ (index : Nat) (es : List Expr),
    Lockstep f (Lowering.exprs sink library total index es)
      (Lowering.exprs sink library total index (Expr.renameAll f es))
  | index, [] => by
    rw [Expr.renameAll, Lowering.exprs]
    exact pure ()
  | index, argument :: rest => by
    rw [Expr.renameAll, Lowering.exprs, Lowering.exprs]
    refine bind (operand16 _ _ _) fun n => bind (expr library argument) fun _ => ?_
    exact bind (emit _) fun _ => exprs library total (index + 1) rest

end

theorem condition (library : Library) (test : Expr) :
    Lockstep f (condition sink library test) (condition sink library (test.rename f)) :=
  bind (expr library test) fun _ => operate library .toBool

theorem declare (hf : Function.Injective f) (name : String) :
    Lockstep f (Lowering.allocate (Scope.declare name) : Lower σ Slot)
      (Lowering.allocate (Scope.declare (f name))) :=
  allocate fun _ _ h => h.declare hf name

/-- A block in a scope of its own, and what comes after it. -/
theorem block (hf : Function.Injective f) {m m' rest : Lower σ Unit} (hm : Lockstep f m m')
    (hrest : Lockstep f rest rest) :
    Lockstep f
      (do
        Lowering.rescope Scope.enter
        m
        Lowering.rescope Scope.exit
        rest)
      (do
        Lowering.rescope Scope.enter
        m'
        Lowering.rescope Scope.exit
        rest) :=
  bind (rescope fun _ _ h => h.enter) fun _ =>
    bind hm fun _ => bind (rescope fun _ _ h => Scope.Renamed.exit hf h) fun _ => hrest

mutual

theorem stmt (hf : Function.Injective f) (library : Library) : ∀ s : Stmt,
    Lockstep f (Lowering.stmt sink library s) (Lowering.stmt sink library (s.rename f))
  | .expression value position => by
    rw [Stmt.rename, Lowering.stmt, Lowering.stmt]
    exact bind (expr library value) fun _ => emit _
  | .declare name value position => by
    rw [Stmt.rename, Lowering.stmt, Lowering.stmt]
    exact bind (expr library value) fun _ => bind (declare hf name) fun slot => emit _
  | .assign name value position => by
    rw [Stmt.rename, Lowering.stmt, Lowering.stmt]
    exact bind (slotOf name position) fun slot => bind (expr library value) fun _ => emit _
  | .ifThen test body position => by
    rw [Stmt.rename, Lowering.stmt, Lowering.stmt]
    refine bind (condition library test) fun _ => bind newLabel fun after => ?_
    refine bind (branchIfFalse after) fun _ => ?_
    exact block hf (stmts hf library body) (bindLabel after)
  | .whileDo test body position => by
    rw [Stmt.rename, Lowering.stmt, Lowering.stmt]
    refine bind newLabel fun loop => bind newLabel fun after => bind (bindLabel loop) fun _ => ?_
    refine bind (condition library test) fun _ => bind (branchIfFalse after) fun _ => ?_
    exact block hf (stmts hf library body) (bind (branch loop) fun _ => bindLabel after)
  | .switch subject cases position => by
    rw [Stmt.rename, Lowering.stmt, Lowering.stmt]
    refine bind (expr library subject) fun _ => bind (allocate fun _ _ h => h.fresh) fun slot => ?_
    refine bind (emit _) fun _ => bind newLabel fun done => ?_
    exact bind (arms hf library slot done cases) fun _ => bindLabel done

theorem stmts (hf : Function.Injective f) (library : Library) : ∀ ss : List Stmt,
    Lockstep f (Lowering.stmts sink library ss) (Lowering.stmts sink library (Stmt.renameAll f ss))
  | [] => by
    rw [Stmt.renameAll, Lowering.stmts]
    exact pure ()
  | first :: rest => by
    rw [Stmt.renameAll, Lowering.stmts, Lowering.stmts]
    exact bind (stmt hf library first) fun _ => stmts hf library rest

theorem arm (hf : Function.Injective f) (library : Library) (slot : Slot) (done : Label) :
    ∀ a : Arm,
    Lockstep f (Lowering.arm sink library slot done a)
      (Lowering.arm sink library slot done (a.rename f))
  | .case value body => by
    rw [Arm.rename, Lowering.arm, Lowering.arm]
    refine bind (expr library value) fun _ => bind (emit _) fun _ => ?_
    refine bind (operate library .eq) fun _ => bind (operate library .toBool) fun _ => ?_
    refine bind newLabel fun skip => bind (branchIfFalse skip) fun _ => ?_
    exact block hf (stmts hf library body) (bind (branch done) fun _ => bindLabel skip)
  | .otherwise body => by
    rw [Arm.rename, Lowering.arm, Lowering.arm]
    exact block hf (stmts hf library body) (branch done)

theorem arms (hf : Function.Injective f) (library : Library) (slot : Slot) (done : Label) :
    ∀ as : List Arm,
    Lockstep f (Lowering.arms sink library slot done as)
      (Lowering.arms sink library slot done (Arm.renameAll f as))
  | [] => by
    rw [Arm.renameAll, Lowering.arms]
    exact pure ()
  | first :: rest => by
    rw [Arm.renameAll, Lowering.arms, Lowering.arms]
    exact bind (arm hf library slot done first) fun _ => arms hf library slot done rest

end

theorem builtins (hf : Function.Injective f) (total : Nat) : ∀ (index : Nat) (names : List String),
    Lockstep f (Lowering.builtins sink total index names)
      (Lowering.builtins sink total index (names.map f))
  | index, [] => by
    rw [List.map_nil, Lowering.builtins]
    exact pure ()
  | index, name :: rest => by
    rw [List.map_cons, Lowering.builtins, Lowering.builtins]
    refine bind (operand16 _ _ _) fun n => bind (declare hf name) fun slot => ?_
    refine bind (emit _) fun _ => bind (emit _) fun _ => ?_
    exact builtins hf total (index + 1) rest

theorem program (sink : Sink σ ω) (hf : Function.Injective f) (library : Library)
    (globals : List String) (statements : List Stmt) :
    Lockstep f (program sink library globals statements)
      (program sink library (globals.map f) (Stmt.renameAll f statements)) := by
  rw [Lowering.program, Lowering.program, List.length_map]
  exact bind (builtins hf _ 0 globals) fun _ =>
    bind (stmts hf library statements) fun _ => emit _

end Lockstep

end Lowering

/-! ## Compilation -/

/-- A compilation with its error changed. -/
def Compilation.mapError {ω : Type} (change : CompileError → CompileError) (c : Compilation ω) :
    Compilation ω :=
  { c with result := c.result.mapError change }

/-- What a sink refuses at its end is an internal error, and stays as it is under changes of the
others. -/
theorem Compilation.mapError_internal {ω : Type} {change : CompileError → CompileError}
    (hinternal : ∀ e, change (.internal e) = .internal e) (x : Except InternalError ω) :
    (x.mapError .internal).mapError change = x.mapError .internal := by
  cases x with
  | ok a => rfl
  | error e => exact congrArg Except.error (hinternal e)

namespace Program

/-- A renamed program is lowered into a sink as before, up to the name in its error. -/
theorem compileInto_rename {σ ω : Type} (sink : Sink σ ω) (hf : Function.Injective f)
    (library : Library) (globals : List String) (p : Program) :
    (p.rename f).compileInto sink library (globals.map f) =
      (p.compileInto sink library globals).mapError (CompileError.rename f) := by
  have hstart : (Lowering.State.start sink).Renamed f (.start sink) :=
    ⟨.empty, rfl, rfl⟩
  -- the walks start from equal states, and each state holds no names yet
  have hruns := Lowering.Lockstep.program sink hf library globals p.statements _ _ hstart
  simp only [compileInto, Program.rename]
  generalize Lowering.program sink library globals p.statements (.start sink) = run,
    Lowering.program sink library (globals.map f) (Stmt.renameAll f p.statements)
      (.start sink) = run' at hruns ⊢
  cases hruns with
  | ok a h =>
    have hinternal : ∀ e, CompileError.rename f (.internal e) = .internal e := fun _ => rfl
    simp only [Compilation.mapError, Compilation.mapError_internal hinternal, h.resolver, h.sink,
      h.scope.slotCount]
  | error e h => simp only [Compilation.mapError, Except.mapError, h.resolver]

/-- **Consistent renaming is invisible.** An injective map on names, applied to every name of a
program and of a builtin table, leaves the chunk as it is; if there is none, the error is the same
one at the same position, except that an unknown variable goes by its new name. -/
theorem compile_rename (hf : Function.Injective f) (library : Library) (table : BuiltinTable)
    (p : Program) :
    (p.rename f).compile library (table.rename f) =
      (p.compile library table).mapError (CompileError.rename f) := by
  rw [compile, compile, BuiltinTable.names_rename, compileInto_rename _ hf]
  rfl

/-- A builtin and a local variable exchange their names, in a program that hides the builtin inside
a block. So they do in a program that lacks the variable. -/
theorem compile_rename_swap :
    let f : String → String := Equiv.swap "x" "print"
    let call : Stmt := .expression (.call (.identifier "print" {}) [.identifier "x" ⟨3, 7⟩] {}) {}
    let p : Program := ⟨none, [
      .declare "x" (.number "1" {}) {},
      .ifThen (.identifier "x" {}) [.declare "print" (.identifier "x" {}) {},
        .assign "x" (.identifier "print" {}) {}] {},
      call]⟩
    let q : Program := ⟨none, [call]⟩
    Function.Injective f ∧
      (∃ chunk, p.compile .standard .standard = .ok chunk ∧
        (p.rename f).compile .standard (BuiltinTable.standard.rename f) = .ok chunk) ∧
      q.compile .standard .standard = .error (.diagnosed ⟨⟨3, 7⟩, .unknownVariable "x"⟩) ∧
      (q.rename f).compile .standard (BuiltinTable.standard.rename f) =
        .error (.diagnosed ⟨⟨3, 7⟩, .unknownVariable "print"⟩) := by
  intro f call p q
  have hf : Function.Injective f := (Equiv.swap "x" "print").injective
  have hok : (p.compile .standard .standard).isOk = true := by decide +kernel
  have herror : q.compile .standard .standard =
      .error (.diagnosed ⟨⟨3, 7⟩, .unknownVariable "x"⟩) := by
    decide +kernel
  refine ⟨hf, ?_, herror, ?_⟩
  · have hrenamed := compile_rename hf .standard .standard p
    cases hchunk : p.compile .standard .standard with
    | error e =>
      rw [hchunk] at hok
      cases hok
    | ok chunk =>
      rw [hchunk] at hrenamed
      exact ⟨chunk, rfl, hrenamed⟩
  · rw [compile_rename hf, herror]
    rfl

end Program

end StackScript
