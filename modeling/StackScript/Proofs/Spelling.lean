import Mathlib.Tactic
import StackScript.Proofs.Renaming

set_option autoImplicit false

/-!
# Parentheses, positions and the source path

How a program is spelled has no part in its code. Parentheses are gone once the tree is walked, and
the path of the source is never looked at. Positions get into errors and nowhere else: moving all
positions of a program moves the position of its error and changes nothing besides
(`Program.compile_move`). The main statement is `Program.compile_respelled`.
-/

namespace StackScript

/-! ## Changed trees -/

mutual

/-- An expression without its parentheses, at any depth. -/
def Expr.bare : Expr → Expr
  | .binary left operator right p => .binary left.bare operator right.bare p
  | .call callee arguments p => .call callee.bare (Expr.bareAll arguments) p
  | .parens inner _ => inner.bare
  | .number literal p => .number literal p
  | .identifier name p => .identifier name p
  | .member object name p => .member object.bare name p

/-- Each expression without its parentheses. -/
def Expr.bareAll : List Expr → List Expr
  | [] => []
  | e :: es => e.bare :: Expr.bareAll es

end

mutual

/-- An expression with all its positions moved. -/
def Expr.move (g : Position → Position) : Expr → Expr
  | .binary left operator right p => .binary (left.move g) operator (right.move g) (g p)
  | .call callee arguments p => .call (callee.move g) (Expr.moveAll g arguments) (g p)
  | .parens inner p => .parens (inner.move g) (g p)
  | .number literal p => .number literal (g p)
  | .identifier name p => .identifier name (g p)
  | .member object name p => .member (object.move g) name (g p)

/-- Each expression with all its positions moved. -/
def Expr.moveAll (g : Position → Position) : List Expr → List Expr
  | [] => []
  | e :: es => e.move g :: Expr.moveAll g es

end

mutual

/-- A statement with every expression in it changed by `f` and the position of every statement in
it by `g`. -/
def Stmt.change (f : Expr → Expr) (g : Position → Position) : Stmt → Stmt
  | .ifThen test body p => .ifThen (f test) (Stmt.changeAll f g body) (g p)
  | .whileDo test body p => .whileDo (f test) (Stmt.changeAll f g body) (g p)
  | .switch subject arms p => .switch (f subject) (Arm.changeAll f g arms) (g p)
  | .expression value p => .expression (f value) (g p)
  | .declare name value p => .declare name (f value) (g p)
  | .assign name value p => .assign name (f value) (g p)

/-- Changes each statement. -/
def Stmt.changeAll (f : Expr → Expr) (g : Position → Position) : List Stmt → List Stmt
  | [] => []
  | s :: ss => s.change f g :: Stmt.changeAll f g ss

/-- An arm of a switch with its expressions and positions changed. -/
def Arm.change (f : Expr → Expr) (g : Position → Position) : Arm → Arm
  | .case value body => .case (f value) (Stmt.changeAll f g body)
  | .otherwise body => .otherwise (Stmt.changeAll f g body)

/-- Changes each arm. -/
def Arm.changeAll (f : Expr → Expr) (g : Position → Position) : List Arm → List Arm
  | [] => []
  | a :: as => a.change f g :: Arm.changeAll f g as

end

/-- A program without its parentheses and the path of its source. -/
def Program.bare (p : Program) : Program :=
  ⟨none, Stmt.changeAll Expr.bare id p.statements⟩

/-- A program with all its positions moved. -/
def Program.move (g : Position → Position) (p : Program) : Program :=
  { p with statements := Stmt.changeAll (Expr.move g) g p.statements }

/-- An error with its position moved, if it has one. -/
def CompileError.move (g : Position → Position) : CompileError → CompileError
  | diagnosed d => diagnosed { d with position := g d.position }
  | internal e => internal e

/-- What an error is about, wherever it was met: a mistake or an internal error. -/
def CompileError.cause : CompileError → Mistake ⊕ InternalError
  | diagnosed d => .inl d.mistake
  | internal e => .inr e

variable {g : Position → Position}

theorem Expr.length_bareAll (es : List Expr) : (Expr.bareAll es).length = es.length := by
  induction es with
  | nil => rfl
  | cons e es ih => rw [Expr.bareAll, List.length_cons, List.length_cons, ih]

theorem Expr.length_moveAll (es : List Expr) : (Expr.moveAll g es).length = es.length := by
  induction es with
  | nil => rfl
  | cons e es ih => rw [Expr.moveAll, List.length_cons, List.length_cons, ih]

theorem CompileError.move_id (e : CompileError) : e.move id = e := by
  cases e <;> rfl

theorem CompileError.cause_move (e : CompileError) : (e.move g).cause = e.cause := by
  cases e <;> rfl

/-! ## Lowering with positions moved -/

namespace Lowering

variable {σ ω : Type} {sink : Sink σ ω}

/-- The end of a part of the walk, with the position of its error moved. -/
def movedEnd (g : Position → Position) {α : Type} :
    EStateM.Result CompileError (State σ) α → EStateM.Result CompileError (State σ) α
  | .ok a st => .ok a st
  | .error e st => .error (e.move g) st

/-- The part `m'` of a walk does what `m` does, but reports errors at moved positions. -/
def Moves (g : Position → Position) {α : Type} (m m' : Lower σ α) : Prop :=
  ∀ st, m' st = movedEnd g (m st)

namespace Moves

variable {α β : Type}

theorem pure (a : α) : Moves g (Pure.pure a : Lower σ α) (Pure.pure a) := by
  intro st
  rfl

theorem bind {m m' : Lower σ α} {k k' : α → Lower σ β} (hm : Moves g m m')
    (hk : ∀ a, Moves g (k a) (k' a)) : Moves g (m >>= k) (m' >>= k') := by
  intro st
  have hfirst := hm st
  cases hrun : m st with
  | ok a st₁ =>
    rw [hrun] at hfirst
    rw [run_bind_of_ok hrun, run_bind_of_ok hfirst]
    exact hk a st₁
  | error e st₁ =>
    -- the second part is not reached
    rw [hrun] at hfirst
    rw [run_bind_of_error hrun, run_bind_of_error hfirst]
    rfl

/-- A part of the walk that reports internal errors only. -/
theorem of_internal {m : Lower σ α}
    (h : ∀ st e st', m st = .error e st' → ∃ cause, e = .internal cause) : Moves g m m := by
  intro st
  cases hrun : m st with
  | ok a st₁ => rfl
  | error e st₁ =>
    obtain ⟨cause, rfl⟩ := h st e st₁ hrun
    rfl

theorem mistake (position : Position) (m : Mistake) :
    Moves g (Lowering.mistake position m : Lower σ α) (Lowering.mistake (g position) m) := by
  intro st
  rfl

theorem hand (change : σ → σ) : Moves g (hand change) (hand change) := by
  intro st
  rfl

theorem emit (i : Instruction) : Moves g (emit sink i) (emit sink i) := hand _

theorem branchIfFalse (label : Label) :
    Moves g (branchIfFalse sink label) (branchIfFalse sink label) := hand _

theorem branch (label : Label) : Moves g (branch sink label) (branch sink label) := hand _

theorem newLabel : Moves g (newLabel sink) (newLabel sink) := by
  intro st
  rfl

theorem bindLabel (label : Label) : Moves g (bindLabel sink label) (bindLabel sink label) := by
  apply of_internal
  intro st e st' h
  simp only [Lowering.bindLabel] at h
  split at h
  · cases h
  · cases h
    exact ⟨_, rfl⟩

theorem rescope (change : Scope → Scope) :
    Moves g (rescope change : Lower σ Unit) (rescope change) := by
  intro st
  rfl

theorem allocate (action : Scope → Except InternalError Slot × Scope) :
    Moves g (allocate action : Lower σ Slot) (allocate action) := by
  apply of_internal
  intro st e st' h
  simp only [Lowering.allocate] at h
  split at h
  · cases h
  · cases h
    exact ⟨_, rfl⟩

theorem slotOf (name : String) (position : Position) :
    Moves g (slotOf name position : Lower σ Slot) (slotOf name (g position)) := by
  intro st
  simp only [Lowering.slotOf]
  cases st.scope.resolve? name with
  | none => rfl
  | some slot => rfl

theorem operate (library : Library) (op : Operation) :
    Moves g (operate sink library op) (operate sink library op) := by
  apply bind
  · apply of_internal
    intro st e st' h
    simp only [entryOf] at h
    split at h
    · cases h
    · cases h
      exact ⟨_, rfl⟩
  · intro entry
    exact emit _

theorem operand16 (what : String) (count n : Nat) :
    Moves g (operand16 what count n : Lower σ UInt16) (operand16 what count n) := by
  apply of_internal
  intro st e st' h
  simp only [Lowering.operand16] at h
  split at h
  · cases h
  · cases h
    exact ⟨_, rfl⟩

mutual

/-- The position that an error of an expression has is that of the node which is at fault. -/
theorem expr (library : Library) : ∀ e : Expr,
    Moves g (Lowering.expr sink library e) (Lowering.expr sink library (e.move g))
  | .binary left text right position => by
    rw [Expr.move, Lowering.expr, Lowering.expr]
    refine bind (expr library left) fun _ => bind (expr library right) fun _ => ?_
    -- an operator that does not exist is reported at the node, behind both operands
    split
    · exact operate library _
    · exact mistake _ _
  | .call callee arguments position => by
    rw [Expr.move, Lowering.expr, Lowering.expr, Expr.length_moveAll]
    refine bind (expr library callee) fun _ => bind (operand16 _ _ _) fun count => ?_
    refine bind (emit _) fun _ => bind (exprs library _ 0 arguments) fun _ => ?_
    exact operate library .call
  | .parens inner position => by
    rw [Expr.move, Lowering.expr, Lowering.expr]
    exact expr library inner
  | .number literal position => by
    rw [Expr.move, Lowering.expr, Lowering.expr]
    split
    · exact bind (emit _) fun _ => emit _
    · exact mistake _ _
  | .identifier name position => by
    rw [Expr.move, Lowering.expr, Lowering.expr]
    exact bind (slotOf name position) fun slot => emit _
  | .member object name position => by
    rw [Expr.move, Lowering.expr, Lowering.expr]
    exact mistake _ _

theorem exprs (library : Library) (total : Nat) : ∀ (index : Nat) (es : List Expr),
    Moves g (Lowering.exprs sink library total index es)
      (Lowering.exprs sink library total index (Expr.moveAll g es))
  | index, [] => by
    rw [Expr.moveAll, Lowering.exprs]
    exact pure ()
  | index, argument :: rest => by
    rw [Expr.moveAll, Lowering.exprs, Lowering.exprs]
    refine bind (operand16 _ _ _) fun n => bind (expr library argument) fun _ => ?_
    exact bind (emit _) fun _ => exprs library total (index + 1) rest

end

/-- A block in a scope of its own, and what comes after it. -/
theorem block {m m' rest : Lower σ Unit} (hm : Moves g m m') (hrest : Moves g rest rest) :
    Moves g
      (do
        Lowering.rescope Scope.enter
        m
        Lowering.rescope Scope.exit
        rest)
      (do
        Lowering.rescope Scope.enter
        m'
        Lowering.rescope Scope.exit
        rest) :=
  bind (rescope _) fun _ => bind hm fun _ => bind (rescope _) fun _ => hrest

theorem builtins (total : Nat) : ∀ (index : Nat) (names : List String),
    Moves g (Lowering.builtins sink total index names) (Lowering.builtins sink total index names)
  | index, [] => pure ()
  | index, name :: rest => by
    rw [Lowering.builtins]
    refine bind (operand16 _ _ _) fun n => bind (allocate _) fun slot => ?_
    exact bind (emit _) fun _ => bind (emit _) fun _ => builtins total (index + 1) rest

/-- A change of expressions that moves what their lowering reports. -/
def OfExprs (sink : Sink σ ω) (g : Position → Position) (library : Library) (f : Expr → Expr) :
    Prop :=
  ∀ e, Moves g (Lowering.expr sink library e) (Lowering.expr sink library (f e))

section

variable {library : Library} {f : Expr → Expr}

theorem condition (hf : OfExprs sink g library f) (test : Expr) :
    Moves g (condition sink library test) (condition sink library (f test)) :=
  bind (hf test) fun _ => operate library .toBool

mutual

/-- A statement moves what it reports if its expressions do. -/
theorem stmt (hf : OfExprs sink g library f) : ∀ s : Stmt,
    Moves g (Lowering.stmt sink library s) (Lowering.stmt sink library (s.change f g))
  | .expression value position => by
    rw [Stmt.change, Lowering.stmt, Lowering.stmt]
    exact bind (hf value) fun _ => emit _
  | .declare name value position => by
    rw [Stmt.change, Lowering.stmt, Lowering.stmt]
    exact bind (hf value) fun _ => bind (allocate _) fun slot => emit _
  | .assign name value position => by
    rw [Stmt.change, Lowering.stmt, Lowering.stmt]
    exact bind (slotOf name position) fun slot => bind (hf value) fun _ => emit _
  | .ifThen test body position => by
    rw [Stmt.change, Lowering.stmt, Lowering.stmt]
    refine bind (condition hf test) fun _ => bind newLabel fun after => ?_
    refine bind (branchIfFalse after) fun _ => ?_
    exact block (stmts hf body) (bindLabel after)
  | .whileDo test body position => by
    rw [Stmt.change, Lowering.stmt, Lowering.stmt]
    refine bind newLabel fun loop => bind newLabel fun after => bind (bindLabel loop) fun _ => ?_
    refine bind (condition hf test) fun _ => bind (branchIfFalse after) fun _ => ?_
    exact block (stmts hf body) (bind (branch loop) fun _ => bindLabel after)
  | .switch subject cases position => by
    rw [Stmt.change, Lowering.stmt, Lowering.stmt]
    refine bind (hf subject) fun _ => bind (allocate _) fun slot => bind (emit _) fun _ => ?_
    exact bind newLabel fun done => bind (arms hf slot done cases) fun _ => bindLabel done

theorem stmts (hf : OfExprs sink g library f) : ∀ ss : List Stmt,
    Moves g (Lowering.stmts sink library ss) (Lowering.stmts sink library (Stmt.changeAll f g ss))
  | [] => by
    rw [Stmt.changeAll, Lowering.stmts]
    exact pure ()
  | first :: rest => by
    rw [Stmt.changeAll, Lowering.stmts, Lowering.stmts]
    exact bind (stmt hf first) fun _ => stmts hf rest

theorem arm (hf : OfExprs sink g library f) (slot : Slot) (done : Label) : ∀ a : Arm,
    Moves g (Lowering.arm sink library slot done a)
      (Lowering.arm sink library slot done (a.change f g))
  | .case value body => by
    rw [Arm.change, Lowering.arm, Lowering.arm]
    refine bind (hf value) fun _ => bind (emit _) fun _ => ?_
    refine bind (operate library .eq) fun _ => bind (operate library .toBool) fun _ => ?_
    refine bind newLabel fun skip => bind (branchIfFalse skip) fun _ => ?_
    exact block (stmts hf body) (bind (branch done) fun _ => bindLabel skip)
  | .otherwise body => by
    rw [Arm.change, Lowering.arm, Lowering.arm]
    exact block (stmts hf body) (branch done)

theorem arms (hf : OfExprs sink g library f) (slot : Slot) (done : Label) : ∀ as : List Arm,
    Moves g (Lowering.arms sink library slot done as)
      (Lowering.arms sink library slot done (Arm.changeAll f g as))
  | [] => by
    rw [Arm.changeAll, Lowering.arms]
    exact pure ()
  | first :: rest => by
    rw [Arm.changeAll, Lowering.arms, Lowering.arms]
    exact bind (arm hf slot done first) fun _ => arms hf slot done rest

end

/-- Builtins have no positions, so a program moves what it reports if its expressions do. -/
theorem program (hf : OfExprs sink g library f) (globals : List String) (statements : List Stmt) :
    Moves g (program sink library globals statements)
      (program sink library globals (Stmt.changeAll f g statements)) := by
  rw [Lowering.program, Lowering.program]
  exact bind (builtins _ 0 globals) fun _ => bind (stmts hf statements) fun _ => emit _

end

end Moves

/-! ## Lowering without parentheses -/

mutual

/-- Parentheses are lowered to what is inside them, so the walk is the same without them. -/
theorem expr_bare (library : Library) :
    ∀ e : Expr, expr sink library e.bare = expr sink library e
  | .binary left text right position => by
    rw [Expr.bare, expr, expr, expr_bare library left, expr_bare library right]
  | .call callee arguments position => by
    rw [Expr.bare, expr, expr, expr_bare library callee, Expr.length_bareAll,
      exprs_bareAll library _ 0 arguments]
  | .parens inner position => by
    rw [Expr.bare, expr, expr_bare library inner]
  | .number literal position => rfl
  | .identifier name position => rfl
  | .member object name position => by
    rw [Expr.bare, expr, expr]

theorem exprs_bareAll (library : Library) (total : Nat) : ∀ (index : Nat) (es : List Expr),
    exprs sink library total index (Expr.bareAll es) = exprs sink library total index es
  | index, [] => rfl
  | index, argument :: rest => by
    rw [Expr.bareAll, exprs, exprs, expr_bare library argument,
      exprs_bareAll library total (index + 1) rest]

end

/-- Without parentheses, errors stay where they are. -/
theorem Moves.bare (sink : Sink σ ω) (library : Library) :
    Moves.OfExprs sink id library Expr.bare := by
  intro e st
  rw [expr_bare]
  cases Lowering.expr sink library e st with
  | ok a st' => rfl
  | error e st' => rw [movedEnd, CompileError.move_id]

end Lowering

/-! ## Compilation -/

namespace Program

/-- A changed program is lowered into a sink as before, up to the position of its error. -/
theorem compileInto_change {σ ω : Type} {sink : Sink σ ω} {library : Library} {f : Expr → Expr}
    (hf : Lowering.Moves.OfExprs sink g library f) (globals : List String)
    (source : Option String) (p : Program) :
    compileInto sink library globals ⟨source, Stmt.changeAll f g p.statements⟩ =
      (p.compileInto sink library globals).mapError (CompileError.move g) := by
  have hrun := Lowering.Moves.program hf globals p.statements (.start sink)
  simp only [compileInto, hrun]
  cases Lowering.program sink library globals p.statements (.start sink) with
  | ok a st =>
    have hinternal : ∀ e, CompileError.move g (.internal e) = .internal e := fun _ => rfl
    simp only [Lowering.movedEnd, Compilation.mapError, Compilation.mapError_internal hinternal]
  | error e st => rfl

/-- **Positions get into errors only.** -/
theorem compile_move (g : Position → Position) (library : Library) (table : BuiltinTable)
    (p : Program) :
    (p.move g).compile library table =
      (p.compile library table).mapError (CompileError.move g) := by
  rw [compile, compile, move, compileInto_change (Lowering.Moves.expr library)]
  rfl

/-- Parentheses and the path of the source get nowhere. -/
theorem compile_bare (library : Library) (table : BuiltinTable) (p : Program) :
    p.bare.compile library table = p.compile library table := by
  rw [compile, compile, bare, compileInto_change (Lowering.Moves.bare _ library),
    Compilation.mapError]
  -- moved by the identity, an error stays as it is
  cases (p.compileInto Assembler.sink library table.names).result with
  | ok chunk => rfl
  | error e => rw [Except.mapError, CompileError.move_id]

/-- What becomes of a program, up to the position of its error. -/
theorem cause_compile (g : Position → Position) (library : Library) (table : BuiltinTable)
    (p : Program) :
    ((p.bare.move g).compile library table).mapError CompileError.cause =
      (p.compile library table).mapError CompileError.cause := by
  rw [compile_move, compile_bare]
  cases p.compile library table with
  | ok chunk => rfl
  | error e =>
    simp only [Except.mapError]
    rw [CompileError.cause_move]

/-- **Spelling has no part in code.** Two programs that become equal when all parentheses are
deleted and all positions and the path of the source are reset compile to the same chunk, or fail
with the same mistake or the same internal error. If they are equal already before the positions are
reset, the errors have the same position too. -/
theorem compile_respelled (library : Library) (table : BuiltinTable) (p q : Program) :
    (p.bare.move (fun _ => {}) = q.bare.move (fun _ => {}) →
        (p.compile library table).mapError CompileError.cause =
          (q.compile library table).mapError CompileError.cause) ∧
      (p.bare = q.bare → p.compile library table = q.compile library table) := by
  constructor
  · intro h
    rw [← cause_compile (fun _ => {}) library table p, h, cause_compile]
  · intro h
    rw [← compile_bare library table p, h, compile_bare]

/-- Parentheses around a callee, an argument, a subject and a case value come to nothing in code
that has moved to another file. An unknown variable inside parentheses is reported where it
stands. -/
theorem compile_respelled_parentheses :
    let p : Program := ⟨some "a.qr", [
      .declare "x" (.parens (.parens (.number "2" ⟨1, 11⟩) ⟨1, 10⟩) ⟨1, 9⟩) ⟨1, 1⟩,
      .switch (.parens (.identifier "x" ⟨2, 10⟩) ⟨2, 9⟩) [
        .case (.parens (.number "2" ⟨3, 8⟩) ⟨3, 7⟩) [
          .expression (.call (.parens (.identifier "print" ⟨4, 6⟩) ⟨4, 5⟩)
            [.parens (.identifier "x" ⟨4, 14⟩) ⟨4, 13⟩] ⟨4, 5⟩) ⟨4, 5⟩]] ⟨2, 1⟩]⟩
    let q : Program := ⟨none, [
      .declare "x" (.number "2" ⟨7, 9⟩) ⟨7, 1⟩,
      .switch (.identifier "x" ⟨7, 9⟩) [
        .case (.number "2" {}) [
          .expression (.call (.identifier "print" {}) [.identifier "x" {}] {}) {}]] {}]⟩
    let r : Program := ⟨some "b.qr", [.expression
      (.binary (.number "1" ⟨1, 1⟩) "+" (.parens (.identifier "y" ⟨1, 6⟩) ⟨1, 5⟩) ⟨1, 1⟩) ⟨1, 1⟩]⟩
    let s : Program := ⟨none, [.expression
      (.parens (.binary (.number "1" ⟨1, 1⟩) "+" (.identifier "y" ⟨1, 6⟩) ⟨1, 1⟩) ⟨9, 9⟩) ⟨1, 1⟩]⟩
    (∃ chunk, p.compile .standard .standard = .ok chunk ∧
        q.compile .standard .standard = .ok chunk) ∧
      r.compile .standard .standard = .error (.diagnosed ⟨⟨1, 6⟩, .unknownVariable "y"⟩) ∧
      s.compile .standard .standard = .error (.diagnosed ⟨⟨1, 6⟩, .unknownVariable "y"⟩) := by
  intro p q r s
  have hok : (p.compile .standard .standard).isOk = true := by decide +kernel
  have herror : r.compile .standard .standard =
      .error (.diagnosed ⟨⟨1, 6⟩, .unknownVariable "y"⟩) := by
    decide +kernel
  refine ⟨?_, herror, ?_⟩
  · have hcause := (compile_respelled .standard .standard p q).1 rfl
    cases hchunk : p.compile .standard .standard with
    | error e =>
      rw [hchunk] at hok
      cases hok
    | ok chunk =>
      rw [hchunk] at hcause
      cases hother : q.compile .standard .standard with
      | error e =>
        rw [hother] at hcause
        cases hcause
      | ok other =>
        rw [hother] at hcause
        cases hcause
        exact ⟨chunk, rfl, rfl⟩
  · rw [← herror]
    exact ((compile_respelled .standard .standard r s).2 rfl).symm

end Program

end StackScript
