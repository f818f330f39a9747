import Mathlib.Tactic
import StackScript.Proofs.CompileLayout

set_option autoImplicit false

/-!
# A static check that knows the compiler's verdict

The check walks a program in the order in which code is written and emits nothing. It carries the
visible names, the number of slots used and, through the library, the operations that are exported.
The main statement is `Program.compile_verdict`: compilation succeeds exactly when the check does,
and fails with the error of the check otherwise.
-/

namespace StackScript

namespace Check

/-- The names that are visible, and the number of slots used. -/
structure View where
  visible : List String := []
  used : Nat := 0

/-! ## Single checks -/

/-- The library must export an operation. -/
def exported (library : Library) (op : Operation) : Except CompileError Unit :=
  if (library.lookup op.name).isSome then .ok ()
  else .error (.internal (.unresolvedOperation op.name))

/-- A name must be visible. -/
def known (visible : List String) (name : String) (position : Position) :
    Except CompileError Unit :=
  if name ∈ visible then .ok () else .error (.diagnosed ⟨position, .unknownVariable name⟩)

/-- A literal must be an integer in range. -/
def literal (text : String) (position : Position) : Except CompileError Unit :=
  if (Literal.parse? text).isSome then .ok ()
  else .error (.diagnosed ⟨position, .numberFormat text⟩)

/-- A number, one of `count` of a kind, must fit into 16 bits. -/
def fits (what : String) (count n : Nat) : Except CompileError Unit :=
  if n ≤ 65535 then .ok () else .error (.internal (.tooManyOperands what count))

/-- There must be a slot left. -/
def View.allocate (v : View) : Except CompileError View :=
  if v.used < 65536 then .ok { v with used := v.used + 1 }
  else .error (.internal .tooManyLocals)

/-- There must be a slot left, which then has a name. -/
def View.declare (name : String) (v : View) : Except CompileError View := do
  let v ← v.allocate
  return { v with visible := name :: v.visible }

/-! ## The check -/

mutual

/-- Checks an expression. A member access fails without a look at its object. -/
def expr (library : Library) (visible : List String) : Expr → Except CompileError Unit
  | .binary left text right position => do
    expr library visible left
    expr library visible right
    match Operation.ofOperator? text with
    | some op => exported library op
    | none => .error (.diagnosed ⟨position, .unknownOperator text⟩)
  | .call callee arguments _ => do
    expr library visible callee
    fits "arguments" arguments.length arguments.length
    exprs library visible arguments
    exported library .call
  | .parens inner _ => expr library visible inner
  | .number text position => literal text position
  | .identifier name position => known visible name position
  | .member _ _ position => .error (.diagnosed ⟨position, .unsupported "member access"⟩)

/-- Checks arguments in order. -/
def exprs (library : Library) (visible : List String) : List Expr → Except CompileError Unit
  | [] => .ok ()
  | argument :: rest => do
    expr library visible argument
    exprs library visible rest

end

/-- Checks a condition. -/
def condition (library : Library) (visible : List String) (test : Expr) :
    Except CompileError Unit := do
  expr library visible test
  exported library .toBool

mutual

/-- Checks a statement, and gives what is visible and used after it. -/
def stmt (library : Library) (v : View) : Stmt → Except CompileError View
  | .expression value _ => do
    expr library v.visible value
    return v
  | .declare name value _ => do
    expr library v.visible value
    v.declare name
  | .assign name value position => do
    known v.visible name position
    expr library v.visible value
    return v
  | .ifThen test body _ | .whileDo test body _ => do
    condition library v.visible test
    let inner ← stmts library v body
    return { v with used := inner.used }
  | .switch subject cases _ => do
    expr library v.visible subject
    let v ← v.allocate
    arms library v cases

/-- Checks statements in order. -/
def stmts (library : Library) (v : View) : List Stmt → Except CompileError View
  | [] => .ok v
  | first :: rest => do
    let v ← stmt library v first
    stmts library v rest

/-- Checks an arm of a switch. -/
def arm (library : Library) (v : View) : Arm → Except CompileError View
  | .case value body => do
    expr library v.visible value
    exported library .eq
    exported library .toBool
    let inner ← stmts library v body
    return { v with used := inner.used }
  | .otherwise body => do
    let inner ← stmts library v body
    return { v with used := inner.used }

/-- Checks arms in order, also those that are never reached. -/
def arms (library : Library) (v : View) : List Arm → Except CompileError View
  | [] => .ok v
  | first :: rest => do
    let v ← arm library v first
    arms library v rest

end

/-- Checks the installation of builtins from a given index on, out of `total`. -/
def builtins (total index : Nat) (v : View) : List String → Except CompileError View
  | [] => .ok v
  | name :: rest => do
    fits "builtins" total index
    let v ← v.declare name
    builtins total (index + 1) v rest

/-- Checks a program over global names, and gives the number of slots it uses. -/
def program (library : Library) (globals : List String) (statements : List Stmt) :
    Except CompileError Nat := do
  let v ← builtins globals.length 0 {} globals
  let v ← stmts library v statements
  return v.used

/-! ## Two computations with the same errors -/

/-- Two computations agree: both succeed, with related results, or both fail with the same error. -/
def Agree {α β : Type} (x : Except CompileError α) (y : Except CompileError β)
    (rel : α → β → Prop) : Prop :=
  (∃ a b, x = .ok a ∧ y = .ok b ∧ rel a b) ∨ ∃ e, x = .error e ∧ y = .error e

namespace Agree

variable {α β γ δ : Type} {x : Except CompileError α} {y : Except CompileError β}
  {rel : α → β → Prop}

theorem of_ok {a : α} {b : β} (h : rel a b) : Agree (.ok a) (.ok b) rel :=
  .inl ⟨a, b, rfl, rfl, h⟩

theorem of_error {e : CompileError} : Agree (.error e) (.error e) rel :=
  .inr ⟨e, rfl, rfl⟩

theorem bind {f : α → Except CompileError γ} {g : β → Except CompileError δ}
    {rel' : γ → δ → Prop} (h : Agree x y rel)
    (next : ∀ a b, rel a b → Agree (f a) (g b) rel') : Agree (x >>= f) (y >>= g) rel' := by
  rcases h with ⟨a, b, rfl, rfl, hrel⟩ | ⟨e, rfl, rfl⟩
  · exact next a b hrel
  · exact of_error

/-- The last part of a computation that goes on without errors on one side. -/
theorem last {f : α → γ} {rel' : γ → β → Prop} (h : Agree x y rel)
    (hrel : ∀ a b, rel a b → rel' (f a) b) : Agree (x >>= fun a => .ok (f a)) y rel' := by
  rcases h with ⟨a, b, rfl, rfl, h⟩ | ⟨e, rfl, rfl⟩
  · exact of_ok (hrel a b h)
  · exact of_error

end Agree

/-! ## The layout and the check agree -/

/-- The slots are those of the visible names. -/
def Shows (slots : String → Option Slot) (visible : List String) : Prop :=
  ∀ name, (slots name).isSome ↔ name ∈ visible

/-- The blocks have slots for the visible names, and as many are used. -/
structure Sees (b : Blocks) (v : View) : Prop where
  shows : Shows b.resolve? v.visible
  used : b.used = v.used

section

variable {library : Library} {slots : String → Option Slot} {visible : List String} {b : Blocks}
  {v : View}

theorem entry_agree (library : Library) (op : Operation) :
    Agree (Layout.entry library op) (exported library op) fun _ _ => True := by
  unfold Layout.entry exported
  cases library.lookup op.name with
  | none => exact .of_error
  | some entry => exact .of_ok trivial

theorem slotOf_agree (h : Shows slots visible) (name : String) (position : Position) :
    Agree (Layout.slotOf slots name position) (known visible name position) fun _ _ => True := by
  unfold Layout.slotOf known
  cases hslot : slots name with
  | none =>
    rw [if_neg fun hname => by simpa [hslot] using (h name).2 hname]
    exact .of_error
  | some slot =>
    rw [if_pos ((h name).1 (by rw [hslot, Option.isSome_some]))]
    exact .of_ok trivial

theorem literal_agree (text : String) (position : Position) :
    Agree (Layout.literal text position) (literal text position) fun _ _ => True := by
  unfold Layout.literal literal
  cases Literal.parse? text with
  | none => exact .of_error
  | some n => exact .of_ok trivial

theorem operand16_agree (what : String) (count n : Nat) :
    Agree (Layout.operand16 what count n) (fits what count n) fun _ _ => True := by
  unfold Layout.operand16 fits
  by_cases hn : n < 65536
  · rw [if_pos hn, if_pos (Nat.le_of_lt_succ hn)]
    exact .of_ok trivial
  · rw [if_neg hn, if_neg fun hle => hn (Nat.lt_succ_of_le hle)]
    exact .of_error

theorem fresh_agree (h : Sees b v) :
    Agree (Layout.allocate b.fresh) v.allocate fun r v' => Sees r.2 v' := by
  unfold Blocks.fresh View.allocate
  rw [h.used]
  by_cases hroom : v.used < 65536
  · rw [if_pos hroom, if_pos hroom]
    exact .of_ok ⟨h.shows, rfl⟩
  · rw [if_neg hroom, if_neg hroom]
    exact .of_error

theorem declare_agree (h : Sees b v) (name : String) :
    Agree (Layout.allocate (b.declare name)) (v.declare name) fun r v' => Sees r.2 v' := by
  unfold Blocks.declare View.declare View.allocate
  rw [h.used]
  by_cases hroom : v.used < 65536
  · rw [if_pos hroom, if_pos hroom]
    refine .of_ok ⟨fun x => ?_, rfl⟩
    -- the newly declared name is visible, and the others are as before
    show ((b.frames.insert name _).lookup? x).isSome ↔ x ∈ name :: v.visible
    rw [Frames.lookup?_insert, List.mem_cons, ← h.shows x]
    by_cases hx : name = x
    · simp [hx]
    · simp [hx, Ne.symm hx, Blocks.resolve?]
  · rw [if_neg hroom, if_neg hroom]
    exact .of_error

theorem Sees.enter (h : Sees b v) : Sees b.enter v :=
  ⟨fun name => by simpa [Blocks.resolve?, Blocks.enter] using h.shows name, h.used⟩

/-- After a block the names from before it are back. -/
theorem Sees.leave {inner : Blocks} {w : View} (h : Sees b v) (hinner : Sees inner w) :
    Sees { b with used := inner.used } { v with used := w.used } :=
  ⟨h.shows, hinner.used⟩

end

mutual

theorem expr_agree {library : Library} {slots : String → Option Slot} {visible : List String}
    (h : Shows slots visible) : ∀ e : Expr,
    Agree (Layout.expr library slots e) (expr library visible e) fun _ _ => True
  | .binary left text right position => by
    rw [Layout.expr, expr]
    refine (expr_agree h left).bind fun l _ _ => ?_
    refine (expr_agree h right).bind fun r _ _ => ?_
    unfold Layout.operator
    cases Operation.ofOperator? text with
    | none => exact .of_error
    | some op => exact (entry_agree library op).last fun _ _ h => h
  | .call callee arguments position => by
    rw [Layout.expr, expr]
    refine (expr_agree h callee).bind fun c _ _ => ?_
    refine (operand16_agree "arguments" arguments.length arguments.length).bind fun count _ _ => ?_
    refine (exprs_agree h arguments 0).bind fun a _ _ => ?_
    exact (entry_agree library .call).last fun _ _ h => h
  | .parens inner position => by
    rw [Layout.expr, expr]
    exact expr_agree h inner
  | .number text position => by
    rw [Layout.expr, expr]
    exact (literal_agree text position).last fun _ _ h => h
  | .identifier name position => by
    rw [Layout.expr, expr]
    exact (slotOf_agree h name position).last fun _ _ h => h
  | .member object name position => by
    rw [Layout.expr, expr]
    exact .of_error

theorem exprs_agree {library : Library} {slots : String → Option Slot} {visible : List String}
    (h : Shows slots visible) : ∀ (es : List Expr) (index : Nat),
    Agree (Layout.exprs library slots index es) (exprs library visible es) fun _ _ => True
  | [], index => by
    rw [Layout.exprs, exprs]
    exact .of_ok trivial
  | argument :: rest, index => by
    rw [Layout.exprs, exprs]
    refine (expr_agree h argument).bind fun a _ _ => ?_
    exact (exprs_agree h rest (index + 1)).last fun _ _ h => h

end

theorem condition_agree {library : Library} {slots : String → Option Slot}
    {visible : List String} (h : Shows slots visible) (test : Expr) :
    Agree (Layout.condition library slots test) (condition library visible test)
      fun _ _ => True := by
  rw [Layout.condition, condition]
  refine (expr_agree h test).bind fun t _ _ => ?_
  exact (entry_agree library .toBool).last fun _ _ h => h

mutual

theorem stmt_agree {library : Library} : ∀ (s : Stmt) (pc : Nat) (b : Blocks) (v : View),
    Sees b v → Agree (Layout.stmt library pc b s) (stmt library v s) fun r v' => Sees r.2 v'
  | .expression value position, pc, b, v, h => by
    rw [Layout.stmt, stmt]
    exact (expr_agree h.shows value).bind fun _ _ _ => .of_ok h
  | .declare name value position, pc, b, v, h => by
    rw [Layout.stmt, stmt]
    refine (expr_agree h.shows value).bind fun c _ _ => ?_
    exact (declare_agree h name).last fun _ _ h => h
  | .assign name value position, pc, b, v, h => by
    rw [Layout.stmt, stmt]
    refine (slotOf_agree h.shows name position).bind fun slot _ _ => ?_
    exact (expr_agree h.shows value).bind fun _ _ _ => .of_ok h
  | .ifThen test body position, pc, b, v, h => by
    rw [Layout.stmt, stmt]
    refine (condition_agree h.shows test).bind fun t _ _ => ?_
    refine (stmts_agree body _ b.enter v h.enter).bind fun r w hinner => ?_
    exact .of_ok (h.leave hinner)
  | .whileDo test body position, pc, b, v, h => by
    rw [Layout.stmt, stmt]
    refine (condition_agree h.shows test).bind fun t _ _ => ?_
    refine (stmts_agree body _ b.enter v h.enter).bind fun r w hinner => ?_
    exact .of_ok (h.leave hinner)
  | .switch subject cases position, pc, b, v, h => by
    rw [Layout.stmt, stmt]
    refine (expr_agree h.shows subject).bind fun c _ _ => ?_
    refine (fresh_agree h).bind fun r v' h' => ?_
    exact (arms_agree r.1 _ cases _ r.2 v' h').last fun _ _ h => h

theorem stmts_agree {library : Library} : ∀ (ss : List Stmt) (pc : Nat) (b : Blocks) (v : View),
    Sees b v → Agree (Layout.stmts library pc b ss) (stmts library v ss) fun r v' => Sees r.2 v'
  | [], pc, b, v, h => by
    rw [Layout.stmts, stmts]
    exact .of_ok h
  | first :: rest, pc, b, v, h => by
    rw [Layout.stmts, stmts]
    refine (stmt_agree first pc b v h).bind fun r v' h' => ?_
    exact (stmts_agree rest _ r.2 v' h').last fun _ _ h => h

theorem arm_agree {library : Library} (slot : Slot) (done : Nat) :
    ∀ (a : Arm) (pc : Nat) (b : Blocks) (v : View), Sees b v →
    Agree (Layout.arm library slot done pc b a) (arm library v a) fun r v' => Sees r.2 v'
  | .case value body, pc, b, v, h => by
    rw [Layout.arm, arm]
    refine (expr_agree h.shows value).bind fun c _ _ => ?_
    refine (entry_agree library .eq).bind fun eq _ _ => ?_
    refine (entry_agree library .toBool).bind fun test _ _ => ?_
    refine (stmts_agree body _ b.enter v h.enter).bind fun r w hinner => ?_
    exact .of_ok (h.leave hinner)
  | .otherwise body, pc, b, v, h => by
    rw [Layout.arm, arm]
    refine (stmts_agree body _ b.enter v h.enter).bind fun r w hinner => ?_
    exact .of_ok (h.leave hinner)

theorem arms_agree {library : Library} (slot : Slot) (done : Nat) :
    ∀ (as : List Arm) (pc : Nat) (b : Blocks) (v : View), Sees b v →
    Agree (Layout.arms library slot done pc b as) (arms library v as) fun r v' => Sees r.2 v'
  | [], pc, b, v, h => by
    rw [Layout.arms, arms]
    exact .of_ok h
  | first :: rest, pc, b, v, h => by
    rw [Layout.arms, arms]
    refine (arm_agree slot done first pc b v h).bind fun r v' h' => ?_
    exact (arms_agree slot done rest _ r.2 v' h').last fun _ _ h => h

end

theorem builtins_agree (total : Nat) :
    ∀ (names : List String) (index : Nat) (b : Blocks) (v : View), Sees b v →
    Agree (Layout.builtins total index b names) (builtins total index v names)
      fun r v' => Sees r.2 v'
  | [], index, b, v, h => by
    rw [Layout.builtins, builtins]
    exact .of_ok h
  | name :: rest, index, b, v, h => by
    rw [Layout.builtins, builtins]
    refine (operand16_agree "builtins" total index).bind fun n _ _ => ?_
    refine (declare_agree h name).bind fun r v' h' => ?_
    exact (builtins_agree total rest (index + 1) r.2 v' h').last fun _ _ h => h

/-- The layout of a program succeeds exactly when the check does, and fails with its error. -/
theorem program_agree (library : Library) (globals : List String) (statements : List Stmt) :
    Agree (Layout.program library globals statements) (program library globals statements)
      fun chunk used => chunk.localCount = used := by
  rw [Layout.program, program]
  refine (builtins_agree globals.length globals 0 {} {} ⟨fun name => ?_, rfl⟩).bind
    fun r v h => ?_
  · simp [Blocks.resolve?, Frames.lookup?, Frames.maps, Frames.lookupIn_cons]
  · refine (stmts_agree statements _ r.2 v h).bind fun r' v' h' => ?_
    exact .of_ok h'.used

/-- The layout has the verdict of the check. -/
theorem map_localCount_layout (library : Library) (globals : List String)
    (statements : List Stmt) :
    (Layout.program library globals statements).map Chunk.localCount =
      program library globals statements := by
  rcases program_agree library globals statements with
    ⟨chunk, used, hlayout, hcheck, rfl⟩ | ⟨e, hlayout, hcheck⟩
  · rw [hlayout, hcheck]
    rfl
  · rw [hlayout, hcheck]
    rfl

end Check

/-- **The compiler's verdict is that of the static check.** Lowering into a sink that refuses
nothing ends with the number of slots or the error of the check. So does the compiler as long as
labels can be told apart: it accepts exactly the programs that the check accepts and reports the
first fault of the others. -/
theorem Program.compile_verdict (library : Library) (table : BuiltinTable) (p : Program) :
    (p.draft library table.names).ending = Check.program library table.names p.statements ∧
      ((p.draft library table.names).labelCount ≤ 2 ^ 32 →
        (p.compile library table).map Chunk.localCount =
          Check.program library table.names p.statements) := by
  refine ⟨?_, fun hlabels => ?_⟩
  · rw [draft_ending, Check.map_localCount_layout]
  · rw [compile_eq_layout hlabels, Check.map_localCount_layout]

/-- Two faults in an arm that is never reached: the target of an assignment is reported, not its
value. -/
theorem Program.compile_verdict_two_faults :
    let p : Program := ⟨none, [.switch (.number "1" ⟨1, 8⟩)
      [.otherwise [], .case (.number "2" ⟨2, 8⟩)
        [.assign "x" (.number "2147483648" ⟨3, 9⟩) ⟨3, 5⟩]] ⟨1, 1⟩]⟩
    (p.draft .standard BuiltinTable.standard.names).labelCount ≤ 2 ^ 32 ∧
      (p.compile .standard .standard).map Chunk.localCount =
        .error (.diagnosed ⟨⟨3, 5⟩, .unknownVariable "x"⟩) := by
  intro p
  have hlabels : (p.draft .standard BuiltinTable.standard.names).labelCount ≤ 2 ^ 32 := by
    decide +kernel
  refine ⟨hlabels, ?_⟩
  rw [(compile_verdict .standard .standard p).2 hlabels]
  decide +kernel

end StackScript
