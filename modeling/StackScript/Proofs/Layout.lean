import Mathlib.Tactic
import StackScript.Builtins
import StackScript.Program.Basic
import StackScript.Program.Literal
import StackScript.Proofs.Assembly
import StackScript.Proofs.ScopeRefinement

set_option autoImplicit false

/-!
# The layout of a program

The layout of a program is its code with absolute addresses, computed from the tree in one pass and
without labels: a statement that starts at address `pc` jumps to addresses that are `pc` plus the
sizes of its parts. Sizes depend on the tree alone. Names are kept in `Blocks`, so that leaving a
block is a return to the blocks from before it. An error of the layout is the first one met in the
order in which code is written.

`Layout` is the description of compiled code that the other results rest on; that the compiler
produces it is the theorem `Program.compile_eq_layout`.
-/

namespace StackScript

namespace Layout

open Instruction (loadInt boxInt pop loadLocal storeLocal loadBuiltin newArgs storeArg callRuntime
  jump jumpIfFalse ret)

/-! ## Sizes -/

mutual

/-- The number of instructions of an expression. -/
def exprSize : Expr → Nat
  | .binary left _ right _ => exprSize left + exprSize right + 1
  | .call callee arguments _ => exprSize callee + 1 + exprsSize arguments + 1
  | .parens inner _ => exprSize inner
  | .number _ _ => 2
  | .identifier _ _ => 1
  | .member _ _ _ => 0

/-- The number of instructions of arguments, with those that store them. -/
def exprsSize : List Expr → Nat
  | [] => 0
  | argument :: rest => exprSize argument + 1 + exprsSize rest

end

mutual

/-- The number of instructions of a statement. -/
def stmtSize : Stmt → Nat
  | .expression value _ => exprSize value + 1
  | .declare _ value _ => exprSize value + 1
  | .assign _ value _ => exprSize value + 1
  | .ifThen test body _ => exprSize test + 2 + stmtsSize body
  | .whileDo test body _ => exprSize test + 2 + stmtsSize body + 1
  | .switch subject cases _ => exprSize subject + 1 + armsSize cases

/-- The number of instructions of statements. -/
def stmtsSize : List Stmt → Nat
  | [] => 0
  | first :: rest => stmtSize first + stmtsSize rest

/-- The number of instructions of an arm. -/
def armSize : Arm → Nat
  | .case value body => exprSize value + 4 + stmtsSize body + 1
  | .otherwise body => stmtsSize body + 1

/-- The number of instructions of arms. -/
def armsSize : List Arm → Nat
  | [] => 0
  | first :: rest => armSize first + armsSize rest

end

/-! ## Single steps -/

/-- The entry point of an operation. -/
def entry (library : Library) (op : Operation) : Except CompileError EntryPoint :=
  match library.lookup op.name with
  | some entry => .ok entry
  | none => .error (.internal (.unresolvedOperation op.name))

/-- The slot of a name that must be visible. -/
def slotOf (slots : String → Option Slot) (name : String) (position : Position) :
    Except CompileError Slot :=
  match slots name with
  | some slot => .ok slot
  | none => .error (.diagnosed ⟨position, .unknownVariable name⟩)

/-- The operation of an operator. -/
def operator (text : String) (position : Position) : Except CompileError Operation :=
  match Operation.ofOperator? text with
  | some op => .ok op
  | none => .error (.diagnosed ⟨position, .unknownOperator text⟩)

/-- The integer of a literal. -/
def literal (text : String) (position : Position) : Except CompileError Int32 :=
  match Literal.parse? text with
  | some n => .ok n
  | none => .error (.diagnosed ⟨position, .numberFormat text⟩)

/-- A number as a 16-bit operand, one of `count` numbers of a kind. -/
def operand16 (what : String) (count n : Nat) : Except CompileError UInt16 :=
  if n < 65536 then .ok n.toUInt16 else .error (.internal (.tooManyOperands what count))

/-- A slot that was asked for, with the blocks after it. -/
def allocate (request : Except InternalError Slot × Blocks) : Except CompileError (Slot × Blocks) :=
  match request with
  | (.ok slot, b) => .ok (slot, b)
  | (.error e, _) => .error (.internal e)

/-! ## Expressions -/

mutual

/-- The code of an expression. -/
def expr (library : Library) (slots : String → Option Slot) :
    Expr → Except CompileError (List Instruction)
  | .binary left text right position => do
    let l ← expr library slots left
    let r ← expr library slots right
    let op ← operator text position
    let e ← entry library op
    return l ++ r ++ [callRuntime e]
  | .call callee arguments _ => do
    let c ← expr library slots callee
    let count ← operand16 "arguments" arguments.length arguments.length
    let a ← exprs library slots 0 arguments
    let e ← entry library .call
    return c ++ [newArgs count] ++ a ++ [callRuntime e]
  | .parens inner _ => expr library slots inner
  | .number text position => do
    let n ← literal text position
    return [loadInt n, boxInt]
  | .identifier name position => do
    let slot ← slotOf slots name position
    return [loadLocal slot]
  | .member _ _ position => .error (.diagnosed ⟨position, .unsupported "member access"⟩)

/-- The code of arguments from a given index on. -/
def exprs (library : Library) (slots : String → Option Slot) (index : Nat) :
    List Expr → Except CompileError (List Instruction)
  | [] => .ok []
  | argument :: rest => do
    let a ← expr library slots argument
    let r ← exprs library slots (index + 1) rest
    return a ++ [storeArg index.toUInt16] ++ r

end

/-- The code of a condition. -/
def condition (library : Library) (slots : String → Option Slot) (test : Expr) :
    Except CompileError (List Instruction) := do
  let t ← expr library slots test
  let e ← entry library .toBool
  return t ++ [callRuntime e]

/-! ## Statements -/

mutual

/-- The code of a statement at address `pc`, and the blocks after it. -/
def stmt (library : Library) (pc : Nat) (b : Blocks) :
    Stmt → Except CompileError (List Instruction × Blocks)
  | .expression value _ => do
    let v ← expr library b.resolve? value
    return (v ++ [pop], b)
  | .declare name value _ => do
    let v ← expr library b.resolve? value
    let (slot, b) ← allocate (b.declare name)
    return (v ++ [storeLocal slot], b)
  | .assign name value position => do
    let slot ← slotOf b.resolve? name position
    let v ← expr library b.resolve? value
    return (v ++ [storeLocal slot], b)
  | .ifThen test body _ => do
    let t ← condition library b.resolve? test
    let (code, inner) ← stmts library (pc + t.length + 1) b.enter body
    let after := pc + t.length + 1 + code.length
    return (t ++ [jumpIfFalse after.toUInt32] ++ code, { b with used := inner.used })
  | .whileDo test body _ => do
    let t ← condition library b.resolve? test
    let (code, inner) ← stmts library (pc + t.length + 1) b.enter body
    let after := pc + t.length + 1 + code.length + 1
    return (t ++ [jumpIfFalse after.toUInt32] ++ code ++ [jump pc.toUInt32],
      { b with used := inner.used })
  | .switch subject cases _ => do
    let v ← expr library b.resolve? subject
    let (slot, b) ← allocate b.fresh
    let start := pc + v.length + 1
    let (code, b) ← arms library slot (start + armsSize cases) start b cases
    return (v ++ [storeLocal slot] ++ code, b)

/-- The code of statements. -/
def stmts (library : Library) (pc : Nat) (b : Blocks) :
    List Stmt → Except CompileError (List Instruction × Blocks)
  | [] => .ok ([], b)
  | first :: rest => do
    let (code, b) ← stmt library pc b first
    let (code', b) ← stmts library (pc + code.length) b rest
    return (code ++ code', b)

/-- The code of an arm of a switch whose subject is in `slot` and which ends at address `done`. -/
def arm (library : Library) (slot : Slot) (done pc : Nat) (b : Blocks) :
    Arm → Except CompileError (List Instruction × Blocks)
  | .case value body => do
    let v ← expr library b.resolve? value
    let eq ← entry library .eq
    let test ← entry library .toBool
    let (code, inner) ← stmts library (pc + v.length + 4) b.enter body
    let skip := pc + v.length + 4 + code.length + 1
    return (v ++ [loadLocal slot, callRuntime eq, callRuntime test, jumpIfFalse skip.toUInt32] ++
      code ++ [jump done.toUInt32], { b with used := inner.used })
  | .otherwise body => do
    let (code, inner) ← stmts library pc b.enter body
    return (code ++ [jump done.toUInt32], { b with used := inner.used })

/-- The code of arms. -/
def arms (library : Library) (slot : Slot) (done pc : Nat) (b : Blocks) :
    List Arm → Except CompileError (List Instruction × Blocks)
  | [] => .ok ([], b)
  | first :: rest => do
    let (code, b) ← arm library slot done pc b first
    let (code', b) ← arms library slot done (pc + code.length) b rest
    return (code ++ code', b)

end

/-! ## Programs -/

/-- The code that installs builtins from a given index on, out of `total`. -/
def builtins (total index : Nat) (b : Blocks) :
    List String → Except CompileError (List Instruction × Blocks)
  | [] => .ok ([], b)
  | name :: rest => do
    let n ← operand16 "builtins" total index
    let (slot, b) ← allocate (b.declare name)
    let (code, b) ← builtins total (index + 1) b rest
    return (loadBuiltin n :: storeLocal slot :: code, b)

/-- The layout of a whole program. -/
def program (library : Library) (globals : List String) (statements : List Stmt) :
    Except CompileError Chunk := do
  let (start, b) ← builtins globals.length 0 {} globals
  let (code, b) ← stmts library start.length b statements
  return ⟨(start ++ code ++ [ret]).toArray, b.used⟩

/-! ## Layouts that succeed -/

section

variable {library : Library} {slots : String → Option Slot} {b b' : Blocks} {pc : Nat}
  {code : List Instruction}

theorem entry_eq_ok {op : Operation} {e : EntryPoint} :
    entry library op = .ok e ↔ library.lookup op.name = some e := by
  unfold entry
  cases library.lookup op.name <;> simp

theorem slotOf_eq_ok {name : String} {position : Position} {slot : Slot} :
    slotOf slots name position = .ok slot ↔ slots name = some slot := by
  unfold slotOf
  cases slots name <;> simp

theorem operator_eq_ok {text : String} {position : Position} {op : Operation} :
    operator text position = .ok op ↔ Operation.ofOperator? text = some op := by
  unfold operator
  cases Operation.ofOperator? text <;> simp

theorem literal_eq_ok {text : String} {position : Position} {n : Int32} :
    literal text position = .ok n ↔ Literal.parse? text = some n := by
  unfold literal
  cases Literal.parse? text <;> simp

theorem operand16_eq_ok {what : String} {count n : Nat} {k : UInt16} :
    operand16 what count n = .ok k ↔ n < 65536 ∧ n.toUInt16 = k := by
  unfold operand16
  by_cases h : n < 65536 <;> simp [h]

theorem allocate_fresh_eq_ok {slot : Slot} :
    allocate b.fresh = .ok (slot, b') ↔
      b.used < 65536 ∧ slot = ⟨b.used.toUInt16⟩ ∧ b' = { b with used := b.used + 1 } := by
  by_cases h : b.used < 65536
  · simp [allocate, Blocks.fresh, h, eq_comm]
  · simp [allocate, Blocks.fresh, h]

theorem allocate_declare_eq_ok {name : String} {slot : Slot} :
    allocate (b.declare name) = .ok (slot, b') ↔
      b.used < 65536 ∧ slot = ⟨b.used.toUInt16⟩ ∧
        b' = ⟨b.frames.insert name slot, b.used + 1⟩ := by
  by_cases h : b.used < 65536
  · simp only [allocate, Blocks.declare, h, if_true, Except.ok.injEq, Prod.mk.injEq, true_and]
    constructor
    · rintro ⟨rfl, rfl⟩
      exact ⟨rfl, rfl⟩
    · rintro ⟨rfl, rfl⟩
      exact ⟨rfl, rfl⟩
  · simp [allocate, Blocks.declare, h]

theorem expr_binary {left right : Expr} {text : String} {position : Position}
    (h : expr library slots (.binary left text right position) = .ok code) :
    ∃ l r op e, expr library slots left = .ok l ∧ expr library slots right = .ok r ∧
      Operation.ofOperator? text = some op ∧ library.lookup op.name = some e ∧
      code = l ++ r ++ [callRuntime e] := by
  obtain ⟨l, hl, h⟩ := bind_eq_ok.1 h
  obtain ⟨r, hr, h⟩ := bind_eq_ok.1 h
  obtain ⟨op, hop, h⟩ := bind_eq_ok.1 h
  obtain ⟨e, he, h⟩ := bind_eq_ok.1 h
  cases h
  exact ⟨l, r, op, e, hl, hr, operator_eq_ok.1 hop, entry_eq_ok.1 he, rfl⟩

theorem expr_call {callee : Expr} {arguments : List Expr} {position : Position}
    (h : expr library slots (.call callee arguments position) = .ok code) :
    ∃ c a e, expr library slots callee = .ok c ∧ arguments.length < 65536 ∧
      exprs library slots 0 arguments = .ok a ∧ library.lookup Operation.call.name = some e ∧
      code = c ++ [newArgs arguments.length.toUInt16] ++ a ++ [callRuntime e] := by
  obtain ⟨c, hc, h⟩ := bind_eq_ok.1 h
  obtain ⟨count, hcount, h⟩ := bind_eq_ok.1 h
  obtain ⟨a, ha, h⟩ := bind_eq_ok.1 h
  obtain ⟨e, he, h⟩ := bind_eq_ok.1 h
  obtain ⟨hlt, rfl⟩ := operand16_eq_ok.1 hcount
  cases h
  exact ⟨c, a, e, hc, hlt, ha, entry_eq_ok.1 he, rfl⟩

theorem expr_parens (library : Library) (slots : String → Option Slot) (inner : Expr)
    (position : Position) :
    expr library slots (.parens inner position) = expr library slots inner :=
  rfl

theorem expr_number {text : String} {position : Position}
    (h : expr library slots (.number text position) = .ok code) :
    ∃ n, Literal.parse? text = some n ∧ code = [loadInt n, boxInt] := by
  obtain ⟨n, hn, h⟩ := bind_eq_ok.1 h
  cases h
  exact ⟨n, literal_eq_ok.1 hn, rfl⟩

theorem expr_identifier {name : String} {position : Position}
    (h : expr library slots (.identifier name position) = .ok code) :
    ∃ slot, slots name = some slot ∧ code = [loadLocal slot] := by
  obtain ⟨slot, hslot, h⟩ := bind_eq_ok.1 h
  cases h
  exact ⟨slot, slotOf_eq_ok.1 hslot, rfl⟩

theorem expr_member {object : Expr} {name : String} {position : Position}
    (h : expr library slots (.member object name position) = .ok code) : False := by
  cases h

theorem exprs_cons {index : Nat} {argument : Expr} {rest : List Expr}
    (h : exprs library slots index (argument :: rest) = .ok code) :
    ∃ a r, expr library slots argument = .ok a ∧ exprs library slots (index + 1) rest = .ok r ∧
      code = a ++ [storeArg index.toUInt16] ++ r := by
  obtain ⟨a, ha, h⟩ := bind_eq_ok.1 h
  obtain ⟨r, hr, h⟩ := bind_eq_ok.1 h
  cases h
  exact ⟨a, r, ha, hr, rfl⟩

theorem condition_eq_ok {test : Expr} (h : condition library slots test = .ok code) :
    ∃ t e, expr library slots test = .ok t ∧ library.lookup Operation.toBool.name = some e ∧
      code = t ++ [callRuntime e] := by
  obtain ⟨t, ht, h⟩ := bind_eq_ok.1 h
  obtain ⟨e, he, h⟩ := bind_eq_ok.1 h
  cases h
  exact ⟨t, e, ht, entry_eq_ok.1 he, rfl⟩

theorem stmt_expression {value : Expr} {position : Position}
    (h : stmt library pc b (.expression value position) = .ok (code, b')) :
    ∃ v, expr library b.resolve? value = .ok v ∧ code = v ++ [pop] ∧ b' = b := by
  obtain ⟨v, hv, h⟩ := bind_eq_ok.1 h
  cases h
  exact ⟨v, hv, rfl, rfl⟩

theorem stmt_declare {name : String} {value : Expr} {position : Position}
    (h : stmt library pc b (.declare name value position) = .ok (code, b')) :
    ∃ v, expr library b.resolve? value = .ok v ∧ b.used < 65536 ∧
      code = v ++ [storeLocal ⟨b.used.toUInt16⟩] ∧
      b' = ⟨b.frames.insert name ⟨b.used.toUInt16⟩, b.used + 1⟩ := by
  obtain ⟨v, hv, h⟩ := bind_eq_ok.1 h
  obtain ⟨⟨slot, b''⟩, hslot, h⟩ := bind_eq_ok.1 h
  obtain ⟨hroom, rfl, rfl⟩ := allocate_declare_eq_ok.1 hslot
  cases h
  exact ⟨v, hv, hroom, rfl, rfl⟩

theorem stmt_assign {name : String} {value : Expr} {position : Position}
    (h : stmt library pc b (.assign name value position) = .ok (code, b')) :
    ∃ slot v, b.resolve? name = some slot ∧ expr library b.resolve? value = .ok v ∧
      code = v ++ [storeLocal slot] ∧ b' = b := by
  obtain ⟨slot, hslot, h⟩ := bind_eq_ok.1 h
  obtain ⟨v, hv, h⟩ := bind_eq_ok.1 h
  cases h
  exact ⟨slot, v, slotOf_eq_ok.1 hslot, hv, rfl, rfl⟩

theorem stmt_ifThen {test : Expr} {body : List Stmt} {position : Position}
    (h : stmt library pc b (.ifThen test body position) = .ok (code, b')) :
    ∃ t c inner, condition library b.resolve? test = .ok t ∧
      stmts library (pc + t.length + 1) b.enter body = .ok (c, inner) ∧
      code = t ++ [jumpIfFalse (pc + t.length + 1 + c.length).toUInt32] ++ c ∧
      b' = { b with used := inner.used } := by
  obtain ⟨t, ht, h⟩ := bind_eq_ok.1 h
  obtain ⟨⟨c, inner⟩, hc, h⟩ := bind_eq_ok.1 h
  cases h
  exact ⟨t, c, inner, ht, hc, rfl, rfl⟩

theorem stmt_whileDo {test : Expr} {body : List Stmt} {position : Position}
    (h : stmt library pc b (.whileDo test body position) = .ok (code, b')) :
    ∃ t c inner, condition library b.resolve? test = .ok t ∧
      stmts library (pc + t.length + 1) b.enter body = .ok (c, inner) ∧
      code = t ++ [jumpIfFalse (pc + t.length + 1 + c.length + 1).toUInt32] ++ c ++
        [jump pc.toUInt32] ∧
      b' = { b with used := inner.used } := by
  obtain ⟨t, ht, h⟩ := bind_eq_ok.1 h
  obtain ⟨⟨c, inner⟩, hc, h⟩ := bind_eq_ok.1 h
  cases h
  exact ⟨t, c, inner, ht, hc, rfl, rfl⟩

theorem stmt_switch {subject : Expr} {cases : List Arm} {position : Position}
    (h : stmt library pc b (.switch subject cases position) = .ok (code, b')) :
    ∃ v c, expr library b.resolve? subject = .ok v ∧ b.used < 65536 ∧
      arms library ⟨b.used.toUInt16⟩ (pc + v.length + 1 + armsSize cases) (pc + v.length + 1)
        { b with used := b.used + 1 } cases = .ok (c, b') ∧
      code = v ++ [storeLocal ⟨b.used.toUInt16⟩] ++ c := by
  obtain ⟨v, hv, h⟩ := bind_eq_ok.1 h
  obtain ⟨⟨slot, b₁⟩, hslot, h⟩ := bind_eq_ok.1 h
  obtain ⟨hroom, rfl, rfl⟩ := allocate_fresh_eq_ok.1 hslot
  obtain ⟨⟨c, b₂⟩, hc, h⟩ := bind_eq_ok.1 h
  cases h
  exact ⟨v, c, hv, hroom, hc, rfl⟩

theorem stmts_cons {first : Stmt} {rest : List Stmt}
    (h : stmts library pc b (first :: rest) = .ok (code, b')) :
    ∃ c c' mid, stmt library pc b first = .ok (c, mid) ∧
      stmts library (pc + c.length) mid rest = .ok (c', b') ∧ code = c ++ c' := by
  obtain ⟨⟨c, mid⟩, hc, h⟩ := bind_eq_ok.1 h
  obtain ⟨⟨c', last⟩, hc', h⟩ := bind_eq_ok.1 h
  cases h
  exact ⟨c, c', mid, hc, hc', rfl⟩

theorem arm_case {slot : Slot} {done : Nat} {value : Expr} {body : List Stmt}
    (h : arm library slot done pc b (.case value body) = .ok (code, b')) :
    ∃ v eq test c inner, expr library b.resolve? value = .ok v ∧
      library.lookup Operation.eq.name = some eq ∧
      library.lookup Operation.toBool.name = some test ∧
      stmts library (pc + v.length + 4) b.enter body = .ok (c, inner) ∧
      code = v ++ [loadLocal slot, callRuntime eq, callRuntime test,
        jumpIfFalse (pc + v.length + 4 + c.length + 1).toUInt32] ++ c ++ [jump done.toUInt32] ∧
      b' = { b with used := inner.used } := by
  obtain ⟨v, hv, h⟩ := bind_eq_ok.1 h
  obtain ⟨eq, heq, h⟩ := bind_eq_ok.1 h
  obtain ⟨test, htest, h⟩ := bind_eq_ok.1 h
  obtain ⟨⟨c, inner⟩, hc, h⟩ := bind_eq_ok.1 h
  cases h
  exact ⟨v, eq, test, c, inner, hv, entry_eq_ok.1 heq, entry_eq_ok.1 htest, hc, rfl, rfl⟩

theorem arm_otherwise {slot : Slot} {done : Nat} {body : List Stmt}
    (h : arm library slot done pc b (.otherwise body) = .ok (code, b')) :
    ∃ c inner, stmts library pc b.enter body = .ok (c, inner) ∧
      code = c ++ [jump done.toUInt32] ∧ b' = { b with used := inner.used } := by
  obtain ⟨⟨c, inner⟩, hc, h⟩ := bind_eq_ok.1 h
  cases h
  exact ⟨c, inner, hc, rfl, rfl⟩

theorem arms_cons {slot : Slot} {done : Nat} {first : Arm} {rest : List Arm}
    (h : arms library slot done pc b (first :: rest) = .ok (code, b')) :
    ∃ c c' mid, arm library slot done pc b first = .ok (c, mid) ∧
      arms library slot done (pc + c.length) mid rest = .ok (c', b') ∧ code = c ++ c' := by
  obtain ⟨⟨c, mid⟩, hc, h⟩ := bind_eq_ok.1 h
  obtain ⟨⟨c', last⟩, hc', h⟩ := bind_eq_ok.1 h
  cases h
  exact ⟨c, c', mid, hc, hc', rfl⟩

theorem builtins_cons {total index : Nat} {name : String} {rest : List String}
    (h : builtins total index b (name :: rest) = .ok (code, b')) :
    ∃ c, index < 65536 ∧ b.used < 65536 ∧
      builtins total (index + 1) ⟨b.frames.insert name ⟨b.used.toUInt16⟩, b.used + 1⟩ rest =
        .ok (c, b') ∧
      code = loadBuiltin index.toUInt16 :: storeLocal ⟨b.used.toUInt16⟩ :: c := by
  obtain ⟨n, hn, h⟩ := bind_eq_ok.1 h
  obtain ⟨⟨slot, b₁⟩, hslot, h⟩ := bind_eq_ok.1 h
  obtain ⟨hlt, rfl⟩ := operand16_eq_ok.1 hn
  obtain ⟨hroom, rfl, rfl⟩ := allocate_declare_eq_ok.1 hslot
  obtain ⟨⟨c, b₂⟩, hc, h⟩ := bind_eq_ok.1 h
  cases h
  exact ⟨c, hlt, hroom, hc, rfl⟩

theorem program_eq_ok {globals : List String} {statements : List Stmt} {chunk : Chunk}
    (h : program library globals statements = .ok chunk) :
    ∃ start b₁ c b₂, builtins globals.length 0 {} globals = .ok (start, b₁) ∧
      stmts library start.length b₁ statements = .ok (c, b₂) ∧
      chunk = ⟨(start ++ c ++ [ret]).toArray, b₂.used⟩ := by
  obtain ⟨⟨start, b₁⟩, hstart, h⟩ := bind_eq_ok.1 h
  obtain ⟨⟨c, b₂⟩, hc, h⟩ := bind_eq_ok.1 h
  cases h
  exact ⟨start, b₁, c, b₂, hstart, hc, rfl⟩

/-! ## The length of code is its size -/

mutual

theorem length_expr : ∀ (e : Expr) {code : List Instruction},
    expr library slots e = .ok code → code.length = exprSize e
  | .binary left text right position, code, h => by
    obtain ⟨l, r, op, e, hl, hr, -, -, rfl⟩ := expr_binary h
    simp only [List.length_append, List.length_singleton, exprSize]
    rw [length_expr left hl, length_expr right hr]
  | .call callee arguments position, code, h => by
    obtain ⟨c, a, e, hc, -, ha, -, rfl⟩ := expr_call h
    simp only [List.length_append, List.length_singleton, exprSize]
    rw [length_expr callee hc, length_exprs arguments ha]
  | .parens inner position, code, h => by
    rw [expr_parens] at h
    rw [exprSize, length_expr inner h]
  | .number text position, code, h => by
    obtain ⟨n, -, rfl⟩ := expr_number h
    rfl
  | .identifier name position, code, h => by
    obtain ⟨slot, -, rfl⟩ := expr_identifier h
    rfl
  | .member object name position, code, h => (expr_member h).elim

theorem length_exprs : ∀ (es : List Expr) {index : Nat} {code : List Instruction},
    exprs library slots index es = .ok code → code.length = exprsSize es
  | [], index, code, h => by
    cases h
    rfl
  | argument :: rest, index, code, h => by
    obtain ⟨a, r, ha, hr, rfl⟩ := exprs_cons h
    simp only [List.length_append, List.length_singleton, exprsSize]
    rw [length_expr argument ha, length_exprs rest hr]

end

/-- An expression that has code has some. -/
theorem one_le_length_expr : ∀ (e : Expr) {code : List Instruction},
    expr library slots e = .ok code → 1 ≤ code.length
  | .binary left text right position, code, h => by
    obtain ⟨l, r, op, e, -, -, -, -, rfl⟩ := expr_binary h
    simp only [List.length_append, List.length_singleton]
    omega
  | .call callee arguments position, code, h => by
    obtain ⟨c, a, e, -, -, -, -, rfl⟩ := expr_call h
    simp only [List.length_append, List.length_singleton]
    omega
  | .parens inner position, code, h => by
    rw [expr_parens] at h
    exact one_le_length_expr inner h
  | .number text position, code, h => by
    obtain ⟨n, -, rfl⟩ := expr_number h
    simp
  | .identifier name position, code, h => by
    obtain ⟨slot, -, rfl⟩ := expr_identifier h
    simp
  | .member object name position, code, h => (expr_member h).elim

theorem length_condition {test : Expr} (h : condition library slots test = .ok code) :
    code.length = exprSize test + 1 := by
  obtain ⟨t, e, ht, -, rfl⟩ := condition_eq_ok h
  rw [List.length_append, length_expr test ht, List.length_singleton]

mutual

theorem length_stmt : ∀ (s : Stmt) {pc : Nat} {b b' : Blocks} {code : List Instruction},
    stmt library pc b s = .ok (code, b') → code.length = stmtSize s
  | .expression value position, pc, b, b', code, h => by
    obtain ⟨v, hv, rfl, -⟩ := stmt_expression h
    rw [List.length_append, length_expr value hv, List.length_singleton, stmtSize]
  | .declare name value position, pc, b, b', code, h => by
    obtain ⟨v, hv, -, rfl, -⟩ := stmt_declare h
    rw [List.length_append, length_expr value hv, List.length_singleton, stmtSize]
  | .assign name value position, pc, b, b', code, h => by
    obtain ⟨slot, v, -, hv, rfl, -⟩ := stmt_assign h
    rw [List.length_append, length_expr value hv, List.length_singleton, stmtSize]
  | .ifThen test body position, pc, b, b', code, h => by
    obtain ⟨t, c, inner, ht, hc, rfl, -⟩ := stmt_ifThen h
    simp only [List.length_append, List.length_singleton, stmtSize]
    rw [length_condition ht, length_stmts body hc]
  | .whileDo test body position, pc, b, b', code, h => by
    obtain ⟨t, c, inner, ht, hc, rfl, -⟩ := stmt_whileDo h
    simp only [List.length_append, List.length_singleton, stmtSize]
    rw [length_condition ht, length_stmts body hc]
  | .switch subject cases position, pc, b, b', code, h => by
    obtain ⟨v, c, hv, -, hc, rfl⟩ := stmt_switch h
    simp only [List.length_append, List.length_singleton, stmtSize]
    rw [length_expr subject hv, length_arms cases hc]

theorem length_stmts : ∀ (ss : List Stmt) {pc : Nat} {b b' : Blocks} {code : List Instruction},
    stmts library pc b ss = .ok (code, b') → code.length = stmtsSize ss
  | [], pc, b, b', code, h => by
    cases h
    rfl
  | first :: rest, pc, b, b', code, h => by
    obtain ⟨c, c', mid, hc, hc', rfl⟩ := stmts_cons h
    rw [List.length_append, length_stmt first hc, length_stmts rest hc', stmtsSize]

theorem length_arm : ∀ (a : Arm) {slot : Slot} {done pc : Nat} {b b' : Blocks}
    {code : List Instruction},
    arm library slot done pc b a = .ok (code, b') → code.length = armSize a
  | .case value body, slot, done, pc, b, b', code, h => by
    obtain ⟨v, eq, test, c, inner, hv, -, -, hc, rfl, -⟩ := arm_case h
    simp only [List.length_append, List.length_cons, List.length_nil, armSize]
    rw [length_expr value hv, length_stmts body hc]
  | .otherwise body, slot, done, pc, b, b', code, h => by
    obtain ⟨c, inner, hc, rfl, -⟩ := arm_otherwise h
    rw [List.length_append, List.length_singleton, length_stmts body hc, armSize]

theorem length_arms : ∀ (as : List Arm) {slot : Slot} {done pc : Nat} {b b' : Blocks}
    {code : List Instruction},
    arms library slot done pc b as = .ok (code, b') → code.length = armsSize as
  | [], slot, done, pc, b, b', code, h => by
    cases h
    rfl
  | first :: rest, slot, done, pc, b, b', code, h => by
    obtain ⟨c, c', mid, hc, hc', rfl⟩ := arms_cons h
    rw [List.length_append, length_arm first hc, length_arms rest hc', armsSize]

end

theorem length_builtins : ∀ (names : List String) {total index : Nat} {b b' : Blocks}
    {code : List Instruction},
    builtins total index b names = .ok (code, b') → code.length = 2 * names.length
  | [], total, index, b, b', code, h => by
    cases h
    rfl
  | name :: rest, total, index, b, b', code, h => by
    obtain ⟨c, -, -, hc, rfl⟩ := builtins_cons h
    rw [List.length_cons, List.length_cons, length_builtins rest hc, List.length_cons]
    omega

/-! ## What expressions consist of -/

/-- The instructions of expressions, for given visible slots. -/
inductive OfExpr (slots : String → Option Slot) : Instruction → Prop
  | loadInt (n : Int32) : OfExpr slots (loadInt n)
  | boxInt : OfExpr slots boxInt
  | loadLocal {name : String} {slot : Slot} (h : slots name = some slot) :
    OfExpr slots (loadLocal slot)
  | newArgs (n : UInt16) : OfExpr slots (newArgs n)
  | storeArg (n : UInt16) : OfExpr slots (storeArg n)
  | callRuntime (e : EntryPoint) : OfExpr slots (callRuntime e)

mutual

theorem ofExpr_expr : ∀ (e : Expr) {code : List Instruction},
    expr library slots e = .ok code → ∀ i ∈ code, OfExpr slots i
  | .binary left text right position, code, h => by
    obtain ⟨l, r, op, e, hl, hr, -, -, rfl⟩ := expr_binary h
    simp only [List.forall_mem_append, List.forall_mem_singleton]
    exact ⟨⟨ofExpr_expr left hl, ofExpr_expr right hr⟩, .callRuntime e⟩
  | .call callee arguments position, code, h => by
    obtain ⟨c, a, e, hc, -, ha, -, rfl⟩ := expr_call h
    simp only [List.forall_mem_append, List.forall_mem_singleton]
    exact ⟨⟨⟨ofExpr_expr callee hc, .newArgs _⟩, ofExpr_exprs arguments ha⟩, .callRuntime e⟩
  | .parens inner position, code, h => by
    rw [expr_parens] at h
    exact ofExpr_expr inner h
  | .number text position, code, h => by
    obtain ⟨n, -, rfl⟩ := expr_number h
    exact List.forall_mem_cons.2 ⟨.loadInt n, List.forall_mem_singleton.2 .boxInt⟩
  | .identifier name position, code, h => by
    obtain ⟨slot, hslot, rfl⟩ := expr_identifier h
    exact List.forall_mem_singleton.2 (.loadLocal hslot)
  | .member object name position, code, h => (expr_member h).elim

theorem ofExpr_exprs : ∀ (es : List Expr) {index : Nat} {code : List Instruction},
    exprs library slots index es = .ok code → ∀ i ∈ code, OfExpr slots i
  | [], index, code, h => by
    cases h
    exact List.forall_mem_nil _
  | argument :: rest, index, code, h => by
    obtain ⟨a, r, ha, hr, rfl⟩ := exprs_cons h
    simp only [List.forall_mem_append, List.forall_mem_singleton]
    exact ⟨⟨ofExpr_expr argument ha, .storeArg _⟩, ofExpr_exprs rest hr⟩

end

theorem ofExpr_condition {test : Expr} (h : condition library slots test = .ok code) :
    ∀ i ∈ code, OfExpr slots i := by
  obtain ⟨t, e, ht, -, rfl⟩ := condition_eq_ok h
  simp only [List.forall_mem_append, List.forall_mem_singleton]
  exact ⟨ofExpr_expr test ht, .callRuntime e⟩

end

end Layout

end StackScript
