import Mathlib.Tactic
import StackScript.Proofs.StackSafety

set_option autoImplicit false

/-!
# The shape of compiled code

Compilation never fails over a label, whatever the library exports. Where it succeeds, the code is
well formed (`Chunk.WellFormed`): one return, at its end; every operand of the kind without which
the machine refuses its opcode (`Machine.perform_of_not_operandFits`); slots, builtins, arguments
and targets in range; tests that branch forward only. Its backward jumps are those of the loops of
the program, one for each, and each leads to the condition of its loop. The main statement is
`Program.wellFormed_of_compile`.

Which collection an argument goes into is read off the code alone. `heldAfter` follows the stack
along the code and keeps for each collection the address of the instruction that has pushed it.
-/

namespace StackScript

/-! ## No errors about labels -/

/-- Whether an internal error is about the use of a label. -/
def InternalError.blamesLabel : InternalError → Bool
  | .unboundLabel _ | .labelRebound _ | .unknownLabel _ => true
  | .unresolvedOperation _ | .tooManyLocals | .tooManyOperands _ _ => false

namespace Layout

/-- A result that is not an error about a label. -/
def Labelless {α : Type} (x : Except CompileError α) : Prop :=
  ∀ e, x = .error (.internal e) → e.blamesLabel = false

namespace Labelless

variable {α β : Type}

theorem ok (a : α) : Labelless (.ok a) := by
  intro e he
  cases he

theorem diagnosed (d : Diagnostic) : Labelless (.error (.diagnosed d) : Except CompileError α) := by
  intro e he
  cases he

theorem internal {e : InternalError} (h : e.blamesLabel = false) :
    Labelless (.error (.internal e) : Except CompileError α) := by
  intro e' he'
  cases he'
  exact h

theorem bind {x : Except CompileError α} {f : α → Except CompileError β} (hx : Labelless x)
    (hf : ∀ a, Labelless (f a)) : Labelless (x >>= f) := by
  intro e he
  rcases bind_eq_error.1 he with he | ⟨a, -, he⟩
  · exact hx e he
  · exact hf a e he

theorem entry (library : Library) (op : Operation) : Labelless (entry library op) := by
  unfold Layout.entry
  cases library.lookup op.name with
  | none => exact internal rfl
  | some e => exact ok e

theorem slotOf (slots : String → Option Slot) (name : String) (position : Position) :
    Labelless (slotOf slots name position) := by
  unfold Layout.slotOf
  cases slots name with
  | none => exact diagnosed _
  | some slot => exact ok slot

theorem operator (text : String) (position : Position) : Labelless (operator text position) := by
  unfold Layout.operator
  cases Operation.ofOperator? text with
  | none => exact diagnosed _
  | some op => exact ok op

theorem literal (text : String) (position : Position) : Labelless (literal text position) := by
  unfold Layout.literal
  cases Literal.parse? text with
  | none => exact diagnosed _
  | some n => exact ok n

theorem operand16 (what : String) (count n : Nat) : Labelless (operand16 what count n) := by
  unfold Layout.operand16
  split
  · exact ok _
  · exact internal rfl

theorem fresh (b : Blocks) : Labelless (allocate b.fresh) := by
  unfold Blocks.fresh
  split
  · exact ok _
  · exact internal rfl

theorem declare (b : Blocks) (name : String) : Labelless (allocate (b.declare name)) := by
  unfold Blocks.declare
  split
  · exact ok _
  · exact internal rfl

mutual

theorem expr (library : Library) (slots : String → Option Slot) :
    ∀ e : Expr, Labelless (Layout.expr library slots e)
  | .binary left text right position =>
    (expr library slots left).bind fun _ => (expr library slots right).bind fun _ =>
      (operator text position).bind fun op => (entry library op).bind fun _ => ok _
  | .call callee arguments _ =>
    (expr library slots callee).bind fun _ => (operand16 _ _ _).bind fun _ =>
      (exprs library slots 0 arguments).bind fun _ => (entry library .call).bind fun _ => ok _
  | .parens inner _ => expr library slots inner
  | .number text position => (literal text position).bind fun _ => ok _
  | .identifier name position => (slotOf slots name position).bind fun _ => ok _
  | .member _ _ _ => diagnosed _

theorem exprs (library : Library) (slots : String → Option Slot) :
    ∀ (index : Nat) (es : List Expr), Labelless (Layout.exprs library slots index es)
  | _, [] => ok _
  | index, argument :: rest =>
    (expr library slots argument).bind fun _ =>
      (exprs library slots (index + 1) rest).bind fun _ => ok _

end

theorem condition (library : Library) (slots : String → Option Slot) (test : Expr) :
    Labelless (condition library slots test) :=
  (expr library slots test).bind fun _ => (entry library .toBool).bind fun _ => ok _

mutual

theorem stmt (library : Library) :
    ∀ (pc : Nat) (b : Blocks) (s : Stmt), Labelless (Layout.stmt library pc b s)
  | _, b, .expression value _ => (expr library b.resolve? value).bind fun _ => ok _
  | _, b, .declare name value _ =>
    (expr library b.resolve? value).bind fun _ => (declare b name).bind fun _ => ok _
  | _, b, .assign name value position =>
    (slotOf b.resolve? name position).bind fun _ =>
      (expr library b.resolve? value).bind fun _ => ok _
  | _, b, .ifThen test body _ =>
    (condition library b.resolve? test).bind fun _ =>
      (stmts library _ b.enter body).bind fun _ => ok _
  | _, b, .whileDo test body _ =>
    (condition library b.resolve? test).bind fun _ =>
      (stmts library _ b.enter body).bind fun _ => ok _
  | _, b, .switch subject cases _ =>
    (expr library b.resolve? subject).bind fun _ => (fresh b).bind fun r =>
      (arms library r.1 _ _ r.2 cases).bind fun _ => ok _

theorem stmts (library : Library) :
    ∀ (pc : Nat) (b : Blocks) (ss : List Stmt), Labelless (Layout.stmts library pc b ss)
  | _, _, [] => ok _
  | pc, b, first :: rest =>
    (stmt library pc b first).bind fun r => (stmts library _ r.2 rest).bind fun _ => ok _

theorem arm (library : Library) (slot : Slot) (done : Nat) :
    ∀ (pc : Nat) (b : Blocks) (a : Arm), Labelless (Layout.arm library slot done pc b a)
  | _, b, .case value body =>
    (expr library b.resolve? value).bind fun _ => (entry library .eq).bind fun _ =>
      (entry library .toBool).bind fun _ => (stmts library _ b.enter body).bind fun _ => ok _
  | pc, b, .otherwise body => (stmts library pc b.enter body).bind fun _ => ok _

theorem arms (library : Library) (slot : Slot) (done : Nat) :
    ∀ (pc : Nat) (b : Blocks) (as : List Arm), Labelless (Layout.arms library slot done pc b as)
  | _, _, [] => ok _
  | pc, b, first :: rest =>
    (arm library slot done pc b first).bind fun r =>
      (arms library slot done _ r.2 rest).bind fun _ => ok _

end

theorem builtins (total : Nat) : ∀ (index : Nat) (b : Blocks) (names : List String),
    Labelless (Layout.builtins total index b names)
  | _, _, [] => ok _
  | index, b, name :: rest =>
    (operand16 _ _ _).bind fun _ => (declare b name).bind fun r =>
      (builtins total (index + 1) r.2 rest).bind fun _ => ok _

theorem program (library : Library) (globals : List String) (statements : List Stmt) :
    Labelless (program library globals statements) :=
  (builtins globals.length 0 {} globals).bind fun r =>
    (stmts library r.1.length r.2 statements).bind fun _ => ok _

end Labelless

end Layout

/-! ## Operands that the machine wants -/

/-- The kinds of operands. -/
inductive OperandKind
  | int
  | slot
  | builtin
  | count
  | index
  | entry
  | target
deriving DecidableEq

/-- The kind of an operand. -/
def Operand.kind : Operand → OperandKind
  | int _ => .int
  | slot _ => .slot
  | builtin _ => .builtin
  | count _ => .count
  | index _ => .index
  | entry _ => .entry
  | target _ => .target

/-- The kind of operand that an opcode works with, if any. -/
def Opcode.operandKind : Opcode → Option OperandKind
  | loadInt => some .int
  | loadLocal | storeLocal => some .slot
  | loadBuiltin => some .builtin
  | newArgs => some .count
  | storeArg => some .index
  | callRuntime => some .entry
  | jump | jumpIfFalse => some .target
  | boxInt | pop | ret => none

/-- An operand is there exactly if the opcode wants one, and is of the kind that it wants. -/
def Instruction.OperandFits (i : Instruction) : Prop :=
  i.operand.map Operand.kind = i.opcode.operandKind

/-- The machine refuses to work without the operand that an opcode wants. -/
theorem Machine.perform_of_not_operandFits {σ : Type} (host : Host σ) {i : Instruction}
    (hwants : i.opcode.operandKind ≠ none) (hfits : ¬i.OperandFits) (s : State σ) :
    perform host i s = .stopped (s.outcome (.error (badOperand i.opcode))) := by
  obtain ⟨op, operand⟩ := i
  cases op with
  | boxInt | pop | ret => exact absurd rfl hwants
  | loadInt =>
    rcases operand with _ | (_ | _ | _ | _ | _ | _ | _)
    case some.int => exact absurd rfl hfits
    all_goals rfl
  | loadLocal | storeLocal =>
    rcases operand with _ | (_ | _ | _ | _ | _ | _ | _)
    case some.slot => exact absurd rfl hfits
    all_goals rfl
  | loadBuiltin =>
    rcases operand with _ | (_ | _ | _ | _ | _ | _ | _)
    case some.builtin => exact absurd rfl hfits
    all_goals rfl
  | newArgs =>
    rcases operand with _ | (_ | _ | _ | _ | _ | _ | _)
    case some.count => exact absurd rfl hfits
    all_goals rfl
  | storeArg =>
    rcases operand with _ | (_ | _ | _ | _ | _ | _ | _)
    case some.index => exact absurd rfl hfits
    all_goals rfl
  | callRuntime =>
    rcases operand with _ | (_ | _ | _ | _ | _ | _ | _)
    case some.entry => exact absurd rfl hfits
    all_goals rfl
  | jump | jumpIfFalse =>
    rcases operand with _ | (_ | _ | _ | _ | _ | _ | _)
    case some.target => exact absurd rfl hfits
    all_goals rfl

/-! ## The stack along the code -/

/-- A stack entry as far as code tells: a value, or an argument collection with the address of the
instruction that has pushed it. -/
inductive Held
  | value
  | collection (owner : Nat)
deriving DecidableEq

/-- The stack behind an instruction at an address. An operation on two entries leaves one, and one
that finds a single entry leaves it. -/
def Instruction.hold (i : Instruction) (pc : Nat) (stack : List Held) : List Held :=
  match i.opcode with
  | .loadInt | .loadLocal | .loadBuiltin => .value :: stack
  | .newArgs => .collection pc :: stack
  | .pop | .storeLocal | .storeArg | .jumpIfFalse => stack.tail
  | .callRuntime =>
    match stack with
    | _ :: _ :: rest => .value :: rest
    | stack => stack
  | .boxInt | .jump | .ret => stack

/-- The stack behind code that starts on a stack at an address. -/
def heldAfter (pc : Nat) (stack : List Held) : List Instruction → List Held
  | [] => stack
  | i :: is => heldAfter (pc + 1) (i.hold pc stack) is

/-- The stack before the instruction at an address. -/
def Chunk.heldAt (chunk : Chunk) (pc : Nat) : List Held :=
  heldAfter 0 [] (chunk.code.toList.take pc)

theorem heldAfter_append (pc : Nat) (stack : List Held) (is js : List Instruction) :
    heldAfter pc stack (is ++ js) = heldAfter (pc + is.length) (heldAfter pc stack is) js := by
  induction is generalizing pc stack with
  | nil => rfl
  | cons i is ih =>
    rw [List.cons_append, heldAfter, heldAfter, ih, List.length_cons, Nat.add_assoc,
      Nat.add_comm 1]

/-! ## Well-formed code -/

/-- Code that a machine with the given number of builtins can be trusted with. -/
structure Chunk.WellFormed (chunk : Chunk) (builtins : Nat) : Prop where
  /-- There is one return, at the end. -/
  returns : ∃ body, chunk.code.toList = body ++ [.ret] ∧ ∀ i ∈ body, i.opcode ≠ .ret
  operands : ∀ i ∈ chunk.code, i.OperandFits
  slots : ∀ i ∈ chunk.code, ∀ slot, i.operand = some (.slot slot) →
    slot.index.toNat < chunk.localCount
  builtins : ∀ i ∈ chunk.code, ∀ n, i.operand = some (.builtin n) → n.toNat < builtins
  /-- An argument goes into a collection that has its index. -/
  arguments : ∀ pc n, chunk.code[pc]? = some (.storeArg n) → ∃ owner count rest,
    chunk.heldAt pc = .value :: .collection owner :: rest ∧
      chunk.code[owner]? = some (.newArgs count) ∧ n.toNat < count.toNat
  branches : ∀ (pc : Nat) (a : UInt32), chunk.code[pc]? = some (.jumpIfFalse a) → pc < a.toNat
  targets : ∀ i ∈ chunk.code, ∀ a, i.target? = some a → a.toNat < chunk.code.size

/-- The address and the target of an instruction at an address that jumps backward. -/
def Instruction.backJump (i : Instruction) (pc : Nat) : List (Nat × Nat) :=
  match i.opcode, i.target? with
  | .jump, some a => if a.toNat ≤ pc then [(pc, a.toNat)] else []
  | _, _ => []

/-- The addresses and the targets of the backward jumps of code at an address. -/
def backJumps (pc : Nat) : List Instruction → List (Nat × Nat)
  | [] => []
  | i :: is => i.backJump pc ++ backJumps (pc + 1) is

/-- The backward jumps of a chunk, in the order of their addresses. -/
def Chunk.backJumps (chunk : Chunk) : List (Nat × Nat) :=
  StackScript.backJumps 0 chunk.code.toList

theorem backJumps_append (pc : Nat) (is js : List Instruction) :
    backJumps pc (is ++ js) = backJumps pc is ++ backJumps (pc + is.length) js := by
  induction is generalizing pc with
  | nil => rfl
  | cons i is ih =>
    rw [List.cons_append, backJumps, backJumps, ih, List.length_cons, List.append_assoc,
      Nat.add_assoc, Nat.add_comm 1]

/-! ## Loops of a tree -/

/-- A loop in code: its condition, where that starts, and where the jump back stands. -/
structure Loop where
  test : Expr
  head : Nat
  back : Nat

/-- The address and the target of the jump of a loop. -/
def Loop.jump (l : Loop) : Nat × Nat := (l.back, l.head)

namespace Layout

mutual

/-- The loops of a statement at an address, in the order of their jumps. -/
def stmtLoops (pc : Nat) : Stmt → List Loop
  | .expression _ _ => []
  | .declare _ _ _ => []
  | .assign _ _ _ => []
  | .ifThen test body _ => stmtsLoops (pc + exprSize test + 2) body
  | .whileDo test body _ =>
    stmtsLoops (pc + exprSize test + 2) body ++
      [⟨test, pc, pc + exprSize test + 2 + stmtsSize body⟩]
  | .switch subject cases _ => armsLoops (pc + exprSize subject + 1) cases

/-- The loops of statements. -/
def stmtsLoops (pc : Nat) : List Stmt → List Loop
  | [] => []
  | first :: rest => stmtLoops pc first ++ stmtsLoops (pc + stmtSize first) rest

/-- The loops of an arm. -/
def armLoops (pc : Nat) : Arm → List Loop
  | .case value body => stmtsLoops (pc + exprSize value + 4) body
  | .otherwise body => stmtsLoops pc body

/-- The loops of arms. -/
def armsLoops (pc : Nat) : List Arm → List Loop
  | [] => []
  | first :: rest => armLoops pc first ++ armsLoops (pc + armSize first) rest

end

end Layout

/-- The loops of a program, behind the two instructions that install each builtin. -/
def Program.loops (p : Program) (globals : List String) : List Loop :=
  Layout.stmtsLoops (2 * globals.length) p.statements

/-! ## Pieces of code -/

open Machine (StandsAt)

/-- What an instruction at an address needs to be part of well-formed code, on a given stack. A
return is not such a part. -/
inductive Legal (code : Array Instruction) (count builtins pc : Nat) (stack : List Held) :
    Instruction → Prop
  | loadInt (n : Int32) : Legal code count builtins pc stack (.loadInt n)
  | boxInt : Legal code count builtins pc stack .boxInt
  | pop : Legal code count builtins pc stack .pop
  | loadLocal {slot : Slot} (h : slot.index.toNat < count) :
    Legal code count builtins pc stack (.loadLocal slot)
  | storeLocal {slot : Slot} (h : slot.index.toNat < count) :
    Legal code count builtins pc stack (.storeLocal slot)
  | loadBuiltin {n : UInt16} (h : n.toNat < builtins) :
    Legal code count builtins pc stack (.loadBuiltin n)
  | newArgs (n : UInt16) : Legal code count builtins pc stack (.newArgs n)
  | storeArg {n size : UInt16} {owner : Nat} {rest : List Held}
      (hstack : stack = .value :: .collection owner :: rest)
      (howner : code[owner]? = some (.newArgs size)) (h : n.toNat < size.toNat) :
    Legal code count builtins pc stack (.storeArg n)
  | callRuntime (e : EntryPoint) : Legal code count builtins pc stack (.callRuntime e)
  | jump {a : UInt32} (h : a.toNat < code.size) : Legal code count builtins pc stack (.jump a)
  | jumpIfFalse {a : UInt32} (h : a.toNat < code.size) (hforward : pc < a.toNat) :
    Legal code count builtins pc stack (.jumpIfFalse a)

/-- All instructions of code at an address are legal on the stacks along it. -/
def LegalFrom (code : Array Instruction) (count builtins : Nat) :
    Nat → List Held → List Instruction → Prop
  | _, _, [] => True
  | pc, stack, i :: is =>
    Legal code count builtins pc stack i ∧
      LegalFrom code count builtins (pc + 1) (i.hold pc stack) is

/-- The code of its condition stands where a loop starts. -/
def Loop.Enters (library : Library) (code : Array Instruction) (l : Loop) : Prop :=
  ∃ slots test, Layout.condition library slots l.test = .ok test ∧ StandsAt code l.head test

/-- A piece of well-formed code at an address, which leads from one stack to another and has the
jumps of the given loops. -/
structure Shaped (library : Library) (code : Array Instruction) (count builtins pc : Nat)
    (stack stack' : List Held) (loops : List Loop) (is : List Instruction) : Prop where
  legal : LegalFrom code count builtins pc stack is
  held : heldAfter pc stack is = stack'
  back : backJumps pc is = loops.map Loop.jump
  heads : ∀ l ∈ loops, l.Enters library code

section

variable {library : Library} {code : Array Instruction} {count builtins pc : Nat}
  {stack stack' stack'' : List Held} {loops loops' : List Loop} {i : Instruction}
  {is js : List Instruction}

theorem LegalFrom.append (h : LegalFrom code count builtins pc stack is)
    (h' : LegalFrom code count builtins (pc + is.length) (heldAfter pc stack is) js) :
    LegalFrom code count builtins pc stack (is ++ js) := by
  induction is generalizing pc stack with
  | nil => exact h'
  | cons i is ih =>
    refine ⟨h.1, ih h.2 ?_⟩
    rwa [List.length_cons, ← Nat.add_assoc, Nat.add_right_comm] at h'

/-- Each instruction is legal on the stack that the code before it leaves. -/
theorem LegalFrom.legal_at (h : LegalFrom code count builtins pc stack is) {k : Nat}
    (hi : is[k]? = some i) :
    Legal code count builtins (pc + k) (heldAfter pc stack (is.take k)) i := by
  induction is generalizing pc stack k with
  | nil => cases hi
  | cons j is ih =>
    cases k with
    | zero =>
      cases hi
      exact h.1
    | succ k =>
      rw [← Nat.add_assoc, Nat.add_right_comm]
      exact ih h.2 hi

namespace Shaped

theorem nil (stack : List Held) : Shaped library code count builtins pc stack stack [] [] :=
  ⟨trivial, rfl, rfl, List.forall_mem_nil _⟩

theorem append {pc' : Nat} (h : Shaped library code count builtins pc stack stack' loops is)
    (h' : Shaped library code count builtins pc' stack' stack'' loops' js)
    (hpc : pc' = pc + is.length) :
    Shaped library code count builtins pc stack stack'' (loops ++ loops') (is ++ js) := by
  subst hpc
  constructor
  · apply h.legal.append
    rw [h.held]
    exact h'.legal
  · rw [heldAfter_append, h.held, h'.held]
  · rw [backJumps_append, h.back, h'.back, List.map_append]
  · exact List.forall_mem_append.2 ⟨h.heads, h'.heads⟩

theorem single (h : Legal code count builtins pc stack i) (hback : i.backJump pc = []) :
    Shaped library code count builtins pc stack (i.hold pc stack) [] [i] :=
  ⟨⟨h, trivial⟩, rfl, by rw [backJumps, hback]; rfl, List.forall_mem_nil _⟩

/-- A test takes the truth value and branches forward. -/
theorem test {target : Nat} (hforward : pc < target) (htarget : target < code.size)
    (hsize : code.size ≤ 2 ^ 32) :
    Shaped library code count builtins pc (.value :: stack) stack []
      [.jumpIfFalse target.toUInt32] := by
  have haddress : target.toUInt32.toNat = target := toNat_toUInt32 (htarget.trans_le hsize)
  exact single (.jumpIfFalse (haddress.symm ▸ htarget) (haddress.symm ▸ hforward)) rfl

/-- Code may be followed by a jump forward. -/
theorem before_jump {target : Nat} (h : Shaped library code count builtins pc stack stack' loops is)
    (hforward : pc + is.length < target) (htarget : target < code.size)
    (hsize : code.size ≤ 2 ^ 32) :
    Shaped library code count builtins pc stack stack' loops
      (is ++ [Instruction.jump target.toUInt32]) := by
  have haddress : target.toUInt32.toNat = target := toNat_toUInt32 (htarget.trans_le hsize)
  have hback : (Instruction.jump target.toUInt32).backJump (pc + is.length) = [] := by
    show (if target.toUInt32.toNat ≤ pc + is.length then _ else []) = []
    rw [haddress, if_neg (Nat.not_le.2 hforward)]
  rw [← List.append_nil loops]
  exact h.append (single (.jump (haddress.symm ▸ htarget)) hback) rfl

/-- The round of a loop is closed by a jump back to its condition. -/
theorem close_loop {test : Expr} {slots : String → Option Slot} {t : List Instruction}
    (h : Shaped library code count builtins pc stack stack' loops is)
    (htest : Layout.condition library slots test = .ok t) (hcode : StandsAt code pc t)
    (hend : pc + is.length < code.size) (hsize : code.size ≤ 2 ^ 32) :
    Shaped library code count builtins pc stack stack' (loops ++ [⟨test, pc, pc + is.length⟩])
      (is ++ [Instruction.jump pc.toUInt32]) := by
  have hlt : pc < code.size := (Nat.le_add_right _ _).trans_lt hend
  have haddress : pc.toUInt32.toNat = pc := toNat_toUInt32 (hlt.trans_le hsize)
  refine h.append ⟨⟨.jump (haddress.symm ▸ hlt), trivial⟩, rfl, ?_, ?_⟩ rfl
  · show (if pc.toUInt32.toNat ≤ pc + is.length then [(pc + is.length, pc.toUInt32.toNat)]
      else []) ++ [] = _
    rw [haddress, if_pos (Nat.le_add_right _ _)]
    rfl
  · exact List.forall_mem_singleton.2 ⟨slots, t, htest, hcode⟩

end Shaped

end

/-! ## The pieces of a tree -/

section

variable {library : Library} {code : Array Instruction} {count : Nat}

mutual

/-- An expression leaves a value. -/
theorem expr_shaped (builtins : Nat) {slots : String → Option Slot}
    (hslots : SlotsBelow count slots) : ∀ (e : Expr) {is : List Instruction},
    Layout.expr library slots e = .ok is → ∀ {pc : Nat} (stack : List Held), StandsAt code pc is →
    Shaped library code count builtins pc stack (.value :: stack) [] is
  | .binary left text right position, is, hlay, pc, stack, hcode => by
    obtain ⟨l, r, op, entry, hl, hr, -, -, rfl⟩ := Layout.expr_binary hlay
    have hleft := expr_shaped builtins hslots left hl stack hcode.left.left
    have hright := expr_shaped builtins hslots right hr (.value :: stack) hcode.left.right
    exact (hleft.append hright rfl).append (.single (.callRuntime entry) rfl) rfl
  | .call callee arguments position, is, hlay, pc, stack, hcode => by
    obtain ⟨c, a, entry, hc, hcount, ha, -, rfl⟩ := Layout.expr_call hlay
    have hcallee := expr_shaped builtins hslots callee hc stack hcode.left.left.left
    -- the arguments go into the collection that is pushed behind the callee
    have howner := hcode.left.left.right.head
    have hfits : 0 + arguments.length ≤ arguments.length.toUInt16.toNat := by
      rw [toNat_toUInt16 hcount, Nat.zero_add]
    have harguments := exprs_shaped builtins hslots arguments ha howner hfits (.value :: stack)
      hcode.left.right
    exact ((hcallee.append (.single (.newArgs _) rfl) rfl).append harguments rfl).append
      (.single (.callRuntime entry) rfl) rfl
  | .parens inner position, is, hlay, pc, stack, hcode => by
    rw [Layout.expr_parens] at hlay
    exact expr_shaped builtins hslots inner hlay stack hcode
  | .number text position, is, hlay, pc, stack, hcode => by
    obtain ⟨n, -, rfl⟩ := Layout.expr_number hlay
    exact Shaped.append (.single (.loadInt n) rfl) (.single .boxInt rfl) rfl
  | .identifier name position, is, hlay, pc, stack, hcode => by
    obtain ⟨slot, hslot, rfl⟩ := Layout.expr_identifier hlay
    exact .single (.loadLocal (hslots name slot hslot)) rfl
  | .member object name position, is, hlay, pc, stack, hcode => (Layout.expr_member hlay).elim

/-- Arguments go into the collection on top of the stack, each at an index that it has. -/
theorem exprs_shaped (builtins : Nat) {slots : String → Option Slot}
    (hslots : SlotsBelow count slots) : ∀ (es : List Expr) {index : Nat} {is : List Instruction},
    Layout.exprs library slots index es = .ok is → ∀ {owner : Nat} {size : UInt16},
    code[owner]? = some (.newArgs size) → index + es.length ≤ size.toNat →
    ∀ {pc : Nat} (stack : List Held), StandsAt code pc is →
    Shaped library code count builtins pc (.collection owner :: stack)
      (.collection owner :: stack) [] is
  | [], index, is, hlay, owner, size, howner, hfits, pc, stack, hcode => by
    cases hlay
    exact .nil _
  | argument :: rest, index, is, hlay, owner, size, howner, hfits, pc, stack, hcode => by
    obtain ⟨a, r, ha, hr, rfl⟩ := Layout.exprs_cons hlay
    rw [List.length_cons] at hfits
    have hargument := expr_shaped builtins hslots argument ha (.collection owner :: stack)
      hcode.left.left
    have hrest := exprs_shaped builtins hslots rest hr howner (by omega) stack hcode.right
    -- with this argument and the rest still to come, the index is one that the collection has
    have hindex : index.toUInt16.toNat < size.toNat := by
      have hbound := size.toNat_lt
      rw [toNat_toUInt16 (by omega)]
      omega
    exact (hargument.append (.single (.storeArg rfl howner hindex) rfl) rfl).append hrest rfl

end

/-- A condition and its test end on the stack on which they start. -/
theorem test_shaped (builtins : Nat) {slots : String → Option Slot}
    (hslots : SlotsBelow count slots) {test : Expr} {t : List Instruction}
    (hlay : Layout.condition library slots test = .ok t) {pc target : Nat}
    (hcode : StandsAt code pc t) (hforward : pc + t.length < target) (htarget : target < code.size)
    (hsize : code.size ≤ 2 ^ 32) :
    Shaped library code count builtins pc [] [] []
      (t ++ [Instruction.jumpIfFalse target.toUInt32]) := by
  obtain ⟨c, entry, hc, -, rfl⟩ := Layout.condition_eq_ok hlay
  have hvalue := expr_shaped builtins hslots test hc [] hcode.left
  exact (hvalue.append (.single (.callRuntime entry) rfl) rfl).append
    (.test hforward htarget hsize) rfl

/-- The comparison of a value with the subject, and its test, take the value. -/
theorem comparison_shaped (library : Library) (builtins : Nat) (equal truth : EntryPoint)
    {slot : Slot} (hslot : slot.index.toNat < count) (pc : Nat) {target : Nat}
    (hforward : pc + 3 < target) (htarget : target < code.size) (hsize : code.size ≤ 2 ^ 32) :
    Shaped library code count builtins pc [.value] [] [] [.loadLocal slot, .callRuntime equal,
      .callRuntime truth, .jumpIfFalse target.toUInt32] := by
  refine Shaped.append (.single (.loadLocal hslot) rfl) ?_ rfl
  refine Shaped.append (.single (.callRuntime equal) rfl) ?_ rfl
  exact Shaped.append (.single (.callRuntime truth) rfl) (.test hforward htarget hsize) rfl

mutual

/-- A statement is well formed, and its backward jumps are those of its loops. -/
theorem stmt_shaped (builtins : Nat) (hsize : code.size ≤ 2 ^ 32) : ∀ (s : Stmt) {pc : Nat}
    {b b' : Blocks} {is : List Instruction}, Layout.stmt library pc b s = .ok (is, b') → b.Valid →
    b'.used ≤ count → StandsAt code pc is → pc + is.length < code.size →
    Shaped library code count builtins pc [] [] (Layout.stmtLoops pc s) is
  | .expression value position, pc, b, b', is, hlay, hb, hcount, hcode, hend => by
    obtain ⟨v, hv, rfl, rfl⟩ := Layout.stmt_expression hlay
    have hvalue := expr_shaped builtins (hb.slotsBelow hcount) value hv [] hcode.left
    exact hvalue.append (.single .pop rfl) rfl
  | .declare name value position, pc, b, b', is, hlay, hb, hcount, hcode, hend => by
    obtain ⟨v, hv, hroom, rfl, rfl⟩ := Layout.stmt_declare hlay
    have hslots := hb.slotsBelow (Nat.le_of_succ_le hcount)
    have hvalue := expr_shaped builtins hslots value hv [] hcode.left
    have hslot : (slotAt b.used).index.toNat < count := by
      rw [toNat_slotAt hroom]
      exact hcount
    exact hvalue.append (.single (.storeLocal hslot) rfl) rfl
  | .assign name value position, pc, b, b', is, hlay, hb, hcount, hcode, hend => by
    obtain ⟨slot, v, hslot, hv, rfl, rfl⟩ := Layout.stmt_assign hlay
    have hslots := hb.slotsBelow hcount
    have hvalue := expr_shaped builtins hslots value hv [] hcode.left
    exact hvalue.append (.single (.storeLocal (hslots name slot hslot)) rfl) rfl
  | .ifThen test body position, pc, b, b', is, hlay, hb, hcount, hcode, hend => by
    obtain ⟨t, c, inner, ht, hc, rfl, rfl⟩ := Layout.stmt_ifThen hlay
    simp only [List.length_append, List.length_singleton, ← Nat.add_assoc] at hend
    have hlength := Layout.length_condition ht
    have hslots := hb.slotsBelow ((Layout.extends_stmts body hc).used_le.trans hcount)
    have hbody := stmts_shaped builtins hsize body hc hb.enter hcount
      (hcode.right_at (by simp [Nat.add_assoc])) hend
    have htest := test_shaped builtins hslots ht hcode.left.left (by omega) hend hsize
    rw [Layout.stmtLoops, show pc + Layout.exprSize test + 2 = pc + t.length + 1 by omega]
    exact htest.append hbody (by simp [Nat.add_assoc])
  | .whileDo test body position, pc, b, b', is, hlay, hb, hcount, hcode, hend => by
    obtain ⟨t, c, inner, ht, hc, rfl, rfl⟩ := Layout.stmt_whileDo hlay
    simp only [List.length_append, List.length_singleton, ← Nat.add_assoc] at hend
    have hlength := Layout.length_condition ht
    have hslots := hb.slotsBelow ((Layout.extends_stmts body hc).used_le.trans hcount)
    have hbody := stmts_shaped builtins hsize body hc hb.enter hcount
      (hcode.left.right_at (by simp [Nat.add_assoc])) (by omega)
    have htest := test_shaped builtins hslots ht hcode.left.left.left (by omega) hend hsize
    have hround := htest.append hbody (by simp [Nat.add_assoc])
    -- the jump back stands behind the round and leads to where it starts; inner loops come first
    have hloop := hround.close_loop ht hcode.left.left.left
      (by simp only [List.length_append, List.length_singleton]; omega) hsize
    simp only [List.length_append, List.length_singleton, List.nil_append, ← Nat.add_assoc] at hloop
    rw [Layout.stmtLoops, ← Layout.length_stmts body hc,
      show pc + Layout.exprSize test + 2 = pc + t.length + 1 by omega]
    exact hloop
  | .switch subject cases position, pc, b, b', is, hlay, hb, hcount, hcode, hend => by
    obtain ⟨v, c, hv, hroom, hc, rfl⟩ := Layout.stmt_switch hlay
    simp only [List.length_append, List.length_singleton, ← Nat.add_assoc] at hend
    have hused : b.used + 1 ≤ count := (Layout.extends_arms cases hc).used_le.trans hcount
    have hslot : (slotAt b.used).index.toNat < count := by
      rw [toNat_slotAt hroom]
      exact hused
    have hslots := hb.slotsBelow (Nat.le_of_succ_le hused)
    have hvalue := expr_shaped builtins hslots subject hv [] hcode.left.left
    rw [← Layout.length_arms cases hc] at hc
    have harms := arms_shaped builtins hsize cases hc ((Blocks.Extends.fresh hroom).valid hb)
      hcount hslot le_rfl hend (hcode.right_at (by simp [Nat.add_assoc]))
    rw [Layout.stmtLoops, ← Layout.length_expr subject hv]
    exact (hvalue.append (.single (.storeLocal hslot) rfl) rfl).append harms
      (by simp [Nat.add_assoc])

/-- Statements are well formed. -/
theorem stmts_shaped (builtins : Nat) (hsize : code.size ≤ 2 ^ 32) : ∀ (ss : List Stmt) {pc : Nat}
    {b b' : Blocks} {is : List Instruction}, Layout.stmts library pc b ss = .ok (is, b') →
    b.Valid → b'.used ≤ count → StandsAt code pc is → pc + is.length < code.size →
    Shaped library code count builtins pc [] [] (Layout.stmtsLoops pc ss) is
  | [], pc, b, b', is, hlay, hb, hcount, hcode, hend => by
    cases hlay
    exact .nil []
  | first :: rest, pc, b, b', is, hlay, hb, hcount, hcode, hend => by
    obtain ⟨c, c', mid, hc, hc', rfl⟩ := Layout.stmts_cons hlay
    rw [List.length_append, ← Nat.add_assoc] at hend
    have hvalid := (Layout.extends_stmt first hc).valid hb
    have hused := (Layout.extends_stmts rest hc').used_le.trans hcount
    have hfirst := stmt_shaped builtins hsize first hc hb hused hcode.left (by omega)
    have hrest := stmts_shaped builtins hsize rest hc' hvalid hcount hcode.right hend
    rw [Layout.stmtsLoops, ← Layout.length_stmt first hc]
    exact hfirst.append hrest rfl

/-- An arm is well formed, if the switch ends at or behind its end. -/
theorem arm_shaped (builtins : Nat) (hsize : code.size ≤ 2 ^ 32) : ∀ (a : Arm) {slot : Slot}
    {done pc : Nat} {b b' : Blocks} {is : List Instruction},
    Layout.arm library slot done pc b a = .ok (is, b') → b.Valid → b'.used ≤ count →
    slot.index.toNat < count → pc + is.length ≤ done → done < code.size → StandsAt code pc is →
    Shaped library code count builtins pc [] [] (Layout.armLoops pc a) is
  | .case value body, slot, done, pc, b, b', is, hlay, hb, hcount, hslot, hdone, hend, hcode => by
    obtain ⟨v, equal, truth, c, inner, hv, -, -, hc, rfl, rfl⟩ := Layout.arm_case hlay
    simp only [List.length_append, List.length_cons, List.length_nil, ← Nat.add_assoc,
      Nat.add_zero] at hdone
    have hslots := hb.slotsBelow ((Layout.extends_stmts body hc).used_le.trans hcount)
    have hvalue := expr_shaped builtins hslots value hv [] hcode.left.left.left
    have hbody := stmts_shaped builtins hsize body hc hb.enter hcount
      (hcode.left.right_at (by simp [Nat.add_assoc])) (by omega)
    have htest := comparison_shaped library builtins equal truth hslot (pc + v.length) (by omega)
      (show pc + v.length + 4 + c.length + 1 < code.size by omega) hsize
    rw [Layout.armLoops, ← Layout.length_expr value hv]
    refine ((hvalue.append htest rfl).append hbody (by simp [Nat.add_assoc])).before_jump ?_ hend
      hsize
    simp only [List.length_append, List.length_cons, List.length_nil]
    omega
  | .otherwise body, slot, done, pc, b, b', is, hlay, hb, hcount, hslot, hdone, hend, hcode => by
    obtain ⟨c, inner, hc, rfl, rfl⟩ := Layout.arm_otherwise hlay
    rw [List.length_append, List.length_singleton] at hdone
    have hbody := stmts_shaped builtins hsize body hc hb.enter hcount hcode.left (by omega)
    rw [Layout.armLoops]
    exact hbody.before_jump (by omega) hend hsize

/-- Arms are well formed. -/
theorem arms_shaped (builtins : Nat) (hsize : code.size ≤ 2 ^ 32) : ∀ (as : List Arm) {slot : Slot}
    {done pc : Nat} {b b' : Blocks} {is : List Instruction},
    Layout.arms library slot done pc b as = .ok (is, b') → b.Valid → b'.used ≤ count →
    slot.index.toNat < count → pc + is.length ≤ done → done < code.size → StandsAt code pc is →
    Shaped library code count builtins pc [] [] (Layout.armsLoops pc as) is
  | [], slot, done, pc, b, b', is, hlay, hb, hcount, hslot, hdone, hend, hcode => by
    cases hlay
    exact .nil []
  | first :: rest, slot, done, pc, b, b', is, hlay, hb, hcount, hslot, hdone, hend, hcode => by
    obtain ⟨c, c', mid, hc, hc', rfl⟩ := Layout.arms_cons hlay
    rw [List.length_append, ← Nat.add_assoc] at hdone
    have hvalid := (Layout.extends_arm first hc).valid hb
    have hused := (Layout.extends_arms rest hc').used_le.trans hcount
    have hfirst := arm_shaped builtins hsize first hc hb hused hslot (by omega) hend hcode.left
    have hrest := arms_shaped builtins hsize rest hc' hvalid hcount hslot hdone hend hcode.right
    rw [Layout.armsLoops, ← Layout.length_arm first hc]
    exact hfirst.append hrest rfl

end

/-- The code that installs builtins is well formed. -/
theorem builtins_shaped (library : Library) (code : Array Instruction) {builtins : Nat} :
    ∀ (names : List String) {total index : Nat} {b b' : Blocks} {is : List Instruction},
    Layout.builtins total index b names = .ok (is, b') → index + names.length ≤ builtins →
    b'.used ≤ count → ∀ (pc : Nat), Shaped library code count builtins pc [] [] [] is
  | [], total, index, b, b', is, hlay, hnames, hcount, pc => by
    cases hlay
    exact .nil []
  | name :: rest, total, index, b, b', is, hlay, hnames, hcount, pc => by
    obtain ⟨c, hindex, hroom, hc, rfl⟩ := Layout.builtins_cons hlay
    rw [List.length_cons] at hnames
    have hbuiltin : index.toUInt16.toNat < builtins := by
      rw [toNat_toUInt16 hindex]
      omega
    have hslot : (slotAt b.used).index.toNat < count := by
      rw [toNat_slotAt hroom]
      exact (Layout.extends_builtins rest hc).used_le.trans hcount
    have hrest : Shaped library code count builtins (pc + 1 + 1) [] [] [] c :=
      builtins_shaped library code rest hc (by omega) hcount (pc + 1 + 1)
    refine Shaped.append (.single (.loadBuiltin hbuiltin) rfl) ?_ rfl
    exact Shaped.append (.single (.storeLocal hslot) rfl) hrest rfl

/-- A program is a well-formed piece of code and a return. -/
theorem program_shaped {p : Program} {globals : List String} {chunk : Chunk}
    (hlay : Layout.program library globals p.statements = .ok chunk)
    (hsize : chunk.code.size < 2 ^ 32) :
    ∃ body, chunk.code.toList = body ++ [Instruction.ret] ∧
      Shaped library chunk.code chunk.localCount globals.length 0 [] [] (p.loops globals) body := by
  obtain ⟨start, b₁, c, b₂, hstart, hc, rfl⟩ := Layout.program_eq_ok hlay
  refine ⟨start ++ c, rfl, ?_⟩
  have hcode := Machine.standsAt_toArray (start ++ c ++ [Instruction.ret])
  have hinstalled := Layout.extends_builtins globals hstart
  have hused := (Layout.extends_stmts _ hc).used_le
  have hbuiltins := builtins_shaped library (start ++ c ++ [Instruction.ret]).toArray globals hstart
    (Nat.le_of_eq (Nat.zero_add _)) hused 0
  have hstatements := stmts_shaped globals.length hsize.le p.statements hc
    (hinstalled.valid .empty) le_rfl (hcode.left.right_at (Nat.zero_add _).symm)
    (by simp only [List.size_toArray, List.length_append, List.length_singleton]; omega)
  rw [Program.loops, ← Layout.length_builtins globals hstart]
  exact hbuiltins.append hstatements (Nat.zero_add _).symm

end

/-! ## Compiled code is well formed -/

namespace Legal

variable {code : Array Instruction} {count builtins pc : Nat} {stack : List Held} {i : Instruction}

theorem opcode_ne_ret (h : Legal code count builtins pc stack i) : i.opcode ≠ .ret := by
  cases h <;> intro hret <;> cases hret

theorem operandFits (h : Legal code count builtins pc stack i) : i.OperandFits := by
  cases h <;> rfl

theorem slot_lt (h : Legal code count builtins pc stack i) {slot : Slot}
    (hi : i.operand = some (.slot slot)) : slot.index.toNat < count := by
  cases h with
  | loadLocal h | storeLocal h =>
    cases hi
    exact h
  | _ => cases hi

theorem builtin_lt (h : Legal code count builtins pc stack i) {n : UInt16}
    (hi : i.operand = some (.builtin n)) : n.toNat < builtins := by
  cases h with
  | loadBuiltin h =>
    cases hi
    exact h
  | _ => cases hi

theorem target_lt (h : Legal code count builtins pc stack i) {a : UInt32}
    (hi : i.target? = some a) : a.toNat < code.size := by
  cases h with
  | jump h | jumpIfFalse h =>
    cases hi
    exact h
  | _ => cases hi

end Legal

section

variable {library : Library} {chunk : Chunk} {builtins : Nat} {loops : List Loop}
  {body : List Instruction}

/-- Every instruction of such a program is its return or legal on the stack before it. -/
theorem Shaped.ret_or_legal (hbody : chunk.code.toList = body ++ [Instruction.ret])
    (h : Shaped library chunk.code chunk.localCount builtins 0 [] [] loops body) {pc : Nat}
    {i : Instruction} (hi : chunk.code[pc]? = some i) :
    i = .ret ∨ Legal chunk.code chunk.localCount builtins pc (chunk.heldAt pc) i := by
  rw [← Array.getElem?_toList, hbody] at hi
  -- an address in the body, or the one behind it
  by_cases hpc : pc < body.length
  · right
    rw [List.getElem?_append_left hpc] at hi
    rw [Chunk.heldAt, hbody, List.take_append_of_le_length hpc.le, ← Nat.zero_add pc]
    have hlegal := h.legal.legal_at hi
    simpa only [Nat.zero_add] using hlegal
  · left
    rw [List.getElem?_append_right (Nat.le_of_not_lt hpc)] at hi
    exact List.mem_singleton.1 (List.mem_of_getElem? hi)

/-- A well-formed piece of code with a return behind it is a well-formed program. -/
theorem Shaped.wellFormed (hbody : chunk.code.toList = body ++ [Instruction.ret])
    (h : Shaped library chunk.code chunk.localCount builtins 0 [] [] loops body) :
    chunk.WellFormed builtins := by
  have hmem : ∀ i ∈ chunk.code, i = .ret ∨
      ∃ pc stack, Legal chunk.code chunk.localCount builtins pc stack i := by
    intro i hi
    obtain ⟨pc, hpc⟩ := Array.mem_iff_getElem?.1 hi
    exact (h.ret_or_legal hbody hpc).imp_right fun hlegal => ⟨pc, _, hlegal⟩
  constructor
  case returns =>
    refine ⟨body, hbody, fun i hi => ?_⟩
    obtain ⟨k, hk⟩ := List.mem_iff_getElem?.1 hi
    exact (h.legal.legal_at hk).opcode_ne_ret
  case operands =>
    intro i hi
    rcases hmem i hi with rfl | ⟨pc, stack, hlegal⟩
    · rfl
    · exact hlegal.operandFits
  case slots =>
    intro i hi slot hslot
    rcases hmem i hi with rfl | ⟨pc, stack, hlegal⟩
    · cases hslot
    · exact hlegal.slot_lt hslot
  case builtins =>
    intro i hi n hn
    rcases hmem i hi with rfl | ⟨pc, stack, hlegal⟩
    · cases hn
    · exact hlegal.builtin_lt hn
  case arguments =>
    intro pc n hi
    rcases h.ret_or_legal hbody hi with hret | hlegal
    · cases hret
    · cases hlegal with
      | storeArg hstack howner hn => exact ⟨_, _, _, hstack, howner, hn⟩
  case branches =>
    intro pc a hi
    rcases h.ret_or_legal hbody hi with hret | hlegal
    · cases hret
    · cases hlegal with
      | jumpIfFalse _ hforward => exact hforward
  case targets =>
    intro i hi a ha
    rcases hmem i hi with rfl | ⟨pc, stack, hlegal⟩
    · cases ha
    · exact hlegal.target_lt ha

end

/-- **Compiled code is well formed.** Let the draft of a program have fewer than `2 ^ 32`
instructions. Then compilation does not fail over a label. If it succeeds, the code is well formed;
its backward jumps are those of the loops of the program, in their order; and each loop starts with
the code of its condition. -/
theorem Program.wellFormed_of_compile {library : Library} {table : BuiltinTable} {p : Program}
    (hsize : (p.draft library table.names).size < 2 ^ 32) :
    (∀ e, p.compile library table = .error (.internal e) → e.blamesLabel = false) ∧
      ∀ chunk, p.compile library table = .ok chunk →
        chunk.WellFormed table.size ∧
        chunk.backJumps = (p.loops table.names).map Loop.jump ∧
        ∀ l ∈ p.loops table.names, l.Enters library chunk.code := by
  have hcompile : p.compile library table = _ := compile_eq_layout (labelCount_draft_le hsize)
  constructor
  · intro e he
    rw [hcompile] at he
    exact Layout.Labelless.program library table.names p.statements e he
  · intro chunk hchunk
    rw [← size_of_compile hchunk] at hsize
    obtain ⟨body, hbody, hshaped⟩ := program_shaped (layout_of_compile hchunk hsize) hsize
    have hnames : table.names.length = table.size := by
      simp [BuiltinTable.names, BuiltinTable.size]
    refine ⟨hnames ▸ hshaped.wellFormed hbody, ?_, hshaped.heads⟩
    -- the return at the end is no jump
    rw [Chunk.backJumps, hbody, backJumps_append, hshaped.back]
    exact List.append_nil _

/-- Two loops, one inside the other and behind a switch with a call of two arguments: the code is
well formed, and the jumps back at 39 and 40 lead to the conditions at 35 and 11. With a library
that exports nothing the program fails, but not over a label. -/
theorem Program.wellFormed_of_compile_nested :
    let p : Program := ⟨none, [
      .declare "i" (.number "2" {}) {},
      .whileDo (.identifier "i" {}) [
        .switch (.identifier "i" {}) [
          .case (.number "2" {}) [.expression (.call (.identifier "print" {})
            [.identifier "i" {}, .binary (.identifier "i" {}) "+" (.number "1" {}) {}] {}) {}],
          .otherwise []] {},
        .whileDo (.number "0" {}) [] {}] {}]⟩
    (p.draft .standard BuiltinTable.standard.names).size < 2 ^ 32 ∧
      (∃ chunk, p.compile .standard .standard = .ok chunk ∧ chunk.WellFormed 4 ∧
        chunk.backJumps = [(39, 35), (40, 11)] ∧
        Loop.Enters .standard chunk.code ⟨.identifier "i" {}, 11, 40⟩) ∧
      ∃ e, p.compile ⟨fun _ => none, fun _ => none⟩ .standard = .error (.internal e) ∧
        e.blamesLabel = false := by
  intro p
  have hsize : (p.draft .standard BuiltinTable.standard.names).size < 2 ^ 32 := by decide +kernel
  obtain ⟨chunk, hcompile, -⟩ : ∃ chunk, p.compile .standard .standard = .ok chunk ∧
      chunk.code.size < 2 ^ 32 :=
    exists_chunk hsize
      (show (p.draft .standard BuiltinTable.standard.names).ending = .ok 6 by decide +kernel)
  obtain ⟨hwellFormed, hback, hheads⟩ := (wellFormed_of_compile hsize).2 chunk hcompile
  have hfault : p.compile ⟨fun _ => none, fun _ => none⟩ .standard =
      .error (.internal (.unresolvedOperation "ToBool")) := by
    decide +kernel
  refine ⟨hsize, ⟨chunk, hcompile, hwellFormed, ?_, ?_⟩, _, hfault, ?_⟩
  · rw [hback]
    decide +kernel
  · apply hheads
    exact .tail _ (.head _)
  · exact (wellFormed_of_compile (by decide +kernel)).1 _ hfault

end StackScript
