import Mathlib.Tactic
import StackScript.Proofs.Recording

set_option autoImplicit false

/-!
# The widths of operands

Operands have 16 or 32 bits; the numbers that they stand for have no bound. `Exact` walks over a
program with numbers of any size and says, instruction by instruction, which slot, builtin, count or
index is meant. Compiled code has these very numbers: a number that does not fit into 16 bits never
gets through.

A branch means the index of the instruction that follows the bind of its label
(`Directives.address`). Here the code has that index cut to 32 bits. Label numbers are cut as well,
but a program with so many labels that two of them share a number does not compile. So code with at
most `2 ^ 32` instructions has exact targets; with one instruction more, a target can come out as
zero (`Program.exists_cut_target`).
-/

namespace StackScript

/-! ## Exact numbers -/

namespace Exact

/-- An instruction and the number that its operand stands for, where that is a slot, a builtin, a
count or an index. -/
structure Op where
  opcode : Opcode
  number : Option Nat := none
deriving DecidableEq

/-- The slots of the visible names, last declaration first, and the number of slots allocated. -/
structure Env where
  slots : List (String × Nat) := []
  used : Nat := 0

namespace Env

/-- The slot of a name. -/
def slot? (env : Env) (name : String) : Option Nat := env.slots.lookup name

/-- Allocates a slot for a name. -/
def declare (name : String) (env : Env) : Env := ⟨(name, env.used) :: env.slots, env.used + 1⟩

/-- Allocates a slot without a name. -/
def fresh (env : Env) : Env := { env with used := env.used + 1 }

/-- Goes back to the names from before a block. Its slots stay allocated. -/
def leave (env inner : Env) : Env := { env with used := inner.used }

end Env

mutual

/-- The instructions of an expression. -/
def expr (env : Env) : Expr → Option (List Op)
  | .binary left _ right _ => do
    let l ← expr env left
    let r ← expr env right
    return l ++ r ++ [⟨.callRuntime, none⟩]
  | .call callee arguments _ => do
    let c ← expr env callee
    let a ← exprs env 0 arguments
    return c ++ [⟨.newArgs, some arguments.length⟩] ++ a ++ [⟨.callRuntime, none⟩]
  | .parens inner _ => expr env inner
  | .number _ _ => some [⟨.loadInt, none⟩, ⟨.boxInt, none⟩]
  | .identifier name _ => do
    let slot ← env.slot? name
    return [⟨.loadLocal, some slot⟩]
  | .member _ _ _ => none

/-- The instructions of arguments from a given index on. -/
def exprs (env : Env) (index : Nat) : List Expr → Option (List Op)
  | [] => some []
  | argument :: rest => do
    let a ← expr env argument
    let r ← exprs env (index + 1) rest
    return a ++ [⟨.storeArg, some index⟩] ++ r

end

/-- The instructions of a condition. -/
def condition (env : Env) (test : Expr) : Option (List Op) := do
  let t ← expr env test
  return t ++ [⟨.callRuntime, none⟩]

mutual

/-- The instructions of a statement, and the names and slots after it. -/
def stmt (env : Env) : Stmt → Option (List Op × Env)
  | .expression value _ => do
    let v ← expr env value
    return (v ++ [⟨.pop, none⟩], env)
  | .declare name value _ => do
    let v ← expr env value
    return (v ++ [⟨.storeLocal, some env.used⟩], env.declare name)
  | .assign name value _ => do
    let slot ← env.slot? name
    let v ← expr env value
    return (v ++ [⟨.storeLocal, some slot⟩], env)
  | .ifThen test body _ => do
    let t ← condition env test
    let (c, inner) ← stmts env body
    return (t ++ [⟨.jumpIfFalse, none⟩] ++ c, env.leave inner)
  | .whileDo test body _ => do
    let t ← condition env test
    let (c, inner) ← stmts env body
    return (t ++ [⟨.jumpIfFalse, none⟩] ++ c ++ [⟨.jump, none⟩], env.leave inner)
  | .switch subject cases _ => do
    let v ← expr env subject
    let (c, env') ← arms env.used env.fresh cases
    return (v ++ [⟨.storeLocal, some env.used⟩] ++ c, env')

/-- The instructions of statements. -/
def stmts (env : Env) : List Stmt → Option (List Op × Env)
  | [] => some ([], env)
  | first :: rest => do
    let (c, env) ← stmt env first
    let (c', env) ← stmts env rest
    return (c ++ c', env)

/-- The instructions of an arm of a switch whose subject is in `slot`. -/
def arm (slot : Nat) (env : Env) : Arm → Option (List Op × Env)
  | .case value body => do
    let v ← expr env value
    let (c, inner) ← stmts env body
    return (v ++ [⟨.loadLocal, some slot⟩, ⟨.callRuntime, none⟩, ⟨.callRuntime, none⟩,
      ⟨.jumpIfFalse, none⟩] ++ c ++ [⟨.jump, none⟩], env.leave inner)
  | .otherwise body => do
    let (c, inner) ← stmts env body
    return (c ++ [⟨.jump, none⟩], env.leave inner)

/-- The instructions of arms. -/
def arms (slot : Nat) (env : Env) : List Arm → Option (List Op × Env)
  | [] => some ([], env)
  | first :: rest => do
    let (c, env) ← arm slot env first
    let (c', env) ← arms slot env rest
    return (c ++ c', env)

end

/-- The instructions that install builtins from a given position in their table on. -/
def builtins (index : Nat) (env : Env) : List String → List Op × Env
  | [] => ([], env)
  | name :: rest =>
    let (c, env') := builtins (index + 1) (env.declare name) rest
    (⟨.loadBuiltin, some index⟩ :: ⟨.storeLocal, some env.used⟩ :: c, env')

/-- The instructions of a program and the number of its slots. -/
def program (globals : List String) (statements : List Stmt) :
    Option (List Op × Nat) := do
  let (start, env) := builtins 0 {} globals
  let (c, env) ← stmts env statements
  return (start ++ c ++ [⟨.ret, none⟩], env.used)

end Exact

/-- The number in an operand that is a slot, a builtin, a count or an index. -/
def Operand.number? : Operand → Option Nat
  | slot s => some s.index.toNat
  | builtin n | count n | index n => some n.toNat
  | int _ | entry _ | target _ => none

/-- An instruction with the number in its operand. -/
def Instruction.exact (i : Instruction) : Exact.Op :=
  ⟨i.opcode, i.operand.bind Operand.number?⟩

/-- A number below `2 ^ 16` is in an operand as it is. -/
theorem Instruction.exact_of_lt {n : Nat} (h : n < 65536) (i : Instruction) {opcode : Opcode}
    (hi : i.exact = ⟨opcode, some n.toUInt16.toNat⟩) : i.exact = ⟨opcode, some n⟩ := by
  rw [hi, toNat_toUInt16 h]

/-! ## The numbers of a layout are exact -/

namespace Exact

/-- The names have the same slots as in a stack of maps. -/
structure Env.Matches (env : Env) (b : Blocks) : Prop where
  slots : ∀ x, env.slot? x = (b.resolve? x).map (·.index.toNat)
  used : env.used = b.used

section

variable {env : Env} {b : Blocks}

theorem Env.Matches.enter (h : env.Matches b) : env.Matches b.enter := by
  refine ⟨?_, h.used⟩
  intro x
  rw [h.slots x, Blocks.resolve?, Blocks.resolve?, Blocks.enter, Frames.lookup?_push]

theorem Env.Matches.leave (h : env.Matches b) {inner : Env} {b' : Blocks}
    (hinner : inner.Matches b') : (env.leave inner).Matches { b with used := b'.used } :=
  ⟨h.slots, hinner.used⟩

theorem Env.Matches.fresh (h : env.Matches b) :
    env.fresh.Matches { b with used := b.used + 1 } :=
  ⟨h.slots, congrArg (· + 1) h.used⟩

theorem Env.Matches.declare (h : env.Matches b) (hroom : b.used < 65536) (name : String) :
    (env.declare name).Matches ⟨b.frames.insert name ⟨b.used.toUInt16⟩, b.used + 1⟩ := by
  refine ⟨?_, congrArg (· + 1) h.used⟩
  intro x
  have hrest : env.slots.lookup x = (b.frames.lookup? x).map (·.index.toNat) := h.slots x
  rw [Blocks.resolve?, Frames.lookup?_insert, Env.slot?, Env.declare, List.lookup_cons, hrest]
  by_cases hx : name = x
  · rw [if_pos hx, beq_iff_eq.2 hx.symm, Option.map_some, toNat_toUInt16 hroom, h.used]
  · rw [if_neg hx, beq_eq_false_iff_ne.2 (Ne.symm hx)]

end

section

variable {library : Library}

mutual

theorem expr_of_layout {env : Env} {slots : String → Option Slot}
    (h : ∀ x, env.slot? x = (slots x).map (·.index.toNat)) :
    ∀ (e : Expr) {code : List Instruction},
      Layout.expr library slots e = .ok code → expr env e = some (code.map Instruction.exact)
  | .binary left text right position, code, hcode => by
    obtain ⟨l, r, op, entry, hl, hr, -, -, rfl⟩ := Layout.expr_binary hcode
    rw [expr, expr_of_layout h left hl, expr_of_layout h right hr, List.map_append,
      List.map_append]
    rfl
  | .call callee arguments position, code, hcode => by
    obtain ⟨c, a, entry, hc, hcount, ha, -, rfl⟩ := Layout.expr_call hcode
    -- the number of arguments is checked once, and no index exceeds it
    have hargs := exprs_of_layout h arguments 0 (by omega) ha
    rw [expr, expr_of_layout h callee hc, hargs, List.map_append, List.map_append,
      List.map_append, List.map_singleton, Instruction.exact_of_lt hcount (.newArgs _) rfl]
    rfl
  | .parens inner position, code, hcode => by
    rw [Layout.expr_parens] at hcode
    rw [expr, expr_of_layout h inner hcode]
  | .number text position, code, hcode => by
    obtain ⟨n, -, rfl⟩ := Layout.expr_number hcode
    rw [expr]
    rfl
  | .identifier name position, code, hcode => by
    obtain ⟨slot, hslot, rfl⟩ := Layout.expr_identifier hcode
    rw [expr, h name, hslot]
    rfl
  | .member object name position, code, hcode => (Layout.expr_member hcode).elim

theorem exprs_of_layout {env : Env} {slots : String → Option Slot}
    (h : ∀ x, env.slot? x = (slots x).map (·.index.toNat)) :
    ∀ (es : List Expr) (index : Nat), index + es.length ≤ 65536 → ∀ {code : List Instruction},
      Layout.exprs library slots index es = .ok code →
        exprs env index es = some (code.map Instruction.exact)
  | [], index, hroom, code, hcode => by
    cases hcode
    rw [exprs]
    rfl
  | argument :: rest, index, hroom, code, hcode => by
    obtain ⟨a, r, ha, hr, rfl⟩ := Layout.exprs_cons hcode
    rw [List.length_cons] at hroom
    have hindex : index < 65536 := by omega
    have hrest := exprs_of_layout h rest (index + 1) (by omega) hr
    rw [exprs, expr_of_layout h argument ha, hrest, List.map_append, List.map_append,
      List.map_singleton, Instruction.exact_of_lt hindex (.storeArg _) rfl]
    rfl

end

theorem condition_of_layout {env : Env} {slots : String → Option Slot}
    (h : ∀ x, env.slot? x = (slots x).map (·.index.toNat)) {test : Expr}
    {code : List Instruction} (hcode : Layout.condition library slots test = .ok code) :
    condition env test = some (code.map Instruction.exact) := by
  obtain ⟨t, entry, ht, -, rfl⟩ := Layout.condition_eq_ok hcode
  rw [condition, expr_of_layout h test ht, List.map_append]
  rfl

mutual

theorem stmt_of_layout : ∀ (s : Stmt) {pc : Nat} {env : Env} {b b' : Blocks}
    {code : List Instruction}, env.Matches b → Layout.stmt library pc b s = .ok (code, b') →
    ∃ env', stmt env s = some (code.map Instruction.exact, env') ∧ env'.Matches b'
  | .expression value position, pc, env, b, b', code, hm, h => by
    obtain ⟨v, hv, rfl, rfl⟩ := Layout.stmt_expression h
    refine ⟨env, ?_, hm⟩
    rw [stmt, expr_of_layout hm.slots value hv, List.map_append]
    rfl
  | .declare name value position, pc, env, b, b', code, hm, h => by
    obtain ⟨v, hv, hroom, rfl, rfl⟩ := Layout.stmt_declare h
    refine ⟨env.declare name, ?_, hm.declare hroom name⟩
    rw [stmt, expr_of_layout hm.slots value hv, List.map_append, List.map_singleton,
      Instruction.exact_of_lt hroom (.storeLocal ⟨b.used.toUInt16⟩) rfl, hm.used]
    rfl
  | .assign name value position, pc, env, b, b', code, hm, h => by
    obtain ⟨slot, v, hslot, hv, rfl, rfl⟩ := Layout.stmt_assign h
    refine ⟨env, ?_, hm⟩
    rw [stmt, hm.slots name, hslot, expr_of_layout hm.slots value hv, List.map_append]
    rfl
  | .ifThen test body position, pc, env, b, b', code, hm, h => by
    obtain ⟨t, c, inner, ht, hc, rfl, rfl⟩ := Layout.stmt_ifThen h
    obtain ⟨env', hbody, hm'⟩ := stmts_of_layout body hm.enter hc
    refine ⟨env.leave env', ?_, hm.leave hm'⟩
    rw [stmt, condition_of_layout hm.slots ht, hbody, List.map_append, List.map_append]
    rfl
  | .whileDo test body position, pc, env, b, b', code, hm, h => by
    obtain ⟨t, c, inner, ht, hc, rfl, rfl⟩ := Layout.stmt_whileDo h
    obtain ⟨env', hbody, hm'⟩ := stmts_of_layout body hm.enter hc
    refine ⟨env.leave env', ?_, hm.leave hm'⟩
    rw [stmt, condition_of_layout hm.slots ht, hbody, List.map_append, List.map_append,
      List.map_append]
    rfl
  | .switch subject cases position, pc, env, b, b', code, hm, h => by
    obtain ⟨v, c, hv, hroom, hc, rfl⟩ := Layout.stmt_switch h
    -- the subject has the slot that was next
    obtain ⟨env', hcases, hm'⟩ := arms_of_layout cases hm.fresh hc
    refine ⟨env', ?_, hm'⟩
    rw [toNat_toUInt16 hroom, ← hm.used] at hcases
    rw [stmt, expr_of_layout hm.slots subject hv, hcases, List.map_append, List.map_append,
      List.map_singleton, Instruction.exact_of_lt hroom (.storeLocal ⟨b.used.toUInt16⟩) rfl,
      hm.used]
    rfl

theorem stmts_of_layout : ∀ (ss : List Stmt) {pc : Nat} {env : Env} {b b' : Blocks}
    {code : List Instruction}, env.Matches b → Layout.stmts library pc b ss = .ok (code, b') →
    ∃ env', stmts env ss = some (code.map Instruction.exact, env') ∧ env'.Matches b'
  | [], pc, env, b, b', code, hm, h => by
    cases h
    exact ⟨env, by rw [stmts, List.map_nil], hm⟩
  | first :: rest, pc, env, b, b', code, hm, h => by
    obtain ⟨c, c', mid, hc, hc', rfl⟩ := Layout.stmts_cons h
    obtain ⟨env₁, hfirst, hm₁⟩ := stmt_of_layout first hm hc
    obtain ⟨env₂, hrest, hm₂⟩ := stmts_of_layout rest hm₁ hc'
    refine ⟨env₂, ?_, hm₂⟩
    simp only [stmts, hfirst, hrest, List.map_append, Option.bind_eq_bind, Option.bind_some,
      Option.pure_def]

theorem arm_of_layout : ∀ (a : Arm) {slot : Slot} {done pc : Nat} {env : Env} {b b' : Blocks}
    {code : List Instruction}, env.Matches b →
    Layout.arm library slot done pc b a = .ok (code, b') →
    ∃ env', arm slot.index.toNat env a = some (code.map Instruction.exact, env') ∧ env'.Matches b'
  | .case value body, slot, done, pc, env, b, b', code, hm, h => by
    obtain ⟨v, eq, test, c, inner, hv, -, -, hc, rfl, rfl⟩ := Layout.arm_case h
    obtain ⟨env', hbody, hm'⟩ := stmts_of_layout body hm.enter hc
    refine ⟨env.leave env', ?_, hm.leave hm'⟩
    rw [arm, expr_of_layout hm.slots value hv, hbody, List.map_append, List.map_append,
      List.map_append]
    rfl
  | .otherwise body, slot, done, pc, env, b, b', code, hm, h => by
    obtain ⟨c, inner, hc, rfl, rfl⟩ := Layout.arm_otherwise h
    obtain ⟨env', hbody, hm'⟩ := stmts_of_layout body hm.enter hc
    refine ⟨env.leave env', ?_, hm.leave hm'⟩
    rw [arm, hbody, List.map_append]
    rfl

theorem arms_of_layout : ∀ (as : List Arm) {slot : Slot} {done pc : Nat} {env : Env}
    {b b' : Blocks} {code : List Instruction}, env.Matches b →
    Layout.arms library slot done pc b as = .ok (code, b') →
    ∃ env', arms slot.index.toNat env as = some (code.map Instruction.exact, env') ∧
      env'.Matches b'
  | [], slot, done, pc, env, b, b', code, hm, h => by
    cases h
    exact ⟨env, by rw [arms, List.map_nil], hm⟩
  | first :: rest, slot, done, pc, env, b, b', code, hm, h => by
    obtain ⟨c, c', mid, hc, hc', rfl⟩ := Layout.arms_cons h
    obtain ⟨env₁, hfirst, hm₁⟩ := arm_of_layout first hm hc
    obtain ⟨env₂, hrest, hm₂⟩ := arms_of_layout rest hm₁ hc'
    refine ⟨env₂, ?_, hm₂⟩
    simp only [arms, hfirst, hrest, List.map_append, Option.bind_eq_bind, Option.bind_some,
      Option.pure_def]

end

theorem builtins_of_layout : ∀ (names : List String) {total index : Nat} {env : Env}
    {b b' : Blocks} {code : List Instruction}, env.Matches b →
    Layout.builtins total index b names = .ok (code, b') →
    ∃ env', builtins index env names = (code.map Instruction.exact, env') ∧ env'.Matches b'
  | [], total, index, env, b, b', code, hm, h => by
    cases h
    exact ⟨env, by rw [builtins, List.map_nil], hm⟩
  | name :: rest, total, index, env, b, b', code, hm, h => by
    obtain ⟨c, hindex, hroom, hc, rfl⟩ := Layout.builtins_cons h
    obtain ⟨env', hrest, hm'⟩ := builtins_of_layout rest (hm.declare hroom name) hc
    refine ⟨env', ?_, hm'⟩
    rw [builtins, hrest, List.map_cons, List.map_cons,
      Instruction.exact_of_lt hindex (.loadBuiltin _) rfl,
      Instruction.exact_of_lt hroom (.storeLocal ⟨b.used.toUInt16⟩) rfl, hm.used]
    rfl

/-- The layout of a program has the numbers that its operands stand for. -/
theorem program_of_layout {globals : List String} {statements : List Stmt} {chunk : Chunk}
    (h : Layout.program library globals statements = .ok chunk) :
    program globals statements =
      some (chunk.code.toList.map Instruction.exact, chunk.localCount) := by
  obtain ⟨start, b₁, c, b₂, hstart, hc, rfl⟩ := Layout.program_eq_ok h
  have hempty : Env.Matches {} {} := ⟨fun _ => rfl, rfl⟩
  obtain ⟨env₁, hbuiltins, hm₁⟩ := builtins_of_layout globals hempty hstart
  obtain ⟨env₂, hstmts, hm₂⟩ := stmts_of_layout statements hm₁ hc
  rw [program, hbuiltins]
  simp only [hstmts, hm₂.used, List.map_append, Option.bind_eq_bind, Option.bind_some,
    Option.pure_def]
  rfl

end

end Exact

/-! ## Label numbers -/

namespace Assembler

/-- No label whose number does not fit into 32 bits is ever bound. -/
theorem free_of_take {a b : Assembler} {d : Directive} (h : Assembler.sink.take a d = .ok b)
    {i : Nat} (hi : 2 ^ 32 ≤ i) (hfree : a.labels[i]?.join = none) : b.labels[i]?.join = none := by
  cases d with
  | emit i | branchIfFalse label | branch label =>
    cases h
    exact hfree
  | newLabel label =>
    cases h
    show (a.labels.push none)[i]?.join = none
    rw [Array.getElem?_push]
    split
    · rfl
    · exact hfree
  | bind label =>
    obtain ⟨-, rfl⟩ := take_bind_eq_ok.1 h
    -- the number of the label being bound has 32 bits
    have hne : label.id.toNat ≠ i := (label.id.toNat_lt.trans_le hi).ne
    show (a.labels.setIfInBounds label.id.toNat _)[i]?.join = none
    rw [Array.getElem?_setIfInBounds_ne hne]
    exact hfree

theorem takes_labels {a a' : Assembler} {ds : List Directive} (h : Takes a ds a') :
    a'.labels.size = a.labels.size + Directives.labelCount ds ∧
      ∀ i, 2 ^ 32 ≤ i → a.labels[i]?.join = none → a'.labels[i]?.join = none := by
  induction ds generalizing a with
  | nil =>
    cases h
    exact ⟨rfl, fun _ _ h => h⟩
  | cons d ds ih =>
    obtain ⟨b, hb, hrest⟩ := takes_cons.1 h
    obtain ⟨hsize, hfree⟩ := ih hrest
    refine ⟨?_, fun i hi h => hfree i hi (free_of_take hb hi h)⟩
    rw [hsize, size_labels_take hb, Directives.labelCount_cons, Nat.add_assoc]

/-- An assembler that ends well has not run out of label numbers. -/
theorem labelCount_le_of_finish {ds : List Directive} {a : Assembler} {localCount : Nat}
    {chunk : Chunk} (htakes : Assembler.sink.takeAll ds = .ok a)
    (h : a.finish localCount = .ok chunk) : Directives.labelCount ds ≤ 2 ^ 32 := by
  obtain ⟨hsize, hfree⟩ := takes_labels htakes
  have hempty : (Assembler.sink.start).labels = #[] := rfl
  rw [hempty] at hsize hfree
  by_contra hmany
  -- otherwise there is a label with the number `2 ^ 32`, and it is not bound
  have hlt : 2 ^ 32 < a.labels.size := by
    rw [hsize, Array.size_empty]
    omega
  have hunbound : a.labels[2 ^ 32] = none := by
    have hjoin := hfree (2 ^ 32) le_rfl rfl
    rwa [Array.getElem?_eq_getElem hlt] at hjoin
  obtain ⟨code, labels, branches⟩ := a
  simp only [finish] at h
  split at h
  · cases h
  · next hall =>
    rw [Array.findIdx?_eq_none_iff] at hall
    have hbound := hall _ (Array.getElem_mem hlt)
    rw [hunbound] at hbound
    cases hbound

end Assembler

namespace Directives

variable {ds : List Directive} {label : Label}

/-- Numbered labels are created once each, unless their numbers are used up. -/
theorem count_newLabel_le_one {n : Nat} (h : NumberedFrom n ds)
    (hcount : n + labelCount ds ≤ 2 ^ 32) : ds.count (.newLabel label) ≤ 1 := by
  induction ds generalizing n with
  | nil => exact Nat.zero_le 1
  | cons d ds ih =>
    obtain ⟨hd, hds⟩ := h
    rw [labelCount_cons, ← Nat.add_assoc] at hcount
    have hrest := ih hds hcount
    by_cases hlabel : d = .newLabel label
    · -- all labels behind this one have higher numbers
      subst hlabel
      have hnone : .newLabel label ∉ ds := by
        intro hmem
        obtain ⟨k, hk, hagain⟩ := exists_of_mem_of_numberedFrom hds hmem
        rw [Directive.labelCount] at hagain hcount
        have hnumbers := congrArg (·.id.toNat) ((hd label rfl).symm.trans hagain)
        simp only [toNat_labelOf (show n < 2 ^ 32 by omega),
          toNat_labelOf (show n + 1 + k < 2 ^ 32 by omega)] at hnumbers
        omega
      rw [List.count_cons_self, List.count_eq_zero.2 hnone]
    · rw [List.count_cons_of_ne hlabel]
      exact hrest

/-! ## The addresses of labels -/

/-- The index of the instruction that follows the bind of a label. -/
def address (ds : List Directive) (label : Label) : Nat := size (ds.takeWhile (· ≠ .bind label))

theorem address_append_of_mem (h : .bind label ∈ ds) (es : List Directive) :
    address (ds ++ es) label = address ds label := by
  induction ds with
  | nil => cases h
  | cons d ds ih =>
    by_cases hd : d = .bind label
    · simp [address, hd]
    · have hrest := ih ((List.mem_cons.1 h).resolve_left (Ne.symm hd))
      simpa [address, hd] using hrest

theorem address_append_of_not_mem (h : .bind label ∉ ds) (es : List Directive) :
    address (ds ++ es) label = size ds + address es label := by
  have hall : ∀ d ∈ ds, decide (d ≠ .bind label) = true := by
    rintro d hd
    exact decide_eq_true (fun heq => h (heq ▸ hd))
  rw [address, List.takeWhile_append_of_pos hall, size_append, address]

/-- Code depends on the addresses of its branches only. -/
theorem code_congr {place place' : Label → UInt32}
    (h : ∀ label ∈ branchLabels ds, place label = place' label) :
    code place ds = code place' ds := by
  apply List.filterMap_congr
  intro d hd
  have hlabel : ∀ label, d.branchLabel? = some label → place label = place' label := by
    intro label hbranch
    exact h label (List.mem_filterMap.2 ⟨d, hd, hbranch⟩)
  cases d with
  | emit i | newLabel l | bind l => rfl
  | branchIfFalse l | branch l =>
    simp only [Directive.instruction?]
    rw [hlabel l rfl]

theorem mem_branchLabels : label ∈ branchLabels ds ↔
    .branchIfFalse label ∈ ds ∨ .branch label ∈ ds := by
  rw [branchLabels, List.mem_filterMap]
  constructor
  · rintro ⟨d, hd, hlabel⟩
    cases d with
    | emit i | newLabel l | bind l => cases hlabel
    | branchIfFalse l =>
      cases hlabel
      exact .inl hd
    | branch l =>
      cases hlabel
      exact .inr hd
  · rintro (h | h)
    · exact ⟨_, h, rfl⟩
    · exact ⟨_, h, rfl⟩

end Directives

/-! ## Compiled programs -/

namespace Program

variable {library : Library} {table : BuiltinTable} {p : Program}

theorem labelCount_le_of_compile {chunk : Chunk} (h : p.compile library table = .ok chunk) :
    (p.draft library table.names).labelCount ≤ 2 ^ 32 := by
  obtain ⟨a, count, htakes, -, hfinish⟩ := exists_finish_of_compile h
  exact Assembler.labelCount_le_of_finish htakes hfinish

/-- A draft that ends well ends with the return. -/
theorem exists_ret_of_draft {globals : List String} {count : Nat}
    (h : (p.draft library globals).ending = .ok count) :
    ∃ ds, (p.draft library globals).directives.toList = ds ++ [Directive.emit .ret] := by
  simp only [draft, Lowering.program] at h ⊢
  cases hbuiltins : Lowering.builtins .sketch globals.length 0 globals (.start .sketch) with
  | error e st =>
    rw [run_bind_of_error hbuiltins] at h
    cases h
  | ok a st =>
    rw [run_bind_of_ok hbuiltins] at h ⊢
    cases hstmts : Lowering.stmts .sketch library p.statements st with
    | error e st' =>
      rw [run_bind_of_error hstmts] at h
      cases h
    | ok a' st' =>
      rw [run_bind_of_ok hstmts]
      exact ⟨st'.sink.directives.toList, Array.toList_push⟩

/-- A branch goes to a label that is created once and bound once. -/
theorem count_eq_one_of_draft {count : Nat}
    (hlabels : (p.draft library table.names).labelCount ≤ 2 ^ 32)
    (hending : (p.draft library table.names).ending = .ok count) :
    let ds := (p.draft library table.names).directives.toList
    ∀ label ∈ Directives.branchLabels ds,
      ds.count (.newLabel label) = 1 ∧ ds.count (.bind label) = 1 := by
  intro ds label hlabel
  obtain ⟨place, -, htrack, -⟩ := exists_placedAt_of_labelCount hlabels hending
  have hnumbered : Directives.NumberedFrom 0 ds := numbered_draft library table.names p
  have hcreated : .newLabel label ∈ ds :=
    Directives.newLabel_mem_of_branch hnumbered htrack (Directives.mem_branchLabels.1 hlabel)
  have hcount : 0 + Directives.labelCount ds ≤ 2 ^ 32 := by
    rw [Nat.zero_add]
    exact hlabels
  refine ⟨le_antisymm ?_ ?_, Directives.count_bind_eq_one hlabels hnumbered htrack hcreated⟩
  · exact Directives.count_newLabel_le_one hnumbered hcount
  · exact List.one_le_count_iff.2 hcreated

theorem bind_mem_of_draft {count : Nat} {label : Label}
    (hlabels : (p.draft library table.names).labelCount ≤ 2 ^ 32)
    (hending : (p.draft library table.names).ending = .ok count)
    (hlabel : label ∈ Directives.branchLabels
      (p.draft library table.names).directives.toList) :
    .bind label ∈ (p.draft library table.names).directives.toList := by
  apply List.one_le_count_iff.1
  rw [(count_eq_one_of_draft hlabels hending label hlabel).2]

/-- A draft that ends well and does not run out of label numbers compiles to its code, with the
addresses of its labels cut to 32 bits. -/
theorem compile_eq_code {count : Nat}
    (hlabels : (p.draft library table.names).labelCount ≤ 2 ^ 32)
    (hending : (p.draft library table.names).ending = .ok count) :
    let ds := (p.draft library table.names).directives.toList
    p.compile library table =
      .ok ⟨(Directives.code (fun label => (Directives.address ds label).toUInt32) ds).toArray,
        count⟩ := by
  intro ds
  obtain ⟨place, hplaced, -, hcompile⟩ := exists_placedAt_of_labelCount hlabels hending
  rw [hcompile, Directives.code_congr]
  intro label hlabel
  have hbound : .bind label ∈ ds := bind_mem_of_draft hlabels hending hlabel
  rw [Directives.place_of_placedAt hplaced hbound, Nat.zero_add, Directives.address]

/-- The address of a label that is bound is the index of an instruction. -/
theorem address_lt_size {globals : List String} {count : Nat} {label : Label}
    (hending : (p.draft library globals).ending = .ok count)
    (hbound : .bind label ∈ (p.draft library globals).directives.toList) :
    Directives.address (p.draft library globals).directives.toList label <
      (p.draft library globals).size := by
  obtain ⟨ds, hds⟩ := exists_ret_of_draft hending
  have hmem : .bind label ∈ ds := by
    rw [hds] at hbound
    simpa using hbound
  have hle : Directives.address ds label ≤ Directives.size ds := Directives.size_takeWhile_le _ ds
  have hret : Directives.size [.emit .ret] = 1 := rfl
  rw [Draft.size, hds, Directives.address_append_of_mem hmem, Directives.size_append, hret]
  exact Nat.lt_succ_of_le hle

/-- **Operands of 16 bits are exact, and so are targets in code that 32 bits can address.** If a
program compiles, then, whatever its size and that of the builtin table:

* every slot, builtin, count and index in the code is the number that it stands for;
* every branch goes to a label that was created once and bound once;
* the target of a branch is the index of the instruction that follows the bind of its label, cut to
  32 bits;
* and nothing is cut from it if there are at most `2 ^ 32` instructions. -/
theorem operands_of_compile {chunk : Chunk} (h : p.compile library table = .ok chunk) :
    let ds := (p.draft library table.names).directives.toList
    Exact.program table.names p.statements =
        some (chunk.code.toList.map Instruction.exact, chunk.localCount) ∧
      (∀ label ∈ Directives.branchLabels ds,
        ds.count (.newLabel label) = 1 ∧ ds.count (.bind label) = 1) ∧
      chunk.code.toList =
        Directives.code (fun label => (Directives.address ds label).toUInt32) ds ∧
      (chunk.code.size ≤ 2 ^ 32 → ∀ label ∈ Directives.branchLabels ds,
        (Directives.address ds label).toUInt32.toNat = Directives.address ds label) := by
  intro ds
  have hlabels := labelCount_le_of_compile h
  obtain ⟨-, count, -, hending, -⟩ := exists_finish_of_compile h
  have hcode := compile_eq_code hlabels hending
  refine ⟨?_, count_eq_one_of_draft hlabels hending, ?_, ?_⟩
  · rw [compile_eq_layout hlabels] at h
    exact Exact.program_of_layout h
  · rw [h] at hcode
    rw [Except.ok.inj hcode]
  · intro hsize label hlabel
    -- the return comes behind every bind, so an address is below the size
    have hbound : .bind label ∈ ds := bind_mem_of_draft hlabels hending hlabel
    have hlt : Directives.address ds label < chunk.code.size := by
      rw [size_of_compile h]
      exact address_lt_size hending hbound
    exact toNat_toUInt32 (hlt.trans_le hsize)

/-- A builtin called with two arguments inside a loop, behind a declaration. -/
theorem operands_of_compile_loop :
    let p : Program := ⟨none, [
      .declare "x" (.number "1" {}) {},
      .whileDo (.identifier "x" {}) [
        .declare "y" (.number "2" {}) {},
        .expression (.call (.identifier "print" {})
          [.identifier "x" {}, .identifier "y" {}] {}) {}] {}]⟩
    let table : BuiltinTable := ⟨#[("null", .null), ("print", .native .print)]⟩
    let ds := (p.draft .standard table.names).directives.toList
    ∃ chunk, p.compile .standard table = .ok chunk ∧ chunk.code.size = 23 ∧
      Exact.program table.names p.statements =
        some (chunk.code.toList.map Instruction.exact, chunk.localCount) ∧
      (chunk.code.toList.map Instruction.exact).filterMap Exact.Op.number =
        [0, 0, 1, 1, 2, 2, 3, 1, 2, 2, 0, 3, 1] ∧
      (∀ label ∈ Directives.branchLabels ds,
        (Directives.address ds label).toUInt32.toNat = Directives.address ds label) ∧
      (Directives.branchLabels ds).map (Directives.address ds) = [22, 7] := by
  intro p table ds
  have hruns : (p.compile .standard table).map (fun chunk => (chunk.code.size,
      (chunk.code.toList.map Instruction.exact).filterMap Exact.Op.number)) =
        .ok (23, [0, 0, 1, 1, 2, 2, 3, 1, 2, 2, 0, 3, 1]) := by
    decide +kernel
  cases hchunk : p.compile .standard table with
  | error e =>
    rw [hchunk] at hruns
    cases hruns
  | ok chunk =>
    rw [hchunk] at hruns
    obtain ⟨hsize, hnumbers⟩ : chunk.code.size = 23 ∧
        (chunk.code.toList.map Instruction.exact).filterMap Exact.Op.number =
          [0, 0, 1, 1, 2, 2, 3, 1, 2, 2, 0, 3, 1] := by
      simpa only [Except.map, Except.ok.injEq, Prod.mk.injEq] using hruns
    obtain ⟨hexact, -, -, htargets⟩ := operands_of_compile hchunk
    refine ⟨chunk, rfl, hsize, hexact, hnumbers, htargets (by omega), ?_⟩
    decide +kernel

/-! ## A target that is cut -/

section

open Instruction (loadInt boxInt pop callRuntime jumpIfFalse)

/-- Directives that end with a conditional without a body. -/
def conditionalAfter (start : List Instruction) : List Directive :=
  Directives.emits start ++ [.newLabel ⟨0⟩, .branchIfFalse ⟨0⟩, .bind ⟨0⟩, .emit .ret]

theorem labelCount_conditionalAfter (start : List Instruction) :
    Directives.labelCount (conditionalAfter start) = 1 := by
  rw [conditionalAfter, Directives.labelCount_append, Directives.labelCount_emits]
  rfl

theorem branchLabels_conditionalAfter (start : List Instruction) :
    Directives.branchLabels (conditionalAfter start) = [⟨0⟩] := by
  have hnone : (Directives.emits start).filterMap Directive.branchLabel? = [] := by
    simp [Directives.emits, Directive.branchLabel?]
  rw [Directives.branchLabels, conditionalAfter, List.filterMap_append, hnone]
  rfl

theorem address_conditionalAfter (start : List Instruction) :
    Directives.address (conditionalAfter start) ⟨0⟩ = start.length + 1 := by
  have hnone : .bind ⟨0⟩ ∉ Directives.emits start := by simp [Directives.emits]
  rw [conditionalAfter, Directives.address_append_of_not_mem hnone, Directives.size_emits]
  rfl

theorem code_conditionalAfter (place : Label → UInt32) (start : List Instruction) :
    Directives.code place (conditionalAfter start) =
      start ++ [jumpIfFalse (place ⟨0⟩), .ret] := by
  rw [conditionalAfter, Directives.code_append, Directives.code_emits]
  rfl

/-- The code of statements that evaluate a zero and drop it. -/
def zerosCode (n : Nat) : List Instruction := (List.replicate n [loadInt 0, boxInt, pop]).flatten

/-- The code up to the branch of a conditional behind such statements. -/
def zerosThenTest (n : Nat) : List Instruction :=
  zerosCode n ++ [loadInt 0, boxInt, callRuntime ⟨7⟩]

theorem length_zerosThenTest (n : Nat) : (zerosThenTest n).length = 3 * n + 3 := by
  simp [zerosThenTest, zerosCode, Nat.mul_comm]

/-- The given number of statements that evaluate a zero and drop it, and then a conditional without
a body. -/
def zerosThenIf (n : Nat) : Program :=
  ⟨none, List.replicate n (.expression (.number "0" {}) {}) ++ [.ifThen (.number "0" {}) [] {}]⟩

theorem stmts_zeros (n : Nat) (rest : List Stmt) (scope : Scope) (resolver : Resolver)
    (labels : Nat) (ds : Array Directive) :
    Lowering.stmts .sketch .standard
        (List.replicate n (Stmt.expression (.number "0" {}) {}) ++ rest)
        ⟨scope, resolver, labels, ds⟩ =
      Lowering.stmts .sketch .standard rest
        ⟨scope, resolver, labels, ds ++ (Directives.emits (zerosCode n)).toArray⟩ := by
  induction n generalizing ds with
  | zero =>
    show _ = Lowering.stmts .sketch .standard rest ⟨scope, resolver, labels, ds ++ #[]⟩
    rw [Array.append_empty]
    rfl
  | succ n ih =>
    rw [List.replicate_succ, List.cons_append, Lowering.stmts]
    have hfirst : Lowering.stmt .sketch .standard (.expression (.number "0" {}) {})
        ⟨scope, resolver, labels, ds⟩ =
        .ok () ⟨scope, resolver, labels, ((ds.push (.emit (loadInt 0))).push
          (.emit boxInt)).push (.emit pop)⟩ := rfl
    rw [run_bind_of_ok hfirst, ih]
    congr 3
    apply Array.toList_inj.1
    simp [zerosCode, List.replicate_succ, Directives.emits]

theorem draft_zerosThenIf (n : Nat) :
    (zerosThenIf n).draft .standard BuiltinTable.empty.names =
      ⟨(conditionalAfter (zerosThenTest n)).toArray, .ok 0⟩ := by
  have hif : ∀ ds : Array Directive,
      Lowering.stmts .sketch .standard [.ifThen (.number "0" {}) [] {}] ⟨{}, {}, 0, ds⟩ =
        .ok () ⟨{}, ⟨[(.toBool, ⟨7⟩)], #["ToBool"]⟩, 1,
          (((((ds.push (.emit (loadInt 0))).push (.emit boxInt)).push
            (.emit (callRuntime ⟨7⟩))).push (.newLabel ⟨0⟩)).push (.branchIfFalse ⟨0⟩)).push
            (.bind ⟨0⟩)⟩ := fun _ => rfl
  have hstmts := (stmts_zeros n [.ifThen (.number "0" {}) [] {}] {} {} 0 #[]).trans (hif _)
  have hbuiltins : Lowering.builtins .sketch BuiltinTable.empty.names.length 0
      BuiltinTable.empty.names (.start .sketch) = .ok () ⟨{}, {}, 0, #[]⟩ := rfl
  have hrun : Lowering.program .sketch .standard BuiltinTable.empty.names
      (zerosThenIf n).statements (.start .sketch) = _ :=
    (run_bind_of_ok hbuiltins).trans (run_bind_of_ok hstmts)
  simp only [draft, hrun, Lowering.emit, Lowering.hand]
  congr 1
  apply Array.toList_inj.1
  simp [conditionalAfter, zerosThenTest, Directives.emits]

/-- Such a program compiles, whatever its length. The only thing cut is the target of its branch. -/
theorem compile_zerosThenIf (n : Nat) :
    (zerosThenIf n).compile .standard .empty =
      .ok ⟨(zerosThenTest n ++ [jumpIfFalse (3 * n + 4).toUInt32, .ret]).toArray, 0⟩ := by
  have hdraft := draft_zerosThenIf n
  have hlabels : ((zerosThenIf n).draft .standard BuiltinTable.empty.names).labelCount ≤
      2 ^ 32 := by
    rw [hdraft, Draft.labelCount, labelCount_conditionalAfter]
    decide
  rw [compile_eq_code hlabels (by rw [hdraft]), hdraft]
  simp only [code_conditionalAfter, address_conditionalAfter, length_zerosThenTest]

/-- **A target can be cut.** A program of `2 ^ 32 + 1` instructions compiles. The label of its only
branch is bound right before the last instruction, at the index `2 ^ 32`, and the target of the
branch is zero. -/
theorem exists_cut_target :
    let p := zerosThenIf 1431655764
    let ds := (p.draft .standard BuiltinTable.empty.names).directives.toList
    ∃ chunk, p.compile .standard .empty = .ok chunk ∧ chunk.code.size = 2 ^ 32 + 1 ∧
      chunk.code.toList[2 ^ 32 - 1]? = some (jumpIfFalse 0) ∧
      Directives.branchLabels ds = [⟨0⟩] ∧ Directives.address ds ⟨0⟩ = 2 ^ 32 := by
  -- nothing below may evaluate a list of this length
  have hn : 3 * 1431655764 + 4 = 2 ^ 32 := by norm_num
  generalize 1431655764 = n at hn ⊢
  intro p ds
  have hds : ds = conditionalAfter (zerosThenTest n) :=
    congrArg (·.directives.toList) (draft_zerosThenIf n)
  have hlength : (zerosThenTest n).length = 2 ^ 32 - 1 := by
    rw [length_zerosThenTest]
    omega
  have htarget : (2 ^ 32).toUInt32 = 0 := by decide
  refine ⟨_, compile_zerosThenIf n, ?_, ?_, ?_, ?_⟩
  · rw [List.size_toArray, List.length_append, hlength]
    rfl
  · rw [List.toList_toArray, List.getElem?_append_right hlength.le, hlength, Nat.sub_self, hn,
      htarget]
    rfl
  · rw [hds, branchLabels_conditionalAfter]
  · rw [hds, address_conditionalAfter, hlength]
    norm_num

end

end Program

end StackScript
