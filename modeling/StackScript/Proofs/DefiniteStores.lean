import Mathlib.Tactic
import StackScript.Proofs.CompileLayout
import StackScript.Proofs.ControlFlow
import StackScript.Proofs.Slots

set_option autoImplicit false

/-!
# Every load comes after a store

Nothing in a compilation checks that a local is stored to before it is loaded from. It follows from
lexical scope: where a name is visible, its declaration has been passed. The slots that have been
stored to before each instruction of a program are read off its tree (`StoredSlots`): a declaration
adds its slot for the rest of its block, and a switch adds the slot of its subject for its arms.
Compiled code keeps to this table, whichever bodies are skipped and however often loops are entered
again. The main statement is `Program.definite_stores_of_compile`.
-/

namespace StackScript

/-! ## How many slots a tree takes -/

mutual

/-- The number of slots that a statement takes, one for each declaration and each switch in it. -/
def Stmt.slotCount : Stmt → Nat
  | .expression _ _ => 0
  | .declare _ _ _ => 1
  | .assign _ _ _ => 0
  | .ifThen _ body _ => stmtsSlotCount body
  | .whileDo _ body _ => stmtsSlotCount body
  | .switch _ cases _ => 1 + armsSlotCount cases

/-- The number of slots that statements take. -/
def stmtsSlotCount : List Stmt → Nat
  | [] => 0
  | first :: rest => first.slotCount + stmtsSlotCount rest

/-- The number of slots that an arm takes. -/
def Arm.slotCount : Arm → Nat
  | .case _ body => stmtsSlotCount body
  | .otherwise body => stmtsSlotCount body

/-- The number of slots that arms take. -/
def armsSlotCount : List Arm → Nat
  | [] => 0
  | first :: rest => first.slotCount + armsSlotCount rest

end

namespace Layout

variable {library : Library}

mutual

theorem used_stmt : ∀ (s : Stmt) {pc : Nat} {b b' : Blocks} {code : List Instruction},
    stmt library pc b s = .ok (code, b') → b'.used = b.used + s.slotCount
  | .expression value position, pc, b, b', code, h => by
    obtain ⟨v, -, -, rfl⟩ := stmt_expression h
    rfl
  | .declare name value position, pc, b, b', code, h => by
    obtain ⟨v, -, -, -, rfl⟩ := stmt_declare h
    rfl
  | .assign name value position, pc, b, b', code, h => by
    obtain ⟨slot, v, -, -, -, rfl⟩ := stmt_assign h
    rfl
  | .ifThen test body position, pc, b, b', code, h => by
    obtain ⟨t, c, inner, -, hc, -, rfl⟩ := stmt_ifThen h
    show inner.used = b.enter.used + stmtsSlotCount body
    exact used_stmts body hc
  | .whileDo test body position, pc, b, b', code, h => by
    obtain ⟨t, c, inner, -, hc, -, rfl⟩ := stmt_whileDo h
    show inner.used = b.enter.used + stmtsSlotCount body
    exact used_stmts body hc
  | .switch subject cases position, pc, b, b', code, h => by
    obtain ⟨v, c, -, -, hc, -⟩ := stmt_switch h
    rw [used_arms cases hc, Stmt.slotCount, Nat.add_assoc]

theorem used_stmts : ∀ (ss : List Stmt) {pc : Nat} {b b' : Blocks} {code : List Instruction},
    stmts library pc b ss = .ok (code, b') → b'.used = b.used + stmtsSlotCount ss
  | [], pc, b, b', code, h => by
    cases h
    rfl
  | first :: rest, pc, b, b', code, h => by
    obtain ⟨c, c', mid, hc, hc', -⟩ := stmts_cons h
    rw [used_stmts rest hc', used_stmt first hc, stmtsSlotCount, Nat.add_assoc]

theorem used_arm : ∀ (a : Arm) {slot : Slot} {done pc : Nat} {b b' : Blocks}
    {code : List Instruction},
    arm library slot done pc b a = .ok (code, b') → b'.used = b.used + a.slotCount
  | .case value body, slot, done, pc, b, b', code, h => by
    obtain ⟨v, eq, test, c, inner, -, -, -, hc, -, rfl⟩ := arm_case h
    show inner.used = b.enter.used + stmtsSlotCount body
    exact used_stmts body hc
  | .otherwise body, slot, done, pc, b, b', code, h => by
    obtain ⟨c, inner, hc, -, rfl⟩ := arm_otherwise h
    show inner.used = b.enter.used + stmtsSlotCount body
    exact used_stmts body hc

theorem used_arms : ∀ (as : List Arm) {slot : Slot} {done pc : Nat} {b b' : Blocks}
    {code : List Instruction},
    arms library slot done pc b as = .ok (code, b') → b'.used = b.used + armsSlotCount as
  | [], slot, done, pc, b, b', code, h => by
    cases h
    rfl
  | first :: rest, slot, done, pc, b, b', code, h => by
    obtain ⟨c, c', mid, hc, hc', -⟩ := arms_cons h
    rw [used_arms rest hc', used_arm first hc, armsSlotCount, Nat.add_assoc]

end

theorem used_builtins : ∀ (names : List String) {total index : Nat} {b b' : Blocks}
    {code : List Instruction}, builtins total index b names = .ok (code, b') →
    b'.used = b.used + names.length
  | [], total, index, b, b', code, h => by
    cases h
    rfl
  | name :: rest, total, index, b, b', code, h => by
    obtain ⟨c, -, -, hc, -⟩ := builtins_cons h
    rw [used_builtins rest hc, List.length_cons, Nat.add_right_comm, Nat.add_assoc]

end Layout

/-! ## The slots stored to before each instruction -/

/-- The slot that a statement adds for the rest of its block, if `used` are taken before it. -/
def Stmt.declared (used : Nat) : Stmt → List Slot
  | .declare _ _ _ => [slotAt used]
  | .expression _ _ | .assign _ _ _ | .ifThen _ _ _ | .whileDo _ _ _ | .switch _ _ _ => []

namespace StoredSlots

open Layout (exprSize)

mutual

/-- The slots stored to before each instruction of a statement. -/
def stmt (used : Nat) (stored : List Slot) : Stmt → List (List Slot)
  | .expression value _ => .replicate (exprSize value + 1) stored
  | .declare _ value _ => .replicate (exprSize value + 1) stored
  | .assign _ value _ => .replicate (exprSize value + 1) stored
  | .ifThen test body _ => .replicate (exprSize test + 2) stored ++ stmts used stored body
  | .whileDo test body _ =>
    .replicate (exprSize test + 2) stored ++ stmts used stored body ++ [stored]
  | .switch subject cases _ =>
    .replicate (exprSize subject + 1) stored ++ arms (used + 1) (slotAt used :: stored) cases

/-- The slots stored to before each instruction of statements. -/
def stmts (used : Nat) (stored : List Slot) : List Stmt → List (List Slot)
  | [] => []
  | first :: rest =>
    stmt used stored first ++ stmts (used + first.slotCount) (first.declared used ++ stored) rest

/-- The slots stored to before each instruction of an arm. -/
def arm (used : Nat) (stored : List Slot) : Arm → List (List Slot)
  | .case value body =>
    .replicate (exprSize value + 4) stored ++ stmts used stored body ++ [stored]
  | .otherwise body => stmts used stored body ++ [stored]

/-- The slots stored to before each instruction of arms. -/
def arms (used : Nat) (stored : List Slot) : List Arm → List (List Slot)
  | [] => []
  | first :: rest => arm used stored first ++ arms (used + first.slotCount) stored rest

end

/-- The slots stored to before each instruction that installs builtins. -/
def builtins (used : Nat) (stored : List Slot) : List String → List (List Slot)
  | [] => []
  | _ :: rest => stored :: stored :: builtins (used + 1) (slotAt used :: stored) rest

/-- The slots stored to after builtins are installed. -/
def installed (used : Nat) (stored : List Slot) : List String → List Slot
  | [] => stored
  | _ :: rest => installed (used + 1) (slotAt used :: stored) rest

mutual

theorem length_stmt : ∀ (s : Stmt) (used : Nat) (stored : List Slot),
    (stmt used stored s).length = Layout.stmtSize s
  | .expression value position, used, stored => List.length_replicate
  | .declare name value position, used, stored => List.length_replicate
  | .assign name value position, used, stored => List.length_replicate
  | .ifThen test body position, used, stored => by
    rw [stmt, Layout.stmtSize, List.length_append, List.length_replicate, length_stmts body]
  | .whileDo test body position, used, stored => by
    rw [stmt, Layout.stmtSize, List.length_append, List.length_append, List.length_replicate,
      length_stmts body, List.length_singleton]
  | .switch subject cases position, used, stored => by
    rw [stmt, Layout.stmtSize, List.length_append, List.length_replicate, length_arms cases]

theorem length_stmts : ∀ (ss : List Stmt) (used : Nat) (stored : List Slot),
    (stmts used stored ss).length = Layout.stmtsSize ss
  | [], used, stored => rfl
  | first :: rest, used, stored => by
    rw [stmts, Layout.stmtsSize, List.length_append, length_stmt first, length_stmts rest]

theorem length_arm : ∀ (a : Arm) (used : Nat) (stored : List Slot),
    (arm used stored a).length = Layout.armSize a
  | .case value body, used, stored => by
    rw [arm, Layout.armSize, List.length_append, List.length_append, List.length_replicate,
      length_stmts body, List.length_singleton]
  | .otherwise body, used, stored => by
    rw [arm, Layout.armSize, List.length_append, length_stmts body, List.length_singleton]

theorem length_arms : ∀ (as : List Arm) (used : Nat) (stored : List Slot),
    (arms used stored as).length = Layout.armsSize as
  | [], used, stored => rfl
  | first :: rest, used, stored => by
    rw [arms, Layout.armsSize, List.length_append, length_arm first, length_arms rest]

end

theorem length_builtins : ∀ (names : List String) (used : Nat) (stored : List Slot),
    (builtins used stored names).length = 2 * names.length
  | [], used, stored => rfl
  | name :: rest, used, stored => by
    rw [builtins, List.length_cons, List.length_cons, length_builtins rest, List.length_cons]
    omega

end StoredSlots

/-- The slots stored to before each instruction of a compiled program. For the return at the end the
table promises nothing. -/
def Program.storedSlots (p : Program) (globals : List String) : Array (List Slot) :=
  (StoredSlots.builtins 0 [] globals ++
    StoredSlots.stmts globals.length (StoredSlots.installed 0 [] globals) p.statements ++
    [[]]).toArray

/-! ## Visible names have been stored to -/

/-- The slots of all visible names are among those given. -/
def SlotsIn (stored : List Slot) (slots : String → Option Slot) : Prop :=
  ∀ name slot, slots name = some slot → slot ∈ stored

namespace SlotsIn

variable {library : Library} {stored : List Slot} {b : Blocks}

theorem enter (h : SlotsIn stored b.resolve?) : SlotsIn stored b.enter.resolve? := by
  intro name slot hslot
  refine h name slot ?_
  rwa [Blocks.resolve?, Blocks.enter, Frames.lookup?_push] at hslot

theorem cons (h : SlotsIn stored b.resolve?) (slot : Slot) : SlotsIn (slot :: stored) b.resolve? :=
  fun name other hother => List.mem_cons_of_mem _ (h name other hother)

theorem declare (h : SlotsIn stored b.resolve?) (name : String) (slot : Slot) (used : Nat) :
    SlotsIn (slot :: stored) (Blocks.resolve? ⟨b.frames.insert name slot, used⟩) := by
  intro other found hfound
  rw [Blocks.resolve?, Frames.lookup?_insert] at hfound
  split at hfound
  · cases hfound
    exact List.mem_cons_self
  · exact List.mem_cons_of_mem _ (h other found hfound)

/-- Behind a statement the slot that it declares may be visible as well, and no other. -/
theorem stmt {s : Stmt} {pc : Nat} {b' : Blocks} {is : List Instruction}
    (h : SlotsIn stored b.resolve?) (hlay : Layout.stmt library pc b s = .ok (is, b')) :
    SlotsIn (s.declared b.used ++ stored) b'.resolve? := by
  cases s with
  | expression value position =>
    obtain ⟨v, -, -, rfl⟩ := Layout.stmt_expression hlay
    exact h
  | declare name value position =>
    obtain ⟨v, -, -, -, rfl⟩ := Layout.stmt_declare hlay
    exact h.declare name (slotAt b.used) (b.used + 1)
  | assign name value position =>
    obtain ⟨slot, v, -, -, -, rfl⟩ := Layout.stmt_assign hlay
    exact h
  | ifThen test body position =>
    obtain ⟨t, c, inner, -, -, -, rfl⟩ := Layout.stmt_ifThen hlay
    exact h
  | whileDo test body position =>
    obtain ⟨t, c, inner, -, -, -, rfl⟩ := Layout.stmt_whileDo hlay
    exact h
  | switch subject cases position =>
    obtain ⟨v, c, -, -, hc, -⟩ := Layout.stmt_switch hlay
    intro name slot hslot
    rw [Blocks.resolve?, Layout.frames_arms hc] at hslot
    exact h name slot hslot

theorem arm {a : Arm} {slot : Slot} {done pc : Nat} {b' : Blocks} {is : List Instruction}
    (h : SlotsIn stored b.resolve?) (hlay : Layout.arm library slot done pc b a = .ok (is, b')) :
    SlotsIn stored b'.resolve? := by
  intro name slot hslot
  rw [Blocks.resolve?, Layout.frames_arm hlay] at hslot
  exact h name slot hslot

theorem builtins : ∀ (names : List String) {total index : Nat} {b b' : Blocks}
    {is : List Instruction} {stored : List Slot}, SlotsIn stored b.resolve? →
    Layout.builtins total index b names = .ok (is, b') →
    SlotsIn (StoredSlots.installed b.used stored names) b'.resolve?
  | [], total, index, b, b', is, stored, h, hlay => by
    cases hlay
    exact h
  | name :: rest, total, index, b, b', is, stored, h, hlay => by
    obtain ⟨c, -, -, hc, -⟩ := Layout.builtins_cons hlay
    exact builtins rest (h.declare name (slotAt b.used) (b.used + 1)) hc

end SlotsIn

/-! ## Expressions read -/

/-- Whether an opcode works on the stack and the console alone. -/
def Opcode.isPlain : Opcode → Bool
  | loadInt | boxInt | pop | loadBuiltin | newArgs | storeArg | callRuntime => true
  | loadLocal | storeLocal | jump | jumpIfFalse | ret => false

/-- An instruction that loads from one of the given slots, or works on the stack and the console
alone. -/
inductive Instruction.Reads (stored : List Slot) : Instruction → Prop
  | plain {i : Instruction} (h : i.opcode.isPlain = true) : Reads stored i
  | load {slot : Slot} (h : slot ∈ stored) : Reads stored (.loadLocal slot)

namespace Instruction.Reads

variable {stored : List Slot} {i : Instruction}

theorem stores_eq (h : i.Reads stored) : i.stores = [] := by
  cases h with
  | plain h =>
    apply stores_of_ne
    intro hop
    rw [hop] at h
    cases h
  | load h => rfl

theorem mem_of_load (h : i.Reads stored) {slot : Slot} (hi : i = .loadLocal slot) :
    slot ∈ stored := by
  cases h with
  | plain h =>
    rw [hi] at h
    cases h
  | load h =>
    cases hi
    exact h

/-- The run goes on at the next instruction. -/
theorem eq_of_goes (h : i.Reads stored) {pc pc' : Nat} (hgoes : i.Goes pc pc') : pc' = pc + 1 := by
  cases hgoes with
  | next => rfl
  | jumps hop ha =>
    cases h with
    | plain h => rcases hop with hop | hop <;> rw [hop] at h <;> cases h
    | load h => rcases hop with hop | hop <;> cases hop

end Instruction.Reads

/-- Expressions read visible slots only. -/
theorem Layout.OfExpr.reads {stored : List Slot} {slots : String → Option Slot} {i : Instruction}
    (h : OfExpr slots i) (hslots : SlotsIn stored slots) : i.Reads stored := by
  cases h with
  | loadLocal h => exact .load (hslots _ _ h)
  | _ => exact .plain rfl

theorem SlotsIn.expr {library : Library} {stored : List Slot} {slots : String → Option Slot}
    (hslots : SlotsIn stored slots) (e : Expr) {is : List Instruction}
    (h : Layout.expr library slots e = .ok is) : ∀ i ∈ is, i.Reads stored :=
  fun i hi => (Layout.ofExpr_expr e h i hi).reads hslots

theorem SlotsIn.condition {library : Library} {stored : List Slot} {slots : String → Option Slot}
    (hslots : SlotsIn stored slots) {test : Expr} {is : List Instruction}
    (h : Layout.condition library slots test = .ok is) : ∀ i ∈ is, i.Reads stored :=
  fun i hi => (Layout.ofExpr_condition h i hi).reads hslots

/-! ## Code that keeps to the table -/

section

variable {α : Type} {array : Array α} {pc n : Nat} {x : α}

theorem Machine.StandsAt.getElem?_of_replicate (h : StandsAt array pc (List.replicate n x))
    {k : Nat} (hk : k < n) : array[pc + k]? = some x := by
  rw [h k (by rwa [List.length_replicate]), List.getElem?_replicate_of_lt hk]

theorem Machine.StandsAt.replicate_of_le (h : StandsAt array pc (List.replicate n x)) {m : Nat}
    (hm : m ≤ n) : StandsAt array pc (List.replicate m x) := by
  intro k hk
  rw [List.length_replicate] at hk
  rw [h.getElem?_of_replicate (hk.trans_le hm), List.getElem?_replicate_of_lt hk]

end

open Machine (StandsAt Suffices Keeps)

/-- Code at an address keeps to a table, and a run that has stored to the given slots may go
there. -/
structure KeepsFrom (known : Array (List Slot)) (pc : Nat) (stored : List Slot)
    (is : List Instruction) : Prop where
  each : EachAt (Keeps known) pc is
  first : Suffices known pc stored

namespace KeepsFrom

variable {known : Array (List Slot)} {pc : Nat} {stored : List Slot} {is c : List Instruction}

theorem nil (h : Suffices known pc stored) : KeepsFrom known pc stored [] := ⟨.nil, h⟩

theorem append (h : KeepsFrom known pc stored is) (h' : EachAt (Keeps known) (pc + is.length) c) :
    KeepsFrom known pc stored (is ++ c) :=
  ⟨h.each.append h', h.first⟩

/-- An instruction in front of code, at an address for which the table has just the given slots. -/
theorem cons {i : Instruction} (hpre : known[pc]? = some stored)
    (hload : ∀ slot, i = .loadLocal slot → slot ∈ stored)
    (hgoes : ∀ pc', i.Goes pc pc' → Suffices known pc' (i.stores ++ stored))
    (hrest : EachAt (Keeps known) (pc + 1) c) : KeepsFrom known pc stored (i :: c) :=
  ⟨.cons ⟨stored, hpre, hload, hgoes⟩ hrest, stored, hpre, List.Subset.refl stored⟩

/-- An instruction that only reads may come before. -/
theorem read {i : Instruction} (hi : i.Reads stored) (hpre : known[pc]? = some stored)
    (h : KeepsFrom known (pc + 1) stored c) : KeepsFrom known pc stored (i :: c) := by
  refine cons hpre (fun slot hslot => hi.mem_of_load hslot) ?_ h.each
  intro pc' hgoes
  rw [hi.eq_of_goes hgoes, hi.stores_eq]
  exact h.first

/-- Code that only reads may come before. -/
theorem after_reads {v : List Instruction} (hreads : ∀ i ∈ v, i.Reads stored)
    (htable : StandsAt known pc (List.replicate v.length stored))
    (h : KeepsFrom known (pc + v.length) stored c) : KeepsFrom known pc stored (v ++ c) := by
  induction v generalizing pc with
  | nil => exact h
  | cons i v ih =>
    obtain ⟨hi, hv⟩ := List.forall_mem_cons.1 hreads
    rw [List.length_cons, List.replicate_succ] at htable
    rw [List.length_cons, ← Nat.add_assoc, Nat.add_right_comm] at h
    exact read hi htable.head (ih hv htable.tail h)

/-- A store adds its slot for what comes behind it. -/
theorem store {slot : Slot} (hpre : known[pc]? = some stored)
    (h : KeepsFrom known (pc + 1) (slot :: stored) c) :
    KeepsFrom known pc stored (.storeLocal slot :: c) := by
  refine cons hpre (fun other hother => by cases hother) ?_ h.each
  intro pc' hgoes
  cases hgoes with
  | next => exact h.first
  | jumps hop => rcases hop with hop | hop <;> cases hop

/-- A test leads to what comes behind it or to its target. -/
theorem test {target : Nat} (hpre : known[pc]? = some stored)
    (htarget : Suffices known target stored) (hlt : target < 2 ^ 32)
    (h : KeepsFrom known (pc + 1) stored c) :
    KeepsFrom known pc stored (.jumpIfFalse target.toUInt32 :: c) := by
  refine cons hpre (fun slot hslot => by cases hslot) ?_ h.each
  intro pc' hgoes
  cases hgoes with
  | next => exact h.first
  | jumps hop ha =>
    cases ha
    rw [toNat_toUInt32 hlt]
    exact htarget

/-- The comparison of a case with the subject reads the subject's slot besides what the value of the
case reads. -/
theorem after_comparison {v : List Instruction} {slot : Slot} {equal truth : EntryPoint}
    {target : Nat} (hreads : ∀ i ∈ v, i.Reads stored) (hslot : slot ∈ stored)
    (htable : StandsAt known pc (List.replicate (v.length + 4) stored))
    (htarget : Suffices known target stored) (hlt : target < 2 ^ 32)
    (h : KeepsFrom known (pc + v.length + 4) stored c) :
    KeepsFrom known pc stored (v ++ ([Instruction.loadLocal slot, Instruction.callRuntime equal,
      Instruction.callRuntime truth, Instruction.jumpIfFalse target.toUInt32] ++ c)) := by
  have hpre : ∀ k < 4, known[pc + v.length + k]? = some stored := by
    intro k hk
    rw [Nat.add_assoc]
    exact htable.getElem?_of_replicate (Nat.add_lt_add_left hk _)
  refine after_reads hreads (htable.replicate_of_le (Nat.le_add_right _ 4)) ?_
  -- from the back: the branch, the truth value, the comparison and the load of the subject
  have hbranch := test (hpre 3 (by decide)) htarget hlt h
  have htruth := read (i := .callRuntime truth) (.plain rfl) (hpre 2 (by decide)) hbranch
  have hequal := read (i := .callRuntime equal) (.plain rfl) (hpre 1 (by decide)) htruth
  exact read (.load hslot) (hpre 0 (by decide)) hequal

/-- A jump leads to its target only. -/
theorem jump {target : Nat} (hpre : known[pc]? = some stored)
    (htarget : Suffices known target stored) (hlt : target < 2 ^ 32) :
    KeepsFrom known pc stored [.jump target.toUInt32] := by
  refine cons hpre (fun slot hslot => by cases hslot) ?_ .nil
  intro pc' hgoes
  cases hgoes with
  | next hjump => exact absurd rfl hjump
  | jumps hop ha =>
    cases ha
    rw [toNat_toUInt32 hlt]
    exact htarget

/-- A return leads nowhere. -/
theorem ret (hpre : known[pc]? = some []) : KeepsFrom known pc stored [.ret] := by
  have h : KeepsFrom known pc [] [.ret] := by
    refine cons hpre (fun slot hslot => by cases hslot) ?_ .nil
    intro pc' hgoes
    cases hgoes with
    | next _ hret => exact absurd rfl hret
    | jumps hop => rcases hop with hop | hop <;> cases hop
  exact ⟨h.each, h.first.mono (List.nil_subset stored)⟩

end KeepsFrom

section

variable {library : Library} {known : Array (List Slot)}

mutual

/-- The code of a statement keeps to its table. -/
theorem stmt_keeps : ∀ (s : Stmt) {pc : Nat} {b b' : Blocks} {is : List Instruction}
    {stored : List Slot}, Layout.stmt library pc b s = .ok (is, b') →
    SlotsIn stored b.resolve? → StandsAt known pc (StoredSlots.stmt b.used stored s) →
    Suffices known (pc + is.length) (s.declared b.used ++ stored) → pc + is.length < 2 ^ 32 →
    KeepsFrom known pc stored is
  | .expression value position, pc, b, b', is, stored, hlay, hslots, htable, hend, hlt => by
    obtain ⟨v, hv, rfl, rfl⟩ := Layout.stmt_expression hlay
    rw [StoredSlots.stmt] at htable
    have hreads : ∀ i ∈ v ++ [Instruction.pop], i.Reads stored :=
      List.forall_mem_append.2
        ⟨hslots.expr value hv, List.forall_mem_singleton.2 (.plain rfl)⟩
    rw [← List.append_nil (v ++ [Instruction.pop])]
    refine .after_reads hreads ?_ (.nil hend)
    rwa [List.length_append, List.length_singleton, Layout.length_expr value hv]
  | .declare name value position, pc, b, b', is, stored, hlay, hslots, htable, hend, hlt => by
    obtain ⟨v, hv, -, rfl, rfl⟩ := Layout.stmt_declare hlay
    rw [StoredSlots.stmt, ← Layout.length_expr value hv] at htable
    rw [List.length_append] at hend
    refine .after_reads (hslots.expr value hv) (htable.replicate_of_le (Nat.le_succ _)) ?_
    exact .store (htable.getElem?_of_replicate (Nat.lt_succ_self _)) (.nil hend)
  | .assign name value position, pc, b, b', is, stored, hlay, hslots, htable, hend, hlt => by
    obtain ⟨slot, v, hslot, hv, rfl, rfl⟩ := Layout.stmt_assign hlay
    rw [StoredSlots.stmt, ← Layout.length_expr value hv] at htable
    rw [List.length_append] at hend
    refine .after_reads (hslots.expr value hv) (htable.replicate_of_le (Nat.le_succ _)) ?_
    -- the slot is one of those stored to already
    exact .store (htable.getElem?_of_replicate (Nat.lt_succ_self _))
      (.nil (hend.mono (List.subset_cons_self slot stored)))
  | .ifThen test body position, pc, b, b', is, stored, hlay, hslots, htable, hend, hlt => by
    obtain ⟨t, c, inner, ht, hc, rfl, rfl⟩ := Layout.stmt_ifThen hlay
    have hlength := Layout.length_condition ht
    rw [StoredSlots.stmt, show Layout.exprSize test + 2 = t.length + 1 by omega] at htable
    simp only [List.length_append, List.length_singleton, ← Nat.add_assoc] at hend hlt
    have hbodyTable : StandsAt known (pc + t.length + 1) (StoredSlots.stmts b.used stored body) :=
      htable.right_at (by rw [List.length_replicate, Nat.add_assoc])
    have hbody := stmts_keep body hc hslots.enter hbodyTable hend hlt
    rw [List.append_assoc]
    refine .after_reads (hslots.condition ht)
      (htable.left.replicate_of_le (Nat.le_succ _)) ?_
    exact .test (htable.left.getElem?_of_replicate (Nat.lt_succ_self _)) hend hlt hbody
  | .whileDo test body position, pc, b, b', is, stored, hlay, hslots, htable, hend, hlt => by
    obtain ⟨t, c, inner, ht, hc, rfl, rfl⟩ := Layout.stmt_whileDo hlay
    have hlength := Layout.length_condition ht
    rw [StoredSlots.stmt, show Layout.exprSize test + 2 = t.length + 1 by omega] at htable
    simp only [List.length_append, List.length_singleton, ← Nat.add_assoc] at hend hlt
    have hbodyTable : StandsAt known (pc + t.length + 1) (StoredSlots.stmts b.used stored body) :=
      htable.left.right_at (by rw [List.length_replicate, Nat.add_assoc])
    have hback : known[pc + t.length + 1 + c.length]? = some stored := by
      refine (htable.right_at ?_).head
      rw [List.length_append, List.length_replicate, StoredSlots.length_stmts,
        Layout.length_stmts body hc, ← Nat.add_assoc, ← Nat.add_assoc]
    -- the jump back leads to the condition, for which the table has what it has for the jump
    have hhead : Suffices known pc stored :=
      ⟨stored, htable.left.left.getElem?_of_replicate (Nat.succ_pos _), List.Subset.refl stored⟩
    have hjump := KeepsFrom.jump hback hhead (by omega)
    have hbody := stmts_keep body hc hslots.enter hbodyTable hjump.first (by omega)
    rw [List.append_assoc, List.append_assoc]
    refine .after_reads (hslots.condition ht)
      (htable.left.left.replicate_of_le (Nat.le_succ _)) ?_
    exact .test (htable.left.left.getElem?_of_replicate (Nat.lt_succ_self _)) hend hlt
      (hbody.append hjump.each)
  | .switch subject cases position, pc, b, b', is, stored, hlay, hslots, htable, hend, hlt => by
    obtain ⟨v, c, hv, -, hc, rfl⟩ := Layout.stmt_switch hlay
    rw [StoredSlots.stmt, ← Layout.length_expr subject hv] at htable
    simp only [List.length_append, List.length_singleton, ← Nat.add_assoc] at hend hlt
    have harmTable : StandsAt known (pc + v.length + 1)
        (StoredSlots.arms (b.used + 1) (slotAt b.used :: stored) cases) :=
      htable.right_at (by rw [List.length_replicate, Nat.add_assoc])
    have hsub := List.subset_cons_self (slotAt b.used) stored
    rw [← Layout.length_arms cases hc] at hc
    have harms := arms_keep cases hc (hslots.cons _) List.mem_cons_self (hend.mono hsub) hlt
      harmTable (hend.mono hsub) hlt
    rw [List.append_assoc]
    refine .after_reads (hslots.expr subject hv)
      (htable.left.replicate_of_le (Nat.le_succ _)) ?_
    exact .store (htable.left.getElem?_of_replicate (Nat.lt_succ_self _)) harms

/-- The code of statements keeps to its table. -/
theorem stmts_keep : ∀ (ss : List Stmt) {pc : Nat} {b b' : Blocks} {is : List Instruction}
    {stored : List Slot}, Layout.stmts library pc b ss = .ok (is, b') →
    SlotsIn stored b.resolve? → StandsAt known pc (StoredSlots.stmts b.used stored ss) →
    Suffices known (pc + is.length) stored → pc + is.length < 2 ^ 32 →
    KeepsFrom known pc stored is
  | [], pc, b, b', is, stored, hlay, hslots, htable, hend, hlt => by
    cases hlay
    exact .nil hend
  | first :: rest, pc, b, b', is, stored, hlay, hslots, htable, hend, hlt => by
    obtain ⟨c, c', mid, hc, hc', rfl⟩ := Layout.stmts_cons hlay
    rw [StoredSlots.stmts, ← Layout.used_stmt first hc] at htable
    rw [List.length_append, ← Nat.add_assoc] at hend hlt
    have hrestTable : StandsAt known (pc + c.length)
        (StoredSlots.stmts mid.used (first.declared b.used ++ stored) rest) :=
      htable.right_at (by rw [StoredSlots.length_stmt, Layout.length_stmt first hc])
    -- what the first statement declares is known to the rest, and forgotten behind it
    have hrest := stmts_keep rest hc' (hslots.stmt hc) hrestTable
      (hend.mono (List.subset_append_right _ stored)) hlt
    exact (stmt_keeps first hc hslots htable.left hrest.first (by omega)).append hrest.each

/-- The code of an arm keeps to its table. -/
theorem arm_keeps : ∀ (a : Arm) {slot : Slot} {done pc : Nat} {b b' : Blocks}
    {is : List Instruction} {stored : List Slot},
    Layout.arm library slot done pc b a = .ok (is, b') → SlotsIn stored b.resolve? →
    slot ∈ stored → Suffices known done stored → done < 2 ^ 32 →
    StandsAt known pc (StoredSlots.arm b.used stored a) →
    Suffices known (pc + is.length) stored → pc + is.length < 2 ^ 32 →
    KeepsFrom known pc stored is
  | .case value body, slot, done, pc, b, b', is, stored, hlay, hslots, hslot, hdone, hfar, htable,
      hend, hlt => by
    obtain ⟨v, equal, test, c, inner, hv, -, -, hc, rfl, rfl⟩ := Layout.arm_case hlay
    rw [StoredSlots.arm, ← Layout.length_expr value hv] at htable
    simp only [List.length_append, List.length_cons, List.length_nil, ← Nat.add_assoc,
      Nat.add_zero] at hend hlt
    have hbodyTable : StandsAt known (pc + v.length + 4) (StoredSlots.stmts b.used stored body) :=
      htable.left.right_at (by rw [List.length_replicate, Nat.add_assoc])
    have hout : known[pc + v.length + 4 + c.length]? = some stored := by
      refine (htable.right_at ?_).head
      rw [List.length_append, List.length_replicate, StoredSlots.length_stmts,
        Layout.length_stmts body hc, ← Nat.add_assoc, ← Nat.add_assoc]
    have hjump := KeepsFrom.jump hout hdone hfar
    have hbody := stmts_keep body hc hslots.enter hbodyTable hjump.first (by omega)
    rw [List.append_assoc, List.append_assoc]
    exact .after_comparison (hslots.expr value hv) hslot htable.left.left hend hlt
      (hbody.append hjump.each)
  | .otherwise body, slot, done, pc, b, b', is, stored, hlay, hslots, hslot, hdone, hfar, htable,
      hend, hlt => by
    obtain ⟨c, inner, hc, rfl, rfl⟩ := Layout.arm_otherwise hlay
    rw [StoredSlots.arm] at htable
    rw [List.length_append, ← Nat.add_assoc] at hlt
    have hout : known[pc + c.length]? = some stored :=
      (htable.right_at (by rw [StoredSlots.length_stmts, Layout.length_stmts body hc])).head
    have hjump := KeepsFrom.jump hout hdone hfar
    have hbody := stmts_keep body hc hslots.enter htable.left hjump.first (by omega)
    exact hbody.append hjump.each

/-- The code of arms keeps to its table. -/
theorem arms_keep : ∀ (as : List Arm) {slot : Slot} {done pc : Nat} {b b' : Blocks}
    {is : List Instruction} {stored : List Slot},
    Layout.arms library slot done pc b as = .ok (is, b') → SlotsIn stored b.resolve? →
    slot ∈ stored → Suffices known done stored → done < 2 ^ 32 →
    StandsAt known pc (StoredSlots.arms b.used stored as) →
    Suffices known (pc + is.length) stored → pc + is.length < 2 ^ 32 →
    KeepsFrom known pc stored is
  | [], slot, done, pc, b, b', is, stored, hlay, hslots, hslot, hdone, hfar, htable, hend,
      hlt => by
    cases hlay
    exact .nil hend
  | first :: rest, slot, done, pc, b, b', is, stored, hlay, hslots, hslot, hdone, hfar, htable,
      hend, hlt => by
    obtain ⟨c, c', mid, hc, hc', rfl⟩ := Layout.arms_cons hlay
    rw [StoredSlots.arms, ← Layout.used_arm first hc] at htable
    rw [List.length_append, ← Nat.add_assoc] at hend hlt
    have hrestTable : StandsAt known (pc + c.length) (StoredSlots.arms mid.used stored rest) :=
      htable.right_at (by rw [StoredSlots.length_arm, Layout.length_arm first hc])
    have hrest := arms_keep rest hc' (hslots.arm hc) hslot hdone hfar hrestTable hend hlt
    exact (arm_keeps first hc hslots hslot hdone hfar htable.left hrest.first
      (by omega)).append hrest.each

end

/-- The code that installs builtins stores to their slots one by one. -/
theorem builtins_keep : ∀ (names : List String) {total index : Nat} {b b' : Blocks}
    {is c : List Instruction} {pc : Nat} {stored : List Slot},
    Layout.builtins total index b names = .ok (is, b') →
    StandsAt known pc (StoredSlots.builtins b.used stored names) →
    KeepsFrom known (pc + is.length) (StoredSlots.installed b.used stored names) c →
    KeepsFrom known pc stored (is ++ c)
  | [], total, index, b, b', is, c, pc, stored, hlay, htable, hrest => by
    cases hlay
    exact hrest
  | name :: rest, total, index, b, b', is, c, pc, stored, hlay, htable, hrest => by
    obtain ⟨is, -, -, his, rfl⟩ := Layout.builtins_cons hlay
    rw [StoredSlots.builtins] at htable
    have haddress : pc + (is.length + 1 + 1) = pc + 1 + 1 + is.length := by omega
    rw [StoredSlots.installed, List.length_cons, List.length_cons, haddress] at hrest
    have hstore := KeepsFrom.store htable.tail.head (builtins_keep rest his htable.tail.tail hrest)
    exact .read (.plain rfl) htable.head hstore

/-- The code of a program keeps to its table. -/
theorem program_keeps {p : Program} {globals : List String} {chunk : Chunk}
    (hlay : Layout.program library globals p.statements = .ok chunk)
    (hsize : chunk.code.size < 2 ^ 32) :
    KeepsFrom (p.storedSlots globals) 0 [] chunk.code.toList := by
  obtain ⟨start, b₁, c, b₂, hstart, hc, rfl⟩ := Layout.program_eq_ok hlay
  have hlength := Layout.length_builtins globals hstart
  have hused : b₁.used = globals.length := by
    rw [Layout.used_builtins globals hstart]
    exact Nat.zero_add _
  have htable : StandsAt (p.storedSlots globals) 0 (StoredSlots.builtins 0 [] globals ++
      StoredSlots.stmts b₁.used (StoredSlots.installed 0 [] globals) p.statements ++ [[]]) := by
    rw [hused]
    exact Machine.standsAt_toArray _
  have hcodeTable := htable.left.right
  have hretTable := htable.right.head
  rw [List.length_append, StoredSlots.length_stmts, ← Layout.length_stmts _ hc] at hretTable
  rw [StoredSlots.length_builtins, ← hlength, Nat.zero_add] at hcodeTable hretTable
  have hret : KeepsFrom (p.storedSlots globals) (start.length + c.length)
      (StoredSlots.installed 0 [] globals) [.ret] := .ret hretTable
  have hvisible : SlotsIn (StoredSlots.installed 0 [] globals) b₁.resolve? := by
    refine SlotsIn.builtins globals (b := {}) (fun name slot hslot => ?_) hstart
    cases hslot
  have hlt : start.length + c.length < 2 ^ 32 := by
    simp only [List.size_toArray, List.length_append] at hsize
    omega
  have hcode := stmts_keep _ hc hvisible hcodeTable hret.first hlt
  rw [List.append_assoc]
  refine builtins_keep globals hstart htable.left.left ?_
  rw [Nat.zero_add]
  exact hcode.append hret.each

end

/-! ## Runs of compiled programs -/

/-- **Every load comes after a store.** For a program that compiles to fewer than `2 ^ 32`
instructions, on any host and any console, and for a run of any length: when the run is about to
load from a slot, it has performed a store to that slot before. So the nulls that a run starts with
are never seen: from any other locals the run has the same stacks, consoles and result. -/
theorem Program.definite_stores_of_compile {σ : Type} {library : Library} {table : BuiltinTable}
    {p : Program} {chunk : Chunk} (hcompile : p.compile library table = .ok chunk)
    (hsize : chunk.code.size < 2 ^ 32) (host : Machine.Host σ) (console : Console σ) :
    (∀ n s slot, Machine.runFor host chunk.code n (.start chunk console) = .running s →
        chunk.code[s.ip]? = some (.loadLocal slot) →
        ∃ m < n, ∃ s', Machine.runFor host chunk.code m (.start chunk console) = .running s' ∧
          chunk.code[s'.ip]? = some (.storeLocal slot)) ∧
      ∀ locals : Array Value, locals.size = chunk.localCount → ∀ n,
        (Machine.runFor host chunk.code n (.start chunk console)).Alike
          (Machine.runFor host chunk.code n ⟨0, [], locals, console⟩) := by
  have hkeeps := program_keeps (layout_of_compile hcompile hsize) hsize
  have hall : ∀ pc i, chunk.code[pc]? = some i → Keeps (p.storedSlots table.names) pc i :=
    fun pc i hi => hkeeps.each.at hi
  constructor
  · intro n s slot hrun hload
    exact Machine.loads_after_stores hall hkeeps.first hrun hload
  · intro locals hlocals n
    -- for the first address the table has no slots to agree on
    obtain ⟨slots, hslots, hnone⟩ := hkeeps.first
    refine Machine.runFor_alike hall n ⟨slots, hslots, rfl, rfl, rfl, ?_, ?_⟩
    · rw [hlocals]
      exact Array.size_replicate.symm
    · intro slot hslot
      exact absurd (hnone hslot) List.not_mem_nil

/-- A loop whose body declares a name and switches on it, with an arm that is not taken in the first
round and a body that is skipped: what its loads see has been stored, also if all locals hold seven
at the start. -/
theorem Program.definite_stores_of_compile_nested :
    let p : Program := ⟨none, [
      .declare "i" (.number "2" {}) {},
      .whileDo (.identifier "i" {}) [
        .declare "j" (.binary (.identifier "i" {}) "-" (.number "1" {}) {}) {},
        .switch (.identifier "j" {}) [
          .case (.number "0" {}) [.declare "k" (.identifier "j" {}) {}],
          .otherwise [.ifThen (.number "0" {}) [.assign "j" (.identifier "i" {}) {}] {}]] {},
        .assign "i" (.identifier "j" {}) {}] {}]⟩
    let host : Machine.Host Unit := ⟨Library.standard.operation, .standard, .standard⟩
    ∃ chunk, p.compile .standard .standard = .ok chunk ∧ chunk.code.size < 2 ^ 32 ∧
      chunk.localCount = 8 ∧
      (∀ n s slot, Machine.runFor host chunk.code n (.start chunk ⟨#[], ()⟩) = .running s →
        chunk.code[s.ip]? = some (.loadLocal slot) →
        ∃ m < n, ∃ s', Machine.runFor host chunk.code m (.start chunk ⟨#[], ()⟩) = .running s' ∧
          chunk.code[s'.ip]? = some (.storeLocal slot)) ∧
      ∀ n, (Machine.runFor host chunk.code n (.start chunk ⟨#[], ()⟩)).Alike
        (Machine.runFor host chunk.code n ⟨0, [], Array.replicate 8 (.int 7), ⟨#[], ()⟩⟩) := by
  intro p host
  have hending : (p.draft .standard BuiltinTable.standard.names).ending = .ok 8 := by
    decide +kernel
  obtain ⟨chunk, hcompile, hsize⟩ : ∃ chunk, p.compile .standard .standard = .ok chunk ∧
      chunk.code.size < 2 ^ 32 :=
    exists_chunk (by decide +kernel) hending
  have hcount : chunk.localCount = 8 := by
    rw [draft_ending, layout_of_compile hcompile hsize] at hending
    exact Except.ok.inj hending
  obtain ⟨hloads, halike⟩ := definite_stores_of_compile hcompile hsize host ⟨#[], ()⟩
  refine ⟨chunk, hcompile, hsize, hcount, hloads, halike (Array.replicate 8 (.int 7)) ?_⟩
  rw [hcount]
  exact Array.size_replicate

end StackScript
