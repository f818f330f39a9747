import Mathlib.Tactic
import StackScript.Proofs.DefiniteStores
import StackScript.Proofs.Widths

set_option autoImplicit false

/-!
# Every slot is accounted for

Slots are taken by builtins, by declarations and by the subjects of switches, one each, in the order
in which their stores stand in the code. `Program.storeSites` says from the tree where these stores
are, and where those of assignments are; there are no others. The main statement is
`Program.slots_of_compile`: the stores that take a slot go through all slots in order, and an
assignment stores to a slot that has been taken before.
-/

namespace StackScript

/-! ## The statements of a tree -/

mutual

/-- A statement and all statements inside it. -/
def Stmt.nodes : Stmt → List Stmt
  | .expression value p => [.expression value p]
  | .declare name value p => [.declare name value p]
  | .assign name value p => [.assign name value p]
  | .ifThen test body p => .ifThen test body p :: stmtsNodes body
  | .whileDo test body p => .whileDo test body p :: stmtsNodes body
  | .switch subject cases p => .switch subject cases p :: armsNodes cases

/-- Statements and all statements inside them. -/
def stmtsNodes : List Stmt → List Stmt
  | [] => []
  | first :: rest => first.nodes ++ stmtsNodes rest

/-- All statements inside an arm. -/
def Arm.nodes : Arm → List Stmt
  | .case _ body => stmtsNodes body
  | .otherwise body => stmtsNodes body

/-- All statements inside arms, also those that are never reached. -/
def armsNodes : List Arm → List Stmt
  | [] => []
  | first :: rest => first.nodes ++ armsNodes rest

end

/-- Whether a statement is a declaration. -/
def Stmt.isDeclaration : Stmt → Bool
  | .declare _ _ _ => true
  | _ => false

/-- Whether a statement is a switch. -/
def Stmt.isSwitch : Stmt → Bool
  | .switch _ _ _ => true
  | _ => false

/-- The number of declarations and switches among statements. -/
def declarationsAndSwitches (ss : List Stmt) : Nat :=
  ss.countP Stmt.isDeclaration + ss.countP Stmt.isSwitch

theorem declarationsAndSwitches_cons (s : Stmt) (ss : List Stmt) :
    declarationsAndSwitches (s :: ss) =
      (if s.isDeclaration then 1 else 0) + (if s.isSwitch then 1 else 0) +
        declarationsAndSwitches ss := by
  simp only [declarationsAndSwitches, List.countP_cons]
  omega

theorem declarationsAndSwitches_append (ss ts : List Stmt) :
    declarationsAndSwitches (ss ++ ts) =
      declarationsAndSwitches ss + declarationsAndSwitches ts := by
  simp only [declarationsAndSwitches, List.countP_append]
  omega

mutual

theorem Stmt.slotCount_eq : ∀ s : Stmt, s.slotCount = declarationsAndSwitches s.nodes
  | .expression value position => rfl
  | .declare name value position => rfl
  | .assign name value position => rfl
  | .ifThen test body position => by
    rw [Stmt.slotCount, Stmt.nodes, declarationsAndSwitches_cons, stmtsSlotCount_eq body]
    exact (Nat.zero_add _).symm
  | .whileDo test body position => by
    rw [Stmt.slotCount, Stmt.nodes, declarationsAndSwitches_cons, stmtsSlotCount_eq body]
    exact (Nat.zero_add _).symm
  | .switch subject cases position => by
    rw [Stmt.slotCount, Stmt.nodes, declarationsAndSwitches_cons, armsSlotCount_eq cases]
    rfl

theorem stmtsSlotCount_eq : ∀ ss : List Stmt,
    stmtsSlotCount ss = declarationsAndSwitches (stmtsNodes ss)
  | [] => rfl
  | first :: rest => by
    rw [stmtsSlotCount, stmtsNodes, declarationsAndSwitches_append, Stmt.slotCount_eq first,
      stmtsSlotCount_eq rest]

theorem Arm.slotCount_eq : ∀ a : Arm, a.slotCount = declarationsAndSwitches a.nodes
  | .case _ body => stmtsSlotCount_eq body
  | .otherwise body => stmtsSlotCount_eq body

theorem armsSlotCount_eq : ∀ as : List Arm,
    armsSlotCount as = declarationsAndSwitches (armsNodes as)
  | [] => rfl
  | first :: rest => by
    rw [armsSlotCount, armsNodes, declarationsAndSwitches_append, Arm.slotCount_eq first,
      armsSlotCount_eq rest]

end

/-! ## Where the stores of a tree are -/

/-- What a store to a slot is for. -/
inductive StoreOrigin
  | builtin
  | declaration
  | subject
  | assignment
deriving DecidableEq

/-- Whether a store is the one that takes its slot. -/
def StoreOrigin.takes : StoreOrigin → Bool
  | builtin | declaration | subject => true
  | assignment => false

namespace StoreSites

open Layout (exprSize stmtSize armSize)

mutual

/-- The stores of a statement at address `pc`: their addresses and what they are for. -/
def stmt (pc : Nat) : Stmt → List (Nat × StoreOrigin)
  | .expression _ _ => []
  | .declare _ value _ => [(pc + exprSize value, .declaration)]
  | .assign _ value _ => [(pc + exprSize value, .assignment)]
  | .ifThen test body _ => stmts (pc + exprSize test + 2) body
  | .whileDo test body _ => stmts (pc + exprSize test + 2) body
  | .switch subject cases _ =>
    (pc + exprSize subject, .subject) :: arms (pc + exprSize subject + 1) cases

/-- The stores of statements. -/
def stmts (pc : Nat) : List Stmt → List (Nat × StoreOrigin)
  | [] => []
  | first :: rest => stmt pc first ++ stmts (pc + stmtSize first) rest

/-- The stores of an arm. -/
def arm (pc : Nat) : Arm → List (Nat × StoreOrigin)
  | .case value body => stmts (pc + exprSize value + 4) body
  | .otherwise body => stmts pc body

/-- The stores of arms. -/
def arms (pc : Nat) : List Arm → List (Nat × StoreOrigin)
  | [] => []
  | first :: rest => arm pc first ++ arms (pc + armSize first) rest

end

/-- The stores of builtins. -/
def builtins (pc : Nat) : List String → List (Nat × StoreOrigin)
  | [] => []
  | _ :: rest => (pc + 1, .builtin) :: builtins (pc + 2) rest

end StoreSites

/-- The stores of a program over global names. -/
def Program.storeSites (p : Program) (globals : List String) : List (Nat × StoreOrigin) :=
  StoreSites.builtins 0 globals ++ StoreSites.stmts (2 * globals.length) p.statements

/-! ## The stores of code -/

/-- The stores in code at address `pc`, with their addresses. -/
def Instruction.storesFrom (pc : Nat) : List Instruction → List (Nat × Instruction)
  | [] => []
  | i :: rest =>
    if i.opcode = .storeLocal then (pc, i) :: storesFrom (pc + 1) rest
    else storesFrom (pc + 1) rest

/-- The stores of a chunk, with their addresses. -/
def Chunk.stores (c : Chunk) : List (Nat × Instruction) := Instruction.storesFrom 0 c.code.toList

section

open Instruction (storesFrom)

variable {pc : Nat} {i : Instruction} {is js : List Instruction}

theorem storesFrom_cons_of_ne (h : i.opcode ≠ .storeLocal) :
    storesFrom pc (i :: is) = storesFrom (pc + 1) is := by
  rw [storesFrom, if_neg h]

theorem storesFrom_storeLocal (slot : Slot) :
    storesFrom pc (.storeLocal slot :: is) = (pc, .storeLocal slot) :: storesFrom (pc + 1) is :=
  rfl

theorem storesFrom_append :
    storesFrom pc (is ++ js) = storesFrom pc is ++ storesFrom (pc + is.length) js := by
  induction is generalizing pc with
  | nil => rfl
  | cons i is ih =>
    rw [List.length_cons, ← Nat.add_assoc, Nat.add_right_comm]
    simp only [List.cons_append, storesFrom]
    rw [ih]
    split
    · rfl
    · rfl

/-- Expressions store nothing. -/
theorem storesFrom_eq_nil {slots : String → Option Slot}
    (h : ∀ i ∈ is, Layout.OfExpr slots i) : storesFrom pc is = [] := by
  induction is generalizing pc with
  | nil => rfl
  | cons i is ih =>
    obtain ⟨hi, his⟩ := List.forall_mem_cons.1 h
    have hopcode : i.opcode ≠ .storeLocal := by
      cases hi <;> nofun
    rw [storesFrom_cons_of_ne hopcode, ih his]

end

/-! ## Stores that take slots in order -/

theorem Slot.eq_of_toNat {s t : Slot} (h : s.index.toNat = t.index.toNat) : s = t := by
  cases s
  cases t
  exact congrArg Slot.mk (UInt16.toNat_inj.1 h)

/-- A store in code: where it is, what it is for and the slot it goes to. -/
structure Store where
  address : Nat
  origin : StoreOrigin
  slot : Slot

namespace Store

/-- Where a store is and what it is for. -/
def site (s : Store) : Nat × StoreOrigin := (s.address, s.origin)

/-- Where a store is and what it is in code. -/
def code (s : Store) : Nat × Instruction := (s.address, .storeLocal s.slot)

/-- From `n` slots taken before to `m` taken after: a store takes the next slot, or goes to one that
is taken. -/
inductive InOrder : Nat → List Store → Nat → Prop
  | nil (n : Nat) : InOrder n [] n
  | takes {n m : Nat} {s : Store} {rest : List Store} (horigin : s.origin.takes = true)
    (hslot : s.slot.index.toNat = n) (hrest : InOrder (n + 1) rest m) : InOrder n (s :: rest) m
  | assigns {n m : Nat} {s : Store} {rest : List Store} (horigin : s.origin = .assignment)
    (hslot : s.slot.index.toNat < n) (hrest : InOrder n rest m) : InOrder n (s :: rest) m

namespace InOrder

variable {n m k : Nat} {stores rest : List Store}

theorem append (h : InOrder n stores m) (h' : InOrder m rest k) : InOrder n (stores ++ rest) k := by
  induction h with
  | nil n => exact h'
  | takes horigin hslot _ ih => exact .takes horigin hslot (ih h')
  | assigns horigin hslot _ ih => exact .assigns horigin hslot (ih h')

theorem le (h : InOrder n stores m) : n ≤ m := by
  induction h with
  | nil n => exact le_rfl
  | takes _ _ _ ih => omega
  | assigns _ _ _ ih => exact ih

/-- The slots that are taken are the next ones, each of them once. -/
theorem taken (h : InOrder n stores m) :
    (stores.filter (·.origin.takes)).map (·.slot.index.toNat) = List.range' n (m - n) := by
  induction h with
  | nil n => simp
  | @takes n m s rest horigin hslot hrest ih =>
    -- the first store takes the first slot of the range
    have hcount : m - n = (m - (n + 1)) + 1 := by
      have := hrest.le
      omega
    simp only [List.filter_cons, horigin, if_true, List.map_cons, ih, hslot, hcount,
      List.range'_succ]
  | @assigns n m s rest horigin hslot hrest ih =>
    have htakes : s.origin.takes = false := by
      rw [horigin]
      rfl
    simp only [List.filter_cons, htakes, Bool.false_eq_true, if_false, ih]

/-- An assignment goes to a slot that was taken at the start or is taken by a store before it. -/
theorem taken_before (h : InOrder n stores m) {before after : List Store} {s : Store}
    (hstores : stores = before ++ s :: after) (hs : s.origin = .assignment) :
    s.slot.index.toNat < n ∨ ∃ s' ∈ before, s'.origin.takes = true ∧ s'.slot = s.slot := by
  induction h generalizing before with
  | nil n => simp at hstores
  | @takes n m first rest horigin hslot hrest ih =>
    cases before with
    | nil =>
      -- the first store is no assignment
      cases hstores
      rw [hs] at horigin
      cases horigin
    | cons first' before =>
      cases hstores
      rcases ih rfl with hlt | ⟨s', hs', htaken⟩
      · -- the slot is among those of the start, or it is the one that is taken now
        rcases Nat.lt_succ_iff_lt_or_eq.1 hlt with hlt | heq
        · exact .inl hlt
        · have hsame := Slot.eq_of_toNat (hslot.trans heq.symm)
          exact .inr ⟨first, List.mem_cons_self, horigin, hsame⟩
      · exact .inr ⟨s', List.mem_cons_of_mem _ hs', htaken⟩
  | @assigns n m first rest horigin hslot hrest ih =>
    cases before with
    | nil =>
      cases hstores
      exact .inl hslot
    | cons first' before =>
      cases hstores
      rcases ih rfl with hlt | ⟨s', hs', htaken⟩
      · exact .inl hlt
      · exact .inr ⟨s', List.mem_cons_of_mem _ hs', htaken⟩

end InOrder

end Store

/-! ## Layouts account for their stores -/

/-- The stores of code at address `pc` are at the given sites, and take the slots from `n` to `m` in
order. -/
def Accounts (pc n m : Nat) (code : List Instruction) (sites : List (Nat × StoreOrigin)) : Prop :=
  ∃ stores : List Store, Instruction.storesFrom pc code = stores.map Store.code ∧
    stores.map Store.site = sites ∧ Store.InOrder n stores m

namespace Accounts

variable {pc n m k : Nat} {code code' : List Instruction} {sites sites' : List (Nat × StoreOrigin)}

theorem of_nil (h : Instruction.storesFrom pc code = []) : Accounts pc n n code [] :=
  ⟨[], h, rfl, .nil n⟩

theorem append (h : Accounts pc n m code sites)
    (h' : Accounts (pc + code.length) m k code' sites') :
    Accounts pc n k (code ++ code') (sites ++ sites') := by
  obtain ⟨stores, hcode, hsites, horder⟩ := h
  obtain ⟨stores', hcode', hsites', horder'⟩ := h'
  refine ⟨stores ++ stores', ?_, ?_, horder.append horder'⟩
  · rw [storesFrom_append, hcode, hcode', List.map_append]
  · rw [List.map_append, hsites, hsites']

/-- Code without stores may come before. -/
theorem after (h : Instruction.storesFrom pc code = [])
    (h' : Accounts (pc + code.length) n m code' sites) : Accounts pc n m (code ++ code') sites :=
  (of_nil h).append h'

/-- Code without stores may come behind. -/
theorem before (h : Accounts pc n m code sites)
    (h' : Instruction.storesFrom (pc + code.length) code' = []) :
    Accounts pc n m (code ++ code') sites := by
  rw [← List.append_nil sites]
  exact h.append (of_nil h')

/-- A store that takes the next slot. -/
theorem take {origin : StoreOrigin} (horigin : origin.takes = true) (hroom : n < 65536)
    (h : Accounts (pc + 1) (n + 1) m code sites) :
    Accounts pc n m (.storeLocal ⟨n.toUInt16⟩ :: code) ((pc, origin) :: sites) := by
  obtain ⟨stores, hcode, hsites, horder⟩ := h
  refine ⟨⟨pc, origin, ⟨n.toUInt16⟩⟩ :: stores, ?_, ?_, .takes horigin ?_ horder⟩
  · rw [storesFrom_storeLocal, hcode]
    rfl
  · rw [List.map_cons, hsites]
    rfl
  · exact toNat_toUInt16 hroom

/-- A store to a slot that is taken. -/
theorem assign {slot : Slot} (hslot : slot.index.toNat < n) :
    Accounts pc n n [.storeLocal slot] [(pc, .assignment)] :=
  ⟨[⟨pc, .assignment, slot⟩], rfl, rfl, .assigns rfl hslot (.nil n)⟩

end Accounts

section

variable {library : Library} {slots : String → Option Slot}

theorem storesFrom_expr (e : Expr) {pc : Nat} {is : List Instruction}
    (h : Layout.expr library slots e = .ok is) : Instruction.storesFrom pc is = [] :=
  storesFrom_eq_nil (Layout.ofExpr_expr e h)

theorem storesFrom_condition {test : Expr} {pc : Nat} {is : List Instruction}
    (h : Layout.condition library slots test = .ok is) : Instruction.storesFrom pc is = [] :=
  storesFrom_eq_nil (Layout.ofExpr_condition h)

mutual

/-- The code of a statement accounts for its stores. -/
theorem stmt_accounts : ∀ (s : Stmt) {pc : Nat} {b b' : Blocks} {is : List Instruction},
    Layout.stmt library pc b s = .ok (is, b') → b.Valid →
    Accounts pc b.used b'.used is (StoreSites.stmt pc s)
  | .expression value position, pc, b, b', is, h, hvalid => by
    obtain ⟨v, hv, rfl, rfl⟩ := Layout.stmt_expression h
    exact .after (storesFrom_expr value hv) (.of_nil rfl)
  | .declare name value position, pc, b, b', is, h, hvalid => by
    obtain ⟨v, hv, hroom, rfl, rfl⟩ := Layout.stmt_declare h
    rw [StoreSites.stmt, ← Layout.length_expr value hv]
    exact .after (storesFrom_expr value hv) (.take rfl hroom (.of_nil rfl))
  | .assign name value position, pc, b, b', is, h, hvalid => by
    obtain ⟨slot, v, hslot, hv, rfl, rfl⟩ := Layout.stmt_assign h
    -- the name assigned is visible, so its slot has been taken
    rw [StoreSites.stmt, ← Layout.length_expr value hv]
    exact .after (storesFrom_expr value hv) (.assign (hvalid.lt_of_resolve? hslot))
  | .ifThen test body position, pc, b, b', is, h, hvalid => by
    obtain ⟨t, c, inner, ht, hc, rfl, rfl⟩ := Layout.stmt_ifThen h
    have hpc : pc + Layout.exprSize test + 2 = pc + t.length + 1 := by
      rw [Layout.length_condition ht]
      omega
    have hbody : Accounts (pc + t.length + 1) b.enter.used inner.used c _ :=
      stmts_account body hc hvalid.enter
    rw [StoreSites.stmt, hpc, List.append_assoc]
    exact .after (storesFrom_condition ht) (.after rfl hbody)
  | .whileDo test body position, pc, b, b', is, h, hvalid => by
    obtain ⟨t, c, inner, ht, hc, rfl, rfl⟩ := Layout.stmt_whileDo h
    have hpc : pc + Layout.exprSize test + 2 = pc + t.length + 1 := by
      rw [Layout.length_condition ht]
      omega
    rw [StoreSites.stmt, hpc, List.append_assoc, List.append_assoc]
    refine .after (storesFrom_condition ht) (.after rfl ?_)
    exact (stmts_account body hc hvalid.enter).before rfl
  | .switch subject cases position, pc, b, b', is, h, hvalid => by
    obtain ⟨v, c, hv, hroom, hc, rfl⟩ := Layout.stmt_switch h
    rw [StoreSites.stmt, ← Layout.length_expr subject hv, List.append_assoc]
    -- the subject takes its slot before the arms take theirs
    have hnext := (Blocks.Extends.fresh hroom).valid hvalid
    exact .after (storesFrom_expr subject hv) (.take rfl hroom (arms_account cases hc hnext))

/-- The code of statements accounts for its stores. -/
theorem stmts_account : ∀ (ss : List Stmt) {pc : Nat} {b b' : Blocks} {is : List Instruction},
    Layout.stmts library pc b ss = .ok (is, b') → b.Valid →
    Accounts pc b.used b'.used is (StoreSites.stmts pc ss)
  | [], pc, b, b', is, h, hvalid => by
    cases h
    exact .of_nil rfl
  | first :: rest, pc, b, b', is, h, hvalid => by
    obtain ⟨c, c', mid, hc, hc', rfl⟩ := Layout.stmts_cons h
    have hmid := (Layout.extends_stmt first hc).valid hvalid
    rw [StoreSites.stmts, ← Layout.length_stmt first hc]
    exact (stmt_accounts first hc hvalid).append (stmts_account rest hc' hmid)

/-- The code of an arm accounts for its stores. -/
theorem arm_accounts : ∀ (a : Arm) {slot : Slot} {done pc : Nat} {b b' : Blocks}
    {is : List Instruction}, Layout.arm library slot done pc b a = .ok (is, b') → b.Valid →
    Accounts pc b.used b'.used is (StoreSites.arm pc a)
  | .case value body, slot, done, pc, b, b', is, h, hvalid => by
    obtain ⟨v, equal, test, c, inner, hv, -, -, hc, rfl, rfl⟩ := Layout.arm_case h
    rw [StoreSites.arm, ← Layout.length_expr value hv, List.append_assoc, List.append_assoc]
    refine .after (storesFrom_expr value hv) (.after rfl ?_)
    exact (stmts_account body hc hvalid.enter).before rfl
  | .otherwise body, slot, done, pc, b, b', is, h, hvalid => by
    obtain ⟨c, inner, hc, rfl, rfl⟩ := Layout.arm_otherwise h
    exact (stmts_account body hc hvalid.enter).before rfl

/-- The code of arms accounts for its stores. -/
theorem arms_account : ∀ (as : List Arm) {slot : Slot} {done pc : Nat} {b b' : Blocks}
    {is : List Instruction}, Layout.arms library slot done pc b as = .ok (is, b') → b.Valid →
    Accounts pc b.used b'.used is (StoreSites.arms pc as)
  | [], slot, done, pc, b, b', is, h, hvalid => by
    cases h
    exact .of_nil rfl
  | first :: rest, slot, done, pc, b, b', is, h, hvalid => by
    obtain ⟨c, c', mid, hc, hc', rfl⟩ := Layout.arms_cons h
    have hmid := (Layout.extends_arm first hc).valid hvalid
    rw [StoreSites.arms, ← Layout.length_arm first hc]
    exact (arm_accounts first hc hvalid).append (arms_account rest hc' hmid)

end

theorem builtins_account : ∀ (names : List String) {total index pc : Nat} {b b' : Blocks}
    {is : List Instruction}, Layout.builtins total index b names = .ok (is, b') →
    Accounts pc b.used b'.used is (StoreSites.builtins pc names)
  | [], total, index, pc, b, b', is, h => by
    cases h
    exact .of_nil rfl
  | name :: rest, total, index, pc, b, b', is, h => by
    obtain ⟨c, -, hroom, hc, rfl⟩ := Layout.builtins_cons h
    have hstore : Accounts (pc + 1) b.used b'.used (.storeLocal ⟨b.used.toUInt16⟩ :: c)
        ((pc + 1, .builtin) :: StoreSites.builtins (pc + 2) rest) :=
      .take rfl hroom (builtins_account rest hc)
    have hload : Instruction.storesFrom pc [Instruction.loadBuiltin index.toUInt16] = [] := rfl
    exact .after hload hstore

/-- The code of a program accounts for its stores. -/
theorem program_accounts {p : Program} {globals : List String} {chunk : Chunk}
    (h : Layout.program library globals p.statements = .ok chunk) :
    Accounts 0 0 chunk.localCount chunk.code.toList (p.storeSites globals) := by
  obtain ⟨start, b₁, c, b₂, hstart, hc, rfl⟩ := Layout.program_eq_ok h
  have hvalid := (Layout.extends_builtins globals hstart).valid .empty
  have hbuiltins : Accounts 0 0 b₁.used start (StoreSites.builtins 0 globals) :=
    builtins_account globals hstart
  have hstmts : Accounts (0 + start.length) b₁.used b₂.used c
      (StoreSites.stmts (2 * globals.length) p.statements) := by
    -- the prologue has two instructions for each builtin
    rw [Nat.zero_add, ← Layout.length_builtins globals hstart]
    exact stmts_account p.statements hc hvalid
  exact (hbuiltins.append hstmts).before rfl

end

namespace Program

variable {library : Library} {table : BuiltinTable} {p : Program}

/-- A program takes a slot for each builtin, each declaration and each switch. -/
theorem localCount_of_layout {globals : List String} {chunk : Chunk}
    (h : Layout.program library globals p.statements = .ok chunk) :
    chunk.localCount = globals.length + declarationsAndSwitches (stmtsNodes p.statements) ∧
      chunk.localCount ≤ 65536 := by
  obtain ⟨start, b₁, c, b₂, hstart, hc, rfl⟩ := Layout.program_eq_ok h
  constructor
  · show b₂.used = _
    rw [Layout.used_stmts p.statements hc, Layout.used_builtins globals hstart, stmtsSlotCount_eq]
    exact congrArg (· + _) (Nat.zero_add _)
  · have hvalid := (Layout.extends_builtins globals hstart).valid .empty
    exact ((Layout.extends_stmts p.statements hc).valid hvalid).room

/-- **Slots are accounted for exactly.** If a program compiles, then:

* it has as many local slots as there are builtins, declarations and switches, in arms that are
  never reached too, and at most 65536;
* the stores in its code are those of builtins, declarations, subjects of switches and assignments;
* the stores of the first three kinds go to the slots from zero on, in order and to each slot once;
* an assignment stores to a slot to which a store of those kinds comes before it in the code. -/
theorem slots_of_compile {chunk : Chunk} (h : p.compile library table = .ok chunk) :
    chunk.localCount = table.size + (stmtsNodes p.statements).countP Stmt.isDeclaration +
        (stmtsNodes p.statements).countP Stmt.isSwitch ∧
      chunk.localCount ≤ 65536 ∧
      ∃ stores : List Store, chunk.stores = stores.map Store.code ∧
        stores.map Store.site = p.storeSites table.names ∧
        (stores.filter (·.origin.takes)).map (·.slot.index.toNat) =
          List.range chunk.localCount ∧
        ∀ before s after, stores = before ++ s :: after → s.origin = .assignment →
          ∃ s' ∈ before, s'.origin.takes = true ∧ s'.slot = s.slot := by
  have hlayout := (compile_eq_layout (labelCount_le_of_compile h)).symm.trans h
  obtain ⟨hcount, hroom⟩ := localCount_of_layout hlayout
  obtain ⟨stores, hcode, hsites, horder⟩ := program_accounts hlayout
  refine ⟨?_, hroom, stores, hcode, hsites, ?_, ?_⟩
  · have hsize : table.names.length = table.size := by
      rw [BuiltinTable.names, List.length_map, Array.length_toList, BuiltinTable.size]
    rw [hcount, hsize, declarationsAndSwitches, Nat.add_assoc]
  · rw [horder.taken, Nat.sub_zero, List.range_eq_range']
  · intro before s after hstores hs
    rcases horder.taken_before hstores hs with hlt | htaken
    · exact absurd hlt (Nat.not_lt_zero _)
    · exact htaken

/-- Two builtins, a name that is declared twice, and a switch whose second arm is never reached: the
declaration in it takes a slot as well. -/
theorem slots_of_compile_dead_arm :
    let p : Program := ⟨none, [
      .declare "x" (.number "1" {}) {},
      .switch (.identifier "x" {}) [
        .otherwise [.assign "x" (.number "2" {}) {}],
        .case (.number "3" {}) [
          .declare "y" (.number "4" {}) {},
          .assign "y" (.identifier "x" {}) {}]] {},
      .declare "x" (.identifier "x" {}) {}]⟩
    let table : BuiltinTable := ⟨#[("null", .null), ("print", .native .print)]⟩
    ∃ chunk, p.compile .standard table = .ok chunk ∧ chunk.localCount = 2 + 3 + 1 ∧
      ∃ stores : List Store, chunk.stores = stores.map Store.code ∧
        stores.map Store.site = [(1, .builtin), (3, .builtin), (6, .declaration), (8, .subject),
          (11, .assignment), (21, .declaration), (23, .assignment), (26, .declaration)] ∧
        (stores.filter (·.origin.takes)).map (·.slot.index.toNat) = [0, 1, 2, 3, 4, 5] ∧
        ∀ before s after, stores = before ++ s :: after → s.origin = .assignment →
          ∃ s' ∈ before, s'.origin.takes = true ∧ s'.slot = s.slot := by
  intro p table
  have hok : (p.compile .standard table).isOk = true := by decide +kernel
  cases hchunk : p.compile .standard table with
  | error e =>
    rw [hchunk] at hok
    cases hok
  | ok chunk =>
    obtain ⟨hcount, -, stores, hcode, hsites, htaken, hbefore⟩ := slots_of_compile hchunk
    have hlocals : chunk.localCount = 2 + 3 + 1 := by
      rw [hcount]
      decide +kernel
    refine ⟨chunk, rfl, hlocals, stores, hcode, ?_, ?_, hbefore⟩
    · rw [hsites]
      decide +kernel
    · rw [htaken, hlocals]
      rfl

end Program

end StackScript
