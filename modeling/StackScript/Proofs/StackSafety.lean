import Mathlib.Tactic
import StackScript.Proofs.CompileLayout
import StackScript.Proofs.Slots
import StackScript.Proofs.StackTyping

set_option autoImplicit false

/-!
# Compiled code is never malformed

The kinds of the stack entries before each instruction of a program are read off its tree
(`StackKinds`): an expression leaves one boxed value on the stack it starts on, and a statement
starts and ends on the empty stack. Compiled code fits this table, so its runs are safe. The main
statement is `Program.never_malformed_of_compile`.
-/

namespace StackScript

/-! ## The operations of a program -/

mutual

/-- The operations that an expression uses. -/
def Expr.operations : Expr → List Operation
  | .binary left text right _ =>
    left.operations ++ right.operations ++ (Operation.ofOperator? text).toList
  | .call callee arguments _ => callee.operations ++ exprsOperations arguments ++ [.call]
  | .parens inner _ => inner.operations
  | .number _ _ => []
  | .identifier _ _ => []
  | .member object _ _ => object.operations

/-- The operations that expressions use. -/
def exprsOperations : List Expr → List Operation
  | [] => []
  | first :: rest => first.operations ++ exprsOperations rest

end

mutual

/-- The operations that a statement uses: those of its expressions and of its tests. -/
def Stmt.operations : Stmt → List Operation
  | .expression value _ => value.operations
  | .declare _ value _ => value.operations
  | .assign _ value _ => value.operations
  | .ifThen test body _ => test.operations ++ [.toBool] ++ stmtsOperations body
  | .whileDo test body _ => test.operations ++ [.toBool] ++ stmtsOperations body
  | .switch subject cases _ => subject.operations ++ armsOperations cases

/-- The operations that statements use. -/
def stmtsOperations : List Stmt → List Operation
  | [] => []
  | first :: rest => first.operations ++ stmtsOperations rest

/-- The operations that an arm uses. -/
def Arm.operations : Arm → List Operation
  | .case value body => value.operations ++ [.eq, .toBool] ++ stmtsOperations body
  | .otherwise body => stmtsOperations body

/-- The operations that arms use. -/
def armsOperations : List Arm → List Operation
  | [] => []
  | first :: rest => first.operations ++ armsOperations rest

end

/-- The operations that a program uses. -/
def Program.operations (p : Program) : List Operation := stmtsOperations p.statements

/-! ## Where statements start -/

namespace Layout

mutual

/-- The addresses at which a statement at `pc` and the statements in it start. -/
def stmtStarts (pc : Nat) : Stmt → List Nat
  | .expression _ _ => [pc]
  | .declare _ _ _ => [pc]
  | .assign _ _ _ => [pc]
  | .ifThen test body _ => pc :: stmtsStarts (pc + exprSize test + 2) body
  | .whileDo test body _ => pc :: stmtsStarts (pc + exprSize test + 2) body
  | .switch subject cases _ => pc :: armsStarts (pc + exprSize subject + 1) cases

/-- The addresses at which statements start. -/
def stmtsStarts (pc : Nat) : List Stmt → List Nat
  | [] => []
  | first :: rest => stmtStarts pc first ++ stmtsStarts (pc + stmtSize first) rest

/-- The addresses at which the statements of an arm start. -/
def armStarts (pc : Nat) : Arm → List Nat
  | .case value body => stmtsStarts (pc + exprSize value + 4) body
  | .otherwise body => stmtsStarts pc body

/-- The addresses at which the statements of arms start. -/
def armsStarts (pc : Nat) : List Arm → List Nat
  | [] => []
  | first :: rest => armStarts pc first ++ armsStarts (pc + armSize first) rest

end

end Layout

/-- The addresses at which the statements of a program start, behind the two instructions that
install each builtin. -/
def Program.statementStarts (p : Program) (globals : List String) : List Nat :=
  Layout.stmtsStarts (2 * globals.length) p.statements

/-! ## The kinds before each instruction -/

namespace StackKinds

mutual

/-- The kinds before each instruction of an expression that starts on a stack. -/
def expr (stack : List Kind) : Expr → List (List Kind)
  | .binary left _ right _ =>
    expr stack left ++ expr (.boxed :: stack) right ++ [.boxed :: .boxed :: stack]
  | .call callee arguments _ =>
    expr stack callee ++ [.boxed :: stack] ++
      exprs (.args arguments.length :: .boxed :: stack) arguments ++
      [.args arguments.length :: .boxed :: stack]
  | .parens inner _ => expr stack inner
  | .number _ _ => [stack, .raw :: stack]
  | .identifier _ _ => [stack]
  | .member _ _ _ => []

/-- The kinds before each instruction of arguments, which go into the collection on top of a
stack. -/
def exprs (stack : List Kind) : List Expr → List (List Kind)
  | [] => []
  | argument :: rest => expr stack argument ++ [.boxed :: stack] ++ exprs stack rest

end

mutual

/-- The kinds before each instruction of a statement. -/
def stmt : Stmt → List (List Kind)
  | .expression value _ => expr [] value ++ [[.boxed]]
  | .declare _ value _ => expr [] value ++ [[.boxed]]
  | .assign _ value _ => expr [] value ++ [[.boxed]]
  | .ifThen test body _ => expr [] test ++ [[.boxed], [.truth]] ++ stmts body
  | .whileDo test body _ => expr [] test ++ [[.boxed], [.truth]] ++ stmts body ++ [[]]
  | .switch subject cases _ => expr [] subject ++ [[.boxed]] ++ arms cases

/-- The kinds before each instruction of statements. -/
def stmts : List Stmt → List (List Kind)
  | [] => []
  | first :: rest => stmt first ++ stmts rest

/-- The kinds before each instruction of an arm. -/
def arm : Arm → List (List Kind)
  | .case value body =>
    expr [] value ++ [[.boxed], [.boxed, .boxed], [.boxed], [.truth]] ++ stmts body ++ [[]]
  | .otherwise body => stmts body ++ [[]]

/-- The kinds before each instruction of arms. -/
def arms : List Arm → List (List Kind)
  | [] => []
  | first :: rest => arm first ++ arms rest

end

/-- The kinds before each instruction that installs builtins. -/
def builtins : List String → List (List Kind)
  | [] => []
  | _ :: rest => [] :: [.boxed] :: builtins rest

end StackKinds

/-- The kinds of the entries on the stack before each instruction of a compiled program. -/
def Program.stackKinds (p : Program) (globals : List String) : Array (List Kind) :=
  (StackKinds.builtins globals ++ StackKinds.stmts p.statements ++ [[]]).toArray

/-! ## A table has one entry for each instruction -/

namespace StackKinds

mutual

theorem length_expr : ∀ (stack : List Kind) (e : Expr),
    (expr stack e).length = Layout.exprSize e
  | stack, .binary left text right position => by
    simp only [expr, Layout.exprSize, List.length_append, List.length_singleton,
      length_expr _ left, length_expr _ right]
  | stack, .call callee arguments position => by
    simp only [expr, Layout.exprSize, List.length_append, List.length_singleton,
      length_expr _ callee, length_exprs _ arguments]
  | stack, .parens inner position => by
    rw [expr, Layout.exprSize, length_expr stack inner]
  | stack, .number text position => rfl
  | stack, .identifier name position => rfl
  | stack, .member object name position => rfl

theorem length_exprs : ∀ (stack : List Kind) (es : List Expr),
    (exprs stack es).length = Layout.exprsSize es
  | stack, [] => rfl
  | stack, argument :: rest => by
    simp only [exprs, Layout.exprsSize, List.length_append, List.length_singleton,
      length_expr _ argument, length_exprs _ rest]

end

mutual

theorem length_stmt : ∀ s : Stmt, (stmt s).length = Layout.stmtSize s
  | .expression value position => by
    simp [stmt, Layout.stmtSize, length_expr]
  | .declare name value position => by
    simp [stmt, Layout.stmtSize, length_expr]
  | .assign name value position => by
    simp [stmt, Layout.stmtSize, length_expr]
  | .ifThen test body position => by
    simp [stmt, Layout.stmtSize, length_expr, length_stmts body]
    omega
  | .whileDo test body position => by
    simp [stmt, Layout.stmtSize, length_expr, length_stmts body]
    omega
  | .switch subject cases position => by
    simp [stmt, Layout.stmtSize, length_expr, length_arms cases]
    omega

theorem length_stmts : ∀ ss : List Stmt, (stmts ss).length = Layout.stmtsSize ss
  | [] => rfl
  | first :: rest => by
    rw [stmts, Layout.stmtsSize, List.length_append, length_stmt first, length_stmts rest]

theorem length_arm : ∀ a : Arm, (arm a).length = Layout.armSize a
  | .case value body => by
    simp [arm, Layout.armSize, length_expr, length_stmts body]
    omega
  | .otherwise body => by
    simp [arm, Layout.armSize, length_stmts body]

theorem length_arms : ∀ as : List Arm, (arms as).length = Layout.armsSize as
  | [] => rfl
  | first :: rest => by
    rw [arms, Layout.armsSize, List.length_append, length_arm first, length_arms rest]

end

theorem length_builtins (globals : List String) :
    (builtins globals).length = 2 * globals.length := by
  induction globals with
  | nil => rfl
  | cons name rest ih =>
    simp only [builtins, List.length_cons, ih]
    omega

end StackKinds

/-! ## Expressions fit their table -/

open Machine (Fits Leads StandsAt)

section

variable {σ : Type} {library : Library} {host : Machine.Host σ} {count : Nat}
  {kinds : Array (List Kind)}

/-- A host gives back operations by their entry points in a library. -/
def Implements (library : Library) (host : Machine.Host σ) (ops : List Operation) : Prop :=
  ∀ op ∈ ops, (library.lookup op.name).bind host.operation = some op

theorem Implements.operation {ops : List Operation} (h : Implements library host ops)
    {op : Operation} (hop : op ∈ ops) {entry : EntryPoint}
    (hentry : library.lookup op.name = some entry) : host.operation entry = some op := by
  have hbind := h op hop
  rwa [hentry] at hbind

theorem Implements.left {ops ops' : List Operation} (h : Implements library host (ops ++ ops')) :
    Implements library host ops :=
  (List.forall_mem_append.1 h).1

theorem Implements.right {ops ops' : List Operation} (h : Implements library host (ops ++ ops')) :
    Implements library host ops' :=
  (List.forall_mem_append.1 h).2

/-- All visible names have slots below a number. -/
def SlotsBelow (count : Nat) (slots : String → Option Slot) : Prop :=
  ∀ name slot, slots name = some slot → slot.index.toNat < count

mutual

/-- An expression pushes one boxed value. -/
theorem expr_leads {slots : String → Option Slot} (hslots : SlotsBelow count slots) :
    ∀ (e : Expr) {is : List Instruction}, Layout.expr library slots e = .ok is →
    Implements library host e.operations → ∀ {pc : Nat} {stack : List Kind},
    StandsAt kinds pc (StackKinds.expr stack e) →
    Leads host count kinds pc stack (.boxed :: stack) is
  | .binary left text right position, is, hlay, hops, pc, stack, hkinds => by
    obtain ⟨l, r, op, entry, hl, hr, hop, hentry, rfl⟩ := Layout.expr_binary hlay
    rw [Expr.operations] at hops
    rw [StackKinds.expr] at hkinds
    have hright := hkinds.left.right
    have hlast := hkinds.right.head
    simp only [List.length_append, StackKinds.length_expr, ← Layout.length_expr left hl,
      ← Layout.length_expr right hr] at hright hlast
    have hmem : op ∈ (Operation.ofOperator? text).toList := by simp [hop]
    have hbinary : Leads host count kinds (pc + (l.length + r.length)) (.boxed :: .boxed :: stack)
        (.boxed :: stack) [.callRuntime entry] :=
      .single hlast (.binary (Operation.isBinary_of_ofOperator? hop)
        (hops.right.operation hmem hentry) hlast)
    exact ((expr_leads hslots left hl hops.left.left hkinds.left.left).append
      (expr_leads hslots right hr hops.left.right hright) rfl).append hbinary (by simp)
  | .call callee arguments position, is, hlay, hops, pc, stack, hkinds => by
    obtain ⟨c, a, entry, hc, hcount, ha, hentry, rfl⟩ := Layout.expr_call hlay
    rw [Expr.operations] at hops
    rw [StackKinds.expr] at hkinds
    have hnew := hkinds.left.left.right.head
    have hargs := hkinds.left.right
    have hlast := hkinds.right.head
    simp only [List.length_append, List.length_singleton, StackKinds.length_expr,
      StackKinds.length_exprs, ← Layout.length_expr callee hc,
      ← Layout.length_exprs arguments ha] at hnew hargs hlast
    -- the collection stands on the callee until all arguments are in it
    have hcollection : Leads host count kinds (pc + c.length) (.boxed :: stack)
        (.args arguments.length :: .boxed :: stack) [.newArgs arguments.length.toUInt16] :=
      .single hnew fun hpost => .newArgs hnew (by rwa [toNat_toUInt16 hcount])
    have harguments := exprs_lead hslots arguments ha hops.left.right (by omega) hcount hargs
    have hcall : Leads host count kinds (pc + (c.length + 1 + a.length))
        (.args arguments.length :: .boxed :: stack) (.boxed :: stack) [.callRuntime entry] :=
      .single hlast (.call (hops.right.operation List.mem_cons_self hentry) hlast)
    exact (((expr_leads hslots callee hc hops.left.left hkinds.left.left.left).append
      hcollection rfl).append harguments (by simp)).append hcall
      (by simp only [List.length_append, List.length_singleton])
  | .parens inner position, is, hlay, hops, pc, stack, hkinds => by
    rw [Layout.expr_parens] at hlay
    rw [Expr.operations] at hops
    rw [StackKinds.expr] at hkinds
    exact expr_leads hslots inner hlay hops hkinds
  | .number text position, is, hlay, hops, pc, stack, hkinds => by
    obtain ⟨n, -, rfl⟩ := Layout.expr_number hlay
    rw [StackKinds.expr] at hkinds
    have hfirst := hkinds.head
    have hsecond := hkinds.tail.head
    exact Leads.append (.single hfirst (.loadInt hfirst)) (.single hsecond (.boxInt hsecond)) rfl
  | .identifier name position, is, hlay, hops, pc, stack, hkinds => by
    obtain ⟨slot, hslot, rfl⟩ := Layout.expr_identifier hlay
    rw [StackKinds.expr] at hkinds
    exact .single hkinds.head (.loadLocal (hslots name slot hslot) hkinds.head)
  | .member object name position, is, hlay, hops, pc, stack, hkinds =>
    (Layout.expr_member hlay).elim

/-- Arguments go into the collection on top of the stack. -/
theorem exprs_lead {slots : String → Option Slot} (hslots : SlotsBelow count slots) :
    ∀ (es : List Expr) {index : Nat} {is : List Instruction},
    Layout.exprs library slots index es = .ok is → Implements library host (exprsOperations es) →
    ∀ {size : Nat}, index + es.length ≤ size → size < 65536 → ∀ {pc : Nat} {stack : List Kind},
    StandsAt kinds pc (StackKinds.exprs (.args size :: stack) es) →
    Leads host count kinds pc (.args size :: stack) (.args size :: stack) is
  | [], index, is, hlay, hops, size, hfits, hsize, pc, stack, hkinds => by
    cases hlay
    exact .nil _
  | argument :: rest, index, is, hlay, hops, size, hfits, hsize, pc, stack, hkinds => by
    obtain ⟨a, r, ha, hr, rfl⟩ := Layout.exprs_cons hlay
    rw [exprsOperations] at hops
    rw [StackKinds.exprs] at hkinds
    rw [List.length_cons] at hfits
    have hstore := hkinds.left.right.head
    have hrest := hkinds.right
    simp only [List.length_append, List.length_singleton, StackKinds.length_expr,
      ← Layout.length_expr argument ha] at hstore hrest
    have hindex : index.toUInt16.toNat < size := by
      rw [toNat_toUInt16 (by omega)]
      omega
    exact ((expr_leads hslots argument ha hops.left hkinds.left.left).append
      (.single hstore (.storeArg hindex hstore)) rfl).append
      (exprs_lead hslots rest hr hops.right (by omega) hsize hrest) (by simp)

end

/-! ## Statements fit their table -/

/-- Code of statements that fits a table, on an empty stack where it starts and where each statement
in it starts. -/
structure StatementsFit (host : Machine.Host σ) (count : Nat) (kinds : Array (List Kind)) (pc : Nat)
    (starts : List Nat) (is : List Instruction) : Prop where
  fit : EachAt (Fits host count kinds) pc is
  first : kinds[pc]? = some []
  starts : ∀ a ∈ starts, kinds[a]? = some []

/-- The value of an expression is taken by the instruction behind it. -/
theorem statementsFit_of_value {pc : Nat} {v : List Instruction} {i : Instruction}
    (hv : Leads host count kinds pc [] [.boxed] v)
    (hi : kinds[pc + v.length]? = some [.boxed] → kinds[pc + v.length + 1]? = some [] →
      Machine.Fits host count kinds (pc + v.length) i)
    (hlast : kinds[pc + v.length]? = some [.boxed])
    (hend : kinds[pc + (v ++ [i]).length]? = some []) :
    StatementsFit host count kinds pc [pc] (v ++ [i]) := by
  obtain ⟨hfit, hfirst⟩ := hv.append (.single hlast (hi hlast)) rfl hend
  exact ⟨hfit, hfirst, List.forall_mem_singleton.2 hfirst⟩

/-- A condition and the jump that tests it. -/
theorem test_leads {slots : String → Option Slot} (hslots : SlotsBelow count slots) {test : Expr}
    {t : List Instruction} (hlay : Layout.condition library slots test = .ok t)
    (hops : Implements library host (test.operations ++ [Operation.toBool])) {pc : Nat}
    (hkinds : StandsAt kinds pc (StackKinds.expr [] test ++ [[Kind.boxed], [Kind.truth]]))
    {target : Nat} (htarget : kinds[target]? = some []) (hlt : target < 2 ^ 32) :
    Leads host count kinds pc [] [] (t ++ [Instruction.jumpIfFalse target.toUInt32]) := by
  obtain ⟨c, entry, hc, hentry, rfl⟩ := Layout.condition_eq_ok hlay
  have htest := hkinds.right.head
  have hjump := hkinds.right.tail.head
  rw [StackKinds.length_expr, ← Layout.length_expr test hc] at htest hjump
  rw [← toNat_toUInt32 hlt] at htarget
  have htoBool := hops.right.operation List.mem_cons_self hentry
  exact ((expr_leads hslots test hc hops.left hkinds.left).append
    (.single htest (.toBool htoBool htest)) rfl).append
    (.single hjump fun hpost => .jumpIfFalse hjump hpost htarget) (by simp [Nat.add_assoc])

/-- The comparison of a case with the subject, and the jump that tests it. -/
theorem case_leads {slots : String → Option Slot} (hslots : SlotsBelow count slots) {value : Expr}
    {v : List Instruction} (hlay : Layout.expr library slots value = .ok v)
    {equal test : EntryPoint} (hequal : library.lookup Operation.eq.name = some equal)
    (htest : library.lookup Operation.toBool.name = some test)
    (hops : Implements library host (value.operations ++ [Operation.eq, Operation.toBool]))
    {slot : Slot} (hslot : slot.index.toNat < count) {pc : Nat}
    (hkinds : StandsAt kinds pc (StackKinds.expr [] value ++
      [[Kind.boxed], [Kind.boxed, Kind.boxed], [Kind.boxed], [Kind.truth]]))
    {target : Nat} (htarget : kinds[target]? = some []) (hlt : target < 2 ^ 32) :
    Leads host count kinds pc [] [] (v ++ [Instruction.loadLocal slot,
      Instruction.callRuntime equal, Instruction.callRuntime test,
      Instruction.jumpIfFalse target.toUInt32]) := by
  have htail := hkinds.right
  rw [StackKinds.length_expr, ← Layout.length_expr value hlay] at htail
  rw [← toNat_toUInt32 hlt] at htarget
  have hequal := hops.right.operation List.mem_cons_self hequal
  have htest := hops.right.operation (List.mem_cons_of_mem _ List.mem_cons_self) htest
  have hbinary : Operation.eq.IsBinary := ⟨by decide, by decide⟩
  -- the value of the case, the subject, their equality and its truth value
  refine (expr_leads hslots value hlay hops.left hkinds.left).append (fun hpost => ?_) rfl
  exact ⟨.cons (.loadLocal hslot htail.head htail.tail.head)
    (.cons (.binary hbinary hequal htail.tail.head htail.tail.tail.head)
    (.cons (.toBool htest htail.tail.tail.head htail.tail.tail.tail.head)
    (.cons (.jumpIfFalse htail.tail.tail.tail.head hpost htarget) .nil))), htail.head⟩

namespace StatementsFit

variable {pc pc' : Nat} {starts starts' : List Nat} {is c : List Instruction}

/-- A statement starts where its code does. -/
theorem own_start (h : StatementsFit host count kinds pc starts c) :
    StatementsFit host count kinds pc (pc :: starts) c :=
  ⟨h.fit, h.first, List.forall_mem_cons.2 ⟨h.first, h.starts⟩⟩

/-- Code that starts and ends on an empty stack may come before. -/
theorem after (h : StatementsFit host count kinds pc' starts c)
    (his : Leads host count kinds pc [] [] is) (hpc : pc' = pc + is.length) :
    StatementsFit host count kinds pc starts (is ++ c) := by
  subst hpc
  obtain ⟨hfit, hfirst⟩ := his h.first
  exact ⟨hfit.append h.fit, hfirst, h.starts⟩

theorem append (h : StatementsFit host count kinds pc starts is)
    (h' : StatementsFit host count kinds (pc + is.length) starts' c) :
    StatementsFit host count kinds pc (starts ++ starts') (is ++ c) :=
  ⟨h.fit.append h'.fit, h.first, List.forall_mem_append.2 ⟨h.starts, h'.starts⟩⟩

/-- A jump to an address with an empty stack may come behind. -/
theorem before_jump (h : StatementsFit host count kinds pc starts c)
    (hjump : kinds[pc + c.length]? = some []) {target : Nat} (htarget : kinds[target]? = some [])
    (hlt : target < 2 ^ 32) :
    StatementsFit host count kinds pc starts (c ++ [Instruction.jump target.toUInt32]) := by
  rw [← toNat_toUInt32 hlt] at htarget
  exact ⟨h.fit.append (.cons (.jump hjump htarget) .nil), h.first, h.starts⟩

end StatementsFit

theorem Blocks.Valid.slotsBelow {b : Blocks} (h : b.Valid) (hcount : b.used ≤ count) :
    SlotsBelow count b.resolve? :=
  fun _ _ hslot => (h.lt_of_resolve? hslot).trans_le hcount

mutual

/-- The code of a statement fits its table. -/
theorem stmt_fits : ∀ (s : Stmt) {pc : Nat} {b b' : Blocks} {is : List Instruction},
    Layout.stmt library pc b s = .ok (is, b') → b.Valid → b'.used ≤ count →
    Implements library host s.operations → StandsAt kinds pc (StackKinds.stmt s) →
    kinds[pc + is.length]? = some [] → pc + is.length < 2 ^ 32 →
    StatementsFit host count kinds pc (Layout.stmtStarts pc s) is
  | .expression value position, pc, b, b', is, hlay, hb, hcount, hops, hkinds, hend, hlt => by
    obtain ⟨v, hv, rfl, rfl⟩ := Layout.stmt_expression hlay
    rw [Stmt.operations] at hops
    rw [StackKinds.stmt] at hkinds
    have hlast := hkinds.right.head
    rw [StackKinds.length_expr, ← Layout.length_expr value hv] at hlast
    exact statementsFit_of_value
      (expr_leads (hb.slotsBelow hcount) value hv hops hkinds.left) .pop hlast hend
  | .declare name value position, pc, b, b', is, hlay, hb, hcount, hops, hkinds, hend, hlt => by
    obtain ⟨v, hv, hroom, rfl, rfl⟩ := Layout.stmt_declare hlay
    rw [Stmt.operations] at hops
    rw [StackKinds.stmt] at hkinds
    have hlast := hkinds.right.head
    rw [StackKinds.length_expr, ← Layout.length_expr value hv] at hlast
    have hslot : (slotAt b.used).index.toNat < count := by
      rw [toNat_slotAt hroom]
      exact hcount
    exact statementsFit_of_value
      (expr_leads (hb.slotsBelow (Nat.le_of_succ_le hcount)) value hv hops hkinds.left)
      (.storeLocal hslot) hlast hend
  | .assign name value position, pc, b, b', is, hlay, hb, hcount, hops, hkinds, hend, hlt => by
    obtain ⟨slot, v, hslot, hv, rfl, rfl⟩ := Layout.stmt_assign hlay
    rw [Stmt.operations] at hops
    rw [StackKinds.stmt] at hkinds
    have hlast := hkinds.right.head
    rw [StackKinds.length_expr, ← Layout.length_expr value hv] at hlast
    have hslots := hb.slotsBelow hcount
    exact statementsFit_of_value (expr_leads hslots value hv hops hkinds.left)
      (.storeLocal (hslots name slot hslot)) hlast hend
  | .ifThen test body position, pc, b, b', is, hlay, hb, hcount, hops, hkinds, hend, hlt => by
    obtain ⟨t, c, inner, ht, hc, rfl, rfl⟩ := Layout.stmt_ifThen hlay
    rw [Stmt.operations] at hops
    rw [StackKinds.stmt] at hkinds
    simp only [List.length_append, List.length_singleton, ← Nat.add_assoc] at hend hlt
    have hlength := Layout.length_condition ht
    have hbodyKinds : StandsAt kinds (pc + t.length + 1) (StackKinds.stmts body) :=
      hkinds.right_at (by simp [StackKinds.length_expr, hlength, Nat.add_assoc])
    have hslots := hb.slotsBelow ((Layout.extends_stmts body hc).used_le.trans hcount)
    have hbody := stmts_fit body hc hb.enter hcount hops.right hbodyKinds hend hlt
    have htest := test_leads hslots ht hops.left hkinds.left hend hlt
    rw [Layout.stmtStarts, show pc + Layout.exprSize test + 2 = pc + t.length + 1 by omega]
    exact (hbody.after htest (by simp [Nat.add_assoc])).own_start
  | .whileDo test body position, pc, b, b', is, hlay, hb, hcount, hops, hkinds, hend, hlt => by
    obtain ⟨t, c, inner, ht, hc, rfl, rfl⟩ := Layout.stmt_whileDo hlay
    rw [Stmt.operations] at hops
    rw [StackKinds.stmt] at hkinds
    simp only [List.length_append, List.length_singleton, ← Nat.add_assoc] at hend hlt
    have hlength := Layout.length_condition ht
    have hbodyKinds : StandsAt kinds (pc + t.length + 1) (StackKinds.stmts body) :=
      hkinds.left.right_at (by simp [StackKinds.length_expr, hlength, Nat.add_assoc])
    have hjump : kinds[pc + t.length + 1 + c.length]? = some [] := by
      refine (hkinds.right_at ?_).head
      simp only [List.length_append, List.length_cons, List.length_nil, StackKinds.length_expr,
        StackKinds.length_stmts, hlength, Layout.length_stmts body hc]
      omega
    have hslots := hb.slotsBelow ((Layout.extends_stmts body hc).used_le.trans hcount)
    have hbody := stmts_fit body hc hb.enter hcount hops.right hbodyKinds hjump (by omega)
    have htest := test_leads hslots ht hops.left hkinds.left.left hend hlt
    have hround := hbody.after htest (by simp [Nat.add_assoc])
    rw [Layout.stmtStarts, show pc + Layout.exprSize test + 2 = pc + t.length + 1 by omega]
    -- the jump back goes to where the round starts
    refine (hround.before_jump ?_ hround.first (by omega)).own_start
    simpa only [List.length_append, List.length_singleton, ← Nat.add_assoc] using hjump
  | .switch subject cases position, pc, b, b', is, hlay, hb, hcount, hops, hkinds, hend, hlt => by
    obtain ⟨v, c, hv, hroom, hc, rfl⟩ := Layout.stmt_switch hlay
    rw [Stmt.operations] at hops
    rw [StackKinds.stmt] at hkinds
    simp only [List.length_append, List.length_singleton, ← Nat.add_assoc] at hend hlt
    have hlength := Layout.length_expr subject hv
    have hstore : kinds[pc + v.length]? = some [.boxed] :=
      (hkinds.left.right_at (by rw [StackKinds.length_expr, hlength])).head
    have harmKinds : StandsAt kinds (pc + v.length + 1) (StackKinds.arms cases) :=
      hkinds.right_at (by simp [StackKinds.length_expr, hlength, Nat.add_assoc])
    have hused : b.used + 1 ≤ count := (Layout.extends_arms cases hc).used_le.trans hcount
    have hslot : (slotAt b.used).index.toNat < count := by
      rw [toNat_slotAt hroom]
      exact hused
    have hslots := hb.slotsBelow (Nat.le_of_succ_le hused)
    have hvalue := (expr_leads hslots subject hv hops.left hkinds.left.left).append
      (.single hstore (.storeLocal hslot hstore)) rfl
    -- the address behind the arms is the one that they jump to when they are done
    rw [← Layout.length_arms cases hc] at hc
    have harms := arms_fit cases hc ((Blocks.Extends.fresh hroom).valid hb) hcount hops.right hslot
      hend hlt harmKinds hend hlt
    rw [Layout.stmtStarts, ← hlength]
    exact (harms.after hvalue (by simp [Nat.add_assoc])).own_start

/-- The code of statements fits its table. -/
theorem stmts_fit : ∀ (ss : List Stmt) {pc : Nat} {b b' : Blocks} {is : List Instruction},
    Layout.stmts library pc b ss = .ok (is, b') → b.Valid → b'.used ≤ count →
    Implements library host (stmtsOperations ss) → StandsAt kinds pc (StackKinds.stmts ss) →
    kinds[pc + is.length]? = some [] → pc + is.length < 2 ^ 32 →
    StatementsFit host count kinds pc (Layout.stmtsStarts pc ss) is
  | [], pc, b, b', is, hlay, hb, hcount, hops, hkinds, hend, hlt => by
    cases hlay
    exact ⟨.nil, hend, by simp [Layout.stmtsStarts]⟩
  | first :: rest, pc, b, b', is, hlay, hb, hcount, hops, hkinds, hend, hlt => by
    obtain ⟨c, c', mid, hc, hc', rfl⟩ := Layout.stmts_cons hlay
    rw [stmtsOperations] at hops
    rw [StackKinds.stmts] at hkinds
    rw [List.length_append, ← Nat.add_assoc] at hend hlt
    have hlength := Layout.length_stmt first hc
    have hrestKinds : StandsAt kinds (pc + c.length) (StackKinds.stmts rest) :=
      hkinds.right_at (by rw [StackKinds.length_stmt, hlength])
    have hvalid := (Layout.extends_stmt first hc).valid hb
    have hused := (Layout.extends_stmts rest hc').used_le.trans hcount
    -- from the back: the rest starts on an empty stack, which is where the first statement ends
    have hrest := stmts_fit rest hc' hvalid hcount hops.right hrestKinds hend hlt
    have hfirst := stmt_fits first hc hb hused hops.left hkinds.left hrest.first (by omega)
    rw [Layout.stmtsStarts, ← hlength]
    exact hfirst.append hrest

/-- The code of an arm fits its table. -/
theorem arm_fits : ∀ (a : Arm) {slot : Slot} {done pc : Nat} {b b' : Blocks}
    {is : List Instruction}, Layout.arm library slot done pc b a = .ok (is, b') → b.Valid →
    b'.used ≤ count → Implements library host a.operations → slot.index.toNat < count →
    kinds[done]? = some [] → done < 2 ^ 32 → StandsAt kinds pc (StackKinds.arm a) →
    kinds[pc + is.length]? = some [] → pc + is.length < 2 ^ 32 →
    StatementsFit host count kinds pc (Layout.armStarts pc a) is
  | .case value body, slot, done, pc, b, b', is, hlay, hb, hcount, hops, hslot, hdone, hfar, hkinds,
      hend, hlt => by
    obtain ⟨v, equal, test, c, inner, hv, hequal, htest, hc, rfl, rfl⟩ := Layout.arm_case hlay
    rw [Arm.operations] at hops
    rw [StackKinds.arm] at hkinds
    simp only [List.length_append, List.length_cons, List.length_nil, ← Nat.add_assoc,
      Nat.add_zero] at hend hlt
    have hlength := Layout.length_expr value hv
    have hbodyKinds : StandsAt kinds (pc + v.length + 4) (StackKinds.stmts body) :=
      hkinds.left.right_at (by simp [StackKinds.length_expr, hlength, Nat.add_assoc])
    have hjump : kinds[pc + v.length + 4 + c.length]? = some [] := by
      refine (hkinds.right_at ?_).head
      simp only [List.length_append, List.length_cons, List.length_nil, StackKinds.length_expr,
        StackKinds.length_stmts, hlength, Layout.length_stmts body hc]
      omega
    have hslots := hb.slotsBelow ((Layout.extends_stmts body hc).used_le.trans hcount)
    have hbody := stmts_fit body hc hb.enter hcount hops.right hbodyKinds hjump (by omega)
    have htest := case_leads hslots hv hequal htest hops.left hslot hkinds.left.left hend hlt
    rw [Layout.armStarts, ← hlength]
    refine (hbody.after htest (by simp [Nat.add_assoc])).before_jump ?_ hdone hfar
    simpa only [List.length_append, List.length_cons, List.length_nil, ← Nat.add_assoc,
      Nat.add_zero] using hjump
  | .otherwise body, slot, done, pc, b, b', is, hlay, hb, hcount, hops, hslot, hdone, hfar, hkinds,
      hend, hlt => by
    obtain ⟨c, inner, hc, rfl, rfl⟩ := Layout.arm_otherwise hlay
    rw [Arm.operations] at hops
    rw [StackKinds.arm] at hkinds
    rw [List.length_append, ← Nat.add_assoc] at hlt
    have hjump : kinds[pc + c.length]? = some [] :=
      (hkinds.right_at (by rw [StackKinds.length_stmts, Layout.length_stmts body hc])).head
    have hbody := stmts_fit body hc hb.enter hcount hops hkinds.left hjump (by omega)
    rw [Layout.armStarts]
    exact hbody.before_jump hjump hdone hfar

/-- The code of arms fits its table. -/
theorem arms_fit : ∀ (as : List Arm) {slot : Slot} {done pc : Nat} {b b' : Blocks}
    {is : List Instruction}, Layout.arms library slot done pc b as = .ok (is, b') → b.Valid →
    b'.used ≤ count → Implements library host (armsOperations as) → slot.index.toNat < count →
    kinds[done]? = some [] → done < 2 ^ 32 → StandsAt kinds pc (StackKinds.arms as) →
    kinds[pc + is.length]? = some [] → pc + is.length < 2 ^ 32 →
    StatementsFit host count kinds pc (Layout.armsStarts pc as) is
  | [], slot, done, pc, b, b', is, hlay, hb, hcount, hops, hslot, hdone, hfar, hkinds, hend,
      hlt => by
    cases hlay
    exact ⟨.nil, hend, by simp [Layout.armsStarts]⟩
  | first :: rest, slot, done, pc, b, b', is, hlay, hb, hcount, hops, hslot, hdone, hfar, hkinds,
      hend, hlt => by
    obtain ⟨c, c', mid, hc, hc', rfl⟩ := Layout.arms_cons hlay
    rw [armsOperations] at hops
    rw [StackKinds.arms] at hkinds
    rw [List.length_append, ← Nat.add_assoc] at hend hlt
    have hlength := Layout.length_arm first hc
    have hrestKinds : StandsAt kinds (pc + c.length) (StackKinds.arms rest) :=
      hkinds.right_at (by rw [StackKinds.length_arm, hlength])
    have hvalid := (Layout.extends_arm first hc).valid hb
    have hused := (Layout.extends_arms rest hc').used_le.trans hcount
    have hrest := arms_fit rest hc' hvalid hcount hops.right hslot hdone hfar hrestKinds hend hlt
    have hfirst := arm_fits first hc hb hused hops.left hslot hdone hfar hkinds.left hrest.first
      (by omega)
    rw [Layout.armsStarts, ← hlength]
    exact hfirst.append hrest

end

/-! ## Programs fit their table -/

/-- The code that installs builtins starts and ends on an empty stack. -/
theorem builtins_lead : ∀ (names : List String) {total index : Nat} {b b' : Blocks}
    {is : List Instruction}, Layout.builtins total index b names = .ok (is, b') →
    index + names.length ≤ host.builtins.size → b'.used ≤ count → ∀ {pc : Nat},
    StandsAt kinds pc (StackKinds.builtins names) → Leads host count kinds pc [] [] is
  | [], total, index, b, b', is, hlay, hglobals, hcount, pc, hkinds => by
    cases hlay
    exact .nil []
  | name :: rest, total, index, b, b', is, hlay, hglobals, hcount, pc, hkinds => by
    obtain ⟨c, hindex, hroom, hc, rfl⟩ := Layout.builtins_cons hlay
    rw [List.length_cons] at hglobals
    have hload := hkinds.head
    have hstore := hkinds.tail.head
    have hbuiltin : index.toUInt16.toNat < host.builtins.size := by
      rw [toNat_toUInt16 hindex]
      omega
    have hslot : (slotAt b.used).index.toNat < count := by
      rw [toNat_slotAt hroom]
      exact (Layout.extends_builtins rest hc).used_le.trans hcount
    have hpair : Leads host count kinds pc [] []
        [.loadBuiltin index.toUInt16, .storeLocal (slotAt b.used)] :=
      Leads.append (.single hload (.loadBuiltin hbuiltin hload))
        (.single hstore (.storeLocal hslot hstore)) rfl
    exact hpair.append (builtins_lead rest hc (by omega) hcount hkinds.tail.tail) rfl

/-- The code of a program fits its table. -/
theorem program_fits {p : Program} {globals : List String} {chunk : Chunk}
    (hlay : Layout.program library globals p.statements = .ok chunk)
    (hsize : chunk.code.size < 2 ^ 32) (hops : Implements library host p.operations)
    (hglobals : globals.length ≤ host.builtins.size) :
    StatementsFit host chunk.localCount (p.stackKinds globals) 0 (p.statementStarts globals)
      chunk.code.toList := by
  obtain ⟨start, b₁, c, b₂, hstart, hc, rfl⟩ := Layout.program_eq_ok hlay
  have hlength := Layout.length_builtins globals hstart
  have hkinds : StandsAt (p.stackKinds globals) 0
      (StackKinds.builtins globals ++ StackKinds.stmts p.statements ++ [[]]) :=
    Machine.standsAt_toArray _
  have hcodeKinds : StandsAt (p.stackKinds globals) start.length
      (StackKinds.stmts p.statements) :=
    hkinds.left.right_at (by rw [StackKinds.length_builtins, hlength, Nat.zero_add])
  have hret : (p.stackKinds globals)[start.length + c.length]? = some [] := by
    refine (hkinds.right_at ?_).head
    rw [List.length_append, StackKinds.length_builtins, StackKinds.length_stmts, hlength,
      Layout.length_stmts _ hc, Nat.zero_add]
  simp only [List.size_toArray, List.length_append, List.length_singleton] at hsize
  have hinstalled := Layout.extends_builtins globals hstart
  have hused := (Layout.extends_stmts _ hc).used_le
  -- the statements end at the return, which stands on an empty stack
  have hcode := stmts_fit _ hc (hinstalled.valid .empty) le_rfl hops hcodeKinds hret (by omega)
  have hall := hcode.after (builtins_lead globals hstart (by omega) hused hkinds.left.left)
    (by rw [Nat.zero_add])
  rw [Program.statementStarts, ← hlength]
  refine ⟨hall.fit.append (.cons (.ret ?_) .nil), hall.first, hall.starts⟩
  rwa [List.length_append, Nat.zero_add]

end

/-! ## Runs of compiled programs -/

/-- **Compiled code is never malformed.** For a program that compiles to fewer than `2 ^ 32`
instructions, on a host that gives back the operations it uses and has at least as many builtins: no
execution blames the code; in every state of a run the kinds of the stack entries are those that the
tree gives for the address; and the stack is empty at the start of a statement, at the target of a
jump and at a return. -/
theorem Program.never_malformed_of_compile {σ : Type} {library : Library} {table : BuiltinTable}
    {p : Program} {chunk : Chunk} {host : Machine.Host σ}
    (hcompile : p.compile library table = .ok chunk) (hsize : chunk.code.size < 2 ^ 32)
    (hops : ∀ op ∈ p.operations, (library.lookup op.name).bind host.operation = some op)
    (htable : table.size ≤ host.builtins.size) (hnatives : host.Blameless) (console : Console σ) :
    (∀ limit e, (Machine.execute host limit chunk console).result = .error e →
        e.blamesCode = false) ∧
      ∀ n s, Machine.runFor host chunk.code n (.start chunk console) = .running s →
        (p.stackKinds table.names)[s.ip]? = some (s.stack.map Machine.Entry.kind) ∧
        (s.ip ∈ p.statementStarts table.names → s.stack = []) ∧
        (∀ i ∈ chunk.code, ∀ a, i.target? = some a → s.ip = a.toNat → s.stack = []) ∧
        (chunk.code[s.ip]? = some .ret → s.stack = []) := by
  have hglobals : table.names.length ≤ host.builtins.size := by
    simpa [BuiltinTable.names, BuiltinTable.size] using htable
  have hfits := program_fits (layout_of_compile hcompile hsize) hsize hops hglobals
  refine ⟨fun limit => Machine.blameless_execute hnatives hfits.fit hfits.first limit console,
    fun n s hs => ?_⟩
  have hsafe := Machine.runFor_safe hnatives hfits.fit n
    (Machine.hasKinds_start hfits.first console)
  rw [hs] at hsafe
  -- every instruction of the chunk fits, and so gives the kinds at its address and at its target
  have hat : ∀ {pc i}, chunk.code[pc]? = some i →
      Machine.Fits host chunk.localCount (p.stackKinds table.names) pc i := by
    intro pc i hi
    simpa only [Nat.zero_add] using hfits.fit pc i (by rw [Array.getElem?_toList, hi])
  refine ⟨hsafe.stack, fun hstart => ?_, fun i hi a ha hip => ?_, fun hret => ?_⟩
  · exact hsafe.stack_eq_nil (hfits.starts _ hstart)
  · obtain ⟨pc, hpc⟩ := Array.mem_iff_getElem?.1 hi
    refine hsafe.stack_eq_nil ?_
    rw [hip]
    exact (hat hpc).empty_at_target ha
  · exact hsafe.stack_eq_nil (hat hret).empty_at_ret

/-- A loop whose second round divides by zero, on a host with one more builtin than the program was
compiled with: its runs blame the code under no limit, and its statements start on an empty stack.
-/
theorem Program.never_malformed_of_compile_division :
    let p : Program := ⟨none, [
      .declare "i" (.number "2" {}) {},
      .whileDo (.identifier "i" {}) [
        .assign "i" (.binary (.identifier "i" {}) "-" (.number "1" {}) {}) {},
        .expression (.call (.identifier "print" {})
          [.binary (.number "6" {}) "/" (.identifier "i" {}) {}] {}) {}] {}]⟩
    let host : Machine.Host Unit :=
      ⟨Library.standard.operation, BuiltinTable.standard.push "zero" (.int 0), .standard⟩
    ∃ chunk, p.compile .standard .standard = .ok chunk ∧ chunk.code.size < 2 ^ 32 ∧
      (∀ limit e, (Machine.execute host limit chunk ⟨#[], ()⟩).result = .error e →
        e.blamesCode = false) ∧
      p.statementStarts BuiltinTable.standard.names = [8, 11, 14, 19] ∧
      ∀ n s, Machine.runFor host chunk.code n (.start chunk ⟨#[], ()⟩) = .running s →
        s.ip ∈ [8, 11, 14, 19] → s.stack = [] := by
  intro p host
  obtain ⟨chunk, hcompile, hsize⟩ : ∃ chunk, p.compile .standard .standard = .ok chunk ∧
      chunk.code.size < 2 ^ 32 :=
    exists_chunk (by decide +kernel)
      (show (p.draft .standard BuiltinTable.standard.names).ending = .ok 5 by decide +kernel)
  obtain ⟨hblameless, hstates⟩ := never_malformed_of_compile hcompile hsize (by decide +kernel)
    (show BuiltinTable.standard.size ≤ host.builtins.size by decide) blameless_standard ⟨#[], ()⟩
  have hstarts : p.statementStarts BuiltinTable.standard.names = [8, 11, 14, 19] := by
    decide +kernel
  refine ⟨chunk, hcompile, hsize, hblameless, hstarts, fun n s hs hip => ?_⟩
  exact (hstates n s hs).2.1 (hstarts ▸ hip)

end StackScript
