import Mathlib.Tactic
import StackScript.Proofs.StaticCheck
import StackScript.Proofs.Widths

set_option autoImplicit false

/-!
# Which operations a library is asked for

Lowering needs operations one after the other, until a fault ends it. `Demand.program` lists both,
in the order in which they are met, from the tree alone, and with them the labels to be bound:
labels have 32 bits, so the assembler may refuse one that another label has the number of.
`Demand.needs` is the part of the list that lowering comes to. The library is asked for what is
needed, in that order, and for each operation once. The main statement is
`Program.lookups_of_demands`; it holds for the walk into the assembler (`Lowering.Meets`), at every
size.
-/

namespace StackScript

theorem Operation.ofName?_name (op : Operation) : Operation.ofName? op.name = some op := by
  cases op <;> decide

theorem Operation.name_injective : Function.Injective Operation.name := by
  intro op op' h
  have hname := Operation.ofName?_name op
  rw [h, Operation.ofName?_name] at hname
  exact (Option.some.inj hname).symm

theorem Check.View.allocate_eq_ok {v w : Check.View} (h : v.allocate = .ok w) :
    w = { v with used := v.used + 1 } := by
  unfold Check.View.allocate at h
  split at h
  · exact (Except.ok.inj h).symm
  · cases h

theorem Check.View.declare_eq_ok {v w : Check.View} {name : String} (h : v.declare name = .ok w) :
    w = ⟨name :: v.visible, v.used + 1⟩ := by
  obtain ⟨u, hu, h⟩ := bind_eq_ok.1 h
  rw [Check.View.allocate_eq_ok hu] at h
  exact (Except.ok.inj h).symm

/-! ## Demands -/

/-- What lowering meets: an operation that it needs, a label to bind, or a fault. -/
inductive Demand
  | need (op : Operation)
  | bind (label : Label)
  | fault (e : CompileError)

namespace Demand

open Check (View)

/-- A check is a fault if it fails. -/
def ofCheck {α : Type} : Except CompileError α → List Demand
  | .ok _ => []
  | .error e => [.fault e]

/-- An operator needs its operation. -/
def operator (text : String) (position : Position) : Demand :=
  match Operation.ofOperator? text with
  | some op => .need op
  | none => .fault (.diagnosed ⟨position, .unknownOperator text⟩)

mutual

/-- An operation is needed after its operands, and a call after its arguments. -/
def expr (visible : List String) : Expr → List Demand
  | .binary left text right position =>
    expr visible left ++ expr visible right ++ [operator text position]
  | .call callee arguments _ =>
    expr visible callee ++ ofCheck (Check.fits "arguments" arguments.length arguments.length) ++
      exprs visible arguments ++ [.need .call]
  | .parens inner _ => expr visible inner
  | .number text position => ofCheck (Check.literal text position)
  | .identifier name position => ofCheck (Check.known visible name position)
  | .member _ _ position => [.fault (.diagnosed ⟨position, .unsupported "member access"⟩)]

/-- Arguments come in order. -/
def exprs (visible : List String) : List Expr → List Demand
  | [] => []
  | argument :: rest => expr visible argument ++ exprs visible rest

end

/-- A condition needs a truth value. -/
def condition (visible : List String) (test : Expr) : List Demand :=
  expr visible test ++ [.need .toBool]

/-- What is visible, and how many slots are used and labels created. -/
structure Reach extends View where
  labels : Nat := 0

/-- After a block the names from before it are back. -/
def Reach.leave (v inner : Reach) : Reach := { inner with visible := v.visible }

mutual

/-- The demands of a statement, and what is reached after it. The labels of a statement are created
before those inside it, and its end is bound last. -/
def stmt (v : Reach) : Stmt → List Demand × Reach
  | .expression value _ => (expr v.visible value, v)
  | .declare name value _ =>
    (expr v.visible value ++ ofCheck (v.declare name),
      { v with visible := name :: v.visible, used := v.used + 1 })
  | .assign name value position =>
    (ofCheck (Check.known v.visible name position) ++ expr v.visible value, v)
  | .ifThen test body _ =>
    let inner := stmts { v with labels := v.labels + 1 } body
    (condition v.visible test ++ inner.1 ++ [.bind (labelOf v.labels)], v.leave inner.2)
  | .whileDo test body _ =>
    let inner := stmts { v with labels := v.labels + 2 } body
    ([.bind (labelOf v.labels)] ++ condition v.visible test ++ inner.1 ++
      [.bind (labelOf (v.labels + 1))], v.leave inner.2)
  | .switch subject cases _ =>
    let inner := arms { v with used := v.used + 1, labels := v.labels + 1 } cases
    (expr v.visible subject ++ ofCheck v.allocate ++ inner.1 ++ [.bind (labelOf v.labels)], inner.2)

/-- Statements come in order. -/
def stmts (v : Reach) : List Stmt → List Demand × Reach
  | [] => ([], v)
  | first :: rest =>
    let head := stmt v first
    let tail := stmts head.2 rest
    (head.1 ++ tail.1, tail.2)

/-- A case is compared with the subject, and the answer must be a truth value. -/
def arm (v : Reach) : Arm → List Demand × Reach
  | .case value body =>
    let inner := stmts { v with labels := v.labels + 1 } body
    (expr v.visible value ++ [.need .eq] ++ [.need .toBool] ++ inner.1 ++
      [.bind (labelOf v.labels)], v.leave inner.2)
  | .otherwise body =>
    let inner := stmts v body
    (inner.1, v.leave inner.2)

/-- Arms come in order, also those that are never reached. -/
def arms (v : Reach) : List Arm → List Demand × Reach
  | [] => ([], v)
  | first :: rest =>
    let head := arm v first
    let tail := arms head.2 rest
    (head.1 ++ tail.1, tail.2)

end

/-- Builtins need no operations, but slots. -/
def builtins (total index : Nat) (v : Reach) : List String → List Demand × Reach
  | [] => ([], v)
  | name :: rest =>
    let tail := builtins total (index + 1)
      { v with visible := name :: v.visible, used := v.used + 1 } rest
    (ofCheck (Check.fits "builtins" total index) ++ ofCheck (v.declare name) ++ tail.1, tail.2)

/-- The demands of a program over global names, and what is reached at its end. -/
def walk (globals : List String) (statements : List Stmt) : List Demand × Reach :=
  let start := builtins globals.length 0 {} globals
  let rest := stmts start.2 statements
  (start.1 ++ rest.1, rest.2)

/-- The demands of a program over global names. -/
def program (globals : List String) (statements : List Stmt) : List Demand :=
  (walk globals statements).1

/-! ## The first fault -/

/-- The operation that a demand asks for. -/
def ops : Demand → List Operation
  | .need op => [op]
  | _ => []

/-- The label that a demand binds. -/
def labels : Demand → List Label
  | .bind label => [label]
  | _ => []

/-- The labels that demands bind, in order. -/
def binds (ds : List Demand) : List Label := ds.flatMap labels

section

variable (library : Library)

/-- Why lowering does not get past a demand: the library does not export an operation, a label is
among those that have been bound, or there is a fault. -/
def refusal? (bound : List Label) : Demand → Option CompileError
  | .need op =>
    if (library.lookup op.name).isSome then none
    else some (.internal (.unresolvedOperation op.name))
  | .bind label => if label ∈ bound then some (.internal (.labelRebound label)) else none
  | .fault e => some e

/-- The first fault behind labels that have been bound, if there is one. -/
def fault? : List Label → List Demand → Option CompileError
  | _, [] => none
  | bound, d :: rest => (d.refusal? library bound).or (fault? (bound ++ d.labels) rest)

/-- The operations that are needed up to the first fault. An operation that the library does not
export is the last one. -/
def needs : List Label → List Demand → List Operation
  | _, [] => []
  | bound, d :: rest =>
    d.ops ++ if (d.refusal? library bound).isNone then needs (bound ++ d.labels) rest else []

end

section

variable {library : Library} {bound : List Label} {ds es : List Demand}

@[simp] theorem binds_append (ds es : List Demand) : binds (ds ++ es) = binds ds ++ binds es :=
  List.flatMap_append

theorem fault?_append : fault? library bound (ds ++ es) =
    (fault? library bound ds).or (fault? library (bound ++ binds ds) es) := by
  induction ds generalizing bound with
  | nil => simp [fault?, binds]
  | cons d ds ih =>
    simp only [List.cons_append, fault?, ih, Option.or_assoc, binds, List.flatMap_cons,
      List.append_assoc]

/-- Behind the first fault the demands do not matter. -/
theorem needs_append_of_fault {e : CompileError} (h : fault? library bound ds = some e) :
    needs library bound (ds ++ es) = needs library bound ds := by
  induction ds generalizing bound with
  | nil => cases h
  | cons d ds ih =>
    simp only [List.cons_append, needs, fault?] at h ⊢
    cases hd : d.refusal? library bound with
    | none =>
      rw [hd, Option.none_or] at h
      rw [ih h]
    | some e' => rfl

theorem needs_append_of_none (h : fault? library bound ds = none) :
    needs library bound (ds ++ es) =
      needs library bound ds ++ needs library (bound ++ binds ds) es := by
  induction ds generalizing bound with
  | nil => simp [needs, binds]
  | cons d ds ih =>
    simp only [fault?, Option.or_eq_none_iff] at h
    simp [needs, h.1, ih h.2, binds]

/-- A need that the library does not serve is the last one, and the fault. -/
theorem unserved {op : Operation} (hop : op ∈ needs library bound ds)
    (hmissing : library.lookup op.name = none) :
    fault? library bound ds = some (.internal (.unresolvedOperation op.name)) ∧
      ∃ before, needs library bound ds = before ++ [op] ∧
        ∀ op' ∈ before, (library.lookup op'.name).isSome := by
  induction ds generalizing bound with
  | nil => cases hop
  | cons d ds ih =>
    simp only [needs, fault?] at hop ⊢
    cases hd : d.refusal? library bound with
    | none =>
      -- what a demand that is met asks for is exported, so the need comes later
      have hexported : ∀ op' ∈ d.ops, (library.lookup op'.name).isSome := by
        cases d with
        | need op' =>
          have hop' : library.lookup op'.name ≠ none := by simpa [refusal?] using hd
          exact List.forall_mem_singleton.2 (Option.isSome_iff_ne_none.2 hop')
        | bind label => exact List.forall_mem_nil _
        | fault e => exact List.forall_mem_nil _
      simp only [hd, Option.isNone_none, if_true, List.mem_append] at hop
      have hrest : op ∈ needs library (bound ++ d.labels) ds := by
        rcases hop with hop | hrest
        · simpa [hmissing] using hexported op hop
        · exact hrest
      obtain ⟨hfault, before, hneeds, hbefore⟩ := ih hrest
      refine ⟨hfault, d.ops ++ before, ?_, ?_⟩
      · rw [Option.isNone_none, if_pos rfl, hneeds, List.append_assoc]
      · exact List.forall_mem_append.2 ⟨hexported, hbefore⟩
    | some e =>
      simp only [hd, Option.isNone_some, Bool.false_eq_true, if_false, List.append_nil] at hop ⊢
      cases d with
      | need op' =>
        obtain rfl := List.mem_singleton.1 hop
        simp only [refusal?, hmissing, Option.isSome_none, Bool.false_eq_true, if_false] at hd
        exact ⟨hd ▸ rfl, [], rfl, List.forall_mem_nil _⟩
      | bind label => cases hop
      | fault e => cases hop

/-- Without a fault no label is bound twice. -/
theorem nodup_binds (h : fault? library bound ds = none) (hbound : bound.Nodup) :
    (bound ++ binds ds).Nodup := by
  induction ds generalizing bound with
  | nil => simpa [binds] using hbound
  | cons d ds ih =>
    simp only [fault?, Option.or_eq_none_iff] at h
    have hone : (bound ++ d.labels).Nodup := by
      cases d with
      | need op => simpa [labels] using hbound
      | fault e => simpa [labels] using hbound
      | bind label =>
        have hfree : label ∉ bound := by simpa [refusal?] using h.1
        exact hbound.append (List.nodup_singleton label) (List.disjoint_singleton.2 hfree)
    simpa [binds] using ih h.2 hone

end

/-! ## Labels are bound once each -/

section

variable {visible : List String}

@[simp] theorem binds_nil : binds [] = [] := rfl

@[simp] theorem binds_need (op : Operation) (ds : List Demand) :
    binds (.need op :: ds) = binds ds := rfl

@[simp] theorem binds_bind (label : Label) (ds : List Demand) :
    binds (.bind label :: ds) = label :: binds ds := rfl

@[simp] theorem binds_ofCheck {α : Type} (x : Except CompileError α) : binds (ofCheck x) = [] := by
  cases x <;> rfl

mutual

@[simp] theorem binds_expr : ∀ e : Expr, binds (expr visible e) = []
  | .binary left text right position => by
    have hoperator : binds [operator text position] = [] := by
      unfold operator
      cases Operation.ofOperator? text <;> rfl
    simp [expr, binds_expr left, binds_expr right, hoperator]
  | .call callee arguments position => by
    simp [expr, binds_expr callee, binds_exprs arguments]
  | .parens inner position => by
    rw [expr]
    exact binds_expr inner
  | .number text position => by
    rw [expr]
    exact binds_ofCheck _
  | .identifier name position => by
    rw [expr]
    exact binds_ofCheck _
  | .member object name position => by
    rw [expr]
    rfl

@[simp] theorem binds_exprs : ∀ es : List Expr, binds (exprs visible es) = []
  | [] => by
    rw [exprs]
    rfl
  | argument :: rest => by
    rw [exprs, binds_append, binds_expr argument, binds_exprs rest, List.append_nil]

end

@[simp] theorem binds_condition (test : Expr) : binds (condition visible test) = [] := by
  simp [condition]

end

mutual

/-- A statement binds as many labels as it creates. -/
theorem labels_stmt : ∀ (s : Stmt) (v : Reach),
    (stmt v s).2.labels = v.labels + (binds (stmt v s).1).length
  | .expression value position, v => by simp [stmt]
  | .declare name value position, v => by simp [stmt]
  | .assign name value position, v => by simp [stmt]
  | .ifThen test body position, v => by
    have hbody := labels_stmts body { v with labels := v.labels + 1 }
    simp [stmt, Reach.leave, hbody]
    omega
  | .whileDo test body position, v => by
    have hbody := labels_stmts body { v with labels := v.labels + 2 }
    simp [stmt, Reach.leave, hbody]
    omega
  | .switch subject cases position, v => by
    have hcases := labels_arms cases { v with used := v.used + 1, labels := v.labels + 1 }
    simp [stmt, hcases]
    omega

theorem labels_stmts : ∀ (ss : List Stmt) (v : Reach),
    (stmts v ss).2.labels = v.labels + (binds (stmts v ss).1).length
  | [], v => by
    rw [stmts]
    rfl
  | first :: rest, v => by
    simp only [stmts, labels_stmts rest, labels_stmt first v, binds_append, List.length_append,
      Nat.add_assoc]

theorem labels_arm : ∀ (a : Arm) (v : Reach),
    (arm v a).2.labels = v.labels + (binds (arm v a).1).length
  | .case value body, v => by
    have hbody := labels_stmts body { v with labels := v.labels + 1 }
    simp [arm, Reach.leave, hbody]
    omega
  | .otherwise body, v => by
    simp only [arm, Reach.leave, labels_stmts body v]

theorem labels_arms : ∀ (as : List Arm) (v : Reach),
    (arms v as).2.labels = v.labels + (binds (arms v as).1).length
  | [], v => by
    rw [arms]
    rfl
  | first :: rest, v => by
    simp only [arms, labels_arms rest, labels_arm first v, binds_append, List.length_append,
      Nat.add_assoc]

end

theorem labels_builtins (total : Nat) : ∀ (names : List String) (index : Nat) (v : Reach),
    (builtins total index v names).2.labels =
      v.labels + (binds (builtins total index v names).1).length
  | [], index, v => by
    rw [builtins]
    rfl
  | name :: rest, index, v => by
    simp [builtins, labels_builtins total rest]

theorem lt_labels_stmts {v : Reach} {n : Nat} (h : n < v.labels) (ss : List Stmt) :
    n < (stmts v ss).2.labels := by
  rw [labels_stmts]
  exact Nat.lt_add_right _ h

theorem lt_labels_arms {v : Reach} {n : Nat} (h : n < v.labels) (as : List Arm) :
    n < (arms v as).2.labels := by
  rw [labels_arms]
  exact Nat.lt_add_right _ h

/-- A program binds as many labels as it creates. -/
theorem labels_walk (globals : List String) (statements : List Stmt) :
    (walk globals statements).2.labels = (binds (program globals statements)).length := by
  simp only [program, walk, labels_stmts, labels_builtins, binds_append, List.length_append]
  exact congrArg (· + _) (Nat.zero_add _)

end Demand

/-! ## What has been asked and written -/

/-- The operands of the calls in code, in order. -/
def Instruction.calls (code : List Instruction) : List (Option Operand) :=
  (code.filter (·.opcode = .callRuntime)).map Instruction.operand

theorem Instruction.calls_append (code code' : List Instruction) :
    Instruction.calls (code ++ code') = Instruction.calls code ++ Instruction.calls code' := by
  simp only [Instruction.calls, List.filter_append, List.map_append]

theorem Instruction.calls_push (code : Array Instruction) (i : Instruction) :
    Instruction.calls (code.push i).toList =
      Instruction.calls code.toList ++ Instruction.calls [i] := by
  rw [Array.toList_push, Instruction.calls_append]

/-- Where labels are placed does not matter to the calls. -/
theorem Directives.calls_code (place place' : Label → UInt32) (ds : List Directive) :
    Instruction.calls (Directives.code place ds) =
      Instruction.calls (Directives.code place' ds) := by
  induction ds with
  | nil => rfl
  | cons d ds ih =>
    rw [← List.singleton_append, Directives.code_append, Directives.code_append,
      Instruction.calls_append, Instruction.calls_append, ih]
    cases d <;> rfl

/-- What is asked for a second time is not asked for again. -/
theorem eraseDups_concat (ops : List Operation) (op : Operation) :
    (ops ++ [op]).eraseDups = if op ∈ ops then ops.eraseDups else ops.eraseDups ++ [op] := by
  have hone : [op].eraseDups = [op] := rfl
  split
  · next h => simp [List.eraseDups_append, List.removeAll, h]
  · next h => simp [List.eraseDups_append, List.removeAll, h, hone]

theorem nodup_eraseDups (ops : List Operation) : ops.eraseDups.Nodup := by
  induction ops using List.reverseRecOn with
  | nil => exact List.nodup_nil
  | append_singleton ops op ih =>
    rw [eraseDups_concat]
    split
    · exact ih
    · next h =>
      refine ih.append (List.nodup_singleton op) ?_
      rw [List.disjoint_singleton]
      exact fun hop => h (List.mem_eraseDups.1 hop)

namespace Lowering

/-- The needs `ops` have been served: each of them is exported and remembered, each was asked for
once, when it came first, and each has written its call. The labels `bound` have places. -/
structure Served (library : Library) (ops : List Operation) (bound : List Label)
    (st : State Assembler) : Prop where
  exported : ∀ op ∈ ops, (library.lookup op.name).isSome
  resolved : ∀ op, st.resolver.resolved.lookup op =
    if op ∈ ops then library.lookup op.name else none
  asked : st.resolver.asked.toList = ops.eraseDups.map Operation.name
  calls : Instruction.calls st.sink.code.toList =
    ops.map fun op => (library.lookup op.name).map Operand.entry
  places : ∀ label : Label, label ∈ bound ↔
    ∃ place, st.sink.labels[label.id.toNat]? = some (some place)

/-- Nothing has been asked for, no call has been written and no label has been bound. -/
structure Silent (st st' : State Assembler) : Prop where
  resolver : st'.resolver = st.resolver
  calls : Instruction.calls st'.sink.code.toList = Instruction.calls st.sink.code.toList
  places : ∀ (i : Nat) (place : UInt32), st'.sink.labels[i]? = some (some place) ↔
    st.sink.labels[i]? = some (some place)

section

variable {library : Library} {ops : List Operation} {bound : List Label} {st st' : State Assembler}

theorem Silent.refl : Silent st st := ⟨rfl, rfl, fun _ _ => Iff.rfl⟩

theorem Silent.scope {scope : Scope} : Silent st { st with scope := scope } :=
  ⟨rfl, rfl, fun _ _ => Iff.rfl⟩

theorem Served.silent (h : Served library ops bound st) (h' : Silent st st') :
    Served library ops bound st' where
  exported := h.exported
  resolved := by rw [h'.resolver]; exact h.resolved
  asked := by rw [h'.resolver]; exact h.asked
  calls := h'.calls.trans h.calls
  places label := by simp only [h.places label, h'.places]

theorem Served.empty : Served library [] [] (.start Assembler.sink) where
  exported := List.forall_mem_nil _
  resolved _ := rfl
  asked := rfl
  calls := rfl
  places label := by simp [State.start, Assembler.sink]

/-- The next need is looked up if it has not come up before. -/
theorem Served.asked_resolve (h : Served library ops bound st) (op : Operation) :
    (st.resolver.resolve library op).1 = library.lookup op.name ∧
      (st.resolver.resolve library op).2.asked.toList =
        (ops ++ [op]).eraseDups.map Operation.name := by
  obtain ⟨scope, ⟨resolved, asked⟩, s⟩ := st
  have hasked : asked.toList = ops.eraseDups.map Operation.name := h.asked
  have hresolved : resolved.lookup op = if op ∈ ops then library.lookup op.name else none :=
    h.resolved op
  rw [eraseDups_concat]
  by_cases hop : op ∈ ops
  · -- it has been needed before, so it is remembered and not asked for
    obtain ⟨entry, hentry⟩ := Option.isSome_iff_exists.1 (h.exported op hop)
    rw [if_pos hop, hentry] at hresolved
    simp only [Resolver.resolve, hresolved, hentry, if_pos hop, hasked, and_self]
  · -- it is asked for, whether the library exports it or not
    rw [if_neg hop] at hresolved
    simp only [Resolver.resolve, hresolved, if_neg hop]
    cases library.lookup op.name with
    | none => exact ⟨rfl, by simp [hasked]⟩
    | some entry => exact ⟨rfl, by simp [hasked]⟩

/-- A need that is exported is remembered. -/
theorem Served.resolved_resolve (h : Served library ops bound st) (op : Operation)
    (hexported : (library.lookup op.name).isSome) (op' : Operation) :
    (st.resolver.resolve library op).2.resolved.lookup op' =
      if op' ∈ ops ++ [op] then library.lookup op'.name else none := by
  obtain ⟨scope, ⟨resolved, asked⟩, s⟩ := st
  have hresolved : ∀ op, resolved.lookup op = if op ∈ ops then library.lookup op.name else none :=
    h.resolved
  obtain ⟨entry, hentry⟩ := Option.isSome_iff_exists.1 hexported
  by_cases hop : op ∈ ops
  · -- it was remembered before
    have hfound := hresolved op
    rw [if_pos hop, hentry] at hfound
    simp only [Resolver.resolve, hfound, hresolved op']
    by_cases hop' : op' = op
    · simp [hop', hop]
    · simp [hop']
  · have hmissing := hresolved op
    rw [if_neg hop] at hmissing
    simp only [Resolver.resolve, hmissing, hentry, List.lookup_cons]
    by_cases hop' : op' = op
    · simp [hop', hentry]
    · simp [beq_eq_false_iff_ne.2 hop', hop', hresolved op']

end

/-! ## Walks and their demands -/

/-- From `st`, the walk `m` into the assembler meets the demands `ds`. If there is no fault among
them it succeeds, with what `post` says, and has served the needs and bound the labels; otherwise it
fails with the first fault, and has asked for what was needed before. -/
def Meets {α : Type} (library : Library) (st : State Assembler) (m : Lower Assembler α)
    (ds : List Demand) (post : α → State Assembler → Prop) : Prop :=
  ∀ ops bound, Served library ops bound st →
    (∃ a st', m st = .ok a st' ∧ Demand.fault? library bound ds = none ∧
        Served library (ops ++ Demand.needs library bound ds) (bound ++ Demand.binds ds) st' ∧
        post a st') ∨
      ∃ e st', m st = .error e st' ∧ Demand.fault? library bound ds = some e ∧
        st'.resolver.asked.toList =
          (ops ++ Demand.needs library bound ds).eraseDups.map Operation.name

namespace Meets

variable {α β γ δ : Type} {library : Library} {st st' : State Assembler} {m : Lower Assembler α}
  {k : α → Lower Assembler β} {ds es : List Demand} {post : α → State Assembler → Prop}
  {post' : β → State Assembler → Prop} {a : α}

theorem silent (hm : m st = .ok a st') (h : Silent st st') (hpost : post a st') :
    Meets library st m [] post := by
  intro ops bound hserved
  refine .inl ⟨a, st', hm, rfl, ?_, hpost⟩
  rw [Demand.needs, Demand.binds_nil, List.append_nil, List.append_nil]
  exact hserved.silent h

theorem of_fault {e : CompileError} (hm : m st = .error e st')
    (h : st'.resolver = st.resolver) : Meets library st m [.fault e] post := by
  intro ops bound hserved
  refine .inr ⟨e, st', hm, rfl, ?_⟩
  have hnone : Demand.needs library bound [.fault e] = [] := rfl
  rw [hnone, List.append_nil, h]
  exact hserved.asked

/-- One part after the other: the demands are met in order. -/
theorem bind (h : Meets library st m ds post)
    (next : ∀ a st', post a st' → Meets library st' (k a) es post') :
    Meets library st (m >>= k) (ds ++ es) post' := by
  intro ops bound hserved
  rcases h ops bound hserved with
    ⟨a, st₁, hm, hnone, hserved₁, hpost⟩ | ⟨e, st₁, hm, hfault, hasked⟩
  · have hrest := next a st₁ hpost _ _ hserved₁
    rw [run_bind_of_ok hm, Demand.fault?_append, hnone, Demand.needs_append_of_none hnone,
      Demand.binds_append, ← List.append_assoc, ← List.append_assoc]
    exact hrest
  · -- the second part is not reached, and its demands are behind the first fault
    refine .inr ⟨e, st₁, run_bind_of_error hm, ?_, ?_⟩
    · rw [Demand.fault?_append, hfault, Option.some_or]
    · rw [Demand.needs_append_of_fault hfault]
      exact hasked

/-- A first part without demands. -/
theorem first (h : Meets library st m [] post)
    (next : ∀ a st', post a st' → Meets library st' (k a) es post') :
    Meets library st (m >>= k) es post' := by
  rw [← List.nil_append es]
  exact h.bind next

/-- An action that always succeeds and is silent. -/
theorem step (hm : m st = .ok a st') (h : Silent st st')
    (next : Meets library st' (k a) es post') : Meets library st (m >>= k) es post' := by
  intro ops bound hserved
  rw [run_bind_of_ok hm]
  exact next ops bound (hserved.silent h)

/-- A last part without demands. -/
theorem last (h : Meets library st m ds post)
    (next : ∀ a st', post a st' → Meets library st' (k a) [] post') :
    Meets library st (m >>= k) ds post' := by
  rw [← List.append_nil ds]
  exact h.bind next

theorem mono {post₁ : α → State Assembler → Prop} (h : Meets library st m ds post)
    (hpost : ∀ a st', post a st' → post₁ a st') : Meets library st m ds post₁ := by
  intro ops bound hserved
  rcases h ops bound hserved with ⟨a, st₁, hm, hnone, hserved₁, h⟩ | hfault
  · exact .inl ⟨a, st₁, hm, hnone, hserved₁, hpost a st₁ h⟩
  · exact .inr hfault

/-- A walk that asks for nothing and follows a computation meets what a check of the computation
refuses. -/
theorem of_tracks {x : Except CompileError γ} {y : Except CompileError δ}
    {result : α → State Assembler → γ → Prop} {fault : State Assembler → Prop} {rel : γ → δ → Prop}
    (htracks : Tracks st m x result fault) (hagree : Check.Agree x y rel)
    (hresult : ∀ a st' c d, result a st' c → x = .ok c → y = .ok d → rel c d →
      Silent st st' ∧ post a st')
    (hfault : ∀ st', fault st' → st'.resolver = st.resolver) :
    Meets library st m (Demand.ofCheck y) post := by
  rcases htracks with ⟨a, st', c, hm, rfl, hc⟩ | ⟨e, st', hm, rfl, h⟩
  · rcases hagree with ⟨c', d, hc', rfl, hrel⟩ | ⟨e, he, -⟩
    · cases hc'
      obtain ⟨hsilent, hpost⟩ := hresult a st' c d hc rfl rfl hrel
      exact silent hm hsilent hpost
    · cases he
  · rcases hagree with ⟨c, d, hc, -, -⟩ | ⟨e', he', rfl⟩
    · cases hc
    · cases he'
      exact of_fault hm (hfault st' h)

end Meets

/-- The scope is in the block of `b`, what is visible and used is as `v` says, and there are as many
labels. -/
structure Within (b : Blocks) (v : Demand.Reach) (st : State Assembler) : Prop where
  inScope : ∃ b', b'.frames.outer = b.frames.outer ∧ st.scope.Models b' ∧ Check.Sees b' v.toView
  labels : st.sink.labels.size = v.labels

section

variable {library : Library} {st : State Assembler} {b : Blocks} {v : Demand.Reach}

theorem Within.shows (h : Within b v st) : Check.Shows st.scope.resolve? v.visible := by
  obtain ⟨b', -, hmodels, hsees⟩ := h.inScope
  rw [funext hmodels.resolve?_eq]
  exact hsees.shows

/-- An instruction is written, which is no call. The assembler cannot refuse that. -/
theorem hand_meets {change : Assembler → Assembler} {i : Instruction} (h : Within b v st)
    (hcode : (change st.sink).code = st.sink.code.push i) (hi : Instruction.calls [i] = [])
    (hlabels : (change st.sink).labels = st.sink.labels) :
    Meets library st (hand change) [] fun _ => Within b v := by
  refine .silent rfl ⟨rfl, ?_, fun i place => ?_⟩ ⟨h.inScope, ?_⟩
  · show Instruction.calls (change st.sink).code.toList = _
    rw [hcode, Instruction.calls_push, hi, List.append_nil]
  · rw [hlabels]
  · exact (congrArg Array.size hlabels).trans h.labels

theorem emit_meets {i : Instruction} (h : Within b v st) (hi : Instruction.calls [i] = []) :
    Meets library st (emit Assembler.sink i) [] fun _ => Within b v :=
  hand_meets h rfl hi rfl

theorem branchIfFalse_meets (h : Within b v st) (label : Label) :
    Meets library st (branchIfFalse Assembler.sink label) [] fun _ => Within b v :=
  hand_meets (i := .jumpIfFalse 0) h rfl rfl rfl

theorem branch_meets (h : Within b v st) (label : Label) :
    Meets library st (branch Assembler.sink label) [] fun _ => Within b v :=
  hand_meets (i := .jump 0) h rfl rfl rfl

/-- A label is created with the next number, and has no place yet. -/
theorem newLabel_meets (h : Within b v st) :
    Meets library st (newLabel Assembler.sink) [] fun label st' =>
      label = labelOf v.labels ∧ Within b { v with labels := v.labels + 1 } st' := by
  refine .silent rfl ⟨rfl, rfl, fun i place => ?_⟩ ⟨?_, h.inScope, ?_⟩
  · show (st.sink.labels.push none)[i]? = some (some place) ↔ _
    rw [Array.getElem?_push]
    split
    · next hi => simp [hi]
    · exact Iff.rfl
  · rw [← h.labels]
    rfl
  · show (st.sink.labels.push none).size = v.labels + 1
    rw [Array.size_push, h.labels]

/-- A label that has been created is bound, unless one with the same 32 bits has a place. -/
theorem bindLabel_meets (h : Within b v st) {n : Nat} (hn : n < v.labels) :
    Meets library st (bindLabel Assembler.sink (labelOf n)) [.bind (labelOf n)]
      fun _ => Within b v := by
  intro ops bound hserved
  have hplaces := hserved.places
  obtain ⟨hscope, hlabels⟩ := h
  obtain ⟨scope, resolver, a⟩ := st
  have hneeds : Demand.needs library bound [.bind (labelOf n)] = [] := by
    simp [Demand.needs, Demand.ops]
  by_cases hbound : labelOf n ∈ bound
  · obtain ⟨place, hplace⟩ := (hplaces (labelOf n)).1 hbound
    refine .inr ⟨.internal (.labelRebound (labelOf n)), ⟨scope, resolver, a⟩, ?_, ?_, ?_⟩
    · simp only [bindLabel, Assembler.sink, Assembler.bind_of_bound hplace]
    · simp [Demand.fault?, Demand.refusal?, hbound]
    · rw [hneeds, List.append_nil]
      exact hserved.asked
  · -- the number is below that of labels, and stays so when it is cut
    have hlt : (labelOf n).id.toNat < a.labels.size := by
      have hcut : (labelOf n).id.toNat = n % 2 ^ 32 := rfl
      rw [hcut]
      exact (Nat.mod_le n _).trans_lt (hn.trans_eq hlabels.symm)
    have hfree : a.labels[(labelOf n).id.toNat]? = some none := by
      rw [Array.getElem?_eq_getElem hlt]
      cases hplace : a.labels[(labelOf n).id.toNat] with
      | none => rfl
      | some place =>
        refine absurd ((hplaces (labelOf n)).2 ⟨place, ?_⟩) hbound
        rw [Array.getElem?_eq_getElem hlt, hplace]
    refine .inl ⟨(), ⟨scope, resolver, a.code, a.labels.setIfInBounds (labelOf n).id.toNat
      (some a.code.size.toUInt32), a.branches⟩, ?_, ?_, ?_, hscope, ?_⟩
    · simp only [bindLabel, Assembler.sink, Assembler.bind_of_free hfree]
    · simp [Demand.fault?, Demand.refusal?, hbound]
    · rw [hneeds, List.append_nil]
      refine ⟨hserved.exported, hserved.resolved, hserved.asked, hserved.calls, fun label => ?_⟩
      show _ ↔ ∃ place, (a.labels.setIfInBounds (labelOf n).id.toNat _)[label.id.toNat]? = _
      rw [List.mem_append, hplaces, Demand.binds_bind, Demand.binds_nil, List.mem_singleton]
      by_cases hlabel : label = labelOf n
      · subst hlabel
        simp [Array.getElem?_setIfInBounds_self_of_lt hlt]
      · have hne : (labelOf n).id.toNat ≠ label.id.toNat := by
          intro heq
          exact hlabel (congrArg Label.mk (UInt32.toNat_inj.1 heq.symm))
        simp [Array.getElem?_setIfInBounds_ne hne, hlabel]
    · exact Array.size_setIfInBounds.trans hlabels

/-- The call of an operation needs the operation. -/
theorem operate_meets (h : Within b v st) (op : Operation) :
    Meets library st (operate Assembler.sink library op) [.need op] fun _ => Within b v := by
  intro ops bound hserved
  obtain ⟨hentry, hasked⟩ := hserved.asked_resolve op
  have hresolved := hserved.resolved_resolve op
  obtain ⟨scope, resolver, a⟩ := st
  cases hfound : resolver.resolve library op with
  | mk found resolver' =>
    simp only [hfound] at hentry hasked hresolved
    cases found with
    | none =>
      -- the walk ends here, so nothing is looked up after this
      have hrun : entryOf library op (⟨scope, resolver, a⟩ : State Assembler) =
          .error (.internal (.unresolvedOperation op.name)) ⟨scope, resolver', a⟩ := by
        simp only [entryOf, hfound]
      refine .inr ⟨_, _, run_bind_of_error hrun, ?_, ?_⟩
      · simp [Demand.fault?, Demand.refusal?, ← hentry]
      · simpa [Demand.needs, Demand.ops] using hasked
    | some entry =>
      have hrun : entryOf library op (⟨scope, resolver, a⟩ : State Assembler) =
          .ok entry ⟨scope, resolver', a⟩ := by simp only [entryOf, hfound]
      have hsome : (library.lookup op.name).isSome := by rw [← hentry, Option.isSome_some]
      have hneeds : Demand.needs library bound [.need op] = [op] := by
        simp [Demand.needs, Demand.ops]
      refine .inl ⟨(), _, run_bind_of_ok hrun, ?_, ?_, h.inScope, h.labels⟩
      · simp [Demand.fault?, Demand.refusal?, ← hentry]
      · rw [hneeds, Demand.binds_need, Demand.binds_nil, List.append_nil]
        refine ⟨?_, hresolved hsome, hasked, ?_, hserved.places⟩
        · exact List.forall_mem_append.2 ⟨hserved.exported, List.forall_mem_singleton.2 hsome⟩
        · -- the call that is written has the entry of the library
          show Instruction.calls (a.code.push (.callRuntime entry)).toList = _
          rw [Instruction.calls_push, hserved.calls, List.map_append]
          simp [Instruction.calls, Instruction.callRuntime, ← hentry]

theorem operand16_meets (h : Within b v st) (what : String) (count n : Nat) :
    Meets library st (operand16 what count n) (Demand.ofCheck (Check.fits what count n))
      fun _ st' => n < 65536 ∧ Within b v st' := by
  refine .of_tracks (operand16_tracks what count n rfl) (Check.operand16_agree what count n) ?_ ?_
  · rintro k _ _ _ ⟨-, rfl⟩ - hfits -
    refine ⟨.refl, ?_, h⟩
    unfold Check.fits at hfits
    split at hfits
    · next hn => exact Nat.lt_succ_of_le hn
    · cases hfits
  · rintro st' (rfl : st = st')
    rfl

theorem slotOf_meets (h : Within b v st) (name : String) (position : Position) :
    Meets library st (slotOf name position) (Demand.ofCheck (Check.known v.visible name position))
      fun _ => Within b v := by
  refine .of_tracks (slotOf_tracks name position rfl) (Check.slotOf_agree h.shows name position)
    ?_ ?_
  · rintro slot _ _ _ ⟨-, rfl⟩ - - -
    exact ⟨.refl, h⟩
  · rintro st' (rfl : st = st')
    rfl

/-- A slot is asked for as in the check, and found in a scope of the same block. -/
theorem allocate_meets {action : Scope → Except InternalError Slot × Scope}
    {request : Blocks → Except InternalError Slot × Blocks} {x : Except CompileError Check.View}
    {v' : Check.View} (h : Within b v st)
    (hmodels : ∀ b', st.scope.Models b' →
      (action st.scope).1 = (request b').1 ∧ (action st.scope).2.Models (request b').2)
    (hagree : ∀ b', Check.Sees b' v.toView →
      Check.Agree (Layout.allocate (request b')) x fun r v' => Check.Sees r.2 v')
    (houter : ∀ b' r, Layout.allocate (request b') = .ok r → r.2.frames.outer = b'.frames.outer)
    (hview : ∀ w, x = .ok w → w = v') :
    Meets library st (allocate action) (Demand.ofCheck x)
      fun _ => Within b { v with toView := v' } := by
  obtain ⟨b₁, hb₁, hmodels₁, hsees⟩ := h.inScope
  have htracks : Tracks st (allocate action) (Layout.allocate (request b₁)) _
      (fun st' => st'.resolver = st.resolver) :=
    allocate_tracks (hmodels b₁ hmodels₁) fun _ => rfl
  refine .of_tracks htracks (hagree b₁ hsees) ?_ fun _ h => h
  rintro slot _ r w ⟨-, scope, hmodels₂, rfl⟩ hr hw hsees₂
  rw [hview w hw] at hsees₂
  exact ⟨.scope, ⟨r.2, (houter b₁ r hr).trans hb₁, hmodels₂, hsees₂⟩, h.labels⟩

theorem fresh_meets (h : Within b v st) :
    Meets library st (allocate Scope.fresh) (Demand.ofCheck v.allocate)
      fun _ => Within b { v with used := v.used + 1 } := by
  refine allocate_meets h (fun _ h' => h'.fresh) (fun _ h' => Check.fresh_agree h') ?_ ?_
  · rintro b' ⟨slot, b₂⟩ hslot
    obtain ⟨-, -, rfl⟩ := Layout.allocate_fresh_eq_ok.1 hslot
    rfl
  · intro w hw
    exact Check.View.allocate_eq_ok hw

theorem declare_meets (h : Within b v st) (name : String) :
    Meets library st (allocate (Scope.declare name)) (Demand.ofCheck (v.declare name))
      fun _ => Within b { v with visible := name :: v.visible, used := v.used + 1 } := by
  refine allocate_meets h (fun _ h' => h'.declare name) (fun _ h' => Check.declare_agree h' name)
    ?_ ?_
  · rintro b' ⟨slot, b₂⟩ hslot
    obtain ⟨-, -, rfl⟩ := Layout.allocate_declare_eq_ok.1 hslot
    exact Frames.outer_insert name slot b'.frames
  · intro w hw
    exact Check.View.declare_eq_ok hw

end

mutual

/-- Lowering an expression meets its demands. -/
theorem expr_meets {library : Library} : ∀ (e : Expr) {b : Blocks} {v : Demand.Reach}
    {st : State Assembler}, Within b v st →
    Meets library st (expr Assembler.sink library e) (Demand.expr v.visible e) fun _ => Within b v
  | .binary left text right position, b, v, st, h => by
    rw [expr, Demand.expr, List.append_assoc]
    refine (expr_meets left h).bind fun _ st₁ h₁ => ?_
    refine (expr_meets right h₁).bind fun _ st₂ h₂ => ?_
    unfold Demand.operator
    cases Operation.ofOperator? text with
    | none => exact .of_fault rfl rfl
    | some op => exact operate_meets h₂ op
  | .call callee arguments position, b, v, st, h => by
    rw [expr, Demand.expr, List.append_assoc, List.append_assoc]
    refine (expr_meets callee h).bind fun _ st₁ h₁ => ?_
    refine (operand16_meets h₁ _ _ _).bind ?_
    rintro count st₂ ⟨hfits, h₂⟩
    refine (emit_meets h₂ rfl).first fun _ st₃ h₃ => ?_
    refine (exprs_meets arguments 0 ?_ h₃).bind fun _ st₄ h₄ => ?_
    · rw [Nat.zero_add]
      exact hfits
    · exact operate_meets h₄ .call
  | .parens inner position, b, v, st, h => by
    rw [expr, Demand.expr]
    exact expr_meets inner h
  | .number text position, b, v, st, h => by
    rw [expr, Demand.expr, Check.literal]
    cases Literal.parse? text with
    | none => exact .of_fault rfl rfl
    | some n => exact (emit_meets h rfl).first fun _ _ h₁ => emit_meets h₁ rfl
  | .identifier name position, b, v, st, h => by
    rw [expr, Demand.expr]
    exact (slotOf_meets h name position).last fun _ _ h₁ => emit_meets h₁ rfl
  | .member object name position, b, v, st, h => by
    rw [expr, Demand.expr]
    exact .of_fault rfl rfl

/-- Lowering arguments meets their demands: the index of each fits into 16 bits if their number
does. -/
theorem exprs_meets {library : Library} {total : Nat} : ∀ (es : List Expr) (index : Nat)
    {b : Blocks} {v : Demand.Reach} {st : State Assembler}, index + es.length < 65536 →
    Within b v st →
    Meets library st (exprs Assembler.sink library total index es) (Demand.exprs v.visible es)
      fun _ => Within b v
  | [], index, b, v, st, hlength, h => by
    rw [exprs, Demand.exprs]
    exact .silent rfl .refl h
  | argument :: rest, index, b, v, st, hlength, h => by
    rw [List.length_cons] at hlength
    rw [exprs, Demand.exprs]
    refine .step (operand16_of_lt (by omega)) .refl ?_
    refine (expr_meets argument h).bind fun _ st₁ h₁ => ?_
    refine (emit_meets h₁ rfl).first fun _ st₂ h₂ => ?_
    exact exprs_meets rest (index + 1) (by omega) h₂

end

section

variable {library : Library} {st : State Assembler} {b : Blocks} {v : Demand.Reach}

theorem condition_meets (h : Within b v st) (test : Expr) :
    Meets library st (condition Assembler.sink library test) (Demand.condition v.visible test)
      fun _ => Within b v :=
  (expr_meets test h).bind fun _ _ h₁ => operate_meets h₁ .toBool

/-- A block in its own scope. -/
theorem block_meets {α : Type} {body : List Stmt} {rest : Lower Assembler α} {es : List Demand}
    {post : α → State Assembler → Prop} (h : Within b v st)
    (hbody : ∀ (b' : Blocks) (st' : State Assembler), Within b' v st' →
      Meets library st' (stmts Assembler.sink library body) (Demand.stmts v body).1
        fun _ => Within b' (Demand.stmts v body).2)
    (next : ∀ st', Within b (v.leave (Demand.stmts v body).2) st' →
      Meets library st' rest es post) :
    Meets library st (rescope Scope.enter >>= fun _ => stmts Assembler.sink library body >>=
        fun _ => rescope Scope.exit >>= fun _ => rest)
      ((Demand.stmts v body).1 ++ es) post := by
  obtain ⟨⟨b₁, houter, hmodels, hsees⟩, hlabels⟩ := h
  have henter : Within b₁.enter v { st with scope := st.scope.enter } :=
    ⟨⟨b₁.enter, rfl, hmodels.enter, hsees.enter⟩, hlabels⟩
  refine .step rfl .scope ((hbody b₁.enter _ henter).bind ?_)
  rintro _ st' ⟨⟨inner, hinner, hmodels', hsees'⟩, hlabels'⟩
  refine .step rfl .scope (next _ ⟨⟨{ b₁ with used := inner.used }, houter, ?_, ?_⟩, hlabels'⟩)
  · -- the body ends in the block in which it started
    have hexit : inner.exit = { b₁ with used := inner.used } := by
      rw [Blocks.exit, Frames.pop_eq_of_outer hinner]
    exact hexit ▸ hmodels'.exit
  · exact hsees.leave hsees'

end

mutual

/-- Lowering a statement meets its demands. -/
theorem stmt_meets {library : Library} : ∀ (s : Stmt) {b : Blocks} {v : Demand.Reach}
    {st : State Assembler}, Within b v st →
    Meets library st (stmt Assembler.sink library s) (Demand.stmt v s).1
      fun _ => Within b (Demand.stmt v s).2
  | .expression value position, b, v, st, h => by
    rw [stmt, Demand.stmt]
    exact (expr_meets value h).last fun _ _ h₁ => emit_meets h₁ rfl
  | .declare name value position, b, v, st, h => by
    rw [stmt, Demand.stmt]
    refine (expr_meets value h).bind fun _ st₁ h₁ => ?_
    exact (declare_meets h₁ name).last fun slot _ h₂ => emit_meets h₂ rfl
  | .assign name value position, b, v, st, h => by
    rw [stmt, Demand.stmt]
    refine (slotOf_meets h name position).bind fun slot st₁ h₁ => ?_
    exact (expr_meets value h₁).last fun _ _ h₂ => emit_meets h₂ rfl
  | .ifThen test body position, b, v, st, h => by
    rw [stmt, Demand.stmt, List.append_assoc]
    refine (condition_meets h test).bind fun _ st₁ h₁ => ?_
    refine (newLabel_meets h₁).first ?_
    rintro _ st₂ ⟨rfl, h₂⟩
    refine (branchIfFalse_meets h₂ _).first fun _ st₃ h₃ => ?_
    refine block_meets h₃ (fun _ _ => stmts_meets body) fun st₄ h₄ => ?_
    exact bindLabel_meets h₄ (Demand.lt_labels_stmts (Nat.lt_succ_self _) body)
  | .whileDo test body position, b, v, st, h => by
    rw [stmt, Demand.stmt, List.append_assoc, List.append_assoc]
    refine (newLabel_meets h).first ?_
    rintro _ st₁ ⟨rfl, h₁⟩
    refine (newLabel_meets h₁).first ?_
    rintro _ st₂ ⟨rfl, h₂⟩
    refine (bindLabel_meets h₂ (Nat.lt_add_right 1 (Nat.lt_succ_self _))).bind fun _ st₃ h₃ => ?_
    refine (condition_meets h₃ test).bind fun _ st₄ h₄ => ?_
    refine (branchIfFalse_meets h₄ _).first fun _ st₅ h₅ => ?_
    refine block_meets h₅ (fun _ _ => stmts_meets body) fun st₆ h₆ => ?_
    refine (branch_meets h₆ _).first fun _ st₇ h₇ => ?_
    exact bindLabel_meets h₇ (Demand.lt_labels_stmts (Nat.lt_succ_self _) body)
  | .switch subject cases position, b, v, st, h => by
    rw [stmt, Demand.stmt, List.append_assoc, List.append_assoc]
    refine (expr_meets subject h).bind fun _ st₁ h₁ => ?_
    refine (fresh_meets h₁).bind fun slot st₂ h₂ => ?_
    refine (emit_meets h₂ rfl).first fun _ st₃ h₃ => ?_
    refine (newLabel_meets h₃).first ?_
    rintro _ st₄ ⟨rfl, h₄⟩
    refine (arms_meets slot _ cases h₄).bind fun _ st₅ h₅ => ?_
    exact bindLabel_meets h₅ (Demand.lt_labels_arms (Nat.lt_succ_self _) cases)

theorem stmts_meets {library : Library} : ∀ (ss : List Stmt) {b : Blocks} {v : Demand.Reach}
    {st : State Assembler}, Within b v st →
    Meets library st (stmts Assembler.sink library ss) (Demand.stmts v ss).1
      fun _ => Within b (Demand.stmts v ss).2
  | [], b, v, st, h => by
    rw [stmts, Demand.stmts]
    exact .silent rfl .refl h
  | first :: rest, b, v, st, h => by
    rw [stmts, Demand.stmts]
    exact (stmt_meets first h).bind fun _ _ h₁ => stmts_meets rest h₁

theorem arm_meets {library : Library} (slot : Slot) (done : Label) : ∀ (a : Arm) {b : Blocks}
    {v : Demand.Reach} {st : State Assembler}, Within b v st →
    Meets library st (arm Assembler.sink library slot done a) (Demand.arm v a).1
      fun _ => Within b (Demand.arm v a).2
  | .case value body, b, v, st, h => by
    rw [arm, Demand.arm, List.append_assoc, List.append_assoc, List.append_assoc]
    refine (expr_meets value h).bind fun _ st₁ h₁ => ?_
    refine (emit_meets h₁ rfl).first fun _ st₂ h₂ => ?_
    refine (operate_meets h₂ .eq).bind fun _ st₃ h₃ => ?_
    refine (operate_meets h₃ .toBool).bind fun _ st₄ h₄ => ?_
    refine (newLabel_meets h₄).first ?_
    rintro _ st₅ ⟨rfl, h₅⟩
    refine (branchIfFalse_meets h₅ _).first fun _ st₆ h₆ => ?_
    refine block_meets h₆ (fun _ _ => stmts_meets body) fun st₇ h₇ => ?_
    refine (branch_meets h₇ _).first fun _ st₈ h₈ => ?_
    exact bindLabel_meets h₈ (Demand.lt_labels_stmts (Nat.lt_succ_self _) body)
  | .otherwise body, b, v, st, h => by
    rw [arm, Demand.arm, ← List.append_nil (Demand.stmts v body).1]
    exact block_meets h (fun _ _ => stmts_meets body) fun _ h₁ => branch_meets h₁ _

theorem arms_meets {library : Library} (slot : Slot) (done : Label) : ∀ (as : List Arm) {b : Blocks}
    {v : Demand.Reach} {st : State Assembler}, Within b v st →
    Meets library st (arms Assembler.sink library slot done as) (Demand.arms v as).1
      fun _ => Within b (Demand.arms v as).2
  | [], b, v, st, h => by
    rw [arms, Demand.arms]
    exact .silent rfl .refl h
  | first :: rest, b, v, st, h => by
    rw [arms, Demand.arms]
    exact (arm_meets slot done first h).bind fun _ _ h₁ => arms_meets slot done rest h₁

end

theorem builtins_meets {library : Library} (total : Nat) : ∀ (names : List String) (index : Nat)
    {b : Blocks} {v : Demand.Reach} {st : State Assembler}, Within b v st →
    Meets library st (builtins Assembler.sink total index names)
      (Demand.builtins total index v names).1
      fun _ => Within b (Demand.builtins total index v names).2
  | [], index, b, v, st, h => by
    rw [builtins, Demand.builtins]
    exact .silent rfl .refl h
  | name :: rest, index, b, v, st, h => by
    rw [builtins, Demand.builtins, List.append_assoc]
    refine (operand16_meets h _ _ _).bind ?_
    rintro n st₁ ⟨-, h₁⟩
    refine (declare_meets h₁ name).bind fun slot st₂ h₂ => ?_
    refine (emit_meets h₂ rfl).first fun _ st₃ h₃ => ?_
    refine (emit_meets h₃ rfl).first fun _ st₄ h₄ => ?_
    exact builtins_meets total rest (index + 1) h₄

/-- Lowering a program meets its demands. -/
theorem program_meets (library : Library) (globals : List String) (statements : List Stmt) :
    Meets library (.start Assembler.sink) (program Assembler.sink library globals statements)
      (Demand.program globals statements)
      fun _ st' => st'.sink.labels.size = (Demand.walk globals statements).2.labels := by
  have hstart : Within {} {} (.start Assembler.sink) := by
    refine ⟨⟨{}, rfl, .empty, fun name => ?_, rfl⟩, rfl⟩
    simp [Blocks.resolve?, Frames.lookup?, Frames.maps, Frames.lookupIn_cons]
  rw [program, Demand.program, Demand.walk]
  refine (builtins_meets globals.length globals 0 hstart).bind fun _ st₁ h₁ => ?_
  refine (stmts_meets statements h₁).last fun _ st₂ h₂ => ?_
  exact (emit_meets h₂ rfl).mono fun _ _ h₃ => h₃.labels

end Lowering

/-! ## Compilation -/

/-- There are no more labels than numbers of 32 bits. -/
theorem length_le_of_nodup_labels {labels : List Label} (h : labels.Nodup) :
    labels.length ≤ 2 ^ 32 := by
  have hinj : Function.Injective fun label : Label => label.id.toNat :=
    fun _ _ heq => congrArg Label.mk (UInt32.toNat_inj.1 heq)
  have hsub : (labels.map fun label => label.id.toNat) ⊆ List.range (2 ^ 32) := by
    intro n hn
    obtain ⟨label, -, rfl⟩ := List.mem_map.1 hn
    exact List.mem_range.2 label.id.toNat_lt
  have hle := ((h.map hinj).subperm hsub).length_le
  rwa [List.length_map, List.length_range] at hle

namespace Program

variable {library : Library} {table : BuiltinTable} {p : Program}

/-- A program compiles if the walk into the assembler ends well and labels can be told apart, with
the calls that the walk has written. -/
theorem exists_chunk_of_walk {u : Unit} {st : Lowering.State Assembler}
    (hrun : Lowering.program Assembler.sink library table.names p.statements
      (.start Assembler.sink) = .ok u st)
    (hlabels : st.sink.labels.size ≤ 2 ^ 32) :
    ∃ chunk, p.compile library table = .ok chunk ∧
      Instruction.calls chunk.code.toList = Instruction.calls st.sink.code.toList := by
  -- the draft ends well too, and the assembler has taken all of it
  have hbeside := lowers_beside_draft (Assembler.answers_of_numberedFrom
    (numbered_draft library table.names p))
  rw [hrun] at hbeside
  obtain ⟨count, hending, htaken⟩ : ∃ count, (p.draft library table.names).ending = .ok count ∧
      Assembler.sink.takeAll (p.draft library table.names).directives.toList = .ok st.sink := by
    simp only [draft]
    generalize Lowering.program .sketch library table.names p.statements (.start .sketch) = r
      at hbeside ⊢
    cases hbeside with
    | @ok _ _ dr h => exact ⟨dr.scope.slotCount, rfl, h.taken⟩
  obtain ⟨hsize, -⟩ := Assembler.takes_labels htaken
  have hcount : (p.draft library table.names).labelCount ≤ 2 ^ 32 := by
    rw [Draft.labelCount, ← Nat.zero_add (Directives.labelCount _)]
    exact hsize.ge.trans hlabels
  refine ⟨_, compile_eq_code hcount hending, ?_⟩
  rw [(Assembler.takes_facts htaken).1]
  exact Directives.calls_code _ _ _

/-- A compilation asks for what is needed, fails with the first fault, and without one writes the
calls of what is needed. -/
theorem compile_of_demands (library : Library) (table : BuiltinTable) (p : Program) :
    let demands := Demand.program table.names p.statements
    (p.compileInto Assembler.sink library table.names).lookups.toList =
        (Demand.needs library [] demands).eraseDups.map Operation.name ∧
      (∀ e, p.compile library table = .error e ↔ Demand.fault? library [] demands = some e) ∧
      (∀ chunk, p.compile library table = .ok chunk →
        Instruction.calls chunk.code.toList =
          (Demand.needs library [] demands).map fun op =>
            (library.lookup op.name).map Operand.entry) := by
  intro demands
  rcases Lowering.program_meets library table.names p.statements [] [] .empty with
    ⟨_, st, hrun, hnone, hserved, hlabels⟩ | ⟨e, st, hrun, hfault, hasked⟩
  · rw [List.nil_append, List.nil_append] at hserved
    -- no label is bound twice, and each one is bound, so there are not too many
    have hfew : st.sink.labels.size ≤ 2 ^ 32 := by
      rw [hlabels, Demand.labels_walk]
      exact length_le_of_nodup_labels (Demand.nodup_binds hnone List.nodup_nil)
    obtain ⟨chunk, hchunk, hcalls⟩ := exists_chunk_of_walk hrun hfew
    refine ⟨?_, fun e => ?_, fun chunk' hchunk' => ?_⟩
    · simp only [compileInto, hrun]
      exact hserved.asked
    · rw [hchunk, hnone]
      simp only [reduceCtorEq]
    · cases hchunk.symm.trans hchunk'
      exact hcalls.trans hserved.calls
  · have hcompile : p.compile library table = .error e := by
      simp only [compile, compileInto, hrun]
    refine ⟨?_, fun e' => ?_, fun chunk hchunk => ?_⟩
    · simp only [compileInto, hrun]
      exact hasked
    · rw [hcompile, hfault, Except.error.injEq, Option.some.injEq]
    · rw [hcompile] at hchunk
      cases hchunk

/-- The static check fails with the first fault, as long as labels can be told apart. -/
theorem check_eq_error_iff (hlabels : (p.draft library table.names).labelCount ≤ 2 ^ 32)
    (e : CompileError) :
    Check.program library table.names p.statements = .error e ↔
      Demand.fault? library [] (Demand.program table.names p.statements) = some e := by
  rw [← (compile_of_demands library table p).2.1, ← Check.map_localCount_layout,
    ← compile_eq_layout hlabels]
  cases p.compile library table with
  | ok chunk => simp only [Except.map, reduceCtorEq]
  | error e' => simp only [Except.map, Except.error.injEq]

/-- What was asked for in vain was asked for last, and is the error. -/
theorem unserved_of_compile {name : String}
    (hname : name ∈ (p.compileInto Assembler.sink library table.names).lookups.toList)
    (hmissing : library.lookup name = none) :
    (p.compileInto Assembler.sink library table.names).lookups.toList.getLast? = some name ∧
      p.compile library table = .error (.internal (.unresolvedOperation name)) := by
  obtain ⟨hlookups, herror, -⟩ := compile_of_demands library table p
  rw [hlookups] at hname ⊢
  obtain ⟨op, hop, rfl⟩ := List.mem_map.1 hname
  obtain ⟨hfault, before, hneeds, hbefore⟩ :=
    Demand.unserved (List.mem_eraseDups.1 hop) hmissing
  refine ⟨?_, (herror _).2 hfault⟩
  -- it has not been asked for before, since what came before is exported
  have hfirst : op ∉ before := by
    intro hmem
    have hsome := hbefore op hmem
    rw [hmissing] at hsome
    cases hsome
  rw [hneeds, eraseDups_concat, if_neg hfirst, List.map_append, List.map_singleton,
    List.getLast?_concat]

/-- **A library is asked for each operation once, when it is first needed.** For every program,
builtin table and library, and whatever the size of the program:

* the names that a compilation looks up are those of the operations that lowering needs, up to its
  first fault, with repeats removed;
* so no name is looked up twice;
* the first fault is the error that the compilation ends with, and without one it succeeds;
* a name that the library does not export is looked up last, and is the error;
* if the program compiles, its calls have the entries that the library gave for what was needed, one
  call for each need. -/
theorem lookups_of_demands (library : Library) (table : BuiltinTable) (p : Program) :
    let lookups := (p.compileInto Assembler.sink library table.names).lookups.toList
    let demands := Demand.program table.names p.statements
    let needs := Demand.needs library [] demands
    lookups = needs.eraseDups.map Operation.name ∧
      lookups.Nodup ∧
      (∀ e, p.compile library table = .error e ↔ Demand.fault? library [] demands = some e) ∧
      (∀ name ∈ lookups, library.lookup name = none →
        lookups.getLast? = some name ∧
          p.compile library table = .error (.internal (.unresolvedOperation name))) ∧
      ∀ chunk, p.compile library table = .ok chunk →
        Instruction.calls chunk.code.toList =
          needs.map fun op => (library.lookup op.name).map Operand.entry := by
  intro lookups demands needs
  obtain ⟨hlookups, herror, hcalls⟩ := compile_of_demands library table p
  refine ⟨hlookups, ?_, herror, fun name => unserved_of_compile, hcalls⟩
  show (p.compileInto Assembler.sink library table.names).lookups.toList.Nodup
  rw [hlookups]
  exact (nodup_eraseDups needs).map Operation.name_injective

/-- A loop whose operations come up again and again, before the call of a builtin. Without an export
of calls, the call is looked up last and is the error. -/
theorem lookups_of_demands_loop :
    let x : Expr := .identifier "x" {}
    let p : Program := ⟨none, [
      .declare "x" (.number "1" {}) {},
      .whileDo (.binary x "<" (.number "9" {}) {}) [
        .assign "x" (.binary (.binary x "*" x {}) "+" (.binary x "*" x {}) {}) {},
        .ifThen (.binary x "<" (.number "4" {}) {}) [] {}] {},
      .expression (.call (.identifier "print" {}) [.binary x "+" x {}] {}) {}]⟩
    let silent : Library := { Library.standard with
      lookup := fun name => if name = "Call" then none else Library.standard.lookup name }
    let lookups := fun library : Library =>
      (p.compileInto Assembler.sink library BuiltinTable.standard.names).lookups.toList
    (lookups .standard = ["Lt", "ToBool", "Mul", "Add", "Call"] ∧
      ∃ chunk, p.compile .standard .standard = .ok chunk ∧
        Instruction.calls chunk.code.toList =
          [5, 7, 2, 2, 0, 5, 7, 0, 8].map fun n => some (.entry ⟨n⟩)) ∧
      lookups silent = ["Lt", "ToBool", "Mul", "Add", "Call"] ∧
      p.compile silent .standard = .error (.internal (.unresolvedOperation "Call")) := by
  intro x p silent lookups
  have hneeds : ∀ library, library = Library.standard ∨ library = silent →
      Demand.needs library [] (Demand.program BuiltinTable.standard.names p.statements) =
        [.lt, .toBool, .mul, .mul, .add, .lt, .toBool, .add, .call] := by
    rintro _ (rfl | rfl) <;> decide +kernel
  have hnone : Demand.fault? .standard []
      (Demand.program BuiltinTable.standard.names p.statements) = none := by
    decide +kernel
  obtain ⟨hlookups, -, herror, -, hcalls⟩ := lookups_of_demands .standard .standard p
  obtain ⟨hlookups', -, -, hmissing, -⟩ := lookups_of_demands silent .standard p
  rw [hneeds _ (.inl rfl)] at hlookups hcalls
  rw [hneeds _ (.inr rfl)] at hlookups'
  refine ⟨⟨hlookups, ?_⟩, hlookups', ?_⟩
  · cases hchunk : p.compile .standard .standard with
    | error e =>
      have hfault := (herror e).1 hchunk
      rw [hnone] at hfault
      cases hfault
    | ok chunk => exact ⟨chunk, rfl, hcalls chunk hchunk⟩
  · refine (hmissing "Call" ?_ rfl).2
    rw [hlookups']
    decide +kernel

end Program

end StackScript
