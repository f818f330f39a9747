import Mathlib.Tactic
import StackScript.Proofs.Visits

set_option autoImplicit false

/-!
# What statements change

A statement changes the variables that it assigns, and no others. Which these are is a matter of the
text: `Stmt.assigns` looks for an assignment to a name that no declaration of the name inside the
statement captures. In the code of a statement no instruction stores to the slot of another
variable, or of a subject of a switch around it, and none leads out of the code but to its end
(`Layout.stmt_confined`). So a run through the code finds these slots at the end as they were at the
start (`Machine.runFor_confined`).
-/

namespace StackScript

/-! ## Lexical assignments -/

mutual

/-- Whether a statement assigns to what a name stands for in front of it: an assignment to the name
inside the statement is outside the scope of every declaration of the name inside it. -/
def Stmt.assigns (x : String) : Stmt → Bool
  | .expression _ _ => false
  | .declare _ _ _ => false
  | .assign name _ _ => name == x
  | .ifThen _ body _ => stmtsAssign x body
  | .whileDo _ body _ => stmtsAssign x body
  | .switch _ cases _ => armsAssign x cases

/-- Whether a block does. What comes behind a declaration of the name is in its scope. -/
def stmtsAssign (x : String) : List Stmt → Bool
  | [] => false
  | first :: rest => first.assigns x || !first.declares x && stmtsAssign x rest

def Arm.assigns (x : String) : Arm → Bool
  | .case _ body => stmtsAssign x body
  | .otherwise body => stmtsAssign x body

def armsAssign (x : String) : List Arm → Bool
  | [] => false
  | first :: rest => first.assigns x || armsAssign x rest

end

/-! ## Slots that code has no name for -/

theorem Frames.lookupIn_inj {maps : List (Std.TreeMap String Slot)} (h : Separate maps)
    {x y : String} {slot : Slot} (hx : Frames.lookupIn maps x = some slot)
    (hy : Frames.lookupIn maps y = some slot) : x = y := by
  induction maps with
  | nil => cases hx
  | cons m ms ih =>
    obtain ⟨hinner, houter, hms⟩ := h
    rw [Frames.lookupIn_cons, Option.or_eq_some_iff] at hx hy
    rcases hx with hx | ⟨-, hx⟩
    · rcases hy with hy | ⟨-, hy⟩
      · exact hinner x y slot hx hy
      · obtain ⟨m', hm', hy⟩ := Frames.exists_of_lookupIn hy
        exact absurd hy (houter m' hm' x y slot hx)
    · rcases hy with hy | ⟨-, hy⟩
      · obtain ⟨m', hm', hx⟩ := Frames.exists_of_lookupIn hx
        exact absurd hx (houter m' hm' y x slot hy)
      · exact ih hms hx hy

/-- A slot is in use, and what assigns the given names does not assign to it. -/
structure Spares (b : Blocks) (slot : Slot) (assigned : String → Bool) : Prop where
  lt : slot.index.toNat < b.used
  names : ∀ x, b.resolve? x = some slot → assigned x = false

namespace Spares

variable {library : Library} {b b' : Blocks} {slot : Slot} {assigned assigned' : String → Bool}

/-- A visible slot has one name. -/
theorem of_resolve? (hvalid : b.Valid) {x : String} (hx : b.resolve? x = some slot)
    (hassigned : assigned x = false) : Spares b slot assigned where
  lt := hvalid.lt_of_resolve? hx
  names y hy := by
    rw [Frames.lookupIn_inj hvalid.separate hy hx]
    exact hassigned

theorem of_unnamed (h : Lowering.Unnamed b slot) : Spares b slot assigned :=
  ⟨h.1, fun x hx => absurd hx (h.2 x)⟩

theorem mono (h : Spares b slot assigned) (hle : ∀ x, assigned x = false → assigned' x = false) :
    Spares b slot assigned' :=
  ⟨h.lt, fun x hx => hle x (h.names x hx)⟩

theorem enter (h : Spares b slot assigned) : Spares b.enter slot assigned where
  lt := h.lt
  names x hx := by
    rw [Blocks.resolve?, Blocks.enter, Frames.lookup?_push] at hx
    exact h.names x hx

theorem fresh (h : Spares b slot assigned) : Spares { b with used := b.used + 1 } slot assigned :=
  ⟨Nat.lt_succ_of_lt h.lt, h.names⟩

/-- The next slot is another one. -/
theorem ne_fresh (h : Spares b slot assigned) (hroom : b.used < 65536) :
    (⟨b.used.toUInt16⟩ : Slot) ≠ slot := by
  rintro rfl
  have hlt : b.used.toUInt16.toNat < b.used := h.lt
  rw [toNat_toUInt16 hroom] at hlt
  exact Nat.lt_irrefl _ hlt

theorem first {s : Stmt} {rest : List Stmt}
    (h : Spares b slot fun x => stmtsAssign x (s :: rest)) :
    Spares b slot fun x => s.assigns x := by
  refine h.mono fun x hx => ?_
  rw [stmtsAssign, Bool.or_eq_false_iff] at hx
  exact hx.1

/-- Behind a declaration of its name the slot has no name any more. -/
theorem rest {s : Stmt} {rest : List Stmt} {pc : Nat} {is : List Instruction}
    (h : Spares b slot fun x => stmtsAssign x (s :: rest))
    (hlay : Layout.stmt library pc b s = .ok (is, b')) :
    Spares b' slot fun x => stmtsAssign x rest where
  lt := h.lt.trans_le (Layout.extends_stmt s hlay).used_le
  names x hx := by
    -- a name that still has the slot is not the one declared
    obtain ⟨hbefore, hdeclares⟩ := Layout.resolve?_of_stmt hlay h.lt hx
    have hassigns := h.names x hbefore
    rw [stmtsAssign, hdeclares, Bool.or_eq_false_iff] at hassigns
    exact hassigns.2

theorem firstArm {a : Arm} {rest : List Arm} (h : Spares b slot fun x => armsAssign x (a :: rest)) :
    Spares b slot fun x => a.assigns x := by
  refine h.mono fun x hx => ?_
  rw [armsAssign, Bool.or_eq_false_iff] at hx
  exact hx.1

theorem restArms {a : Arm} {rest : List Arm} {subject : Slot} {done pc : Nat}
    {is : List Instruction} (h : Spares b slot fun x => armsAssign x (a :: rest))
    (hlay : Layout.arm library subject done pc b a = .ok (is, b')) :
    Spares b' slot fun x => armsAssign x rest where
  lt := h.lt.trans_le (Layout.extends_arm a hlay).used_le
  names x hx := by
    rw [Blocks.resolve?, Layout.frames_arm hlay] at hx
    have hassigns := h.names x hx
    rw [armsAssign, Bool.or_eq_false_iff] at hassigns
    exact hassigns.2

end Spares

/-! ## Code that keeps to itself -/

/-- An instruction does not store to a slot, and leads to addresses from `lo` to `hi` only. -/
structure Confined (lo hi : Nat) (slot : Slot) (pc : Nat) (i : Instruction) : Prop where
  leads : ∀ pc', i.Goes pc pc' → lo ≤ pc' ∧ pc' ≤ hi
  keeps : slot ∉ i.stores

namespace Confined

variable {lo hi pc target : Nat} {slot : Slot} {i : Instruction}

theorem read {stored : List Slot} (hreads : i.Reads stored) (hnext : lo ≤ pc + 1 ∧ pc + 1 ≤ hi) :
    Confined lo hi slot pc i where
  leads pc' hgoes := by
    rw [hreads.eq_of_goes hgoes]
    exact hnext
  keeps := by
    rw [hreads.stores_eq]
    exact List.not_mem_nil

theorem store {other : Slot} (hne : other ≠ slot) (hnext : lo ≤ pc + 1 ∧ pc + 1 ≤ hi) :
    Confined lo hi slot pc (.storeLocal other) where
  leads pc' hgoes := by
    cases hgoes with
    | next => exact hnext
    | jumps hop => rcases hop with hop | hop <;> cases hop
  keeps hmem := hne (List.mem_singleton.1 hmem).symm

theorem test (hsmall : hi < 2 ^ 32) (htarget : lo ≤ target ∧ target ≤ hi)
    (hnext : lo ≤ pc + 1 ∧ pc + 1 ≤ hi) :
    Confined lo hi slot pc (.jumpIfFalse target.toUInt32) where
  leads pc' hgoes := by
    cases hgoes with
    | next => exact hnext
    | jumps hop ha =>
      cases ha
      rw [toNat_toUInt32 (htarget.2.trans_lt hsmall)]
      exact htarget
  keeps := List.not_mem_nil

theorem jump (hsmall : hi < 2 ^ 32) (htarget : lo ≤ target ∧ target ≤ hi) :
    Confined lo hi slot pc (.jump target.toUInt32) where
  leads pc' hgoes := by
    cases hgoes with
    | next hjump => exact absurd rfl hjump
    | jumps hop ha =>
      cases ha
      rw [toNat_toUInt32 (htarget.2.trans_lt hsmall)]
      exact htarget
  keeps := List.not_mem_nil

end Confined

namespace Layout

theorem OfExpr.exists_reads {slots : String → Option Slot} {i : Instruction} (h : OfExpr slots i) :
    ∃ stored, i.Reads stored := by
  cases h with
  | @loadLocal name slot h => exact ⟨[slot], .load List.mem_cons_self⟩
  | _ => exact ⟨[], .plain rfl⟩

section

variable {library : Library} {lo hi : Nat} {slot : Slot}

theorem confined_of_ofExpr {slots : String → Option Slot} {pc : Nat} {v : List Instruction}
    (h : ∀ i ∈ v, OfExpr slots i) (hlo : lo ≤ pc) (hhi : pc + v.length ≤ hi) :
    EachAt (Confined lo hi slot) pc v := by
  induction v generalizing pc with
  | nil => exact .nil
  | cons i v ih =>
    obtain ⟨hfirst, hv⟩ := List.forall_mem_cons.1 h
    obtain ⟨stored, hreads⟩ := hfirst.exists_reads
    rw [List.length_cons] at hhi
    exact .cons (.read hreads (by omega)) (ih hv (by omega) (by omega))

mutual

/-- The code of a statement, somewhere from `lo` to `hi`, stays there and keeps a slot that the
statement does not assign. -/
theorem stmt_confined : ∀ (s : Stmt) {pc : Nat} {b b' : Blocks} {is : List Instruction},
    stmt library pc b s = .ok (is, b') → Spares b slot (fun x => s.assigns x) →
    lo ≤ pc → pc + is.length ≤ hi → hi < 2 ^ 32 → EachAt (Confined lo hi slot) pc is
  | .expression value position, pc, b, b', is, hlay, hspares, hlo, hhi, hsmall => by
    obtain ⟨v, hv, rfl, -⟩ := stmt_expression hlay
    rw [List.length_append, List.length_singleton] at hhi
    have hvalue : EachAt (Confined lo hi slot) pc v :=
      confined_of_ofExpr (ofExpr_expr value hv) hlo (by omega)
    have hpop : Instruction.Reads [] .pop := .plain rfl
    exact hvalue.append (.single (.read hpop (by omega)))
  | .declare name value position, pc, b, b', is, hlay, hspares, hlo, hhi, hsmall => by
    obtain ⟨v, hv, hroom, rfl, -⟩ := stmt_declare hlay
    rw [List.length_append, List.length_singleton] at hhi
    have hvalue : EachAt (Confined lo hi slot) pc v :=
      confined_of_ofExpr (ofExpr_expr value hv) hlo (by omega)
    -- a declaration stores to the next slot, also when it takes the name over
    exact hvalue.append (.single (.store (hspares.ne_fresh hroom) (by omega)))
  | .assign name value position, pc, b, b', is, hlay, hspares, hlo, hhi, hsmall => by
    obtain ⟨target, v, htarget, hv, rfl, -⟩ := stmt_assign hlay
    rw [List.length_append, List.length_singleton] at hhi
    have hvalue : EachAt (Confined lo hi slot) pc v :=
      confined_of_ofExpr (ofExpr_expr value hv) hlo (by omega)
    refine hvalue.append (.single (.store ?_ (by omega)))
    -- the name assigned is visible, so its slot is not the one that is spared
    rintro rfl
    exact absurd (hspares.names name htarget) (by simp [Stmt.assigns])
  | .ifThen test body position, pc, b, b', is, hlay, hspares, hlo, hhi, hsmall => by
    obtain ⟨t, c, inner, ht, hc, rfl, -⟩ := stmt_ifThen hlay
    simp only [List.length_append, List.length_singleton] at hhi
    have htest : EachAt (Confined lo hi slot) pc t :=
      confined_of_ofExpr (ofExpr_condition ht) hlo (by omega)
    have hbody := stmts_confined body hc hspares.enter (by omega) (by omega) hsmall
    rw [List.append_assoc]
    exact htest.append (.cons (.test hsmall (by omega) (by omega)) hbody)
  | .whileDo test body position, pc, b, b', is, hlay, hspares, hlo, hhi, hsmall => by
    obtain ⟨t, c, inner, ht, hc, rfl, -⟩ := stmt_whileDo hlay
    simp only [List.length_append, List.length_singleton] at hhi
    have htest : EachAt (Confined lo hi slot) pc t :=
      confined_of_ofExpr (ofExpr_condition ht) hlo (by omega)
    have hbody := stmts_confined body hc hspares.enter (by omega) (by omega) hsmall
    -- the test leads behind the loop, and the end of the body back to the test
    rw [List.append_assoc, List.append_assoc]
    refine htest.append (.cons (.test hsmall ?_ ?_) (hbody.append (.single (.jump hsmall ?_))))
    all_goals omega
  | .switch subject cases position, pc, b, b', is, hlay, hspares, hlo, hhi, hsmall => by
    obtain ⟨v, c, hv, hroom, hc, rfl⟩ := stmt_switch hlay
    -- the arms end where the statement does
    have hlength := length_arms cases hc
    simp only [List.length_append, List.length_singleton] at hhi
    have hsubject : EachAt (Confined lo hi slot) pc v :=
      confined_of_ofExpr (ofExpr_expr subject hv) hlo (by omega)
    have harms := arms_confined cases hc hspares.fresh (by omega) (by omega) ⟨by omega, by omega⟩
      hsmall
    rw [List.append_assoc]
    exact hsubject.append (.cons (.store (hspares.ne_fresh hroom) (by omega)) harms)

theorem stmts_confined : ∀ (ss : List Stmt) {pc : Nat} {b b' : Blocks} {is : List Instruction},
    stmts library pc b ss = .ok (is, b') → Spares b slot (fun x => stmtsAssign x ss) →
    lo ≤ pc → pc + is.length ≤ hi → hi < 2 ^ 32 → EachAt (Confined lo hi slot) pc is
  | [], pc, b, b', is, hlay, hspares, hlo, hhi, hsmall => by
    cases hlay
    exact .nil
  | first :: rest, pc, b, b', is, hlay, hspares, hlo, hhi, hsmall => by
    obtain ⟨c, c', mid, hc, hc', rfl⟩ := stmts_cons hlay
    rw [List.length_append] at hhi
    have hfirst := stmt_confined first hc hspares.first hlo (by omega) hsmall
    have hrest := stmts_confined rest hc' (hspares.rest hc) (by omega) (by omega) hsmall
    exact hfirst.append hrest

/-- The same for an arm, whose end jumps to `done`. -/
theorem arm_confined : ∀ (a : Arm) {subject : Slot} {done pc : Nat} {b b' : Blocks}
    {is : List Instruction}, arm library subject done pc b a = .ok (is, b') →
    Spares b slot (fun x => a.assigns x) → lo ≤ pc → pc + is.length ≤ hi →
    lo ≤ done ∧ done ≤ hi → hi < 2 ^ 32 → EachAt (Confined lo hi slot) pc is
  | .case value body, subject, done, pc, b, b', is, hlay, hspares, hlo, hhi, hdone, hsmall => by
    obtain ⟨v, equal, truth, c, inner, hv, -, -, hc, rfl, -⟩ := arm_case hlay
    simp only [List.length_append, List.length_cons, List.length_nil] at hhi
    have hvalue : EachAt (Confined lo hi slot) pc v :=
      confined_of_ofExpr (ofExpr_expr value hv) hlo (by omega)
    have hbody := stmts_confined body hc hspares.enter (by omega) (by omega) hsmall
    -- the subject is loaded, compared and tested between the value and the body
    have hload : Instruction.Reads [subject] (.loadLocal subject) := .load List.mem_cons_self
    have hequal : Instruction.Reads [] (.callRuntime equal) := .plain rfl
    have htruth : Instruction.Reads [] (.callRuntime truth) := .plain rfl
    rw [List.append_assoc, List.append_assoc]
    refine hvalue.append (.cons (.read hload ?_) (.cons (.read hequal ?_) (.cons (.read htruth ?_)
      (.cons (.test hsmall ?_ ?_) (hbody.append (.single (.jump hsmall hdone)))))))
    all_goals omega
  | .otherwise body, subject, done, pc, b, b', is, hlay, hspares, hlo, hhi, hdone, hsmall => by
    obtain ⟨c, inner, hc, rfl, -⟩ := arm_otherwise hlay
    rw [List.length_append, List.length_singleton] at hhi
    have hbody := stmts_confined body hc hspares.enter hlo (by omega) hsmall
    exact hbody.append (.single (.jump hsmall hdone))

theorem arms_confined : ∀ (as : List Arm) {subject : Slot} {done pc : Nat} {b b' : Blocks}
    {is : List Instruction}, arms library subject done pc b as = .ok (is, b') →
    Spares b slot (fun x => armsAssign x as) → lo ≤ pc → pc + is.length ≤ hi →
    lo ≤ done ∧ done ≤ hi → hi < 2 ^ 32 → EachAt (Confined lo hi slot) pc is
  | [], subject, done, pc, b, b', is, hlay, hspares, hlo, hhi, hdone, hsmall => by
    cases hlay
    exact .nil
  | first :: rest, subject, done, pc, b, b', is, hlay, hspares, hlo, hhi, hdone, hsmall => by
    obtain ⟨c, c', mid, hc, hc', rfl⟩ := arms_cons hlay
    rw [List.length_append] at hhi
    have hfirst := arm_confined first hc hspares.firstArm hlo (by omega) hdone hsmall
    have hrest := arms_confined rest hc' (hspares.restArms hc) (by omega) (by omega) hdone hsmall
    exact hfirst.append hrest

end

end

end Layout

/-! ## Runs through confined code -/

namespace Machine

variable {σ : Type} {host : Host σ} {code : Array Instruction} {slot : Slot}

/-- An instruction changes no local but the one that it stores to. -/
theorem perform_keeps {i : Instruction} {ip : Nat} {stack : List Entry} {locals : Array Value}
    {console : Console σ} {s : State σ} (hslot : slot ∉ i.stores)
    (h : perform host i ⟨ip, stack, locals, console⟩ = .running s) :
    s.locals[slot.index.toNat]? = locals[slot.index.toNat]? := by
  obtain ⟨action, hof, haction⟩ := exists_action host i stack
  rw [haction] at h
  cases hof with
  | fails _ | returns => cases h
  | goesOn _ | jumps _ _ =>
    cases h
    rfl
  | loads _ =>
    simp only [Action.perform] at h
    split at h
    · cases h
      rfl
    · cases h
  | @stores other v rest hi =>
    -- only here a local changes, and it is another one
    subst hi
    simp only [Action.perform] at h
    split at h
    · next hlt =>
      cases h
      refine Array.getElem?_set_ne hlt fun heq => hslot ?_
      rw [Slot.eq_of_toNat heq]
      exact List.mem_singleton_self slot
    · cases h
  | calls _ => rw [(Progress.answered_keeps h).2]

theorem step_keeps {s s' : State σ} {i : Instruction} (hi : code[s.ip]? = some i)
    (hslot : slot ∉ i.stores) (h : step host code s = .running s') :
    s'.locals[slot.index.toNat]? = s.locals[slot.index.toNat]? := by
  obtain ⟨pc, stack, locals, console⟩ := s
  rw [step_eq_perform hi] at h
  exact perform_keeps hslot h

/-- Up to its first arrival at `hi`, a run from an address from `lo` on is in the code between, and
keeps a slot to which nothing there stores. -/
theorem runFor_confined {lo hi n : Nat} {a b : State σ}
    (hcode : ∀ pc i, lo ≤ pc → pc < hi → code[pc]? = some i → Confined lo hi slot pc i)
    (ha : lo ≤ a.ip ∧ a.ip ≤ hi) (hrun : runFor host code n a = .running b)
    (hfirst : ∀ m < n, ∀ c, runFor host code m a = .running c → c.ip ≠ hi) :
    (lo ≤ b.ip ∧ b.ip ≤ hi) ∧ b.locals[slot.index.toNat]? = a.locals[slot.index.toNat]? := by
  induction n generalizing b with
  | zero =>
    cases hrun
    exact ⟨ha, rfl⟩
  | succ n ih =>
    obtain ⟨c, hc, hstep⟩ := exists_last_step hrun
    obtain ⟨hinside, hkept⟩ := ih hc fun m hm => hfirst m (Nat.lt_succ_of_lt hm)
    -- the last step starts short of `hi`, so at an instruction of the code between
    have hlt : c.ip < hi := lt_of_le_of_ne hinside.2 (hfirst n (Nat.lt_succ_self n) c hc)
    obtain ⟨i, hi, hgoes⟩ := step_goes hstep
    have hconfined := hcode c.ip i hinside.1 hlt hi
    exact ⟨hconfined.leads b.ip hgoes, (step_keeps hi hconfined.keeps hstep).trans hkept⟩

/-- The state of a run that can go on. -/
def Progress.state? : Progress σ → Option (State σ)
  | .running s => some s
  | .stopped _ => none

theorem Progress.state?_eq_some {p : Progress σ} {s : State σ} :
    p.state? = some s ↔ p = .running s := by
  cases p with
  | running s' => simp [state?]
  | stopped outcome => simp [state?]

end Machine

theorem Machine.StandsAt.eachAt {P : Nat → Instruction → Prop} {code : Array Instruction} {pc : Nat}
    {is : List Instruction} (h : StandsAt code pc is) (heach : EachAt P pc is) :
    ∀ q i, pc ≤ q → q < pc + is.length → code[q]? = some i → P q i := by
  intro q i hle hlt hi
  obtain ⟨k, rfl⟩ := Nat.exists_eq_add_of_le hle
  rw [h k (Nat.lt_of_add_lt_add_left hlt)] at hi
  exact heach k i hi

/-! ## Statements of compiled programs -/

namespace Program

/-- The walk has written no more instructions than the code has. -/
theorem address_le_of_isPrefix {library : Library} {table : BuiltinTable} {p : Program}
    {chunk : Chunk} {st : Lowering.State Sketch} (hcompile : p.compile library table = .ok chunk)
    (h : st.sink.directives.toList <+: (p.draft library table.names).directives.toList) :
    st.address ≤ chunk.code.size := by
  obtain ⟨ds, hds⟩ := h
  rw [size_of_compile hcompile, Draft.size, ← hds, Directives.size_append]
  exact Nat.le_add_right _ _

/-- **Statements change what they assign.** Take a program that compiles to fewer than `2 ^ 32`
instructions. Lowering comes to each statement in it, at any depth, and lowers it to a part of the
draft, with the code from its address before to that after. Take a slot that is the subject's of a
switch around the statement, or that of a name visible in front of it which it does not assign. Up
to its first arrival at the end of the code of the statement, a run that enters the code at its
start stays in there, and the slot keeps its value: from any state, and on any host. -/
theorem effects_of_compile {σ : Type} {library : Library} {table : BuiltinTable} {p : Program}
    {chunk : Chunk} (hcompile : p.compile library table = .ok chunk)
    (hsize : chunk.code.size < 2 ^ 32) (host : Machine.Host σ) :
    (∀ s ∈ stmtsNodes p.statements, Lowering.ReachesStmt library table.names p.statements s) ∧
      ∀ s rest temps st,
        Lowering.Reaches library table.names p.statements (.stmts (s :: rest)) temps st →
        ∃ st', Lowering.stmt .sketch library s st = .ok () st' ∧
          st'.sink.directives.toList <+: (p.draft library table.names).directives.toList ∧
          ∀ slot, (slot ∈ temps ∨ ∃ x, st.scope.resolve? x = some slot ∧ s.assigns x = false) →
            ∀ n a b, a.ip = st.address → Machine.runFor host chunk.code n a = .running b →
              (∀ m < n, ∀ c, Machine.runFor host chunk.code m a = .running c →
                c.ip ≠ st'.address) →
              (st.address ≤ b.ip ∧ b.ip ≤ st'.address) ∧
                b.locals[slot.index.toNat]? = a.locals[slot.index.toNat]? := by
  refine ⟨reaches_of_compile hcompile, ?_⟩
  intro s rest temps st hreaches
  obtain ⟨blocks, is, hplaced⟩ := placed_of_reaches hcompile hsize hreaches
  obtain ⟨st', c, mid, is', hstmt, hlay, hstands, haddress, hprefix, -⟩ := hplaced.first
  refine ⟨st', hstmt, hprefix, ?_⟩
  intro slot hslot n a b ha hrun hfirst
  have hspares : Spares blocks slot fun x => s.assigns x := by
    rcases hslot with htemp | ⟨x, hx, hassigns⟩
    · -- the subject of a switch has no name
      exact .of_unnamed (hplaced.inScope.unnamed slot htemp)
    · rw [hplaced.inScope.models.resolve?_eq] at hx
      exact .of_resolve? hplaced.inScope.valid hx hassigns
  have hsmall : st'.address < 2 ^ 32 := (address_le_of_isPrefix hcompile hprefix).trans_lt hsize
  have hconfined : EachAt (Confined st.address st'.address slot) st.address c :=
    Layout.stmt_confined s hlay hspares le_rfl haddress.ge hsmall
  refine Machine.runFor_confined (fun pc i hlo hhi hi => ?_) ?_ hrun hfirst
  · rw [haddress] at hhi
    exact hstands.eachAt hconfined pc i hlo hhi hi
  · rw [ha]
    exact ⟨le_rfl, haddress ▸ Nat.le_add_right _ _⟩

/-- A test in an arm of a switch declares `x` anew and assigns it. A run through it ends behind it,
with the new variable changed, and the outer one and the subject of the switch as before. -/
theorem effects_of_compile_shadowed :
    let s : Stmt := .ifThen (.identifier "x" {}) [
      .declare "x" (.number "2" {}) {},
      .assign "x" (.number "3" {}) {}] {}
    let p : Program := ⟨none, [
      .declare "x" (.number "1" {}) {},
      .switch (.identifier "x" {}) [.case (.number "1" {}) [s]] {}]⟩
    let host : Machine.Host Unit := ⟨Library.standard.operation, .empty, .standard⟩
    let a : Machine.State Unit := ⟨11, [], #[.int 1, .int 1, .null], ⟨#[], ()⟩⟩
    s ∈ stmtsNodes p.statements ∧ s.assigns "x" = false ∧
      ∃ chunk st st' b, p.compile .standard .empty = .ok chunk ∧ chunk.code.size < 2 ^ 32 ∧
        Lowering.ReachesStmt .standard BuiltinTable.empty.names p.statements s ∧
        Lowering.Reaches .standard BuiltinTable.empty.names p.statements (.stmts [s]) [⟨1⟩] st ∧
        st.scope.resolve? "x" = some ⟨0⟩ ∧ st.address = 11 ∧
        Lowering.stmt .sketch .standard s st = .ok () st' ∧ st'.address = 20 ∧
        Machine.runFor host chunk.code 9 a = .running b ∧ b.ip = 20 ∧
        b.locals[0]? = some (.int 1) ∧ b.locals[1]? = some (.int 1) ∧
        b.locals[2]? = some (.int 3) := by
  intro s p host a
  -- the walk up to the test, and through it
  let walk : Lowering.Lower Sketch (Slot × Option Slot × Nat × Nat) := do
    Lowering.stmt .sketch .standard (.declare "x" (.number "1" {}) {})
    let head ← Lowering.switchHead .sketch .standard (.identifier "x" {})
    let _ ← Lowering.caseHead .sketch .standard head.1 (.number "1" {})
    let st ← get
    Lowering.stmt .sketch .standard s
    let st' ← get
    return (head.1, st.scope.resolve? "x", st.address, st'.address)
  have hwalk : walk.run' (.start .sketch) = some (⟨1⟩, some ⟨0⟩, 11, 20) := by
    decide +kernel
  obtain ⟨st', hw⟩ := exists_ok_of_run' hwalk
  obtain ⟨⟨⟩, st₁, hdeclare, hw₁⟩ := run_bind_eq_ok hw
  obtain ⟨⟨slot, done⟩, st₂, hswitch, hw₂⟩ := run_bind_eq_ok hw₁
  obtain ⟨skip, st, hcase, hw₃⟩ := run_bind_eq_ok hw₂
  obtain ⟨_, _, hget, hw₄⟩ := run_bind_eq_ok hw₃
  cases hget
  obtain ⟨⟨⟩, st₃, hstmt, hw₅⟩ := run_bind_eq_ok hw₄
  obtain ⟨_, _, hget', hw₆⟩ := run_bind_eq_ok hw₅
  cases hget'
  have hreaches : Lowering.Reaches .standard BuiltinTable.empty.names p.statements (.stmts [s])
      [slot] st :=
    .caseBody (.arms (.next (.start rfl) hdeclare) hswitch) hcase
  have hseen : (slot, st.scope.resolve? "x", st.address, st₃.address) =
      ((⟨1⟩ : Slot), some (⟨0⟩ : Slot), 11, 20) :=
    (EStateM.Result.ok.inj hw₆).1
  simp only [Prod.mk.injEq] at hseen
  obtain ⟨rfl, hx, hstart, hend⟩ := hseen
  -- the run through the test
  have hruns : (p.compile .standard .empty).map (fun chunk =>
      (chunk.code.size,
        (List.range 9).all (fun m =>
          (Machine.runFor host chunk.code m a).state?.any fun c => c.ip != 20),
        (Machine.runFor host chunk.code 9 a).state?.map fun b => (b.ip, b.locals[2]?))) =
      .ok (22, true, some (20, some (.int 3))) := by
    decide +kernel
  cases hchunk : p.compile .standard .empty with
  | error e =>
    rw [hchunk] at hruns
    cases hruns
  | ok chunk =>
    rw [hchunk] at hruns
    simp only [Except.map, Except.ok.injEq, Prod.mk.injEq] at hruns
    obtain ⟨hlength, hbefore, hafter⟩ := hruns
    obtain ⟨b, hrun, hseen⟩ := Option.map_eq_some_iff.1 hafter
    rw [Machine.Progress.state?_eq_some] at hrun
    obtain ⟨hip, hnew⟩ := Prod.mk.inj hseen
    have hsize : chunk.code.size < 2 ^ 32 := by omega
    have hassigns : s.assigns "x" = false := by decide
    have hmem : s ∈ stmtsNodes p.statements := by
      simp [p, s, stmtsNodes, Stmt.nodes, Arm.nodes, armsNodes]
    have hfirst : ∀ m < 9, ∀ c, Machine.runFor host chunk.code m a = .running c →
        c.ip ≠ st₃.address := by
      intro m hm c hc
      have hne := List.all_eq_true.1 hbefore m (List.mem_range.2 hm)
      rw [hc] at hne
      rw [hend]
      exact bne_iff_ne.1 hne
    obtain ⟨hall, heffects⟩ := effects_of_compile hchunk hsize host
    obtain ⟨st₄, hstmt', -, hkeeps⟩ := heffects s [] [⟨1⟩] st hreaches
    cases hstmt.symm.trans hstmt'
    have houter := (hkeeps ⟨0⟩ (.inr ⟨"x", hx, hassigns⟩) 9 a b hstart.symm hrun hfirst).2
    have hsubject := (hkeeps ⟨1⟩ (.inl List.mem_cons_self) 9 a b hstart.symm hrun hfirst).2
    exact ⟨hmem, hassigns, chunk, st, st₃, b, rfl, hsize, hall s hmem, hreaches, hx, hstart, hstmt,
      hend, hrun, hip, houter, hsubject, hnew⟩

end Program

end StackScript
