import Mathlib.Tactic
import StackScript.Proofs.CompileLayout
import StackScript.Proofs.Runs
import StackScript.Proofs.SlotAccounting

set_option autoImplicit false

/-!
# Where the walk comes to a statement

Lowering walks a program once. `Lowering.Reaches` says in which states it comes to statements and
arms at any depth, and which slots hold the subjects of the switches around them. Every statement of
a program that compiles is reached (`Program.reaches_of_compile`), and what it is lowered to stands
in the compiled code, as its layout (`Program.placed_of_reaches`).
-/

namespace StackScript

namespace Lowering

/-! ## The parts of statements -/

section

variable {σ ω : Type}

/-- Lowers an `if` up to its body. -/
def ifHead (sink : Sink σ ω) (library : Library) (test : Expr) : Lower σ Label := do
  condition sink library test
  let after ← newLabel sink
  branchIfFalse sink after
  rescope Scope.enter
  return after

/-- Lowers a loop up to its body. -/
def whileHead (sink : Sink σ ω) (library : Library) (test : Expr) : Lower σ (Label × Label) := do
  let loop ← newLabel sink
  let after ← newLabel sink
  bindLabel sink loop
  condition sink library test
  branchIfFalse sink after
  rescope Scope.enter
  return (loop, after)

/-- Lowers a switch up to its arms. -/
def switchHead (sink : Sink σ ω) (library : Library) (subject : Expr) : Lower σ (Slot × Label) := do
  expr sink library subject
  let slot ← allocate Scope.fresh
  emit sink (.storeLocal slot)
  let done ← newLabel sink
  return (slot, done)

/-- Lowers a case up to its body. -/
def caseHead (sink : Sink σ ω) (library : Library) (slot : Slot) (value : Expr) :
    Lower σ Label := do
  expr sink library value
  emit sink (.loadLocal slot)
  operate sink library .eq
  operate sink library .toBool
  let skip ← newLabel sink
  branchIfFalse sink skip
  rescope Scope.enter
  return skip

variable (sink : Sink σ ω) (library : Library) (position : Position) (body : List Stmt)

theorem stmt_ifThen_eq (test : Expr) :
    stmt sink library (.ifThen test body position) =
      (do
        let after ← ifHead sink library test
        stmts sink library body
        rescope Scope.exit
        bindLabel sink after) := by
  rw [stmt]
  simp only [ifHead, bind_assoc, pure_bind]

theorem stmt_whileDo_eq (test : Expr) :
    stmt sink library (.whileDo test body position) =
      (do
        let (loop, after) ← whileHead sink library test
        stmts sink library body
        rescope Scope.exit
        branch sink loop
        bindLabel sink after) := by
  rw [stmt]
  simp only [whileHead, bind_assoc, pure_bind]

theorem stmt_switch_eq (subject : Expr) (cases : List Arm) :
    stmt sink library (.switch subject cases position) =
      (do
        let (slot, done) ← switchHead sink library subject
        arms sink library slot done cases
        bindLabel sink done) := by
  rw [stmt]
  simp only [switchHead, bind_assoc, pure_bind]

theorem arm_case_eq (slot : Slot) (done : Label) (value : Expr) :
    arm sink library slot done (.case value body) =
      (do
        let skip ← caseHead sink library slot value
        stmts sink library body
        rescope Scope.exit
        branch sink done
        bindLabel sink skip) := by
  rw [arm]
  simp only [caseHead, bind_assoc, pure_bind]

end

/-! ## The walk -/

/-- What the walk is about to lower: the statements left in a block, or the arms left in a switch
whose subject is in `slot` and which ends at `done`. -/
inductive Ahead
  | stmts (ss : List Stmt)
  | arms (slot : Slot) (done : Label) (as : List Arm)

/-- The walk through a program that drafts it comes to what is ahead in a state. The slots are those
of the subjects of the switches around it, innermost first. -/
inductive Reaches (library : Library) (globals : List String) (statements : List Stmt) :
    Ahead → List Slot → State Sketch → Prop
  | start {st : State Sketch}
    (h : builtins .sketch globals.length 0 globals (.start .sketch) = .ok () st) :
    Reaches library globals statements (.stmts statements) [] st
  | next {first : Stmt} {rest : List Stmt} {temps : List Slot} {st st' : State Sketch}
    (h : Reaches library globals statements (.stmts (first :: rest)) temps st)
    (hfirst : stmt .sketch library first st = .ok () st') :
    Reaches library globals statements (.stmts rest) temps st'
  | ifBody {test : Expr} {body rest : List Stmt} {position : Position} {temps : List Slot}
    {st st' : State Sketch} {after : Label}
    (h : Reaches library globals statements (.stmts (.ifThen test body position :: rest)) temps st)
    (hhead : ifHead .sketch library test st = .ok after st') :
    Reaches library globals statements (.stmts body) temps st'
  | whileBody {test : Expr} {body rest : List Stmt} {position : Position} {temps : List Slot}
    {st st' : State Sketch} {labels : Label × Label}
    (h : Reaches library globals statements (.stmts (.whileDo test body position :: rest)) temps st)
    (hhead : whileHead .sketch library test st = .ok labels st') :
    Reaches library globals statements (.stmts body) temps st'
  | arms {subject : Expr} {cases : List Arm} {rest : List Stmt} {position : Position}
    {temps : List Slot} {st st' : State Sketch} {slot : Slot} {done : Label}
    (h : Reaches library globals statements (.stmts (.switch subject cases position :: rest)) temps
      st)
    (hhead : switchHead .sketch library subject st = .ok (slot, done) st') :
    Reaches library globals statements (.arms slot done cases) (slot :: temps) st'
  | nextArm {slot : Slot} {done : Label} {first : Arm} {rest : List Arm} {temps : List Slot}
    {st st' : State Sketch}
    (h : Reaches library globals statements (.arms slot done (first :: rest)) temps st)
    (hfirst : arm .sketch library slot done first st = .ok () st') :
    Reaches library globals statements (.arms slot done rest) temps st'
  | caseBody {slot : Slot} {done skip : Label} {value : Expr} {body : List Stmt} {rest : List Arm}
    {temps : List Slot} {st st' : State Sketch}
    (h : Reaches library globals statements (.arms slot done (.case value body :: rest)) temps st)
    (hhead : caseHead .sketch library slot value st = .ok skip st') :
    Reaches library globals statements (.stmts body) temps st'
  | defaultBody {slot : Slot} {done : Label} {body : List Stmt} {rest : List Arm}
    {temps : List Slot} {st : State Sketch}
    (h : Reaches library globals statements (.arms slot done (.otherwise body :: rest)) temps st) :
    Reaches library globals statements (.stmts body) temps { st with scope := st.scope.enter }

/-- The walk comes to a statement. -/
def ReachesStmt (library : Library) (globals : List String) (statements : List Stmt) (s : Stmt) :
    Prop :=
  ∃ rest temps st, Reaches library globals statements (.stmts (s :: rest)) temps st

section

variable {library : Library} {globals : List String} {statements : List Stmt}

mutual

/-- A walk through a statement comes to every statement inside it. -/
theorem reaches_stmt : ∀ (s : Stmt) {rest : List Stmt} {temps : List Slot} {st st' : State Sketch},
    Reaches library globals statements (.stmts (s :: rest)) temps st →
    stmt .sketch library s st = .ok () st' →
    ∀ n ∈ s.nodes, ReachesStmt library globals statements n
  | .expression value position, rest, temps, st, st', h, hrun =>
    List.forall_mem_singleton.2 ⟨rest, temps, st, h⟩
  | .declare name value position, rest, temps, st, st', h, hrun =>
    List.forall_mem_singleton.2 ⟨rest, temps, st, h⟩
  | .assign name value position, rest, temps, st, st', h, hrun =>
    List.forall_mem_singleton.2 ⟨rest, temps, st, h⟩
  | .ifThen test body position, rest, temps, st, st', h, hrun => by
    rw [stmt_ifThen_eq] at hrun
    obtain ⟨after, st₁, hhead, hrun⟩ := run_bind_eq_ok hrun
    obtain ⟨⟨⟩, st₂, hbody, -⟩ := run_bind_eq_ok hrun
    exact List.forall_mem_cons.2 ⟨⟨rest, temps, st, h⟩, reaches_stmts body (.ifBody h hhead) hbody⟩
  | .whileDo test body position, rest, temps, st, st', h, hrun => by
    rw [stmt_whileDo_eq] at hrun
    obtain ⟨labels, st₁, hhead, hrun⟩ := run_bind_eq_ok hrun
    obtain ⟨⟨⟩, st₂, hbody, -⟩ := run_bind_eq_ok hrun
    exact List.forall_mem_cons.2
      ⟨⟨rest, temps, st, h⟩, reaches_stmts body (.whileBody h hhead) hbody⟩
  | .switch subject cases position, rest, temps, st, st', h, hrun => by
    rw [stmt_switch_eq] at hrun
    obtain ⟨⟨slot, done⟩, st₁, hhead, hrun⟩ := run_bind_eq_ok hrun
    obtain ⟨⟨⟩, st₂, harms, -⟩ := run_bind_eq_ok hrun
    exact List.forall_mem_cons.2 ⟨⟨rest, temps, st, h⟩, reaches_arms cases (.arms h hhead) harms⟩

theorem reaches_stmts : ∀ (ss : List Stmt) {temps : List Slot} {st st' : State Sketch},
    Reaches library globals statements (.stmts ss) temps st →
    stmts .sketch library ss st = .ok () st' →
    ∀ n ∈ stmtsNodes ss, ReachesStmt library globals statements n
  | [], temps, st, st', h, hrun => List.forall_mem_nil _
  | first :: rest, temps, st, st', h, hrun => by
    rw [stmts] at hrun
    obtain ⟨⟨⟩, st₁, hfirst, hrest⟩ := run_bind_eq_ok hrun
    exact List.forall_mem_append.2
      ⟨reaches_stmt first h hfirst, reaches_stmts rest (.next h hfirst) hrest⟩

theorem reaches_arm : ∀ (a : Arm) {slot : Slot} {done : Label} {rest : List Arm}
    {temps : List Slot} {st st' : State Sketch},
    Reaches library globals statements (.arms slot done (a :: rest)) temps st →
    arm .sketch library slot done a st = .ok () st' →
    ∀ n ∈ a.nodes, ReachesStmt library globals statements n
  | .case value body, slot, done, rest, temps, st, st', h, hrun => by
    rw [arm_case_eq] at hrun
    obtain ⟨skip, st₁, hhead, hrun⟩ := run_bind_eq_ok hrun
    obtain ⟨⟨⟩, st₂, hbody, -⟩ := run_bind_eq_ok hrun
    exact reaches_stmts body (.caseBody h hhead) hbody
  | .otherwise body, slot, done, rest, temps, st, st', h, hrun => by
    rw [arm] at hrun
    obtain ⟨⟨⟩, st₁, hhead, hrun⟩ := run_bind_eq_ok hrun
    obtain ⟨⟨⟩, st₂, hbody, -⟩ := run_bind_eq_ok hrun
    cases hhead
    exact reaches_stmts body (.defaultBody h) hbody

theorem reaches_arms : ∀ (as : List Arm) {slot : Slot} {done : Label} {temps : List Slot}
    {st st' : State Sketch}, Reaches library globals statements (.arms slot done as) temps st →
    arms .sketch library slot done as st = .ok () st' →
    ∀ n ∈ armsNodes as, ReachesStmt library globals statements n
  | [], slot, done, temps, st, st', h, hrun => List.forall_mem_nil _
  | first :: rest, slot, done, temps, st, st', h, hrun => by
    rw [arms] at hrun
    obtain ⟨⟨⟩, st₁, hfirst, hrest⟩ := run_bind_eq_ok hrun
    exact List.forall_mem_append.2
      ⟨reaches_arm first h hfirst, reaches_arms rest (.nextArm h hfirst) hrest⟩

end

end

/-! ## States of the walk -/

theorem size_push (directives : Array Directive) (d : Directive) :
    Directives.size (directives.push d).toList = Directives.size directives.toList + d.width := by
  rw [Array.toList_push, Directives.size_append]
  rfl

theorem isPrefix_of_push {directives : Array Directive} {d : Directive} {ds : List Directive}
    (h : (directives.push d).toList <+: ds) : directives.toList <+: ds := by
  rw [Array.toList_push] at h
  exact (List.prefix_append _ _).trans h

/-- The address of the next instruction. -/
def State.address (st : State Sketch) : Nat := Directives.size st.sink.directives.toList

section

variable {library : Library} {allowed : (Label → UInt32) → Prop} {pc : Nat} {b b' : Blocks}
  {st st' : State Sketch} {is : List Instruction}

theorem Wrote.address (h : Wrote library st st' is) : st'.address = st.address + is.length := by
  rw [State.address, State.address, h.directives, Directives.size_append, Directives.size_emits]

theorem Laid.address (h : Laid library allowed pc b st st' is b') :
    st'.address = st.address + is.length := by
  obtain ⟨ds, hds, hwhole⟩ := h.fragment
  rw [State.address, State.address, hds, Directives.size_append, hwhole.size_eq]

theorem Laid.isPrefix (h : Laid library allowed pc b st st' is b') :
    st.sink.directives.toList <+: st'.sink.directives.toList := by
  obtain ⟨ds, hds, -⟩ := h.fragment
  exact ⟨ds, hds.symm⟩

end

/-- A slot is in use, but no visible name has it. -/
def Unnamed (b : Blocks) (slot : Slot) : Prop :=
  slot.index.toNat < b.used ∧ ∀ x, b.resolve? x ≠ some slot

/-- The walk is in the blocks `b`, inside switches with subjects in `temps`. -/
structure Scoped (library : Library) (temps : List Slot) (scope : Scope) (resolver : Resolver)
    (b : Blocks) : Prop where
  models : scope.Models b
  sound : resolver.Sound library
  valid : b.Valid
  unnamed : ∀ t ∈ temps, Unnamed b t

end Lowering

/-- Whether a statement declares a name for the rest of its block. -/
def Stmt.declares (x : String) : Stmt → Bool
  | .declare name _ _ => name == x
  | _ => false

/-- A slot that is in use before a statement and visible after it was visible before, and its name
has not been declared anew. -/
theorem Layout.resolve?_of_stmt {library : Library} {s : Stmt} {pc : Nat} {b b' : Blocks}
    {is : List Instruction} {slot : Slot} {x : String}
    (h : Layout.stmt library pc b s = .ok (is, b')) (hslot : slot.index.toNat < b.used)
    (hx : b'.resolve? x = some slot) : b.resolve? x = some slot ∧ s.declares x = false := by
  cases s with
  | expression value position =>
    obtain ⟨v, -, -, rfl⟩ := Layout.stmt_expression h
    exact ⟨hx, rfl⟩
  | declare name value position =>
    obtain ⟨v, -, hroom, -, rfl⟩ := Layout.stmt_declare h
    rw [Blocks.resolve?, Frames.lookup?_insert] at hx
    split at hx
    · -- the new slot is not in use before
      cases hx
      rw [toNat_toUInt16 hroom] at hslot
      exact absurd hslot (Nat.lt_irrefl _)
    · next hne => exact ⟨hx, beq_false_of_ne hne⟩
  | assign name value position =>
    obtain ⟨slot', v, -, -, -, rfl⟩ := Layout.stmt_assign h
    exact ⟨hx, rfl⟩
  | ifThen test body position =>
    obtain ⟨t, c, inner, -, -, -, rfl⟩ := Layout.stmt_ifThen h
    exact ⟨hx, rfl⟩
  | whileDo test body position =>
    obtain ⟨t, c, inner, -, -, -, rfl⟩ := Layout.stmt_whileDo h
    exact ⟨hx, rfl⟩
  | switch subject cases position =>
    obtain ⟨v, c, -, -, hc, -⟩ := Layout.stmt_switch h
    rw [Blocks.resolve?, Layout.frames_arms hc] at hx
    exact ⟨hx, rfl⟩

namespace Lowering

section

variable {library : Library} {temps : List Slot} {b b' : Blocks} {scope : Scope}
  {resolver : Resolver} {st st' : State Sketch} {is : List Instruction}

theorem Scoped.enter (h : Scoped library temps scope resolver b) :
    Scoped library temps scope.enter resolver b.enter where
  models := h.models.enter
  sound := h.sound
  valid := h.valid.enter
  unnamed t ht := by
    refine ⟨(h.unnamed t ht).1, fun x => ?_⟩
    rw [Blocks.resolve?, Blocks.enter, Frames.lookup?_push]
    exact (h.unnamed t ht).2 x

theorem Scoped.wrote (h : Scoped library temps st.scope st.resolver b)
    (hwrote : Wrote library st st' is) : Scoped library temps st'.scope st'.resolver b :=
  ⟨hwrote.scope ▸ h.models, hwrote.sound, h.valid, h.unnamed⟩

/-- A part of the walk that stays in its block and gives no name to a slot that has none. -/
theorem Scoped.laid {allowed : (Label → UInt32) → Prop} {pc : Nat}
    (h : Scoped library temps scope resolver b) (hlaid : Laid library allowed pc b st st' is b')
    (hextends : b.Extends b')
    (hnames : ∀ slot x, slot.index.toNat < b.used → b'.resolve? x = some slot →
      b.resolve? x = some slot) : Scoped library temps st'.scope st'.resolver b' where
  models := hlaid.models
  sound := hlaid.sound
  valid := hextends.valid h.valid
  unnamed t ht := by
    obtain ⟨hlt, hnone⟩ := h.unnamed t ht
    exact ⟨hlt.trans_le hextends.used_le, fun x hx => hnone x (hnames t x hlt hx)⟩

/-- The next slot is taken for the subject of a switch. -/
theorem Scoped.fresh (h : Scoped library temps scope resolver b) (hroom : b.used < 65536)
    {scope' : Scope} (hmodels : scope'.Models { b with used := b.used + 1 }) :
    Scoped library (⟨b.used.toUInt16⟩ :: temps) scope' resolver { b with used := b.used + 1 } where
  models := hmodels
  sound := h.sound
  valid := (Blocks.Extends.fresh hroom).valid h.valid
  unnamed := by
    refine List.forall_mem_cons.2 ⟨⟨?_, fun x hx => ?_⟩, fun t ht => ?_⟩
    · show b.used.toUInt16.toNat < b.used + 1
      rw [toNat_toUInt16 hroom]
      exact Nat.lt_succ_self _
    · have hlt : b.used.toUInt16.toNat < b.used := h.valid.lt_of_resolve? hx
      rw [toNat_toUInt16 hroom] at hlt
      exact Nat.lt_irrefl _ hlt
    · exact ⟨Nat.lt_succ_of_lt (h.unnamed t ht).1, (h.unnamed t ht).2⟩

end

/-! ## What is ahead stands in the code -/

/-- Lowers what is ahead. -/
def Ahead.lower (library : Library) : Ahead → Lower Sketch Unit
  | .stmts ss => Lowering.stmts .sketch library ss
  | .arms slot done as => Lowering.arms .sketch library slot done as

/-- What is ahead has a layout at the address of the state. -/
def Ahead.Lays (library : Library) (st : State Sketch) (b : Blocks) (is : List Instruction) :
    Ahead → Prop
  | .stmts ss => ∃ b', Layout.stmts library st.address b ss = .ok (is, b')
  | .arms slot done as => ∃ d e b', done = labelOf d ∧ d < st.sink.labels ∧
    Layout.arms library slot e st.address b as = .ok (is, b')

/-- What is ahead is laid out as `is`, which stands in the code, and is lowered to the next of the
directives `ds`. -/
structure Placed (library : Library) (code : Array Instruction) (ds : List Directive)
    (ahead : Ahead) (temps : List Slot) (st : State Sketch) (b : Blocks) (is : List Instruction) :
    Prop where
  inScope : Scoped library temps st.scope st.resolver b
  lays : ahead.Lays library st b is
  stands : Machine.StandsAt code st.address is
  lowered : ∃ st', ahead.lower library st = .ok () st' ∧ st'.sink.directives.toList <+: ds

namespace Placed

variable {library : Library} {code : Array Instruction} {ds : List Directive} {temps : List Slot}
  {b : Blocks} {st st' : State Sketch} {is : List Instruction}

/-- Statements that the walk lowers to their layout at its address are ahead there. -/
theorem of_stmts {ss : List Stmt} {pc : Nat} {b' : Blocks}
    (hscope : Scoped library temps st.scope st.resolver b) (haddress : st.address = pc)
    (hlay : Layout.stmts library pc b ss = .ok (is, b')) (hstands : Machine.StandsAt code pc is)
    (hrun : Lowering.stmts .sketch library ss st = .ok () st')
    (hds : st'.sink.directives.toList <+: ds) :
    Placed library code ds (.stmts ss) temps st b is := by
  subst haddress
  exact ⟨hscope, ⟨b', hlay⟩, hstands, st', hrun, hds⟩

/-- A statement is lowered to its layout, and then the rest is ahead. -/
theorem first {s : Stmt} {rest : List Stmt}
    (h : Placed library code ds (.stmts (s :: rest)) temps st b is) :
    ∃ st₁ c mid is', stmt .sketch library s st = .ok () st₁ ∧
      Layout.stmt library st.address b s = .ok (c, mid) ∧
      Machine.StandsAt code st.address c ∧ st₁.address = st.address + c.length ∧
      st₁.sink.directives.toList <+: ds ∧
      Placed library code ds (.stmts rest) temps st₁ mid is' := by
  obtain ⟨b', hlay⟩ := h.lays
  obtain ⟨c, is', mid, hc, hrest, rfl⟩ := Layout.stmts_cons hlay
  obtain ⟨st₂, hrun, hprefix⟩ := h.lowered
  rw [Ahead.lower, Lowering.stmts] at hrun
  obtain ⟨⟨⟩, st₁, hfirst, hrun⟩ := run_bind_eq_ok hrun
  have hlaid :=
    (stmt_tracks s st.address b st h.inScope.models h.inScope.sound).post_of_ok hfirst hc
  have hscoped := h.inScope.laid hlaid (Layout.extends_stmt s hc)
    fun slot x hslot hx => (Layout.resolve?_of_stmt hc hslot hx).1
  rw [← hlaid.address] at hrest
  -- the rest is lowered behind the statement, so the statement is lowered to a part of `ds`
  have hbehind := (stmts_tracks rest st₁.address mid st₁ hlaid.models hlaid.sound).post_of_ok hrun
    hrest
  refine ⟨st₁, c, mid, is', hfirst, hc, h.stands.left, hlaid.address,
    hbehind.isPrefix.trans hprefix, hscoped, ⟨b', hrest⟩, ?_, st₂, hrun, hprefix⟩
  rw [hlaid.address]
  exact h.stands.right

/-- An arm is lowered to its layout, and then the other arms are ahead. -/
theorem firstArm {slot : Slot} {done : Label} {a : Arm} {rest : List Arm}
    (h : Placed library code ds (.arms slot done (a :: rest)) temps st b is) :
    ∃ st₁ c mid is' e, arm .sketch library slot done a st = .ok () st₁ ∧
      Layout.arm library slot e st.address b a = .ok (c, mid) ∧
      Machine.StandsAt code st.address c ∧ st₁.sink.directives.toList <+: ds ∧
      Placed library code ds (.arms slot done rest) temps st₁ mid is' := by
  obtain ⟨d, e, b', rfl, hd, hlay⟩ := h.lays
  obtain ⟨c, is', mid, hc, hrest, rfl⟩ := Layout.arms_cons hlay
  obtain ⟨st₂, hrun, hprefix⟩ := h.lowered
  rw [Ahead.lower, Lowering.arms] at hrun
  obtain ⟨⟨⟩, st₁, hfirst, hrun⟩ := run_bind_eq_ok hrun
  have hlaid := (arm_tracks slot e d a st.address b st hd h.inScope.models
    h.inScope.sound).post_of_ok hfirst hc
  have hscoped := h.inScope.laid hlaid (Layout.extends_arm a hc) fun slot x hslot hx => by
    rwa [Blocks.resolve?, Layout.frames_arm hc] at hx
  rw [← hlaid.address] at hrest
  -- the label of the end of the switch is older than those of the arm
  have hd₁ : d < st₁.sink.labels := by
    obtain ⟨es, -, hwhole⟩ := hlaid.fragment
    exact lt_of_lt_of_le hd hwhole.le
  have hbehind := (arms_tracks slot e d rest st₁.address mid st₁ hd₁ hlaid.models
    hlaid.sound).post_of_ok hrun hrest
  refine ⟨st₁, c, mid, is', e, hfirst, hc, h.stands.left, hbehind.isPrefix.trans hprefix, hscoped,
    ⟨d, e, b', rfl, hd₁, hrest⟩, ?_, st₂, hrun, hprefix⟩
  rw [hlaid.address]
  exact h.stands.right

end Placed

section

variable {library : Library} {st st' : State Sketch}

/-- An `if` up to its body is its condition and a branch. -/
theorem ifHead_eq_ok {test : Expr} {after : Label}
    (h : ifHead .sketch library test st = .ok after st') :
    ∃ st₁, condition .sketch library test st = .ok () st₁ ∧ st' = ⟨st₁.scope.enter, st₁.resolver,
      st₁.sink.labels + 1,
      (st₁.sink.directives.push (.newLabel after)).push (.branchIfFalse after)⟩ := by
  obtain ⟨⟨⟩, st₁, ht, h⟩ := run_bind_eq_ok h
  cases h
  exact ⟨st₁, ht, rfl⟩

/-- A loop up to its body is its condition, behind labels only, and a branch. -/
theorem whileHead_eq_ok {test : Expr} {labels : Label × Label}
    (h : whileHead .sketch library test st = .ok labels st') :
    ∃ st₀ st₁, st₀.scope = st.scope ∧ st₀.resolver = st.resolver ∧ st₀.address = st.address ∧
      condition .sketch library test st₀ = .ok () st₁ ∧
      st' = ⟨st₁.scope.enter, st₁.resolver, st₁.sink.labels,
        st₁.sink.directives.push (.branchIfFalse labels.2)⟩ := by
  obtain ⟨loop, st₁, hloop, h₁⟩ := run_bind_eq_ok h
  obtain ⟨after, st₂, hafter, h₂⟩ := run_bind_eq_ok h₁
  obtain ⟨⟨⟩, st₃, hbind, h₃⟩ := run_bind_eq_ok h₂
  obtain ⟨⟨⟩, st₄, ht, h₄⟩ := run_bind_eq_ok h₃
  cases hloop
  cases hafter
  cases hbind
  cases h₄
  refine ⟨_, st₄, ?_, ?_, ?_, ht, rfl⟩
  · rfl
  · rfl
  · simp only [State.address, size_push, Directive.width, Nat.add_zero]

/-- A switch up to its arms is its subject and the store to a new slot. -/
theorem switchHead_eq_ok {subject : Expr} {slot : Slot} {done : Label}
    (h : switchHead .sketch library subject st = .ok (slot, done) st') :
    ∃ st₁ st₂, expr .sketch library subject st = .ok () st₁ ∧
      allocate Scope.fresh st₁ = .ok slot st₂ ∧ done = labelOf st₂.sink.labels ∧
      st' = ⟨st₂.scope, st₂.resolver, st₂.sink.labels + 1,
        (st₂.sink.directives.push (.emit (.storeLocal slot))).push (.newLabel done)⟩ := by
  obtain ⟨⟨⟩, st₁, hv, h₁⟩ := run_bind_eq_ok h
  obtain ⟨slot', st₂, hslot, h₂⟩ := run_bind_eq_ok h₁
  cases h₂
  exact ⟨st₁, st₂, hv, hslot, rfl, rfl⟩

/-- A case up to its body is its value, the comparison with the subject, and a branch. -/
theorem caseHead_eq_ok {slot : Slot} {value : Expr} {skip : Label}
    (h : caseHead .sketch library slot value st = .ok skip st') :
    ∃ st₁ st₂ st₃, expr .sketch library value st = .ok () st₁ ∧
      operate .sketch library .eq { st₁ with sink := Sink.sketch.emit (.loadLocal slot) st₁.sink } =
        .ok () st₂ ∧
      operate .sketch library .toBool st₂ = .ok () st₃ ∧
      st' = ⟨st₃.scope.enter, st₃.resolver, st₃.sink.labels + 1,
        (st₃.sink.directives.push (.newLabel skip)).push (.branchIfFalse skip)⟩ := by
  obtain ⟨⟨⟩, st₁, hv, h₁⟩ := run_bind_eq_ok h
  obtain ⟨⟨⟩, st₁', hload, h₂⟩ := run_bind_eq_ok h₁
  obtain ⟨⟨⟩, st₂, heq, h₃⟩ := run_bind_eq_ok h₂
  obtain ⟨⟨⟩, st₃, htest, h₄⟩ := run_bind_eq_ok h₃
  cases hload
  cases h₄
  exact ⟨st₁, st₂, st₃, hv, heq, htest, rfl⟩

end

namespace Placed

variable {library : Library} {code : Array Instruction} {ds : List Directive} {temps : List Slot}
  {b : Blocks} {st st' : State Sketch} {is : List Instruction}

/-- The body of an `if` is ahead behind its head. -/
theorem ifBody {test : Expr} {body rest : List Stmt} {position : Position} {after : Label}
    (h : Placed library code ds (.stmts (.ifThen test body position :: rest)) temps st b is)
    (hhead : ifHead .sketch library test st = .ok after st') :
    ∃ c, Placed library code ds (.stmts body) temps st' b.enter c := by
  obtain ⟨st₁, is', mid, -, hrun, hlay, hstands, -, hprefix, -⟩ := h.first
  obtain ⟨t, c, inner, ht, hc, rfl, -⟩ := Layout.stmt_ifThen hlay
  -- behind the head come the body and then the end of its scope and a label
  rw [stmt_ifThen_eq, run_bind_of_ok hhead] at hrun
  obtain ⟨⟨⟩, st₃, hbody, hrun⟩ := run_bind_eq_ok hrun
  cases hrun
  obtain ⟨st₂, htest, rfl⟩ := ifHead_eq_ok hhead
  have hwrote := ((condition_tracks_of_models test h.inScope.models h.inScope.sound
    fun _ => Stopped.cut).post_of_ok htest ht).2
  have haddress : State.address ⟨st₂.scope.enter, st₂.resolver, st₂.sink.labels + 1,
      (st₂.sink.directives.push (.newLabel after)).push (.branchIfFalse after)⟩ =
      st.address + t.length + 1 := by
    rw [← hwrote.address]
    simp only [State.address, size_push, Directive.width, Nat.add_zero]
  have hplace : Machine.StandsAt code (st.address + t.length + 1) c :=
    hstands.right_at (by simp [Nat.add_assoc])
  exact ⟨c, .of_stmts (h.inScope.wrote hwrote).enter haddress hc hplace hbody
    (isPrefix_of_push hprefix)⟩

/-- The body of a loop is ahead behind its head. -/
theorem whileBody {test : Expr} {body rest : List Stmt} {position : Position}
    {labels : Label × Label}
    (h : Placed library code ds (.stmts (.whileDo test body position :: rest)) temps st b is)
    (hhead : whileHead .sketch library test st = .ok labels st') :
    ∃ c, Placed library code ds (.stmts body) temps st' b.enter c := by
  obtain ⟨st₁, is', mid, -, hrun, hlay, hstands, -, hprefix, -⟩ := h.first
  obtain ⟨t, c, inner, ht, hc, rfl, -⟩ := Layout.stmt_whileDo hlay
  rw [stmt_whileDo_eq, run_bind_of_ok hhead] at hrun
  obtain ⟨⟨⟩, st₃, hbody, hrun⟩ := run_bind_eq_ok hrun
  cases hrun
  -- the condition is lowered in another state, with the same names and at the same address
  obtain ⟨st₀, st₂, hscope, hresolver, hstart, htest, rfl⟩ := whileHead_eq_ok hhead
  have hscoped : Scoped library temps st₀.scope st₀.resolver b := by
    rw [hscope, hresolver]
    exact h.inScope
  have hwrote := ((condition_tracks_of_models test hscoped.models hscoped.sound
    fun _ => Stopped.cut).post_of_ok htest ht).2
  have haddress : State.address ⟨st₂.scope.enter, st₂.resolver, st₂.sink.labels,
      st₂.sink.directives.push (.branchIfFalse labels.2)⟩ = st.address + t.length + 1 := by
    rw [← hstart, ← hwrote.address]
    simp only [State.address, size_push, Directive.width]
  have hplace : Machine.StandsAt code (st.address + t.length + 1) c :=
    hstands.left.right_at (by simp [Nat.add_assoc])
  exact ⟨c, .of_stmts (hscoped.wrote hwrote).enter haddress hc hplace hbody
    (isPrefix_of_push (isPrefix_of_push hprefix))⟩

/-- The arms of a switch are ahead behind its head, which has taken the slot of the subject. -/
theorem arms {subject : Expr} {cases : List Arm} {rest : List Stmt} {position : Position}
    {slot : Slot} {done : Label}
    (h : Placed library code ds (.stmts (.switch subject cases position :: rest)) temps st b is)
    (hhead : switchHead .sketch library subject st = .ok (slot, done) st') :
    ∃ b' c, Placed library code ds (.arms slot done cases) (slot :: temps) st' b' c := by
  obtain ⟨st₁, is', mid, -, hrun, hlay, hstands, -, hprefix, -⟩ := h.first
  obtain ⟨v, c, hv, hroom, hc, rfl⟩ := Layout.stmt_switch hlay
  rw [stmt_switch_eq, run_bind_of_ok hhead] at hrun
  obtain ⟨⟨⟩, st₄, harms, hrun⟩ := run_bind_eq_ok hrun
  cases hrun
  obtain ⟨st₂, st₃, hsubject, hslot, rfl, rfl⟩ := switchHead_eq_ok hhead
  have hwrote := ((expr_tracks_of_models subject h.inScope.models
    h.inScope.sound).post_of_ok hsubject hv).2
  have hscoped := h.inScope.wrote hwrote
  -- both the walk and the layout take the next slot
  have hfresh : Layout.allocate b.fresh = .ok (⟨b.used.toUInt16⟩, { b with used := b.used + 1 }) :=
    Layout.allocate_fresh_eq_ok.2 ⟨hroom, rfl, rfl⟩
  have htracks : Tracks st₂ (allocate Scope.fresh) (Layout.allocate b.fresh) _ (fun _ => True) :=
    allocate_tracks hscoped.models.fresh fun _ => trivial
  obtain ⟨rfl, scope, hmodels, rfl⟩ := htracks.post_of_ok hslot hfresh
  have haddress : State.address ⟨scope, st₂.resolver, st₂.sink.labels + 1,
      (st₂.sink.directives.push (.emit (.storeLocal ⟨b.used.toUInt16⟩))).push
        (.newLabel (labelOf st₂.sink.labels))⟩ = st.address + v.length + 1 := by
    rw [← hwrote.address]
    simp only [State.address, size_push, Directive.width, Nat.add_zero]
  refine ⟨_, c, hscoped.fresh hroom hmodels,
    ⟨st₂.sink.labels, st.address + v.length + 1 + Layout.armsSize cases, mid, rfl,
      Nat.lt_succ_self st₂.sink.labels, ?_⟩, ?_, st₄, harms, isPrefix_of_push hprefix⟩
  · rw [haddress]
    exact hc
  · rw [haddress]
    exact hstands.right_at (by simp [Nat.add_assoc])

/-- The body of a case is ahead behind its head. -/
theorem caseBody {slot : Slot} {done skip : Label} {value : Expr} {body : List Stmt}
    {rest : List Arm}
    (h : Placed library code ds (.arms slot done (.case value body :: rest)) temps st b is)
    (hhead : caseHead .sketch library slot value st = .ok skip st') :
    ∃ c, Placed library code ds (.stmts body) temps st' b.enter c := by
  obtain ⟨st₁, is', mid, -, e, hrun, hlay, hstands, hprefix, -⟩ := h.firstArm
  obtain ⟨v, equal, truth, c, inner, hv, hequal, htruth, hc, rfl, -⟩ := Layout.arm_case hlay
  rw [arm_case_eq, run_bind_of_ok hhead] at hrun
  obtain ⟨⟨⟩, st₅, hbody, hrun⟩ := run_bind_eq_ok hrun
  cases hrun
  obtain ⟨st₂, st₃, st₄, hvalue, heq, htest, rfl⟩ := caseHead_eq_ok hhead
  -- the value, the load of the subject, the comparison and the truth value, one behind the other
  have hvalue' := ((expr_tracks_of_models value h.inScope.models
    h.inScope.sound).post_of_ok hvalue hv).2
  have hload := hvalue'.trans (.emit hvalue'.sound (.loadLocal slot))
  have heq' := hload.trans ((operate_tracks hload.sound .eq).post_of_ok heq
    (Layout.entry_eq_ok.2 hequal))
  have hwrote := heq'.trans ((operate_tracks heq'.sound .toBool).post_of_ok htest
    (Layout.entry_eq_ok.2 htruth))
  have haddress : State.address ⟨st₄.scope.enter, st₄.resolver, st₄.sink.labels + 1,
      (st₄.sink.directives.push (.newLabel skip)).push (.branchIfFalse skip)⟩ =
      st.address + v.length + 4 := by
    have hstart := hwrote.address
    simp only [State.address, size_push, Directive.width, List.length_append,
      List.length_singleton] at hstart ⊢
    omega
  have hplace : Machine.StandsAt code (st.address + v.length + 4) c :=
    hstands.left.right_at (by simp [Nat.add_assoc])
  exact ⟨c, .of_stmts (h.inScope.wrote hwrote).enter haddress hc hplace hbody
    (isPrefix_of_push (isPrefix_of_push hprefix))⟩

/-- The body of a default arm is ahead behind the entry of its scope. -/
theorem defaultBody {slot : Slot} {done : Label} {body : List Stmt} {rest : List Arm}
    (h : Placed library code ds (.arms slot done (.otherwise body :: rest)) temps st b is) :
    ∃ c, Placed library code ds (.stmts body) temps { st with scope := st.scope.enter } b.enter
      c := by
  obtain ⟨st₁, is', mid, -, e, hrun, hlay, hstands, hprefix, -⟩ := h.firstArm
  obtain ⟨c, inner, hc, rfl, -⟩ := Layout.arm_otherwise hlay
  rw [arm] at hrun
  obtain ⟨⟨⟩, st₂, henter, hrun₁⟩ := run_bind_eq_ok hrun
  obtain ⟨⟨⟩, st₃, hbody, hrun₂⟩ := run_bind_eq_ok hrun₁
  cases henter
  cases hrun₂
  exact ⟨c, .of_stmts h.inScope.enter rfl hc hstands.left hbody (isPrefix_of_push hprefix)⟩

end Placed

end Lowering

namespace Program

variable {library : Library} {table : BuiltinTable} {p : Program} {chunk : Chunk}

/-- The walk of a program that compiles goes through its statements to the final return. -/
theorem exists_walk_of_compile (h : p.compile library table = .ok chunk) :
    ∃ st st',
      Lowering.builtins .sketch table.names.length 0 table.names (.start .sketch) = .ok () st ∧
      Lowering.stmts .sketch library p.statements st = .ok () st' ∧
      st'.sink.directives.toList <+: (p.draft library table.names).directives.toList := by
  obtain ⟨a, count, -, hending, -⟩ := exists_finish_of_compile h
  simp only [draft] at hending ⊢
  cases hrun : Lowering.program .sketch library table.names p.statements (.start .sketch) with
  | error e st =>
    rw [hrun] at hending
    cases hending
  | ok u st =>
    rw [Lowering.program] at hrun
    -- the return is the last directive, so all others come before it
    obtain ⟨⟨⟩, st₁, hstart, hrun₁⟩ := run_bind_eq_ok hrun
    obtain ⟨⟨⟩, st₂, hstmts, hret⟩ := run_bind_eq_ok hrun₁
    cases hret
    exact ⟨st₁, st₂, hstart, hstmts, Lowering.isPrefix_of_push List.prefix_rfl⟩

/-- The walk of a program that compiles comes to every statement in it. -/
theorem reaches_of_compile (h : p.compile library table = .ok chunk) :
    ∀ s ∈ stmtsNodes p.statements, Lowering.ReachesStmt library table.names p.statements s := by
  obtain ⟨st, st', hstart, hstmts, -⟩ := exists_walk_of_compile h
  exact Lowering.reaches_stmts p.statements (.start hstart) hstmts

/-- At its start the walk is ahead of the statements, and these stand behind the prologue. -/
theorem placed_start (h : p.compile library table = .ok chunk) (hsize : chunk.code.size < 2 ^ 32)
    {st : Lowering.State Sketch}
    (hstart : Lowering.builtins .sketch table.names.length 0 table.names (.start .sketch) =
      .ok () st) :
    ∃ b is, Lowering.Placed library chunk.code (p.draft library table.names).directives.toList
      (.stmts p.statements) [] st b is := by
  obtain ⟨start, b, c, b', hbuiltins, hc, rfl⟩ := Layout.program_eq_ok (layout_of_compile h hsize)
  obtain ⟨st₁, st₂, hstart₁, hstmts, hprefix⟩ := exists_walk_of_compile h
  cases hstart.symm.trans hstart₁
  have hlaid := (Lowering.builtins_tracks table.names.length table.names 0 0 {} (.start .sketch)
    .empty (.empty library)).post_of_ok hstart hbuiltins
  have haddress : st.address = start.length := by
    rw [hlaid.address]
    exact Nat.zero_add _
  have hscope : Lowering.Scoped library [] st.scope st.resolver b :=
    ⟨hlaid.models, hlaid.sound, (Layout.extends_builtins _ hbuiltins).valid .empty,
      List.forall_mem_nil _⟩
  have hplace : Machine.StandsAt (start ++ c ++ [Instruction.ret]).toArray start.length c :=
    (Machine.standsAt_toArray _).left.right_at (Nat.zero_add _).symm
  exact ⟨b, c, .of_stmts hscope haddress hc hplace hstmts hprefix⟩

/-- Whatever the walk comes to stands in the code. -/
theorem placed_of_reaches (h : p.compile library table = .ok chunk)
    (hsize : chunk.code.size < 2 ^ 32) {ahead : Lowering.Ahead} {temps : List Slot}
    {st : Lowering.State Sketch}
    (hreaches : Lowering.Reaches library table.names p.statements ahead temps st) :
    ∃ b is, Lowering.Placed library chunk.code (p.draft library table.names).directives.toList
      ahead temps st b is := by
  -- by induction on how the walk comes there
  induction hreaches with
  | start hstart => exact placed_start h hsize hstart
  | next _ hfirst ih =>
    obtain ⟨b, is, hplaced⟩ := ih
    obtain ⟨st₁, c, mid, is', hfirst', -, -, -, -, hrest⟩ := hplaced.first
    cases hfirst.symm.trans hfirst'
    exact ⟨mid, is', hrest⟩
  | ifBody _ hhead ih =>
    obtain ⟨b, is, hplaced⟩ := ih
    exact ⟨b.enter, hplaced.ifBody hhead⟩
  | whileBody _ hhead ih =>
    obtain ⟨b, is, hplaced⟩ := ih
    exact ⟨b.enter, hplaced.whileBody hhead⟩
  | arms _ hhead ih =>
    obtain ⟨b, is, hplaced⟩ := ih
    exact hplaced.arms hhead
  | nextArm _ hfirst ih =>
    obtain ⟨b, is, hplaced⟩ := ih
    obtain ⟨st₁, c, mid, is', e, hfirst', -, -, -, hrest⟩ := hplaced.firstArm
    cases hfirst.symm.trans hfirst'
    exact ⟨mid, is', hrest⟩
  | caseBody _ hhead ih =>
    obtain ⟨b, is, hplaced⟩ := ih
    exact ⟨b.enter, hplaced.caseBody hhead⟩
  | defaultBody _ ih =>
    obtain ⟨b, is, hplaced⟩ := ih
    exact ⟨b.enter, hplaced.defaultBody⟩

end Program

end StackScript
