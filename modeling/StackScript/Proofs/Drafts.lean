import Mathlib.Tactic
import StackScript.Compile
import StackScript.Proofs.Fragments

set_option autoImplicit false

/-!
# Drafts

A sink that refuses nothing and writes down what it is asked for makes the draft of a program: its
directives, and how lowering ended. `Draft.into` hands the directives of a draft to another sink,
one by one, until it refuses one.

Lowering a program into that sink comes to the same, as long as the sink answers each creation of a
label with the label that the draft goes on with (`Sink.Answers`). This is
`Program.compileInto_eq_into`: what lowering asks for does not depend on whom it asks. It is proved
part by part, for the walk into the sink beside the walk that drafts (`Lowering.Follows`): both come
to the same place, or the sink has refused a directive of the draft, and then only the second walk
goes on.

The labels of a draft are numbered in the order of their creation (`Directives.NumberedFrom`), and
the assembler numbers its labels in this way. So a program compiles to what the assembler makes of
its draft, whatever its size (`Program.compile_eq_into`).
-/

namespace StackScript

/-! ## Directives in a row -/

namespace Directives

/-- The labels that directives create are numbered from `n` on. -/
def NumberedFrom : Nat → List Directive → Prop
  | _, [] => True
  | n, d :: ds =>
    (∀ label, d = .newLabel label → label = labelOf n) ∧ NumberedFrom (n + d.labelCount) ds

theorem numberedFrom_append (n : Nat) (ds es : List Directive) :
    NumberedFrom n (ds ++ es) ↔ NumberedFrom n ds ∧ NumberedFrom (n + labelCount ds) es := by
  induction ds generalizing n with
  | nil => simp [NumberedFrom]
  | cons d ds ih =>
    simp only [List.cons_append, NumberedFrom, ih, labelCount_cons]
    rw [and_assoc, Nat.add_assoc]

end Directives

namespace Sink

variable {σ ω : Type} {sink : Sink σ ω} {state next : σ} {ds es : List Directive}
  {d : Directive} {e : InternalError}

theorem takeAll_concat (h : sink.takeAll ds = .ok state) :
    sink.takeAll (ds ++ [d]) = sink.take state d := by
  unfold takeAll at h ⊢
  rw [List.foldlM_append, h]
  exact bind_pure (sink.take state d)

/-- What comes after a refusal does not matter. -/
theorem takeAll_append_of_error (h : sink.takeAll ds = .error e) :
    sink.takeAll (ds ++ es) = .error e := by
  unfold takeAll at h ⊢
  rw [List.foldlM_append, h]
  rfl

/-- Handed directives from a state on, a sink answers each creation with the label that the
directive names. -/
def Answers (sink : Sink σ ω) : σ → List Directive → Prop
  | _, [] => True
  | state, d :: ds =>
    (∀ label, d = .newLabel label → (sink.newLabel state).1 = label) ∧
      ∀ next, sink.take state d = .ok next → sink.Answers next ds

theorem answers_append :
    sink.Answers state (ds ++ es) ↔
      sink.Answers state ds ∧
        ∀ next, ds.foldlM sink.take state = .ok next → sink.Answers next es := by
  induction ds generalizing state with
  | nil =>
    refine ⟨fun h => ⟨trivial, fun next hnext => ?_⟩, fun h => h.2 state rfl⟩
    cases hnext
    exact h
  | cons d ds ih =>
    simp only [List.cons_append, Answers, ih, List.foldlM_cons]
    constructor
    · rintro ⟨hd, hds⟩
      refine ⟨⟨hd, fun next hnext => (hds next hnext).1⟩, fun last hlast => ?_⟩
      obtain ⟨next, hnext, hlast⟩ := bind_eq_ok.1 hlast
      exact (hds next hnext).2 last hlast
    · rintro ⟨⟨hd, hds⟩, hes⟩
      refine ⟨hd, fun next hnext => ⟨hds next hnext, fun last hlast => ?_⟩⟩
      exact hes last (bind_eq_ok.2 ⟨next, hnext, hlast⟩)

/-- A sink that counts its labels answers as directives that number theirs expect. -/
theorem answers_of_numberedFrom (count : σ → Nat)
    (hanswer : ∀ state, (sink.newLabel state).1 = labelOf (count state))
    (htake : ∀ state d next, sink.take state d = .ok next → count next = count state + d.labelCount)
    (h : Directives.NumberedFrom (count state) ds) : sink.Answers state ds := by
  induction ds generalizing state with
  | nil => trivial
  | cons d ds ih =>
    obtain ⟨hd, hds⟩ := h
    constructor
    · intro label hlabel
      rw [hanswer, hd label hlabel]
    · intro next hnext
      apply ih
      rw [htake state d next hnext]
      exact hds

end Sink

/-! ## Sketches and drafts -/

/-- Directives written down, and how many labels they create. -/
structure Sketch where
  labels : Nat := 0
  directives : Array Directive := #[]

/-- The sink that writes down what it is asked for. -/
def Sink.sketch : Sink Sketch Sketch where
  start := {}
  emit i s := ⟨s.labels, s.directives.push (.emit i)⟩
  newLabel s := (labelOf s.labels, ⟨s.labels + 1, s.directives.push (.newLabel (labelOf s.labels))⟩)
  bind label s := (.ok (), ⟨s.labels, s.directives.push (.bind label)⟩)
  branchIfFalse label s := ⟨s.labels, s.directives.push (.branchIfFalse label)⟩
  branch label s := ⟨s.labels, s.directives.push (.branch label)⟩
  finish _ s := .ok s

section

variable (i : Instruction) (label : Label) (s : Sketch)

@[simp] theorem Sink.sketch_emit :
    Sink.sketch.emit i s = ⟨s.labels, s.directives.push (.emit i)⟩ := rfl

@[simp] theorem Sink.sketch_newLabel :
    Sink.sketch.newLabel s =
      (labelOf s.labels, ⟨s.labels + 1, s.directives.push (.newLabel (labelOf s.labels))⟩) := rfl

@[simp] theorem Sink.sketch_bind :
    Sink.sketch.bind label s = (.ok (), ⟨s.labels, s.directives.push (.bind label)⟩) := rfl

@[simp] theorem Sink.sketch_branchIfFalse :
    Sink.sketch.branchIfFalse label s = ⟨s.labels, s.directives.push (.branchIfFalse label)⟩ := rfl

@[simp] theorem Sink.sketch_branch :
    Sink.sketch.branch label s = ⟨s.labels, s.directives.push (.branch label)⟩ := rfl

end

/-- The directives for a program, and the number of local slots, or the error that cut the
directives short. -/
structure Draft where
  directives : Array Directive
  ending : Except CompileError Nat

/-- The draft of a program over a library and global names. -/
def Program.draft (library : Library) (globals : List String) (p : Program) : Draft :=
  match Lowering.program .sketch library globals p.statements (.start .sketch) with
  | .ok _ state => ⟨state.sink.directives, .ok state.scope.slotCount⟩
  | .error e state => ⟨state.sink.directives, .error e⟩

/-- What a sink makes of a draft. -/
def Draft.into {σ ω : Type} (draft : Draft) (sink : Sink σ ω) : Except CompileError ω :=
  match sink.takeAll draft.directives.toList with
  | .error e => .error (.internal e)
  | .ok state =>
    match draft.ending with
    | .error e => .error e
    | .ok localCount => (sink.finish localCount state).mapError .internal

/-- A sketch has grown to another one: directives have come to it, with labels numbered on. -/
def Sketch.GrowsTo (s s' : Sketch) : Prop :=
  ∃ ds, s'.directives.toList = s.directives.toList ++ ds ∧
    Directives.NumberedFrom s.labels ds ∧ s'.labels = s.labels + Directives.labelCount ds

namespace Sketch.GrowsTo

variable {s s₁ s₂ : Sketch}

theorem refl : s.GrowsTo s := ⟨[], by simp, trivial, rfl⟩

theorem trans (h : s.GrowsTo s₁) (h' : s₁.GrowsTo s₂) : s.GrowsTo s₂ := by
  obtain ⟨ds, hds, hnumbered, hlabels⟩ := h
  obtain ⟨es, hes, hnumbered', hlabels'⟩ := h'
  refine ⟨ds ++ es, ?_, ?_, ?_⟩
  · rw [hes, hds, List.append_assoc]
  · rw [Directives.numberedFrom_append, ← hlabels]
    exact ⟨hnumbered, hnumbered'⟩
  · rw [hlabels', hlabels, Directives.labelCount_append, Nat.add_assoc]

/-- One more directive, which may create the next label. -/
theorem push {d : Directive} (h : ∀ label, d = .newLabel label → label = labelOf s.labels) :
    s.GrowsTo ⟨s.labels + d.labelCount, s.directives.push d⟩ :=
  ⟨[d], by simp, ⟨h, trivial⟩, rfl⟩

end Sketch.GrowsTo

/-! ## A walk into a sink beside the walk that drafts -/

namespace Lowering

section

variable {σ ω α β : Type}

/-- The state in which a part of the walk ends, well or not. -/
def ended : EStateM.Result CompileError (State σ) α → State σ
  | .ok _ st => st
  | .error _ st => st

/-- Two walks are at the same place, and the sink of one has taken the directives of the other. -/
structure Mirrors (sink : Sink σ ω) (st : State σ) (dr : State Sketch) : Prop where
  scope : st.scope = dr.scope
  resolver : st.resolver = dr.resolver
  taken : sink.takeAll dr.sink.directives.toList = .ok st.sink

/-- How the walk into a sink ends beside the walk that drafts: at the same place, well or with the
same error, or sooner, since the sink refuses a directive. -/
inductive Beside (sink : Sink σ ω) : EStateM.Result CompileError (State σ) α →
    EStateM.Result CompileError (State Sketch) α → Prop
  | ok {a : α} {st : State σ} {dr : State Sketch} (h : Mirrors sink st dr) :
      Beside sink (.ok a st) (.ok a dr)
  | error {e : CompileError} {st : State σ} {dr : State Sketch} (h : Mirrors sink st dr) :
      Beside sink (.error e st) (.error e dr)
  | refused {e : InternalError} {st : State σ}
      {r : EStateM.Result CompileError (State Sketch) α}
      (h : sink.takeAll (ended r).sink.directives.toList = .error e) :
      Beside sink (.error (.internal e) st) r

/-- The part `m` of a walk into a sink follows the part `n` of the walk that drafts. -/
structure Follows (sink : Sink σ ω) (m : Lower σ α) (n : Lower Sketch α) : Prop where
  grows : ∀ dr : State Sketch, dr.sink.GrowsTo (ended (n dr)).sink
  beside : ∀ (st : State σ) (dr : State Sketch), Mirrors sink st dr →
    sink.Answers sink.start (ended (n dr)).sink.directives.toList → Beside sink (m st) (n dr)

end

namespace Follows

variable {σ ω α β : Type} {sink : Sink σ ω}

/-- A part that leaves the sink alone. -/
theorem of_same {m : Lower σ α} {n : Lower Sketch α}
    (hsink : ∀ dr, (ended (n dr)).sink = dr.sink)
    (h : ∀ scope resolver s s', sink.takeAll s'.directives.toList = .ok s →
      Beside sink (m ⟨scope, resolver, s⟩) (n ⟨scope, resolver, s'⟩)) : Follows sink m n where
  grows dr := by
    rw [hsink]
    exact .refl
  beside := by
    rintro ⟨scope, resolver, s⟩ ⟨_, _, s'⟩ ⟨rfl, rfl, htaken⟩ -
    exact h scope resolver s s' htaken

theorem pure (a : α) : Follows sink (Pure.pure a) (Pure.pure a) :=
  of_same (fun _ => rfl) fun _ _ _ _ h => .ok ⟨rfl, rfl, h⟩

theorem throw (e : CompileError) :
    Follows sink (MonadExcept.throw e : Lower σ α) (MonadExcept.throw e) :=
  of_same (fun _ => rfl) fun _ _ _ _ h => .error ⟨rfl, rfl, h⟩

theorem mistake (position : Position) (m : Mistake) :
    Follows sink (mistake position m : Lower σ α) (Lowering.mistake position m) :=
  throw _

/-- One part after the other. -/
theorem bind {m : Lower σ α} {n : Lower Sketch α} {f : α → Lower σ β} {g : α → Lower Sketch β}
    (hm : Follows sink m n) (hf : ∀ a, Follows sink (f a) (g a)) :
    Follows sink (m >>= f) (n >>= g) where
  grows dr := by
    have hgrows := hm.grows dr
    cases hn : n dr with
    | ok a dr₁ =>
      rw [hn] at hgrows
      rw [run_bind_of_ok hn]
      exact hgrows.trans ((hf a).grows dr₁)
    | error e dr₁ =>
      rw [hn] at hgrows
      rw [run_bind_of_error hn]
      exact hgrows
  beside st dr hst hanswers := by
    cases hn : n dr with
    | error e dr₁ =>
      rw [run_bind_of_error hn] at hanswers ⊢
      have hbeside := hm.beside st dr hst
      rw [hn] at hbeside
      cases hrun : m st with
      | ok a st₁ =>
        rw [hrun] at hbeside
        cases hbeside hanswers
      | error e' st₁ =>
        rw [run_bind_of_error hrun]
        rw [hrun] at hbeside
        cases hbeside hanswers with
        | error h => exact .error h
        | refused h => exact .refused h
    | ok a dr₁ =>
      rw [run_bind_of_ok hn] at hanswers ⊢
      -- the directives of the first part come first, so they are answered as well
      obtain ⟨ds, hds, -⟩ := (hf a).grows dr₁
      have hbeside := hm.beside st dr hst
      rw [hn] at hbeside
      have hfirst := hbeside (Sink.answers_append.1 (hds ▸ hanswers)).1
      cases hrun : m st with
      | ok a' st₁ =>
        rw [hrun] at hfirst
        cases hfirst with
        | ok h =>
          rw [run_bind_of_ok hrun]
          exact (hf a).beside st₁ dr₁ h hanswers
      | error e st₁ =>
        rw [run_bind_of_error hrun]
        rw [hrun] at hfirst
        cases hfirst with
        | refused h =>
          refine .refused ?_
          rw [hds]
          exact Sink.takeAll_append_of_error h

/-- A directive that the sink cannot refuse. -/
theorem hand {d : Directive} {change : σ → σ} {write : Sketch → Sketch}
    (hlabels : d.labelCount = 0) (htake : ∀ s, sink.take s d = .ok (change s))
    (hwrite : ∀ s, write s = ⟨s.labels, s.directives.push d⟩) :
    Follows sink (hand change) (Lowering.hand write) where
  grows := by
    rintro ⟨scope, resolver, s⟩
    show s.GrowsTo (write s)
    have hnone : ∀ label, d = .newLabel label → label = labelOf s.labels := by
      rintro label rfl
      cases hlabels
    have hgrows := Sketch.GrowsTo.push hnone
    rw [hlabels] at hgrows
    rw [hwrite]
    exact hgrows
  beside := by
    rintro ⟨scope, resolver, s⟩ ⟨_, _, s'⟩ ⟨rfl, rfl, htaken⟩ -
    refine .ok ⟨rfl, rfl, ?_⟩
    show sink.takeAll (write s').directives.toList = .ok (change s)
    rw [hwrite, Array.toList_push, Sink.takeAll_concat htaken, htake]

theorem emit (i : Instruction) : Follows sink (emit sink i) (Lowering.emit .sketch i) :=
  hand (d := .emit i) rfl (fun _ => rfl) fun _ => rfl

theorem branchIfFalse (label : Label) :
    Follows sink (branchIfFalse sink label) (Lowering.branchIfFalse .sketch label) :=
  hand (d := .branchIfFalse label) rfl (fun _ => rfl) fun _ => rfl

theorem branch (label : Label) :
    Follows sink (branch sink label) (Lowering.branch .sketch label) :=
  hand (d := .branch label) rfl (fun _ => rfl) fun _ => rfl

theorem newLabel : Follows sink (newLabel sink) (Lowering.newLabel .sketch) where
  grows := by
    rintro ⟨scope, resolver, s⟩
    apply Sketch.GrowsTo.push
    rintro label ⟨⟩
    rfl
  beside := by
    rintro ⟨scope, resolver, s⟩ ⟨_, _, s'⟩ ⟨rfl, rfl, htaken⟩ hanswers
    have hdirectives : (s'.directives.push (.newLabel (labelOf s'.labels))).toList =
        s'.directives.toList ++ [Directive.newLabel (labelOf s'.labels)] := Array.toList_push
    have hlast := (Sink.answers_append.1 (hdirectives ▸ hanswers)).2 s htaken
    have hlabel : (sink.newLabel s).1 = labelOf s'.labels := hlast.1 _ rfl
    show Beside sink (.ok (sink.newLabel s).1 _) (.ok (labelOf s'.labels) _)
    rw [hlabel]
    refine .ok ⟨rfl, rfl, ?_⟩
    show sink.takeAll (s'.directives.push (.newLabel (labelOf s'.labels))).toList = _
    rw [hdirectives, Sink.takeAll_concat htaken]
    rfl

theorem bindLabel (label : Label) :
    Follows sink (bindLabel sink label) (Lowering.bindLabel .sketch label) where
  grows := by
    rintro ⟨scope, resolver, s⟩
    exact Sketch.GrowsTo.push (d := .bind label) nofun
  beside := by
    rintro ⟨scope, resolver, s⟩ ⟨_, _, s'⟩ ⟨rfl, rfl, htaken⟩ -
    have htakes : sink.takeAll (s'.directives.push (.bind label)).toList =
        sink.take s (.bind label) := by
      rw [Array.toList_push, Sink.takeAll_concat htaken]
    cases hbind : sink.bind label s with
    | mk answer next =>
      simp only [Sink.take, hbind] at htakes
      simp only [Lowering.bindLabel, hbind]
      cases answer with
      | ok _ => exact .ok ⟨rfl, rfl, htakes⟩
      | error e => exact .refused htakes

theorem allocate (action : Scope → Except InternalError Slot × Scope) :
    Follows sink (allocate action) (Lowering.allocate action) := by
  apply of_same
  · rintro ⟨scope, resolver, s⟩
    simp only [Lowering.allocate]
    split <;> rfl
  · intro scope resolver s s' htaken
    simp only [Lowering.allocate]
    split
    · exact .ok ⟨rfl, rfl, htaken⟩
    · exact .error ⟨rfl, rfl, htaken⟩

theorem rescope (change : Scope → Scope) :
    Follows sink (rescope change) (Lowering.rescope change) :=
  of_same (fun _ => rfl) fun _ _ _ _ h => .ok ⟨rfl, rfl, h⟩

theorem slotOf (name : String) (position : Position) :
    Follows sink (slotOf name position) (Lowering.slotOf name position) := by
  apply of_same
  · rintro ⟨scope, resolver, s⟩
    simp only [Lowering.slotOf]
    split <;> rfl
  · intro scope resolver s s' htaken
    simp only [Lowering.slotOf]
    cases scope.resolve? name with
    | some slot => exact .ok ⟨rfl, rfl, htaken⟩
    | none => exact .error ⟨rfl, rfl, htaken⟩

theorem entryOf (library : Library) (op : Operation) :
    Follows sink (entryOf library op) (Lowering.entryOf library op) := by
  apply of_same
  · rintro ⟨scope, resolver, s⟩
    simp only [Lowering.entryOf]
    split <;> rfl
  · intro scope resolver s s' htaken
    simp only [Lowering.entryOf]
    split
    · exact .ok ⟨rfl, rfl, htaken⟩
    · exact .error ⟨rfl, rfl, htaken⟩

theorem operate (library : Library) (op : Operation) :
    Follows sink (operate sink library op) (Lowering.operate .sketch library op) :=
  bind (entryOf library op) fun _ => emit _

theorem operand16 (what : String) (count n : Nat) :
    Follows sink (operand16 what count n) (Lowering.operand16 what count n) := by
  unfold Lowering.operand16
  split
  · exact pure _
  · exact throw _

mutual

theorem expr (library : Library) :
    ∀ e : Expr, Follows sink (expr sink library e) (Lowering.expr .sketch library e)
  | .binary left text right position => by
    rw [Lowering.expr, Lowering.expr]
    refine bind (expr library left) fun _ => bind (expr library right) fun _ => ?_
    split
    · exact operate library _
    · exact mistake _ _
  | .call callee arguments position => by
    rw [Lowering.expr, Lowering.expr]
    refine bind (expr library callee) fun _ => bind (operand16 _ _ _) fun count => ?_
    refine bind (emit _) fun _ => bind (exprs library _ 0 arguments) fun _ => ?_
    exact operate library .call
  | .parens inner position => by
    rw [Lowering.expr, Lowering.expr]
    exact expr library inner
  | .number literal position => by
    rw [Lowering.expr, Lowering.expr]
    split
    · exact bind (emit _) fun _ => emit _
    · exact mistake _ _
  | .identifier name position => by
    rw [Lowering.expr, Lowering.expr]
    exact bind (slotOf name position) fun slot => emit _
  | .member object name position => by
    rw [Lowering.expr, Lowering.expr]
    exact mistake _ _

theorem exprs (library : Library) (total : Nat) : ∀ (index : Nat) (es : List Expr),
    Follows sink (exprs sink library total index es)
      (Lowering.exprs .sketch library total index es)
  | index, [] => by
    rw [Lowering.exprs, Lowering.exprs]
    exact pure ()
  | index, argument :: rest => by
    rw [Lowering.exprs, Lowering.exprs]
    refine bind (operand16 _ _ _) fun n => bind (expr library argument) fun _ => ?_
    exact bind (emit _) fun _ => exprs library total (index + 1) rest

end

theorem condition (library : Library) (test : Expr) :
    Follows sink (condition sink library test) (Lowering.condition .sketch library test) :=
  bind (expr library test) fun _ => operate library .toBool

/-- A block in a scope of its own, and what comes after it. -/
theorem block {m rest : Lower σ Unit} {n rest' : Lower Sketch Unit} (hm : Follows sink m n)
    (hrest : Follows sink rest rest') :
    Follows sink
      (do
        Lowering.rescope Scope.enter
        m
        Lowering.rescope Scope.exit
        rest)
      (do
        Lowering.rescope Scope.enter
        n
        Lowering.rescope Scope.exit
        rest') :=
  bind (rescope _) fun _ => bind hm fun _ => bind (rescope _) fun _ => hrest

mutual

theorem stmt (library : Library) :
    ∀ s : Stmt, Follows sink (stmt sink library s) (Lowering.stmt .sketch library s)
  | .expression value position => by
    rw [Lowering.stmt, Lowering.stmt]
    exact bind (expr library value) fun _ => emit _
  | .declare name value position => by
    rw [Lowering.stmt, Lowering.stmt]
    exact bind (expr library value) fun _ => bind (allocate _) fun slot => emit _
  | .assign name value position => by
    rw [Lowering.stmt, Lowering.stmt]
    exact bind (slotOf name position) fun slot => bind (expr library value) fun _ => emit _
  | .ifThen test body position => by
    rw [Lowering.stmt, Lowering.stmt]
    refine bind (condition library test) fun _ => bind newLabel fun after => ?_
    refine bind (branchIfFalse after) fun _ => ?_
    exact block (stmts library body) (bindLabel after)
  | .whileDo test body position => by
    rw [Lowering.stmt, Lowering.stmt]
    refine bind newLabel fun loop => bind newLabel fun after => bind (bindLabel loop) fun _ => ?_
    refine bind (condition library test) fun _ => bind (branchIfFalse after) fun _ => ?_
    exact block (stmts library body) (bind (branch loop) fun _ => bindLabel after)
  | .switch subject cases position => by
    rw [Lowering.stmt, Lowering.stmt]
    refine bind (expr library subject) fun _ => bind (allocate _) fun slot => ?_
    refine bind (emit _) fun _ => bind newLabel fun done => ?_
    exact bind (arms library slot done cases) fun _ => bindLabel done

theorem stmts (library : Library) :
    ∀ ss : List Stmt, Follows sink (stmts sink library ss) (Lowering.stmts .sketch library ss)
  | [] => by
    rw [Lowering.stmts, Lowering.stmts]
    exact pure ()
  | first :: rest => by
    rw [Lowering.stmts, Lowering.stmts]
    exact bind (stmt library first) fun _ => stmts library rest

theorem arm (library : Library) (slot : Slot) (done : Label) : ∀ a : Arm,
    Follows sink (arm sink library slot done a) (Lowering.arm .sketch library slot done a)
  | .case value body => by
    rw [Lowering.arm, Lowering.arm]
    refine bind (expr library value) fun _ => bind (emit _) fun _ => ?_
    refine bind (operate library .eq) fun _ => bind (operate library .toBool) fun _ => ?_
    refine bind newLabel fun skip => bind (branchIfFalse skip) fun _ => ?_
    exact block (stmts library body) (bind (branch done) fun _ => bindLabel skip)
  | .otherwise body => by
    rw [Lowering.arm, Lowering.arm]
    exact block (stmts library body) (branch done)

theorem arms (library : Library) (slot : Slot) (done : Label) : ∀ as : List Arm,
    Follows sink (arms sink library slot done as) (Lowering.arms .sketch library slot done as)
  | [] => by
    rw [Lowering.arms, Lowering.arms]
    exact pure ()
  | first :: rest => by
    rw [Lowering.arms, Lowering.arms]
    exact bind (arm library slot done first) fun _ => arms library slot done rest

end

theorem builtins (total : Nat) : ∀ (index : Nat) (names : List String),
    Follows sink (builtins sink total index names) (Lowering.builtins .sketch total index names)
  | index, [] => by
    rw [Lowering.builtins, Lowering.builtins]
    exact pure ()
  | index, name :: rest => by
    rw [Lowering.builtins, Lowering.builtins]
    refine bind (operand16 _ _ _) fun n => bind (allocate _) fun slot => ?_
    refine bind (emit _) fun _ => bind (emit _) fun _ => ?_
    exact builtins total (index + 1) rest

theorem program (sink : Sink σ ω) (library : Library) (globals : List String)
    (statements : List Stmt) :
    Follows sink (program sink library globals statements)
      (Lowering.program .sketch library globals statements) :=
  bind (builtins _ 0 globals) fun _ => bind (stmts library statements) fun _ => emit _

end Follows

end Lowering

/-! ## Compilation through a draft -/

namespace Program

variable {σ ω : Type} {sink : Sink σ ω} {library : Library} {globals : List String} {p : Program}

/-- The directives of a draft are those in which the walk that drafts ends. -/
theorem directives_draft (library : Library) (globals : List String) (p : Program) :
    (p.draft library globals).directives =
      (Lowering.ended (Lowering.program .sketch library globals p.statements
        (.start .sketch))).sink.directives := by
  unfold draft
  cases Lowering.program .sketch library globals p.statements (.start .sketch) <;> rfl

/-- The walk into a sink ends beside the walk that drafts, if the sink answers as the draft
expects. -/
theorem lowers_beside_draft
    (h : sink.Answers sink.start (p.draft library globals).directives.toList) :
    Lowering.Beside sink (Lowering.program sink library globals p.statements (.start sink))
      (Lowering.program .sketch library globals p.statements (.start .sketch)) := by
  rw [directives_draft] at h
  exact (Lowering.Follows.program sink library globals p.statements).beside _ _ ⟨rfl, rfl, rfl⟩ h

/-- **Lowering into a sink is drafting, and handing the draft to the sink.** -/
theorem compileInto_eq_into
    (h : sink.Answers sink.start (p.draft library globals).directives.toList) :
    (p.compileInto sink library globals).result = (p.draft library globals).into sink := by
  have hbeside := lowers_beside_draft h
  unfold compileInto draft Draft.into
  generalize Lowering.program sink library globals p.statements (.start sink) = r at hbeside ⊢
  generalize Lowering.program .sketch library globals p.statements (.start .sketch) = r'
    at hbeside ⊢
  cases hbeside with
  | @ok _ st dr hmirrors =>
    obtain ⟨scope, resolver, s⟩ := st
    obtain ⟨rfl, -, htaken⟩ := hmirrors
    simp only [htaken]
  | @error e st dr hmirrors => simp only [hmirrors.taken]
  | refused hrefused =>
    cases r' with
    | ok a dr =>
      have htakes : sink.takeAll dr.sink.directives.toList = .error _ := hrefused
      simp only [htakes]
    | error e dr =>
      have htakes : sink.takeAll dr.sink.directives.toList = .error _ := hrefused
      simp only [htakes]

/-- The labels of a draft are numbered in the order of their creation. -/
theorem numbered_draft (library : Library) (globals : List String) (p : Program) :
    Directives.NumberedFrom 0 (p.draft library globals).directives.toList := by
  obtain ⟨ds, hds, hnumbered, -⟩ :=
    (Lowering.Follows.program .sketch library globals p.statements).grows (.start .sketch)
  rw [directives_draft, hds]
  exact hnumbered

end Program

/-- An assembler has a label more after a creation, and as many as before otherwise. -/
theorem Assembler.size_labels_take {a b : Assembler} {d : Directive}
    (h : Assembler.sink.take a d = .ok b) : b.labels.size = a.labels.size + d.labelCount := by
  cases d with
  | newLabel label =>
    cases h
    exact Array.size_push none
  | bind label =>
    obtain ⟨-, rfl⟩ := take_bind_eq_ok.1 h
    exact Array.size_setIfInBounds
  | emit i | branchIfFalse label | branch label =>
    cases h
    rfl

theorem Assembler.answers_of_numberedFrom {ds : List Directive}
    (h : Directives.NumberedFrom 0 ds) : Assembler.sink.Answers Assembler.sink.start ds :=
  Sink.answers_of_numberedFrom (fun a => a.labels.size) (fun _ => rfl)
    (fun _ _ _ => size_labels_take) h

/-- A program compiles to what the assembler makes of its draft. -/
theorem Program.compile_eq_into (library : Library) (table : BuiltinTable) (p : Program) :
    p.compile library table = (p.draft library table.names).into Assembler.sink :=
  compileInto_eq_into (Assembler.answers_of_numberedFrom (numbered_draft library table.names p))

end StackScript
