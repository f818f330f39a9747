import Mathlib.Tactic
import StackScript.Proofs.Drafts
import StackScript.Proofs.Layout

set_option autoImplicit false

/-!
# The compiler produces the layout

Lowering walks a program and writes directives; the layout computes the code and the first error
from the tree. The two are compared part by part: either both succeed, and what the walk has written
is a whole fragment that reads as the code of the layout, or both fail with the same error, and what
the walk has written so far is a broken fragment (`Tracks`). The main statement is
`Program.compile_eq_layout`: a program whose draft creates at most `2 ^ 32` labels compiles to its
layout, or to the error of its layout. Fewer than `2 ^ 32` instructions are enough for that.
-/

namespace StackScript

/-- The number of instructions of a draft. -/
def Draft.size (draft : Draft) : Nat := Directives.size draft.directives.toList

/-- The number of labels that a draft creates. -/
def Draft.labelCount (draft : Draft) : Nat := Directives.labelCount draft.directives.toList

/-- The entries that a resolver remembers are the library's. -/
def Resolver.Sound (library : Library) (r : Resolver) : Prop :=
  ∀ op entry, r.resolved.lookup op = some entry → library.lookup op.name = some entry

theorem Resolver.Sound.empty (library : Library) : Resolver.Sound library {} := by
  intro op entry h
  cases h

theorem Resolver.Sound.resolve {library : Library} {r : Resolver} (h : r.Sound library)
    (op : Operation) :
    (r.resolve library op).1 = library.lookup op.name ∧
      (r.resolve library op).2.Sound library := by
  obtain ⟨resolved, asked⟩ := r
  simp only [Resolver.resolve]
  cases hfound : resolved.lookup op with
  | some entry => exact ⟨(h op entry hfound).symm, h⟩
  | none =>
    cases hlookup : library.lookup op.name with
    | none => exact ⟨rfl, h⟩
    | some entry =>
      -- the new entry is the library's own answer; the others were remembered before
      refine ⟨rfl, fun op' entry' hentry => ?_⟩
      simp only [List.lookup_cons] at hentry
      split at hentry
      · next heq =>
        cases hentry
        rw [eq_of_beq heq, hlookup]
      · exact h op' entry' hentry

namespace Lowering

/-! ## A walk beside a computation without state -/

/-- From `st`, the walk `m` follows the computation `x`: both succeed, with what `post` says, or
both fail with the same error, and then the walk's last state is as `fault` says. -/
def Tracks {σ α β : Type} (st : State σ) (m : Lower σ α) (x : Except CompileError β)
    (post : α → State σ → β → Prop) (fault : State σ → Prop) : Prop :=
  (∃ a st' b, m st = .ok a st' ∧ x = .ok b ∧ post a st' b) ∨
    ∃ e st', m st = .error e st' ∧ x = .error e ∧ fault st'

namespace Tracks

variable {σ α β γ δ : Type} {st : State σ} {m : Lower σ α} {x : Except CompileError β}
  {post : α → State σ → β → Prop} {fault : State σ → Prop}

theorem of_ok {a : α} {b : β} {st' : State σ} (hm : m st = .ok a st') (h : post a st' b) :
    Tracks st m (.ok b) post fault :=
  .inl ⟨a, st', b, hm, rfl, h⟩

theorem of_error {e : CompileError} {st' : State σ} (hm : m st = .error e st') (h : fault st') :
    Tracks st m (.error e : Except CompileError β) post fault :=
  .inr ⟨e, st', hm, rfl, h⟩

/-- One part after the other. -/
theorem bind {f : α → Lower σ γ} {g : β → Except CompileError δ} {post' : γ → State σ → δ → Prop}
    (h : Tracks st m x post fault)
    (next : ∀ a st' b, post a st' b → Tracks st' (f a) (g b) post' fault) :
    Tracks st (m >>= f) (x >>= g) post' fault := by
  rcases h with ⟨a, st', b, hm, rfl, hpost⟩ | ⟨e, st', hm, rfl, hfault⟩
  · have hnext := next a st' b hpost
    unfold Tracks at hnext ⊢
    rw [run_bind_of_ok hm]
    exact hnext
  · exact of_error (run_bind_of_error hm) hfault

/-- An action of the walk that always succeeds has no counterpart in the computation. -/
theorem step {f : α → Lower σ γ} {y : Except CompileError δ} {post' : γ → State σ → δ → Prop}
    {a : α} {st' : State σ} (hm : m st = .ok a st') (next : Tracks st' (f a) y post' fault) :
    Tracks st (m >>= f) y post' fault := by
  unfold Tracks at next ⊢
  rw [run_bind_of_ok hm]
  exact next

theorem mono {post' : α → State σ → β → Prop} {fault' : State σ → Prop}
    (h : Tracks st m x post fault) (hpost : ∀ a st' b, post a st' b → post' a st' b)
    (hfault : ∀ st', fault st' → fault' st') : Tracks st m x post' fault' := by
  rcases h with ⟨a, st', b, hm, rfl, h⟩ | ⟨e, st', hm, rfl, h⟩
  · exact of_ok hm (hpost a st' b h)
  · exact of_error hm (hfault st' h)

/-- After a part of the walk it is known what the computation gave. -/
theorem keep (h : Tracks st m x post fault) :
    Tracks st m x (fun a st' b => x = .ok b ∧ post a st' b) fault := by
  rcases h with ⟨a, st', b, hm, rfl, h⟩ | ⟨e, st', hm, rfl, h⟩
  · exact of_ok hm ⟨rfl, h⟩
  · exact of_error hm h

/-- The last part of a walk, when the computation goes on without errors. -/
theorem last {f : β → δ} {post' : α → State σ → δ → Prop} (h : Tracks st m x post fault)
    (hpost : ∀ a st' b, post a st' b → post' a st' (f b)) :
    Tracks st m (x >>= fun b => .ok (f b)) post' fault := by
  rcases h with ⟨a, st', b, hm, rfl, h⟩ | ⟨e, st', hm, rfl, h⟩
  · exact of_ok hm (hpost a st' b h)
  · exact of_error hm h

/-- When both are known to have succeeded. -/
theorem post_of_ok {a : α} {b : β} {st' : State σ} (h : Tracks st m x post fault)
    (hm : m st = .ok a st') (hx : x = .ok b) : post a st' b := by
  rcases h with ⟨a', st₁, b', hm', hx', hpost⟩ | ⟨e, st₁, hm', -, -⟩
  · cases hm.symm.trans hm'
    cases hx.symm.trans hx'
    exact hpost
  · cases hm.symm.trans hm'

end Tracks

/-! ## Straight code -/

/-- A part of the walk has written instructions and changed nothing else. -/
structure Wrote (library : Library) (st st' : State Sketch) (is : List Instruction) : Prop where
  directives : st'.sink.directives.toList = st.sink.directives.toList ++ Directives.emits is
  scope : st'.scope = st.scope
  labels : st'.sink.labels = st.sink.labels
  sound : st'.resolver.Sound library

/-- A part of the walk has stopped after some instructions. -/
def Stopped (st st' : State Sketch) : Prop :=
  ∃ is, st'.sink.directives.toList = st.sink.directives.toList ++ Directives.emits is ∧
    st'.sink.labels = st.sink.labels

section

variable {library : Library} {st st₁ st₂ : State Sketch} {is js : List Instruction}

theorem Wrote.refl (h : st.resolver.Sound library) : Wrote library st st [] :=
  ⟨by simp, rfl, rfl, h⟩

theorem Wrote.trans (h : Wrote library st st₁ is) (h' : Wrote library st₁ st₂ js) :
    Wrote library st st₂ (is ++ js) where
  directives := by rw [h'.directives, h.directives, Directives.emits_append, List.append_assoc]
  scope := h'.scope.trans h.scope
  labels := h'.labels.trans h.labels
  sound := h'.sound

theorem Wrote.emit (h : st.resolver.Sound library) (i : Instruction) :
    Wrote library st { st with sink := Sink.sketch.emit i st.sink } [i] :=
  ⟨by simp [Directives.emits], rfl, rfl, h⟩

theorem Stopped.refl : Stopped st st := ⟨[], by simp, rfl⟩

theorem Wrote.stopped (h : Wrote library st st₁ is) (h' : Stopped st₁ st₂) : Stopped st st₂ := by
  obtain ⟨js, hdirectives, hlabels⟩ := h'
  refine ⟨is ++ js, ?_, hlabels.trans h.labels⟩
  rw [hdirectives, h.directives, Directives.emits_append, List.append_assoc]

/-- The call of an operation follows the entry of the operation. -/
theorem operate_tracks (h : st.resolver.Sound library) (op : Operation) :
    Tracks st (operate .sketch library op) (Layout.entry library op)
      (fun _ st' e => Wrote library st st' [.callRuntime e]) (Stopped st) := by
  obtain ⟨hentry, hsound⟩ := h.resolve op
  obtain ⟨scope, resolver, s⟩ := st
  cases hfound : resolver.resolve library op with
  | mk found resolver' =>
    rw [hfound] at hentry hsound
    simp only [Layout.entry, ← hentry]
    cases found with
    | none =>
      have hrun : entryOf library op (⟨scope, resolver, s⟩ : State Sketch) =
          .error (.internal (.unresolvedOperation op.name)) ⟨scope, resolver', s⟩ := by
        simp only [entryOf, hfound]
      exact .of_error (run_bind_of_error hrun) ⟨[], by simp, rfl⟩
    | some entry =>
      have hrun : entryOf library op (⟨scope, resolver, s⟩ : State Sketch) =
          .ok entry ⟨scope, resolver', s⟩ := by simp only [entryOf, hfound]
      exact .of_ok (run_bind_of_ok hrun) ⟨by simp [Directives.emits], rfl, rfl, hsound⟩

/-- A part of the walk that comes after straight code, seen from before that code. -/
theorem Wrote.tracks {α β : Type} {m : Lower Sketch α} {x : Except CompileError β}
    {code : β → List Instruction} (h : Wrote library st st₁ is)
    (h' : Tracks st₁ m x (fun _ st₂ b => Wrote library st₁ st₂ (code b)) (Stopped st₁)) :
    Tracks st₁ m x (fun _ st₂ b => Wrote library st st₂ (is ++ code b)) (Stopped st) :=
  h'.mono (fun _ _ _ => h.trans) (fun _ => h.stopped)

/-- A number below `2 ^ 16` is an operand. -/
theorem operand16_of_lt {σ : Type} {st : State σ} {what : String} {count n : Nat}
    (h : n < 65536) : operand16 what count n st = .ok n.toUInt16 st := by
  rw [operand16, if_pos h]
  rfl

theorem operand16_tracks {σ : Type} {st : State σ} {fault : State σ → Prop} (what : String)
    (count n : Nat) (h : fault st) :
    Tracks st (operand16 what count n) (Layout.operand16 what count n)
      (fun k st' k' => k = k' ∧ st = st') fault := by
  by_cases hn : n < 65536
  · simp only [operand16, Layout.operand16, if_pos hn]
    exact .of_ok rfl ⟨rfl, rfl⟩
  · simp only [operand16, Layout.operand16, if_neg hn]
    exact .of_error rfl h

theorem slotOf_tracks {σ : Type} {st : State σ} {fault : State σ → Prop} (name : String)
    (position : Position) (h : fault st) :
    Tracks st (slotOf name position) (Layout.slotOf st.scope.resolve? name position)
      (fun slot st' slot' => slot = slot' ∧ st = st') fault := by
  cases hslot : st.scope.resolve? name with
  | some slot =>
    have hrun : slotOf name position st = .ok slot st := by simp only [slotOf, hslot]
    simp only [Layout.slotOf, hslot]
    exact .of_ok hrun ⟨rfl, rfl⟩
  | none =>
    have hrun : slotOf name position st =
        .error (.diagnosed ⟨position, .unknownVariable name⟩) st := by simp only [slotOf, hslot]
    simp only [Layout.slotOf, hslot]
    exact .of_error hrun h

end

mutual

/-- Lowering an expression follows its layout. -/
theorem expr_tracks {library : Library} {slots : String → Option Slot} :
    ∀ (e : Expr) (st : State Sketch), st.scope.resolve? = slots → st.resolver.Sound library →
      Tracks st (expr .sketch library e) (Layout.expr library slots e)
        (fun _ st' code => Wrote library st st' code) (Stopped st)
  | .binary left text right position, st, hslots, hsound => by
    rw [expr, Layout.expr]
    refine (expr_tracks left st hslots hsound).bind fun _ st₁ l h₁ => ?_
    have hslots₁ : st₁.scope.resolve? = slots := by rw [h₁.scope, hslots]
    refine (h₁.tracks (expr_tracks right st₁ hslots₁ h₁.sound)).bind fun _ st₂ r h₂ => ?_
    cases hop : Operation.ofOperator? text with
    | some op =>
      simp only [Layout.operator, hop]
      exact (h₂.tracks (operate_tracks h₂.sound op)).last fun _ _ _ h => h
    | none =>
      simp only [Layout.operator, hop]
      exact .of_error rfl (h₂.stopped .refl)
  | .call callee arguments position, st, hslots, hsound => by
    rw [expr, Layout.expr]
    refine (expr_tracks callee st hslots hsound).bind fun _ st₁ c h₁ => ?_
    refine (operand16_tracks "arguments" arguments.length arguments.length
      (h₁.stopped .refl)).keep.bind ?_
    rintro count _ _ ⟨hcount, rfl, rfl⟩
    obtain ⟨hfits, -⟩ := Layout.operand16_eq_ok.1 hcount
    refine .step rfl ?_
    have h₂ := h₁.trans (.emit h₁.sound (.newArgs count))
    have hslots₂ : st₁.scope.resolve? = slots := by rw [h₁.scope, hslots]
    refine (h₂.tracks (exprs_tracks arguments 0 _ (by omega) hslots₂ h₂.sound)).bind ?_
    intro _ st₄ a h₄
    exact (h₄.tracks (operate_tracks h₄.sound .call)).last fun _ _ _ h => h
  | .parens inner position, st, hslots, hsound => by
    rw [expr, Layout.expr]
    exact expr_tracks inner st hslots hsound
  | .number text position, st, hslots, hsound => by
    rw [expr, Layout.expr]
    cases hn : Literal.parse? text with
    | some n =>
      simp only [Layout.literal, hn]
      refine .step rfl ?_
      have h₁ := Wrote.emit hsound (.loadInt n)
      exact .of_ok rfl (h₁.trans (.emit h₁.sound .boxInt))
    | none =>
      simp only [Layout.literal, hn]
      exact .of_error rfl .refl
  | .identifier name position, st, hslots, hsound => by
    rw [expr, Layout.expr, ← hslots]
    refine (slotOf_tracks name position .refl).bind ?_
    rintro slot _ _ ⟨rfl, rfl⟩
    exact .of_ok rfl (.emit hsound (.loadLocal slot))
  | .member object name position, st, hslots, hsound => by
    rw [expr, Layout.expr]
    exact .of_error rfl .refl

theorem exprs_tracks {library : Library} {slots : String → Option Slot} {total : Nat} :
    ∀ (es : List Expr) (index : Nat) (st : State Sketch), index + es.length < 65536 →
      st.scope.resolve? = slots → st.resolver.Sound library →
      Tracks st (exprs .sketch library total index es) (Layout.exprs library slots index es)
        (fun _ st' code => Wrote library st st' code) (Stopped st)
  | [], index, st, hfits, hslots, hsound => by
    rw [exprs, Layout.exprs]
    exact .of_ok rfl (.refl hsound)
  | argument :: rest, index, st, hfits, hslots, hsound => by
    rw [List.length_cons] at hfits
    rw [exprs, Layout.exprs]
    refine .step (operand16_of_lt (by omega)) ?_
    refine (expr_tracks argument st hslots hsound).bind fun _ st₁ a h₁ => ?_
    refine .step rfl ?_
    have h₂ := h₁.trans (.emit h₁.sound (.storeArg index.toUInt16))
    have hslots₂ : st₁.scope.resolve? = slots := by rw [h₁.scope, hslots]
    exact (h₂.tracks (exprs_tracks rest (index + 1) _ (by omega) hslots₂ h₂.sound)).last
      fun _ _ _ h => h

end

theorem condition_tracks {library : Library} {slots : String → Option Slot} (test : Expr)
    (st : State Sketch) (hslots : st.scope.resolve? = slots) (hsound : st.resolver.Sound library) :
    Tracks st (condition .sketch library test) (Layout.condition library slots test)
      (fun _ st' code => Wrote library st st' code) (Stopped st) := by
  rw [condition, Layout.condition]
  refine (expr_tracks test st hslots hsound).bind fun _ st₁ t h₁ => ?_
  exact (h₁.tracks (operate_tracks h₁.sound .toBool)).last fun _ _ _ h => h

/-! ## Statements -/

/-- A part of the walk has written a whole fragment that reads as `code` at address `pc`. Its scope
has come from that of `b` to that of `b'`, in the same block. -/
structure Laid (library : Library) (allowed : (Label → UInt32) → Prop) (pc : Nat) (b : Blocks)
    (st st' : State Sketch) (code : List Instruction) (b' : Blocks) : Prop where
  models : st'.scope.Models b'
  outer : b'.frames.outer = b.frames.outer
  sound : st'.resolver.Sound library
  fragment : ∃ ds, st'.sink.directives.toList = st.sink.directives.toList ++ ds ∧
    Directives.Whole allowed pc st.sink.labels st'.sink.labels ds code

/-- A part of the walk has stopped after a broken fragment. -/
def Cut (st st' : State Sketch) : Prop :=
  ∃ ds, st'.sink.directives.toList = st.sink.directives.toList ++ ds ∧
    Directives.Broken st.sink.labels st'.sink.labels ds

section

variable {library : Library} {allowed : (Label → UInt32) → Prop} {pc : Nat} {b b₁ b₂ : Blocks}
  {st st₁ st₂ : State Sketch} {is code code' : List Instruction}

theorem Stopped.cut (h : Stopped st st₁) : Cut st st₁ := by
  obtain ⟨is, hdirectives, hlabels⟩ := h
  exact ⟨_, hdirectives, hlabels ▸ .straight st.sink.labels is⟩

theorem Laid.refl (hmodels : st.scope.Models b) (hsound : st.resolver.Sound library) :
    Laid library allowed pc b st st [] b :=
  ⟨hmodels, rfl, hsound, [], by simp, .straight allowed pc st.sink.labels []⟩

theorem Laid.trans (h : Laid library allowed pc b st st₁ code b₁)
    (h' : Laid library allowed (pc + code.length) b₁ st₁ st₂ code' b₂) :
    Laid library allowed pc b st st₂ (code ++ code') b₂ := by
  obtain ⟨ds, hds, hwhole⟩ := h.fragment
  obtain ⟨es, hes, hwhole'⟩ := h'.fragment
  refine ⟨h'.models, h'.outer.trans h.outer, h'.sound, ds ++ es, ?_, hwhole.append hwhole'⟩
  rw [hes, hds, List.append_assoc]

theorem Laid.cut (h : Laid library allowed pc b st st₁ code b₁) (h' : Cut st₁ st₂) :
    Cut st st₂ := by
  obtain ⟨ds, hds, hwhole⟩ := h.fragment
  obtain ⟨es, hes, hbroken⟩ := h'
  refine ⟨ds ++ es, ?_, hwhole.append_broken hbroken⟩
  rw [hes, hds, List.append_assoc]

/-- Straight code after which the scope may have changed. -/
theorem Wrote.laid (h : Wrote library st st₁ is) {scope : Scope} (hmodels : scope.Models b₁)
    (houter : b₁.frames.outer = b.frames.outer) (i : Instruction) :
    Laid library allowed pc b st
      ⟨scope, st₁.resolver, Sink.sketch.emit i st₁.sink⟩ (is ++ [i]) b₁ := by
  refine ⟨hmodels, houter, h.sound, Directives.emits (is ++ [i]), ?_, ?_⟩
  · simp [h.directives, Directives.emits]
  · show Directives.Whole allowed pc st.sink.labels st₁.sink.labels _ _
    rw [h.labels]
    exact .straight allowed pc st.sink.labels _

theorem expr_tracks_of_models (e : Expr) (hmodels : st.scope.Models b)
    (hsound : st.resolver.Sound library) :
    Tracks st (expr .sketch library e) (Layout.expr library b.resolve? e)
      (fun _ st' code => 1 ≤ code.length ∧ Wrote library st st' code) (Cut st) :=
  (expr_tracks e st (funext hmodels.resolve?_eq) hsound).keep.mono
    (fun _ _ _ h => ⟨Layout.one_le_length_expr e h.1, h.2⟩) fun _ => Stopped.cut

theorem condition_tracks_of_models (test : Expr) (hmodels : st.scope.Models b)
    (hsound : st.resolver.Sound library) {fault : State Sketch → Prop}
    (hfault : ∀ st', Stopped st st' → fault st') :
    Tracks st (condition .sketch library test) (Layout.condition library b.resolve? test)
      (fun _ st' code => 2 ≤ code.length ∧ Wrote library st st' code) fault := by
  refine (condition_tracks test st (funext hmodels.resolve?_eq) hsound).keep.mono ?_ hfault
  rintro _ st' code ⟨hcode, h⟩
  obtain ⟨t, e, ht, -, rfl⟩ := Layout.condition_eq_ok hcode
  have := Layout.one_le_length_expr test ht
  exact ⟨by simpa using this, h⟩

/-- Asking the scope for a slot follows asking the blocks. -/
theorem allocate_tracks {σ : Type} {st : State σ}
    {action : Scope → Except InternalError Slot × Scope}
    {request : Except InternalError Slot × Blocks} {fault : State σ → Prop}
    (h : (action st.scope).1 = request.1 ∧ (action st.scope).2.Models request.2)
    (hfault : ∀ scope, fault { st with scope := scope }) :
    Tracks st (allocate action) (Layout.allocate request)
      (fun slot st' r => slot = r.1 ∧ ∃ scope : Scope,
        scope.Models r.2 ∧ st' = { st with scope := scope }) fault := by
  obtain ⟨scope, resolver, s⟩ := st
  obtain ⟨answer, b⟩ := request
  cases haction : action scope with
  | mk answer' scope' =>
    simp only [haction] at h
    obtain ⟨rfl, hmodels⟩ := h
    cases answer' with
    | ok slot =>
      exact .of_ok (by simp only [allocate, haction]) ⟨rfl, scope', hmodels, rfl⟩
    | error e => exact .of_error (by simp only [allocate, haction]) (hfault scope')

/-- A block in its own scope follows the layout of its body, after which the blocks from before it
are back. -/
theorem block_tracks {α β : Type} {body : List Stmt} {rest : Lower Sketch α}
    {g : List Instruction × Blocks → Except CompileError β} {post : α → State Sketch → β → Prop}
    {fault : State Sketch → Prop}
    (hbody : Tracks { st with scope := st.scope.enter } (stmts .sketch library body)
      (Layout.stmts library pc b.enter body)
      (fun _ st' r => Laid library (fun _ => True) pc b.enter { st with scope := st.scope.enter }
        st' r.1 r.2) (Cut { st with scope := st.scope.enter }))
    (hfault : ∀ st', Cut st st' → fault st')
    (next : ∀ st' code inner,
      Laid library (fun _ => True) pc b st st' code { b with used := inner.used } →
      Tracks st' rest (g (code, inner)) post fault) :
    Tracks st (rescope Scope.enter >>= fun _ => stmts .sketch library body >>= fun _ =>
        rescope Scope.exit >>= fun _ => rest)
      (Layout.stmts library pc b.enter body >>= g) post fault := by
  refine .step rfl ((hbody.mono (fun _ _ _ h => h) hfault).bind ?_)
  rintro _ st' ⟨code, inner⟩ h
  refine .step rfl (next _ code inner ?_)
  -- the body ends in the block in which it started, so its exit leads back to the maps of `b`
  have hexit : inner.exit = { b with used := inner.used } := by
    rw [Blocks.exit, Frames.pop_eq_of_outer h.outer]
  exact ⟨hexit ▸ h.models.exit, rfl, h.sound, h.fragment⟩

end

mutual

/-- Lowering a statement follows its layout. -/
theorem stmt_tracks {library : Library} : ∀ (s : Stmt) (pc : Nat) (b : Blocks) (st : State Sketch),
    st.scope.Models b → st.resolver.Sound library →
    Tracks st (stmt .sketch library s) (Layout.stmt library pc b s)
      (fun _ st' r => Laid library (fun _ => True) pc b st st' r.1 r.2) (Cut st)
  | .expression value position, pc, b, st, hmodels, hsound => by
    rw [stmt, Layout.stmt]
    refine (expr_tracks_of_models value hmodels hsound).bind ?_
    rintro _ st₁ v ⟨-, h₁⟩
    exact .of_ok rfl (h₁.laid (h₁.scope ▸ hmodels) rfl .pop)
  | .declare name value position, pc, b, st, hmodels, hsound => by
    rw [stmt, Layout.stmt]
    refine (expr_tracks_of_models value hmodels hsound).bind ?_
    rintro _ st₁ v ⟨-, h₁⟩
    have hmodels₁ : st₁.scope.Models b := h₁.scope ▸ hmodels
    refine (allocate_tracks (hmodels₁.declare name)
      fun scope => (h₁.stopped ⟨[], by simp, rfl⟩).cut).keep.bind ?_
    rintro slot _ ⟨_, b₂⟩ ⟨hslot, rfl, scope₂, hmodels₂, rfl⟩
    obtain ⟨-, -, rfl⟩ := Layout.allocate_declare_eq_ok.1 hslot
    exact .of_ok rfl (h₁.laid hmodels₂ (Frames.outer_insert name slot b.frames) (.storeLocal slot))
  | .assign name value position, pc, b, st, hmodels, hsound => by
    rw [stmt, Layout.stmt, ← funext hmodels.resolve?_eq]
    refine (slotOf_tracks name position (Stopped.refl).cut).bind ?_
    rintro slot _ _ ⟨rfl, rfl⟩
    rw [funext hmodels.resolve?_eq]
    refine (expr_tracks_of_models value hmodels hsound).bind ?_
    rintro _ st₁ v ⟨-, h₁⟩
    exact .of_ok rfl (h₁.laid (h₁.scope ▸ hmodels) rfl (.storeLocal slot))
  | .ifThen test body position, pc, b, st, hmodels, hsound => by
    rw [stmt, Layout.stmt]
    refine (condition_tracks_of_models test hmodels hsound fun _ => Stopped.cut).bind ?_
    rintro _ ⟨scope₁, resolver₁, labels₁, directives₁⟩ t ⟨ht, hdirectives, rfl, rfl, hsound₁⟩
    dsimp only at hdirectives
    refine .step rfl (.step rfl ?_)
    refine block_tracks (stmts_tracks body _ b.enter _ hmodels.enter hsound₁) ?_ ?_
    · rintro st' ⟨ds, hds, hbroken⟩
      refine ⟨_, ?_, hbroken.branchOver t (by omega)⟩
      simp [hds, hdirectives, labelOf]
    · rintro st₂ code inner ⟨hmodels₂, -, hsound₂, ds, hds, hwhole⟩
      refine .of_ok rfl ⟨hmodels₂, rfl, hsound₂, _, ?_, hwhole.branchOver t (by omega)⟩
      simp [hds, hdirectives, labelOf]
  | .whileDo test body position, pc, b, st, hmodels, hsound => by
    rw [stmt, Layout.stmt]
    -- both labels are created and the head is bound before the condition is lowered
    refine .step rfl (.step rfl (.step rfl ?_))
    refine Tracks.bind (condition_tracks_of_models test ?_ ?_ ?_) ?_
    · exact hmodels
    · exact hsound
    · rintro st' ⟨is, his, hlabels⟩
      refine ⟨Directives.loopHead st.sink.labels ++ Directives.emits is, ?_, ?_⟩
      · simp [his, Directives.loopHead, labelOf]
      · rw [hlabels]
        exact .loopTest is
    rintro _ ⟨scope₁, resolver₁, labels₁, directives₁⟩ t ⟨ht, hdirectives, rfl, rfl, hsound₁⟩
    dsimp only at hdirectives
    refine .step rfl ?_
    refine block_tracks (stmts_tracks body _ b.enter _ hmodels.enter hsound₁) ?_ ?_
    · rintro st' ⟨ds, hds, hbroken⟩
      refine ⟨_, ?_, hbroken.loopBody t ht⟩
      simp [hds, hdirectives, Directives.loopHead, labelOf]
    · rintro st₂ code inner ⟨hmodels₂, -, hsound₂, ds, hds, hwhole⟩
      refine .step rfl (.of_ok rfl ⟨hmodels₂, rfl, hsound₂, _, ?_, hwhole.loop t (by omega)⟩)
      simp [hds, hdirectives, Directives.loopHead, labelOf]
  | .switch subject cases position, pc, b, st, hmodels, hsound => by
    rw [stmt, Layout.stmt]
    refine (expr_tracks_of_models subject hmodels hsound).bind ?_
    rintro _ ⟨scope₁, resolver₁, labels₁, directives₁⟩ v ⟨hv, hdirectives, rfl, rfl, hsound₁⟩
    dsimp only at hdirectives
    refine Tracks.bind (allocate_tracks ?_ ?_).keep ?_
    · exact hmodels.fresh
    · exact fun scope => ⟨_, hdirectives, .straight st.sink.labels v⟩
    rintro slot _ ⟨_, b₁⟩ ⟨hslot, rfl, scope₁, hmodels₁, rfl⟩
    obtain ⟨-, -, rfl⟩ := Layout.allocate_fresh_eq_ok.1 hslot
    refine .step rfl (.step rfl ?_)
    refine Tracks.bind (Tracks.mono (arms_tracks slot _ st.sink.labels cases _ _ _
      (Nat.lt_succ_self _) ?_ ?_).keep (fun _ _ _ h => h) ?_) ?_
    · exact hmodels₁
    · exact hsound₁
    · rintro st' ⟨ds, hds, hbroken⟩
      refine ⟨_, ?_, hbroken.labelled (v ++ [Instruction.storeLocal slot]) (by simpa using hv)⟩
      simp [hds, hdirectives, Directives.emits, labelOf]
    · rintro _ st₂ ⟨code, b₂⟩ ⟨hcode, hmodels₂, houter, hsound₂, ds, hds, hwhole⟩
      -- the layout has used the size of the arms for the address of the end: it is their length
      rw [← Layout.length_arms cases hcode] at hwhole
      have hpc : pc + v.length + 1 = pc + (v ++ [Instruction.storeLocal slot]).length := by
        simp only [List.length_append, List.length_singleton, Nat.add_assoc]
      rw [hpc] at hwhole
      refine .of_ok rfl ⟨hmodels₂, houter, hsound₂, _, ?_,
        hwhole.labelled (v ++ [Instruction.storeLocal slot]) (by simpa using hv)⟩
      simp [hds, hdirectives, Directives.emits, labelOf]

theorem stmts_tracks {library : Library} :
    ∀ (ss : List Stmt) (pc : Nat) (b : Blocks) (st : State Sketch),
    st.scope.Models b → st.resolver.Sound library →
    Tracks st (stmts .sketch library ss) (Layout.stmts library pc b ss)
      (fun _ st' r => Laid library (fun _ => True) pc b st st' r.1 r.2) (Cut st)
  | [], pc, b, st, hmodels, hsound => by
    rw [stmts, Layout.stmts]
    exact .of_ok rfl (.refl hmodels hsound)
  | first :: rest, pc, b, st, hmodels, hsound => by
    rw [stmts, Layout.stmts]
    refine (stmt_tracks first pc b st hmodels hsound).bind ?_
    rintro _ st₁ ⟨code, b₁⟩ h₁
    exact ((stmts_tracks rest _ b₁ st₁ h₁.models h₁.sound).mono (fun _ _ _ => h₁.trans)
      fun _ => h₁.cut).last fun _ _ _ h => h

/-- Lowering an arm of a switch follows its layout, if the label of the end has the address of the
end. -/
theorem arm_tracks {library : Library} (slot : Slot) (done d : Nat) :
    ∀ (a : Arm) (pc : Nat) (b : Blocks) (st : State Sketch), d < st.sink.labels →
    st.scope.Models b → st.resolver.Sound library →
    Tracks st (arm .sketch library slot (labelOf d) a) (Layout.arm library slot done pc b a)
      (fun _ st' r => Laid library (fun place => place (labelOf d) = done.toUInt32) pc b st st'
        r.1 r.2) (Cut st)
  | .case value body, pc, b, st, hd, hmodels, hsound => by
    rw [arm, Layout.arm]
    refine (expr_tracks_of_models value hmodels hsound).bind ?_
    rintro _ st₁ v ⟨-, h₁⟩
    refine .step rfl ?_
    have h₂ := h₁.trans (.emit h₁.sound (.loadLocal slot))
    refine ((h₂.tracks (operate_tracks h₂.sound .eq)).mono (fun _ _ _ h => h)
      fun _ => Stopped.cut).bind fun _ st₃ eq h₃ => ?_
    refine ((h₃.tracks (operate_tracks h₃.sound .toBool)).mono (fun _ _ _ h => h)
      fun _ => Stopped.cut).bind ?_
    rintro _ ⟨scope₄, resolver₄, labels₄, directives₄⟩ test ⟨hdirectives, rfl, rfl, hsound₄⟩
    simp only [List.append_assoc, List.cons_append, List.nil_append] at hdirectives
    refine .step rfl (.step rfl ?_)
    refine block_tracks (stmts_tracks body _ b.enter _ hmodels.enter hsound₄) ?_ ?_
    · rintro st' ⟨ds, hds, hbroken⟩
      refine ⟨_, ?_, hbroken.branchOver (v ++ [Instruction.loadLocal slot,
        Instruction.callRuntime eq, Instruction.callRuntime test]) (by simp)⟩
      simp [hds, hdirectives, labelOf]
    · rintro st₅ code inner ⟨hmodels₅, -, hsound₅, ds, hds, hwhole⟩
      have hlt : d < st₅.sink.labels := by
        have hle : st.sink.labels + 1 ≤ st₅.sink.labels := hwhole.le
        omega
      -- the jump to the end belongs to what the test branches over
      have hbody := (hwhole.restrict fun _ _ => trivial).append
        (.branch hlt fun place (h : place (labelOf d) = done.toUInt32) => h)
      have hpc : pc + v.length + 4 = pc + (v ++ [Instruction.loadLocal slot, .callRuntime eq,
          .callRuntime test]).length + 1 := by
        simp only [List.length_append, List.length_cons, List.length_nil]
        omega
      rw [hpc] at hbody
      have hcase := hbody.branchOver (v ++ [Instruction.loadLocal slot,
        Instruction.callRuntime eq, Instruction.callRuntime test]) (by simp)
      have hskip : pc + (v ++ [Instruction.loadLocal slot, .callRuntime eq,
          .callRuntime test]).length + 1 + (code ++ [Instruction.jump done.toUInt32]).length =
          pc + v.length + 4 + code.length + 1 := by
        simp only [List.length_append, List.length_cons, List.length_nil]
        omega
      rw [hskip] at hcase
      simp only [List.append_assoc, List.cons_append, List.nil_append] at hcase ⊢
      refine .step rfl (.of_ok rfl ⟨hmodels₅, rfl, hsound₅, _, ?_, hcase⟩)
      simp [hds, hdirectives, labelOf]
  | .otherwise body, pc, b, st, hd, hmodels, hsound => by
    rw [arm, Layout.arm]
    refine block_tracks (stmts_tracks body _ b.enter _ hmodels.enter hsound) (fun _ h => h) ?_
    rintro st₁ code inner ⟨hmodels₁, houter, hsound₁, ds, hds, hwhole⟩
    have hlt : d < st₁.sink.labels := lt_of_lt_of_le hd hwhole.le
    refine .of_ok rfl ⟨hmodels₁, houter, hsound₁, _, ?_,
      (hwhole.restrict fun _ _ => trivial).append (.branch hlt fun _ h => h)⟩
    simp [hds]

theorem arms_tracks {library : Library} (slot : Slot) (done d : Nat) :
    ∀ (as : List Arm) (pc : Nat) (b : Blocks) (st : State Sketch), d < st.sink.labels →
    st.scope.Models b → st.resolver.Sound library →
    Tracks st (arms .sketch library slot (labelOf d) as) (Layout.arms library slot done pc b as)
      (fun _ st' r => Laid library (fun place => place (labelOf d) = done.toUInt32) pc b st st'
        r.1 r.2) (Cut st)
  | [], pc, b, st, hd, hmodels, hsound => by
    rw [arms, Layout.arms]
    exact .of_ok rfl (.refl hmodels hsound)
  | first :: rest, pc, b, st, hd, hmodels, hsound => by
    rw [arms, Layout.arms]
    refine (arm_tracks slot done d first pc b st hd hmodels hsound).bind ?_
    rintro _ st₁ ⟨code, b₁⟩ h₁
    obtain ⟨ds, -, hwhole⟩ := h₁.fragment
    have hlt : d < st₁.sink.labels := lt_of_lt_of_le hd hwhole.le
    exact ((arms_tracks slot done d rest _ b₁ st₁ hlt h₁.models h₁.sound).mono
      (fun _ _ _ => h₁.trans) fun _ => h₁.cut).last fun _ _ _ h => h

end

/-! ## Programs -/

theorem builtins_tracks {library : Library} (total : Nat) :
    ∀ (names : List String) (index pc : Nat) (b : Blocks) (st : State Sketch),
    st.scope.Models b → st.resolver.Sound library →
    Tracks st (builtins .sketch total index names) (Layout.builtins total index b names)
      (fun _ st' r => Laid library (fun _ => True) pc b st st' r.1 r.2) (Cut st)
  | [], index, pc, b, st, hmodels, hsound => by
    rw [builtins, Layout.builtins]
    exact .of_ok rfl (.refl hmodels hsound)
  | name :: rest, index, pc, b, st, hmodels, hsound => by
    rw [builtins, Layout.builtins]
    refine (operand16_tracks "builtins" total index Stopped.refl.cut).bind ?_
    rintro n _ _ ⟨rfl, rfl⟩
    refine (allocate_tracks (hmodels.declare name)
      fun scope => Stopped.cut ⟨[], by simp, rfl⟩).keep.bind ?_
    rintro slot _ ⟨_, b₁⟩ ⟨hslot, rfl, scope₁, hmodels₁, rfl⟩
    obtain ⟨-, -, rfl⟩ := Layout.allocate_declare_eq_ok.1 hslot
    refine .step rfl (.step rfl ?_)
    have h₁ : Laid library (fun _ => True) pc b st _ ([Instruction.loadBuiltin n] ++ _) _ :=
      (Wrote.emit hsound (.loadBuiltin n)).laid hmodels₁ (Frames.outer_insert name slot b.frames)
        (.storeLocal slot)
    exact ((builtins_tracks total rest _ _ _ _ h₁.models h₁.sound).mono (fun _ _ _ => h₁.trans)
      fun _ => h₁.cut).last fun _ _ _ h => h

/-- Lowering a program follows its layout. -/
theorem program_tracks (library : Library) (globals : List String) (statements : List Stmt) :
    Tracks (.start .sketch) (program .sketch library globals statements)
      (Layout.program library globals statements)
      (fun _ st' chunk => st'.scope.slotCount = chunk.localCount ∧
        Directives.Whole (fun _ => True) 0 0 st'.sink.labels st'.sink.directives.toList
          chunk.code.toList)
      (fun st' => Directives.Broken 0 st'.sink.labels st'.sink.directives.toList) := by
  have hcut : ∀ st', Cut (.start .sketch) st' →
      Directives.Broken 0 st'.sink.labels st'.sink.directives.toList := by
    rintro st' ⟨ds, hds, hbroken⟩
    rw [hds]
    exact hbroken
  rw [program, Layout.program]
  refine ((builtins_tracks globals.length globals 0 0 {} (.start .sketch) .empty
    (.empty library)).mono (fun _ _ _ h => h) hcut).bind ?_
  rintro _ st₁ ⟨start, b₁⟩ h₁
  refine ((stmts_tracks statements start.length b₁ st₁ h₁.models h₁.sound).mono
    (fun _ _ _ h => h) fun st' h => hcut st' (h₁.cut h)).bind ?_
  rintro _ st₂ ⟨code, b₂⟩ h₂
  rw [← Nat.zero_add start.length] at h₂
  obtain ⟨hmodels, -, -, ds, hds, hwhole⟩ := h₁.trans h₂
  refine .of_ok rfl ⟨hmodels.count, ?_⟩
  have hall := hwhole.append (.straight _ _ st₂.sink.labels [.ret])
  have hdirectives : (st₂.sink.directives.push (.emit .ret)).toList =
      ds ++ Directives.emits [Instruction.ret] := by
    rw [Array.toList_push, hds]
    rfl
  show Directives.Whole _ _ _ st₂.sink.labels (st₂.sink.directives.push (.emit .ret)).toList _
  rw [hdirectives]
  exact hall

end Lowering

namespace Program

variable {library : Library} {globals : List String} {p : Program}

/-- The draft of a program ends as its layout does, whatever its size. -/
theorem draft_ending (library : Library) (globals : List String) (p : Program) :
    (p.draft library globals).ending =
      (Layout.program library globals p.statements).map Chunk.localCount := by
  rcases Lowering.program_tracks library globals p.statements with
    ⟨_, st, chunk, hrun, hlayout, hcount, -⟩ | ⟨e, st, hrun, hlayout, -⟩
  · simp only [draft, hrun, hlayout, hcount]
    rfl
  · simp only [draft, hrun, hlayout]
    rfl

/-- A draft with fewer than `2 ^ 32` instructions has at most `2 ^ 32` labels. -/
theorem labelCount_draft_le (h : (p.draft library globals).size < 2 ^ 32) :
    (p.draft library globals).labelCount ≤ 2 ^ 32 := by
  rcases Lowering.program_tracks library globals p.statements with
    ⟨_, st, chunk, hrun, -, -, hwhole⟩ | ⟨e, st, hrun, -, hbroken⟩
  · simp only [draft, hrun, Draft.size, Draft.labelCount] at h ⊢
    have := hwhole.created
    have := hwhole.few
    omega
  · simp only [draft, hrun, Draft.size, Draft.labelCount] at h ⊢
    have := hbroken.created
    have := hbroken.few
    omega

/-- A program whose draft creates at most `2 ^ 32` labels compiles to its layout. -/
theorem compile_eq_layout {table : BuiltinTable}
    (h : (p.draft library table.names).labelCount ≤ 2 ^ 32) :
    p.compile library table = Layout.program library table.names p.statements := by
  rcases Lowering.program_tracks library table.names p.statements with
    ⟨_, st, chunk, hrun, hlayout, hcount, hwhole⟩ | ⟨e, st, hrun, hlayout, hbroken⟩
  · simp only [draft, hrun, Draft.labelCount] at h
    have hcreated := hwhole.created
    obtain ⟨a, place, htakes, hplaced, hfinish⟩ := Assembler.finish_eq_of_track
      (hwhole.tracked (by omega) [] rfl) (by simp) chunk.localCount
    rw [hwhole.reads place trivial hplaced] at hfinish
    rw [compile_eq_into]
    simp only [draft, hrun, Draft.into, htakes, hlayout, hcount]
    show Except.mapError CompileError.internal (a.finish chunk.localCount) = _
    rw [hfinish]
    rfl
  · simp only [draft, hrun, Draft.labelCount] at h
    have hcreated := hbroken.created
    obtain ⟨flags, hflags⟩ := Option.isSome_iff_exists.1 (hbroken.tracked (by omega) [] rfl)
    obtain ⟨a, htakes, -⟩ := Assembler.takes_of_track (a := {}) hflags
    have htakeAll : Assembler.sink.takeAll st.sink.directives.toList = .ok a := htakes
    rw [compile_eq_into]
    simp only [draft, hrun, Draft.into, htakeAll, hlayout]

/-- A program compiles if its draft ends well and the assembler takes it and ends well. -/
theorem exists_finish_of_compile {table : BuiltinTable} {chunk : Chunk}
    (h : p.compile library table = .ok chunk) :
    ∃ a count, Assembler.sink.takeAll (p.draft library table.names).directives.toList = .ok a ∧
      (p.draft library table.names).ending = .ok count ∧ a.finish count = .ok chunk := by
  rw [compile_eq_into, Draft.into] at h
  split at h
  · cases h
  · next a htakes =>
    split at h
    · cases h
    · next count hending =>
      cases hfinish : Assembler.sink.finish count a with
      | error e =>
        rw [hfinish] at h
        cases h
      | ok chunk' =>
        rw [hfinish] at h
        cases h
        exact ⟨a, count, htakes, hending, hfinish⟩

/-- A compiled program has as many instructions as its draft. -/
theorem size_of_compile {table : BuiltinTable} {chunk : Chunk}
    (h : p.compile library table = .ok chunk) :
    chunk.code.size = (p.draft library table.names).size := by
  obtain ⟨a, count, htakes, -, hfinish⟩ := exists_finish_of_compile h
  exact Assembler.size_finish htakes hfinish

/-- A program that compiles to fewer than `2 ^ 32` instructions compiles to its layout. -/
theorem layout_of_compile {table : BuiltinTable} {chunk : Chunk}
    (h : p.compile library table = .ok chunk) (hsize : chunk.code.size < 2 ^ 32) :
    Layout.program library table.names p.statements = .ok chunk := by
  rw [size_of_compile h] at hsize
  rw [← compile_eq_layout (labelCount_draft_le hsize), h]

/-- A program whose draft is small and ends well compiles. -/
theorem exists_chunk {table : BuiltinTable} {count : Nat}
    (hsize : (p.draft library table.names).size < 2 ^ 32)
    (hending : (p.draft library table.names).ending = .ok count) :
    ∃ chunk, p.compile library table = .ok chunk ∧ chunk.code.size < 2 ^ 32 := by
  rw [draft_ending] at hending
  cases hlayout : Layout.program library table.names p.statements with
  | error e =>
    rw [hlayout] at hending
    cases hending
  | ok chunk =>
    have hcompile := (compile_eq_layout (labelCount_draft_le hsize)).trans hlayout
    refine ⟨chunk, hcompile, ?_⟩
    rwa [size_of_compile hcompile]

end Program

end StackScript
