import Mathlib.Tactic
import StackScript.Proofs.CompileLayout
import StackScript.Proofs.Slots

set_option autoImplicit false

/-!
# Appending statements

The code of a list of statements does not depend on what follows them: addresses and slots are
counted from the front, and jumps stay inside the statement that they belong to. So the code of
`p ++ q` starts with that of `p`, and what is wrong with `p` is wrong with `p ++ q`. The main
statement is `Program.compile_append`.
-/

namespace StackScript

namespace Layout

variable {library : Library} {pc : Nat} {b b' : Blocks} {ss ts : List Stmt}
  {code : List Instruction} {e : CompileError}

/-- The first error of statements is that of all lists that start with them. -/
theorem stmts_append_of_error (h : stmts library pc b ss = .error e) :
    stmts library pc b (ss ++ ts) = .error e := by
  induction ss generalizing pc b with
  | nil => cases h
  | cons first rest ih =>
    rcases bind_eq_error.1 h with hfirst | ⟨⟨c, mid⟩, hfirst, h⟩
    · exact bind_eq_error.2 (.inl hfirst)
    · rcases bind_eq_error.1 h with hrest | ⟨r, -, h⟩
      · exact bind_eq_error.2 (.inr ⟨(c, mid), hfirst, bind_eq_error.2 (.inl (ih hrest))⟩)
      · cases h

/-- Statements that have code have the same code in front of others, which start where it ends. -/
theorem stmts_append_of_ok (h : stmts library pc b ss = .ok (code, b')) :
    stmts library pc b (ss ++ ts) =
      (stmts library (pc + code.length) b' ts).map fun r => (code ++ r.1, r.2) := by
  induction ss generalizing pc b code with
  | nil =>
    cases h
    show stmts library pc b' ts = (stmts library pc b' ts).map fun r => (r.1, r.2)
    cases stmts library pc b' ts <;> rfl
  | cons first rest ih =>
    obtain ⟨c, c', mid, hfirst, hrest, rfl⟩ := stmts_cons h
    rw [List.cons_append, stmts, hfirst]
    show (stmts library (pc + c.length) mid (rest ++ ts) >>= _) = _
    rw [ih hrest, List.length_append, ← Nat.add_assoc]
    cases stmts library (pc + c.length + c'.length) b' ts with
    | error e => rfl
    | ok r =>
      show Except.ok (c ++ (c' ++ r.1), r.2) = Except.ok (c ++ c' ++ r.1, r.2)
      rw [List.append_assoc]

theorem program_append_of_error {globals : List String}
    (h : program library globals ss = .error e) :
    program library globals (ss ++ ts) = .error e := by
  rcases bind_eq_error.1 h with hstart | ⟨⟨start, b₁⟩, hstart, h⟩
  · exact bind_eq_error.2 (.inl hstart)
  · rcases bind_eq_error.1 h with hss | ⟨r, -, h⟩
    · exact bind_eq_error.2
        (.inr ⟨(start, b₁), hstart, bind_eq_error.2 (.inl (stmts_append_of_error hss))⟩)
    · cases h

/-- The code of a program, without its return, starts the code of the longer program. -/
theorem program_append_of_ok {globals : List String} {chunk chunk' : Chunk}
    (h : program library globals ss = .ok chunk)
    (h' : program library globals (ss ++ ts) = .ok chunk') :
    ∃ body rest, chunk.code.toList = body ++ [Instruction.ret] ∧ chunk'.code.toList = body ++ rest ∧
      chunk.localCount ≤ chunk'.localCount := by
  obtain ⟨start, b₁, c, b₂, hstart, hc, rfl⟩ := program_eq_ok h
  obtain ⟨start', b₁', c', b₂', hstart', hc', rfl⟩ := program_eq_ok h'
  cases hstart.symm.trans hstart'
  rw [stmts_append_of_ok hc] at hc'
  cases hts : stmts library (start.length + c.length) b₂ ts with
  | error e =>
    rw [hts] at hc'
    cases hc'
  | ok r =>
    rw [hts] at hc'
    cases hc'
    refine ⟨start ++ c, r.1 ++ [Instruction.ret], rfl, ?_, (extends_stmts ts hts).used_le⟩
    simp only [List.append_assoc]

end Layout

namespace Lowering

variable {σ ω : Type} (sink : Sink σ ω)

theorem stmts_append (library : Library) (ss ts : List Stmt) :
    stmts sink library (ss ++ ts) =
      stmts sink library ss >>= fun _ => stmts sink library ts := by
  induction ss with
  | nil => rw [List.nil_append, stmts, pure_bind]
  | cons first rest ih => rw [List.cons_append, stmts, stmts, ih, bind_assoc]

theorem program_append (library : Library) (globals : List String) (ss ts : List Stmt) :
    program sink library globals (ss ++ ts) = (do
      builtins sink globals.length 0 globals
      stmts sink library ss
      stmts sink library ts
      emit sink .ret) := by
  simp only [program, stmts_append, bind_assoc]

end Lowering

namespace Program

/-- More statements do not make fewer labels: the walk through them only adds to what it finds. -/
theorem labelCount_draft_append (library : Library) (globals : List String)
    (source source' : Option String) (ss ts : List Stmt) :
    (draft library globals ⟨source, ss⟩).labelCount ≤
      (draft library globals ⟨source', ss ++ ts⟩).labelCount := by
  rcases Lowering.builtins_tracks globals.length globals 0 0 {} (.start .sketch) .empty
    (.empty library) with
    ⟨_, st₁, ⟨start, b₁⟩, hstart, -, h₁⟩ | ⟨e, st₁, hstart, -, -⟩
  · rcases Lowering.stmts_tracks ss start.length b₁ st₁ h₁.models h₁.sound with
      ⟨_, st₂, ⟨c, b₂⟩, hss, -, h₂⟩ | ⟨e, st₂, hss, -, -⟩
    · have hdraft : (draft library globals ⟨source, ss⟩).labelCount =
          Directives.labelCount st₂.sink.directives.toList := by
        simp only [draft, Lowering.program, run_bind_of_ok hstart, run_bind_of_ok hss,
          Lowering.emit, Lowering.hand, Sink.sketch_emit, Draft.labelCount, Array.toList_push,
          Directives.labelCount_append, Directives.labelCount_cons, Directives.labelCount_nil,
          Directive.labelCount, Nat.add_zero]
      rw [hdraft]
      -- the walk through `ts` starts where the one through `ss` has ended
      rcases Lowering.stmts_tracks ts (start.length + c.length) b₂ st₂ h₂.models h₂.sound with
        ⟨_, st₃, r, hts, -, h₃⟩ | ⟨e, st₃, hts, -, ds, hds, -⟩
      · obtain ⟨ds, hds, -⟩ := h₃.fragment
        simp only [draft, Lowering.program_append, run_bind_of_ok hstart, run_bind_of_ok hss,
          run_bind_of_ok hts, Lowering.emit, Lowering.hand, Sink.sketch_emit, Draft.labelCount,
          Array.toList_push, hds, Directives.labelCount_append]
        omega
      · simp only [draft, Lowering.program_append, run_bind_of_ok hstart, run_bind_of_ok hss,
          run_bind_of_error hts, Draft.labelCount, hds, Directives.labelCount_append]
        omega
    · simp only [draft, Lowering.program_append]
      simp only [Lowering.program, run_bind_of_ok hstart, run_bind_of_error hss, le_refl]
  · simp only [draft, Lowering.program, run_bind_of_error hstart, le_refl]

/-- **Appending statements disturbs nothing.** Let the draft of `p ++ q` have fewer than `2 ^ 32`
instructions. If `p` does not compile, then `p ++ q` does not, with the same error. If both compile,
then the instructions of `p` without the return at its end are a prefix of those of `p ++ q`, with
the same jump targets, and `p` has no more slots than `p ++ q`. -/
theorem compile_append {library : Library} {table : BuiltinTable} {source source' : Option String}
    {p q : List Stmt} (hsize : (draft library table.names ⟨source', p ++ q⟩).size < 2 ^ 32) :
    (∀ e, compile library table ⟨source, p⟩ = .error e →
        compile library table ⟨source', p ++ q⟩ = .error e) ∧
      ∀ chunk chunk', compile library table ⟨source, p⟩ = .ok chunk →
        compile library table ⟨source', p ++ q⟩ = .ok chunk' →
        ∃ body, chunk.code.toList = body ++ [.ret] ∧ body <+: chunk'.code.toList ∧
          chunk.localCount ≤ chunk'.localCount := by
  have hlabels := labelCount_draft_le hsize
  have hlonger : compile library table ⟨source', p ++ q⟩ = _ := compile_eq_layout hlabels
  have hshorter : compile library table ⟨source, p⟩ = _ :=
    compile_eq_layout
      ((labelCount_draft_append library table.names source source' p q).trans hlabels)
  rw [hlonger, hshorter]
  constructor
  · intro e he
    exact Layout.program_append_of_error he
  · intro chunk chunk' hchunk hchunk'
    obtain ⟨body, rest, hbody, hrest, hcount⟩ := Layout.program_append_of_ok hchunk hchunk'
    exact ⟨body, hbody, ⟨rest, hrest.symm⟩, hcount⟩

/-- A loop that counts down, with a call appended: both programs compile, and the code of the loop
is where it was. With a use of an unknown name before the loop neither compiles. -/
theorem compile_append_countdown :
    let p : List Stmt := [
      .declare "i" (.number "2" {}) {},
      .whileDo (.identifier "i" {})
        [.assign "i" (.binary (.identifier "i" {}) "-" (.number "1" {}) {}) {}] {}]
    let q : List Stmt := [
      .declare "j" (.identifier "i" {}) {},
      .expression (.call (.identifier "print" {}) [.identifier "j" {}] {}) {}]
    (draft .standard BuiltinTable.standard.names ⟨none, p ++ q⟩).size < 2 ^ 32 ∧
      (∃ chunk chunk', compile .standard .standard ⟨none, p⟩ = .ok chunk ∧
        compile .standard .standard ⟨none, p ++ q⟩ = .ok chunk' ∧
        ∃ body, chunk.code.toList = body ++ [.ret] ∧ body <+: chunk'.code.toList ∧
          chunk.localCount ≤ chunk'.localCount) ∧
      ∃ e, compile .standard .standard ⟨none, .assign "j" (.number "0" {}) {} :: p⟩ = .error e ∧
        compile .standard .standard ⟨none, .assign "j" (.number "0" {}) {} :: p ++ q⟩ =
          .error e := by
  intro p q
  have hsize : (draft .standard BuiltinTable.standard.names ⟨none, p ++ q⟩).size < 2 ^ 32 := by
    decide +kernel
  obtain ⟨chunk, hchunk, -⟩ : ∃ chunk, compile .standard .standard ⟨none, p⟩ = .ok chunk ∧
      chunk.code.size < 2 ^ 32 :=
    exists_chunk (by decide +kernel)
      (show (draft .standard BuiltinTable.standard.names ⟨none, p⟩).ending = .ok 5 by
        decide +kernel)
  obtain ⟨chunk', hchunk', -⟩ : ∃ chunk, compile .standard .standard ⟨none, p ++ q⟩ = .ok chunk ∧
      chunk.code.size < 2 ^ 32 :=
    exists_chunk hsize
      (show (draft .standard BuiltinTable.standard.names ⟨none, p ++ q⟩).ending = .ok 6 by
        decide +kernel)
  refine ⟨hsize, ⟨chunk, chunk', hchunk, hchunk', ?_⟩, ?_⟩
  · exact (compile_append hsize).2 chunk chunk' hchunk hchunk'
  · have hfault : compile .standard .standard ⟨none, .assign "j" (.number "0" {}) {} :: p⟩ =
        .error (.diagnosed ⟨{}, .unknownVariable "j"⟩) := by
      decide +kernel
    exact ⟨_, hfault, (compile_append (by decide +kernel)).1 _ hfault⟩

end Program

end StackScript
