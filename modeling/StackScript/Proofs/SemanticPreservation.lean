import Mathlib.Tactic
import StackScript.Proofs.Simulation
import StackScript.Proofs.StepLimits

set_option autoImplicit false

/-!
# Semantic preservation

A run without a step limit is one under limits that it does not reach: it ends in a way if all high
limits show that end, and it diverges if it exceeds every limit. The main statement is
`Program.behaviour_eq_evaluation`: the run of a compiled program and the evaluation of the program
each show exactly one behaviour, and it is the same one. While they go on they have the same
consoles, in the order of the run: what the evaluation has written when it gives up after a number
of rounds, the run has written after at least as many steps. With natives that only append to the
output, a run that diverges and its evaluation print the same lines
(`Program.printed_iff_of_diverges`).
-/

namespace StackScript

variable {σ : Type}

/-! ## Behaviours of the machine -/

/-- The execution of a chunk without a step limit shows a behaviour. -/
def Machine.Shows (host : Machine.Host σ) (chunk : Chunk) (console : Console σ) :
    Behaviour σ → Prop
  | .ends result console' =>
    ∃ steps, ∀ limit ≥ steps, ∃ locals,
      Machine.execute host limit chunk console = ⟨result, locals, console'⟩
  | .diverges =>
    ∀ limit, (Machine.execute host limit chunk console).result = .error (.stepLimit limit)

namespace Machine

variable {host : Host σ} {chunk : Chunk} {console console' : Console σ}
  {result : Except RunError Unit}

theorem shows_ends_of_stopped {n : Nat} {locals : Array Value}
    (h : runFor host chunk.code n (.start chunk console) = .stopped ⟨result, locals, console'⟩) :
    Shows host chunk console (.ends result console') :=
  ⟨n, fun _ hle => ⟨locals, execute_of_stopped h hle⟩⟩

theorem shows_diverges_of_running
    (h : ∀ n, ∃ s, runFor host chunk.code n (.start chunk console) = .running s) :
    Shows host chunk console .diverges :=
  execute_of_running h

/-- A run that stops shows how it stops and nothing else. -/
theorem eq_ends_of_stopped {n : Nat} {outcome : Outcome σ} {behaviour : Behaviour σ}
    (h : runFor host chunk.code n (.start chunk console) = .stopped outcome)
    (hshows : Shows host chunk console behaviour) :
    behaviour = .ends outcome.result outcome.console := by
  cases behaviour with
  | ends result console' =>
    obtain ⟨steps, hsteps⟩ := hshows
    obtain ⟨locals, hlimit⟩ := hsteps (max n steps) (le_max_right n steps)
    rw [execute_of_stopped h (le_max_left n steps)] at hlimit
    rw [hlimit]
  | diverges =>
    -- the same error would tell of two limits
    have hn : outcome.result = .error (.stepLimit n) := by
      rw [← hshows n, execute_of_stopped h le_rfl]
    have hnext : outcome.result = .error (.stepLimit (n + 1)) := by
      rw [← hshows (n + 1), execute_of_stopped h (Nat.le_succ n)]
    rw [hn] at hnext
    cases hnext

/-- A run that never stops diverges and shows nothing else. -/
theorem eq_diverges_of_running {behaviour : Behaviour σ}
    (h : ∀ n, ∃ s, runFor host chunk.code n (.start chunk console) = .running s)
    (hshows : Shows host chunk console behaviour) : behaviour = .diverges := by
  cases behaviour with
  | diverges => rfl
  | ends result console' =>
    obtain ⟨steps, hsteps⟩ := hshows
    obtain ⟨locals, hlimit⟩ := hsteps steps le_rfl
    obtain ⟨locals', hlimit'⟩ := hsteps (steps + 1) (Nat.le_succ steps)
    have hresult := execute_of_running h steps
    have hresult' := execute_of_running h (steps + 1)
    rw [hlimit] at hresult
    rw [hlimit'] at hresult'
    rw [hresult] at hresult'
    cases hresult'

/-- A run shows at most one behaviour. -/
theorem shows_unique {behaviour behaviour' : Behaviour σ}
    (h : Shows host chunk console behaviour) (h' : Shows host chunk console behaviour') :
    behaviour = behaviour' := by
  rcases stops_or_runs host chunk console with ⟨n, outcome, hstopped⟩ | hruns
  · rw [eq_ends_of_stopped hstopped h, eq_ends_of_stopped hstopped h']
  · rw [eq_diverges_of_running hruns h, eq_diverges_of_running hruns h']

end Machine

/-! ## The evaluation and the run -/

section

variable {library : Library} {table : BuiltinTable} {host : Machine.Host σ} {p : Program}
  {chunk : Chunk}

/-- What the evaluation of a program shows, the run of its code shows. -/
theorem shows_of_evaluation (hresolves : Resolves library host) (htable : host.builtins = table)
    (hlay : Layout.program library table.names p.statements = .ok chunk)
    (hsize : chunk.code.size < 2 ^ 32) {console : Console σ} {behaviour : Behaviour σ}
    (h : Evaluator.Shows host.natives table p console behaviour) :
    Machine.Shows host chunk console behaviour := by
  have hsimulates := fun rounds => program_simulates hresolves htable hlay hsize rounds console
  match behaviour, h with
  | .ends (.ok _) console', ⟨rounds, env, heval⟩ =>
    have hrounds := hsimulates rounds
    rw [heval] at hrounds
    cases hrounds with
    | reaches hrun hend =>
      obtain ⟨pc, locals, rfl, hret⟩ := hend
      exact Machine.shows_ends_of_stopped ((Machine.runFor_of_running hrun 1).trans
        (Machine.runFor_one_of_stopped (Machine.step_ret hret)))
  | .ends (.error e) console', ⟨rounds, heval⟩ =>
    have hrounds := hsimulates rounds
    rw [heval] at hrounds
    cases hrounds with
    | fails hrun => exact Machine.shows_ends_of_stopped hrun
  | .diverges, heval =>
    refine Machine.shows_diverges_of_running fun n => ?_
    obtain ⟨console', hexhausted⟩ := heval n
    have hrounds := hsimulates n
    rw [hexhausted] at hrounds
    cases hrounds with
    | goesOn hle hrun _ => exact Machine.running_of_le hrun hle

/-- What the evaluation of a program has written when it gives up, the run of its code has written
after at least as many steps as the evaluation has looked at rounds. -/
theorem exists_running_of_exhausted (hresolves : Resolves library host)
    (htable : host.builtins = table)
    (hlay : Layout.program library table.names p.statements = .ok chunk)
    (hsize : chunk.code.size < 2 ^ 32) {console console' : Console σ} {rounds : Nat}
    (h : Evaluator.program host.natives table rounds p console = .error .exhausted console') :
    ∃ n ≥ rounds, ∃ s, Machine.runFor host chunk.code n (.start chunk console) = .running s ∧
      s.console = console' := by
  have hsimulates := program_simulates hresolves htable hlay hsize rounds console
  rw [h] at hsimulates
  cases hsimulates with
  | @goesOn _ n s hle hrun hconsole => exact ⟨n, hle, s, hrun, hconsole⟩

/-- The evaluation of a program that compiles shows a behaviour: none of its parts is without
meaning. -/
theorem exists_evaluation (hresolves : Resolves library host) (htable : host.builtins = table)
    (hlay : Layout.program library table.names p.statements = .ok chunk)
    (hsize : chunk.code.size < 2 ^ 32) (console : Console σ) :
    ∃ behaviour, Evaluator.Shows host.natives table p console behaviour := by
  by_cases hall : ∀ rounds, ∃ console', Evaluator.program host.natives table rounds p console =
      .error .exhausted console'
  · exact ⟨.diverges, hall⟩
  · push Not at hall
    obtain ⟨rounds, hrounds⟩ := hall
    have hsimulates := program_simulates hresolves htable hlay hsize rounds console
    generalize heval : Evaluator.program host.natives table rounds p console = r at hsimulates
    cases hsimulates with
    | @reaches env console' n s' hrun hend => exact ⟨.ends (.ok ()) console', rounds, env, heval⟩
    | @fails e console' n locals hrun => exact ⟨.ends (.error e) console', rounds, heval⟩
    | @goesOn console' n s' hle hrun _ => exact absurd heval (hrounds console')

end

/-- A library that gives each operation back resolves them for its own machine. -/
theorem resolves_of_library {table : BuiltinTable} {library : Library} (natives : Natives σ)
    (h : ∀ op : Operation, (library.lookup op.name).bind library.operation = some op) :
    Resolves library (⟨library.operation, table, natives⟩ : Machine.Host σ) := by
  intro op entry hentry
  have hop := h op
  rw [hentry] at hop
  exact hop

/-- **Semantic preservation.** For a program that compiles to fewer than `2 ^ 32` instructions over
a library that gives each operation back, the run of the code without a step limit and the direct
evaluation of the program show one behaviour each, and the same: they end with the same result and
the same console, or both diverge. Whenever the evaluation gives up after a number of rounds, the
console that it has then is that of the run after at least as many steps; so the output of a run
that diverges is that of its evaluation, at points that come ever later. -/
theorem Program.behaviour_eq_evaluation {library : Library} {table : BuiltinTable} {p : Program}
    {chunk : Chunk} (natives : Natives σ)
    (hlibrary : ∀ op : Operation, (library.lookup op.name).bind library.operation = some op)
    (hcompile : p.compile library table = .ok chunk) (hsize : chunk.code.size < 2 ^ 32)
    (console : Console σ) :
    ∃ behaviour : Behaviour σ,
      (∀ b, Machine.Shows ⟨library.operation, table, natives⟩ chunk console b ↔ b = behaviour) ∧
        (∀ b, Evaluator.Shows natives table p console b ↔ b = behaviour) ∧
        ∀ rounds console',
          Evaluator.program natives table rounds p console = .error .exhausted console' →
          ∃ n ≥ rounds, ∃ s, Machine.runFor ⟨library.operation, table, natives⟩ chunk.code n
            (.start chunk console) = .running s ∧ s.console = console' := by
  let host : Machine.Host σ := ⟨library.operation, table, natives⟩
  have hresolves : Resolves library host := resolves_of_library natives hlibrary
  have hlay := layout_of_compile hcompile hsize
  -- one direction is the simulation; the other follows, as the machine shows one behaviour only
  have hsound : ∀ b, Evaluator.Shows natives table p console b →
      Machine.Shows host chunk console b :=
    fun _ => shows_of_evaluation hresolves rfl hlay hsize
  obtain ⟨behaviour, heval⟩ : ∃ behaviour, Evaluator.Shows natives table p console behaviour :=
    exists_evaluation hresolves rfl hlay hsize console
  have hrun := hsound behaviour heval
  refine ⟨behaviour, fun b => ⟨fun h => Machine.shows_unique h hrun, ?_⟩,
    fun b => ⟨fun h => Machine.shows_unique (hsound b h) hrun, ?_⟩, fun rounds console' h => ?_⟩
  · rintro rfl
    exact hrun
  · rintro rfl
    exact heval
  · exact exists_running_of_exhausted hresolves rfl hlay hsize h

/-- A loop that prints two numbers: the evaluation ends with both lines, and so does the run. -/
theorem Program.behaviour_eq_evaluation_counting :
    let p : Program := ⟨none, [
      .declare "i" (.number "0" {}) {},
      .whileDo (.binary (.identifier "i" {}) "<" (.number "2" {}) {}) [
        .expression (.call (.identifier "print" {}) [.identifier "i" {}] {}) {},
        .assign "i" (.binary (.identifier "i" {}) "+" (.number "1" {}) {}) {}] {}]⟩
    let behaviour : Behaviour Unit := .ends (.ok ()) ⟨#["0", "1"], ()⟩
    ∃ chunk, p.compile .standard .standard = .ok chunk ∧ chunk.code.size < 2 ^ 32 ∧
      Evaluator.Shows .standard .standard p ⟨#[], ()⟩ behaviour ∧
      Machine.Shows ⟨Library.standard.operation, .standard, .standard⟩ chunk ⟨#[], ()⟩
        behaviour := by
  intro p behaviour
  have heval : Evaluator.Shows .standard .standard p ⟨#[], ()⟩ behaviour := ⟨3, _, rfl⟩
  obtain ⟨chunk, hcompile, hsize⟩ : ∃ chunk, p.compile .standard .standard = .ok chunk ∧
      chunk.code.size < 2 ^ 32 :=
    exists_chunk (by decide +kernel)
      (show (p.draft .standard BuiltinTable.standard.names).ending = .ok 5 by decide +kernel)
  obtain ⟨one, hrun, hone, -⟩ := behaviour_eq_evaluation .standard
    (fun op => by cases op <;> decide) hcompile hsize ⟨#[], ()⟩
  exact ⟨chunk, hcompile, hsize, heval, (hrun behaviour).2 ((hone behaviour).1 heval)⟩

/-- **A run that diverges prints what its evaluation prints**, line by line, with natives that only
append to the output. -/
theorem Program.printed_iff_of_diverges {library : Library} {table : BuiltinTable} {p : Program}
    {chunk : Chunk} {natives : Natives σ} (hnatives : natives.Tame)
    (hlibrary : ∀ op : Operation, (library.lookup op.name).bind library.operation = some op)
    (hcompile : p.compile library table = .ok chunk) (hsize : chunk.code.size < 2 ^ 32)
    {console : Console σ} (hdiverges : Evaluator.Shows natives table p console .diverges)
    (k : Nat) (line : String) :
    (∃ n s, Machine.runFor ⟨library.operation, table, natives⟩ chunk.code n
        (.start chunk console) = .running s ∧ s.console.output[k]? = some line) ↔
      ∃ rounds console', Evaluator.program natives table rounds p console =
        .error .exhausted console' ∧ console'.output[k]? = some line := by
  let host : Machine.Host σ := ⟨library.operation, table, natives⟩
  have hresolves : Resolves library host := resolves_of_library natives hlibrary
  have hlay := layout_of_compile hcompile hsize
  constructor
  · rintro ⟨n, s, hrun, hline⟩
    -- the evaluation gives up after `n` rounds no sooner than the run has made `n` steps
    obtain ⟨console', hexhausted⟩ := hdiverges n
    obtain ⟨m, hm, s', hrun', rfl⟩ :=
      exists_running_of_exhausted hresolves rfl hlay hsize hexhausted
    refine ⟨n, s'.console, hexhausted, ?_⟩
    -- and what was written by then is still there
    obtain ⟨d, rfl⟩ := Nat.exists_eq_add_of_le hm
    have hkept : s.console.output.toList <+:
        (Machine.runFor host chunk.code d s).console.output.toList :=
      Machine.runFor_output_kept hnatives d s
    rw [← Machine.runFor_of_running hrun d, hrun'] at hkept
    obtain ⟨lines, hlines⟩ := hkept
    obtain ⟨hlt, -⟩ := Array.getElem?_eq_some_iff.1 hline
    rw [← Array.getElem?_toList] at hline ⊢
    have hsplit : s'.console.output.toList = s.console.output.toList ++ lines := hlines.symm
    rw [hsplit, List.getElem?_append_left (by rwa [Array.length_toList]), hline]
  · rintro ⟨rounds, console', hexhausted, hline⟩
    obtain ⟨n, -, s, hrun, rfl⟩ :=
      exists_running_of_exhausted hresolves rfl hlay hsize hexhausted
    exact ⟨n, s, hrun, hline⟩

end StackScript
