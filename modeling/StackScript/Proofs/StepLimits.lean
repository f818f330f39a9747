import Mathlib.Tactic
import StackScript.Proofs.ControlFlow

set_option autoImplicit false

/-!
# Step limits

A step limit cuts a run short and does nothing else. The run without a limit is told by `runFor`: it
ends with an outcome if some number of steps leads there (`Machine.Ends`), and `Machine.performed`
counts the instructions among its first steps. Code is arbitrary here. What an instruction can do to
the console is said once, in `Machine.perform_touches`: it leaves the console alone or calls one
native. So outputs only grow along a run, and no run stops over a limit by itself. The main
statement is `Machine.execute_truncates`.
-/

namespace StackScript

variable {σ : Type}

/-- Natives that only append to the output, and none of which reports that a step limit is
exceeded. -/
structure Natives.Tame (natives : Natives σ) : Prop where
  appends : ∀ f arguments console,
    console.output.toList <+: (natives f arguments console).2.output.toList
  unlimited : ∀ f arguments console limit,
    (natives f arguments console).1 ≠ .error (.stepLimit limit)

theorem Natives.tame_standard : (Natives.standard : Natives σ).Tame where
  appends f arguments console := by
    unfold Natives.standard
    split
    · exact ⟨_, (Array.toList_push).symm⟩
    · exact List.prefix_refl _
  unlimited f arguments console limit := by
    unfold Natives.standard
    split
    · intro h
      cases h
    · intro h
      cases h

namespace Machine

variable {host : Host σ} {code : Array Instruction}

/-! ## The run without a limit -/

/-- The run of a chunk without a step limit ends with an outcome. -/
def Ends (host : Host σ) (chunk : Chunk) (console : Console σ) (outcome : Outcome σ) : Prop :=
  ∃ n, runFor host chunk.code n (.start chunk console) = .stopped outcome

/-- The number of instructions that a run performs in at most a number of steps. A return and an
instruction that fails count; the end of the code does not. -/
def performed (host : Host σ) (code : Array Instruction) : Nat → State σ → Nat
  | 0, _ => 0
  | n + 1, s =>
    match code[s.ip]? with
    | none => 0
    | some _ =>
      match step host code s with
      | .running s => performed host code n s + 1
      | .stopped _ => 1

/-- The run of a chunk without a step limit performs more than `n` instructions. -/
def PerformsMore (host : Host σ) (chunk : Chunk) (console : Console σ) (n : Nat) : Prop :=
  ∃ steps, n < performed host chunk.code steps (.start chunk console)

/-- At the end of the code the run stops without an error. -/
theorem step_of_end {s : State σ} (h : code.size ≤ s.ip) :
    step host code s = .stopped (s.outcome (.ok ())) := by
  obtain ⟨ip, stack, locals, console⟩ := s
  have hnone : code[ip]? = none := Array.getElem?_eq_none h
  simp only [step, hnone, State.outcome]

/-- No more instructions than steps. -/
theorem performed_le (n : Nat) (s : State σ) : performed host code n s ≤ n := by
  induction n generalizing s with
  | zero => exact le_rfl
  | succ n ih =>
    unfold performed
    split
    · exact Nat.zero_le _
    · split
      · exact Nat.succ_le_succ (ih _)
      · exact Nat.succ_le_succ (Nat.zero_le n)

/-- Each step of a run that goes on performs an instruction. -/
theorem performed_of_running {n : Nat} {s s' : State σ} (h : runFor host code n s = .running s')
    (m : Nat) : performed host code (n + m) s = n + performed host code m s' := by
  induction n generalizing s with
  | zero =>
    cases h
    rw [Nat.zero_add, Nat.zero_add]
  | succ n ih =>
    rw [Nat.succ_add]
    simp only [runFor, performed] at h ⊢
    cases hstep : step host code s with
    | stopped outcome =>
      rw [hstep] at h
      cases h
    | running next =>
      rw [hstep] at h
      cases hi : code[s.ip]? with
      | none =>
        -- behind the code there is no step to go on with
        rw [step_of_end (Array.getElem?_eq_none_iff.1 hi)] at hstep
        cases hstep
      | some i =>
        simp only [ih h]
        omega

/-- A run that has stopped performs no further instructions. -/
theorem performed_of_stopped {n : Nat} {s : State σ} {outcome : Outcome σ}
    (h : runFor host code n s = .stopped outcome) (m : Nat) : performed host code m s ≤ n := by
  induction n generalizing s m with
  | zero => cases h
  | succ n ih =>
    cases m with
    | zero => exact Nat.zero_le _
    | succ m =>
      simp only [runFor, performed] at h ⊢
      split
      · exact Nat.zero_le _
      · cases hstep : step host code s with
        | stopped outcome' => exact Nat.succ_le_succ (Nat.zero_le n)
        | running next =>
          rw [hstep] at h
          exact Nat.succ_le_succ (ih h m)

/-- More than `n` instructions are performed if `n` steps lead to one more instruction. -/
theorem performsMore_iff {chunk : Chunk} {console : Console σ} {n : Nat} :
    PerformsMore host chunk console n ↔
      ∃ s, runFor host chunk.code n (.start chunk console) = .running s ∧
        s.ip < chunk.code.size := by
  constructor
  · rintro ⟨steps, hsteps⟩
    cases hrun : runFor host chunk.code n (.start chunk console) with
    | stopped outcome =>
      have hle := performed_of_stopped hrun steps
      omega
    | running s =>
      refine ⟨s, rfl, ?_⟩
      by_contra hend
      -- the run would stop with the next step, which performs nothing
      have hle : performed host chunk.code steps (.start chunk console) ≤ steps := performed_le ..
      obtain ⟨k, rfl⟩ := Nat.exists_eq_add_of_le (hsteps.le.trans hle)
      rw [performed_of_running hrun k] at hsteps
      have hnone : chunk.code[s.ip]? = none := Array.getElem?_eq_none (Nat.le_of_not_lt hend)
      cases k with
      | zero => exact absurd hsteps (Nat.lt_irrefl n)
      | succ k =>
        simp only [performed, hnone] at hsteps
        exact absurd hsteps (Nat.lt_irrefl n)
  · rintro ⟨s, hrun, hlt⟩
    refine ⟨n + 1, ?_⟩
    rw [performed_of_running hrun 1]
    have hi : chunk.code[s.ip]? = some chunk.code[s.ip] := Array.getElem?_eq_getElem hlt
    simp only [performed, hi]
    split
    · omega
    · omega

/-! ## What a step does to the console -/

/-- The console after a part of a run. -/
def Progress.console : Progress σ → Console σ
  | .running s => s.console
  | .stopped outcome => outcome.console

/-- A part of a run has stopped with an error. -/
def Progress.Fails (e : RunError) : Progress σ → Prop
  | .running _ => False
  | .stopped outcome => outcome.result = .error e

/-- What a step may do beyond the stack, the locals and the pointer: nothing, and then it does not
stop over a limit; or one call of a native, whose error is then its own. -/
inductive Touches (host : Host σ) (console : Console σ) (p : Progress σ) : Prop
  | quiet (hconsole : p.console = console) (hlimit : ∀ limit, ¬ p.Fails (.stepLimit limit))
  | native (f : Native) (arguments : Array Value)
      (hconsole : p.console = (host.natives f arguments console).2)
      (herror : ∀ e, p.Fails e → (host.natives f arguments console).1 = .error e)

/-- An instruction leaves the console alone or calls one native. -/
theorem perform_touches (host : Host σ) (i : Instruction) (s : State σ) :
    Touches host s.console (perform host i s) := by
  obtain ⟨ip, stack, locals, console⟩ := s
  have hgoesOn : ∀ s' : State σ, s'.console = console → Touches host console (.running s') :=
    fun s' hs' => .quiet hs' fun _ => id
  have hfails : ∀ e : RunError, (∀ limit, e ≠ .stepLimit limit) →
      Touches host console (.stopped ⟨.error e, locals, console⟩) :=
    fun e he => .quiet rfl fun limit h => he limit (Except.error.inj h)
  obtain ⟨action, hof, haction⟩ := exists_action host i stack
  rw [haction]
  cases hof with
  | fails he => exact hfails _ he
  | returns => exact .quiet rfl fun limit h => by cases h
  | goesOn _ | jumps _ _ => exact hgoesOn _ rfl
  | loads _ =>
    simp only [Action.perform]
    split
    · exact hgoesOn _ rfl
    · exact hfails _ fun limit h => by cases h
  | stores _ =>
    simp only [Action.perform]
    split
    · exact hgoesOn _ rfl
    · exact hfails _ fun limit h => by cases h
  | @calls f arguments rest _ =>
    apply Touches.native f arguments
    · simp only [Action.perform]
      rcases host.natives f arguments console with ⟨e | v, console'⟩
      · rfl
      · rfl
    · intro e
      simp only [Action.perform]
      rcases host.natives f arguments console with ⟨e' | v, console'⟩
      · exact fun h => congrArg _ (Except.error.inj h)
      · exact False.elim

/-- A step leaves the console alone or calls one native. -/
theorem step_touches (host : Host σ) (code : Array Instruction) (s : State σ) :
    Touches host s.console (step host code s) := by
  obtain ⟨ip, stack, locals, console⟩ := s
  cases hi : code[ip]? with
  | some i =>
    rw [step_eq_perform hi]
    exact perform_touches host i ⟨ip + 1, stack, locals, console⟩
  | none =>
    simp only [step, hi]
    refine .quiet rfl ?_
    intro limit h
    cases h

/-! ## Runs on hosts with tame natives -/

section

variable {console : Console σ}

theorem Touches.output_kept {p : Progress σ} (h : Touches host console p)
    (htame : host.natives.Tame) : console.output.toList <+: p.console.output.toList := by
  rcases h with ⟨hconsole, -⟩ | ⟨f, arguments, hconsole, -⟩
  · rw [hconsole]
  · rw [hconsole]
    exact htame.appends f arguments console

theorem Touches.not_stepLimit {p : Progress σ} (h : Touches host console p)
    (htame : host.natives.Tame) (limit : Nat) : ¬ p.Fails (.stepLimit limit) := by
  rcases h with ⟨-, hlimit⟩ | ⟨f, arguments, -, herror⟩
  · exact hlimit limit
  · intro hfails
    exact htame.unlimited f arguments console limit (herror _ hfails)

/-- What was written stays written along a run. -/
theorem runFor_output_kept (htame : host.natives.Tame) (n : Nat) (s : State σ) :
    s.console.output.toList <+: (runFor host code n s).console.output.toList := by
  induction n generalizing s with
  | zero => exact List.prefix_refl _
  | succ n ih =>
    have hfirst := (step_touches host code s).output_kept htame
    simp only [runFor]
    cases hstep : step host code s with
    | running next =>
      rw [hstep] at hfirst
      exact hfirst.trans (ih next)
    | stopped outcome =>
      rw [hstep] at hfirst
      exact hfirst

/-- A run does not stop over a limit by itself. -/
theorem runFor_not_stepLimit (htame : host.natives.Tame) (n : Nat) (s : State σ) (limit : Nat) :
    ¬ (runFor host code n s).Fails (.stepLimit limit) := by
  induction n generalizing s with
  | zero => exact id
  | succ n ih =>
    have hfirst := (step_touches host code s).not_stepLimit htame limit
    simp only [runFor]
    cases hstep : step host code s with
    | running next => exact ih next
    | stopped outcome =>
      rw [hstep] at hfirst
      exact hfirst

/-! ## Executions -/

variable {chunk : Chunk} {n m : Nat}

/-- A limit is exceeded after `limit` steps that lead to one more instruction. -/
theorem execute_of_running_inside {s : State σ}
    (h : runFor host chunk.code n (.start chunk console) = .running s)
    (hip : s.ip < chunk.code.size) :
    execute host n chunk console = s.outcome (.error (.stepLimit n)) := by
  simp only [execute, h, if_pos hip]

/-- The outcome of a run that leaves the code in time is that of the next step. -/
theorem ends_of_running_behind {s : State σ}
    (h : runFor host chunk.code n (.start chunk console) = .running s)
    (hip : chunk.code.size ≤ s.ip) :
    execute host n chunk console = s.outcome (.ok ()) ∧
      runFor host chunk.code (n + 1) (.start chunk console) = .stopped (s.outcome (.ok ())) := by
  constructor
  · simp only [execute, h, if_neg (Nat.not_lt.2 hip)]
  · rw [runFor_of_running h 1]
    exact runFor_one_of_stopped (step_of_end hip)

/-- An execution exceeds its limit, or it ends as the run without a limit does, under every higher
limit too. -/
theorem execute_cases (htame : host.natives.Tame) (chunk : Chunk) (console : Console σ) (n : Nat) :
    (∃ s, runFor host chunk.code n (.start chunk console) = .running s ∧
        s.ip < chunk.code.size ∧
        execute host n chunk console = s.outcome (.error (.stepLimit n))) ∨
      (execute host n chunk console).result ≠ .error (.stepLimit n) ∧
        ¬ PerformsMore host chunk console n ∧
        ∃ steps ≤ n + 1, runFor host chunk.code steps (.start chunk console) =
          .stopped (execute host n chunk console) := by
  cases hrun : runFor host chunk.code n (.start chunk console) with
  | running s =>
    by_cases hip : s.ip < chunk.code.size
    · exact .inl ⟨s, rfl, hip, execute_of_running_inside hrun hip⟩
    · right
      obtain ⟨hexecute, hstopped⟩ := ends_of_running_behind hrun (Nat.le_of_not_lt hip)
      rw [hexecute]
      refine ⟨?_, ?_, n + 1, le_rfl, hstopped⟩
      · intro h
        cases h
      · rw [performsMore_iff]
        rintro ⟨s', hrun', hip'⟩
        rw [hrun] at hrun'
        cases hrun'
        exact hip hip'
  | stopped outcome =>
    right
    have hexecute : execute host n chunk console = outcome := execute_of_stopped hrun le_rfl
    rw [hexecute]
    refine ⟨?_, ?_, n, Nat.le_succ n, hrun⟩
    · intro h
      have hnever : ¬ (runFor host chunk.code n (.start chunk console)).Fails (.stepLimit n) :=
        runFor_not_stepLimit htame n (.start chunk console) n
      rw [hrun] at hnever
      exact hnever h
    · rw [performsMore_iff]
      rintro ⟨s, hrun', -⟩
      rw [hrun] at hrun'
      cases hrun'

/-- The run without a limit has at most one outcome. -/
theorem Ends.unique {outcome outcome' : Outcome σ} (h : Ends host chunk console outcome)
    (h' : Ends host chunk console outcome') : outcome = outcome' := by
  obtain ⟨n, hn⟩ := h
  obtain ⟨n', hn'⟩ := h'
  rw [← execute_of_stopped hn (le_max_left n n'), execute_of_stopped hn' (le_max_right n n')]

/-- An execution that has left the code or stopped in time does so under every higher limit. -/
theorem execute_eq_of_stopped {steps : Nat} {outcome : Outcome σ} (hsteps : steps ≤ n + 1)
    (hstopped : runFor host chunk.code steps (.start chunk console) = .stopped outcome)
    (hshort : execute host n chunk console = outcome) (hle : n ≤ m) :
    execute host m chunk console = outcome := by
  rcases Nat.eq_or_lt_of_le hle with rfl | hlt
  · exact hshort
  · exact execute_of_stopped hstopped (hsteps.trans hlt)

/-- The output under a limit that is exceeded is a prefix of the output under every higher one. -/
theorem output_kept_execute (htame : host.natives.Tame) {s : State σ}
    (hrun : runFor host chunk.code n (.start chunk console) = .running s) (hle : n ≤ m) :
    s.console.output.toList <+: (execute host m chunk console).console.output.toList := by
  obtain ⟨k, rfl⟩ := Nat.exists_eq_add_of_le hle
  -- the longer execution goes on from `s`
  have hlater : s.console.output.toList <+: (runFor host chunk.code k s).console.output.toList :=
    runFor_output_kept htame k s
  rw [← runFor_of_running hrun k] at hlater
  unfold execute
  cases hlong : runFor host chunk.code (n + k) (.start chunk console) with
  | stopped outcome =>
    rw [hlong] at hlater
    exact hlater
  | running s' =>
    rw [hlong] at hlater
    show s.console.output.toList <+:
      (if s'.ip < chunk.code.size then s'.outcome (.error (.stepLimit (n + k)))
        else s'.outcome (.ok ())).console.output.toList
    split
    · exact hlater
    · exact hlater

end

/-- **Step limits only truncate.** For natives that only append to the output and report no step
limit, any code and limits `n ≤ m`: the execution under `n` exceeds its limit exactly if the run
without a limit performs more than `n` instructions. If it does not, the execution under `m` and the
run without a limit end in the same way, with the same locals and the same console. If it does, its
output is a prefix of that under `m`, and its locals are those of the run without a limit after `n`
instructions. -/
theorem execute_truncates {host : Host σ} (htame : host.natives.Tame) (chunk : Chunk)
    (console : Console σ) {n m : Nat} (hle : n ≤ m) :
    let short := execute host n chunk console
    let long := execute host m chunk console
    (short.result = .error (.stepLimit n) ↔ PerformsMore host chunk console n) ∧
      (short.result ≠ .error (.stepLimit n) →
        long = short ∧ ∀ outcome, Ends host chunk console outcome ↔ outcome = short) ∧
      (short.result = .error (.stepLimit n) →
        short.console.output.toList <+: long.console.output.toList ∧
        ∃ s, runFor host chunk.code n (.start chunk console) = .running s ∧
          performed host chunk.code n (.start chunk console) = n ∧ short.locals = s.locals) := by
  intro short long
  rcases execute_cases htame chunk console n with
    ⟨s, hrun, hip, hexecute⟩ | ⟨hresult, hfew, steps, hsteps, hstopped⟩
  · have hshort : short = s.outcome (.error (.stepLimit n)) := hexecute
    have hresult : short.result = .error (.stepLimit n) := by rw [hshort]; rfl
    refine ⟨iff_of_true hresult (performsMore_iff.2 ⟨s, hrun, hip⟩), ?_, ?_⟩
    · intro hne
      exact absurd hresult hne
    · intro _
      rw [hshort]
      exact ⟨output_kept_execute htame hrun hle, s, hrun, performed_of_running hrun 0, rfl⟩
  · refine ⟨iff_of_false hresult hfew, ?_, ?_⟩
    · intro _
      refine ⟨execute_eq_of_stopped hsteps hstopped rfl hle, fun outcome => ?_⟩
      constructor
      · intro hends
        exact hends.unique ⟨steps, hstopped⟩
      · rintro rfl
        exact ⟨steps, hstopped⟩
    · intro h
      exact absurd h hresult

/-- A loop that prints without end, cut in its second round and in its third: the first output is a
prefix of the second. The same code without the jump back ends under both limits, and so alike. -/
theorem execute_truncates_printing :
    let host : Host Unit := ⟨Library.standard.operation, .standard, .standard⟩
    let body : Array Instruction := #[.loadBuiltin 0, .newArgs 1, .loadLocal ⟨0⟩, .storeArg 0,
      .callRuntime ⟨8⟩, .storeLocal ⟨1⟩]
    let loop : Chunk := ⟨body.push (.jump 0), 2⟩
    let once : Chunk := ⟨body.push .ret, 2⟩
    let console : Console Unit := ⟨#[], ()⟩
    host.natives.Tame ∧ 7 ≤ 19 ∧
      (execute host 7 loop console).result = .error (.stepLimit 7) ∧
      PerformsMore host loop console 7 ∧
      (execute host 7 loop console).console.output.toList <+:
        (execute host 19 loop console).console.output.toList ∧
      (execute host 19 loop console).console.output = #["null", "null", "null"] ∧
      (execute host 7 once console).result = .ok () ∧
      execute host 19 once console = execute host 7 once console ∧
      Ends host once console (execute host 7 once console) := by
  intro host body loop once console
  have htame : host.natives.Tame := Natives.tame_standard
  have hle : 7 ≤ 19 := by decide
  have hlimit : (execute host 7 loop console).result = .error (.stepLimit 7) := by decide +kernel
  have hok : (execute host 7 once console).result = .ok () := by decide +kernel
  obtain ⟨hmore, -, houtput⟩ := execute_truncates htame loop console hle
  obtain ⟨-, hsame, -⟩ := execute_truncates htame once console hle
  obtain ⟨hlong, hends⟩ := hsame (by rw [hok]; simp)
  refine ⟨htame, hle, hlimit, hmore.1 hlimit, (houtput hlimit).1, ?_, hok, hlong, ?_⟩
  · decide +kernel
  · exact (hends _).2 rfl

end Machine

end StackScript
