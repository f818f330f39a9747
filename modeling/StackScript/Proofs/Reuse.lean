import Mathlib.Tactic
import StackScript.Proofs.StepLimits

set_option autoImplicit false

/-!
# One machine for many chunks

A machine that has executed a chunk is in some state: its last run may have stopped anywhere, with
entries left on the stack. The next execution sets the pointer, the stack and the locals anew
(`Machine.State.reset`) and keeps the console. What an instruction does is the same on every
console, up to the answer of one native (`Machine.exists_action`). So with natives that look at
nothing but their arguments, lines that were written before are never noticed, and each chunk does
what it does on a new machine. The main statement is `Machine.inTurn_iff_alone`. Code is arbitrary
here.
-/

namespace StackScript

variable {σ : Type}

/-- Natives that look at nothing but their arguments, and only add lines to the output. -/
def Natives.Oblivious (natives : Natives σ) : Prop :=
  ∀ f arguments, ∃ answer lines, ∀ console, (natives f arguments console).1 = answer ∧
    (natives f arguments console).2.output = console.output ++ lines

theorem Natives.oblivious_standard : (Natives.standard : Natives σ).Oblivious := by
  intro f arguments
  unfold Natives.standard
  split
  · refine ⟨.ok .null, #[" ".intercalate (arguments.toList.map Value.display)], ?_⟩
    intro console
    exact ⟨rfl, Array.push_eq_append⟩
  · refine ⟨.error (.native f.name "no such function"), #[], ?_⟩
    intro console
    exact ⟨rfl, Array.append_empty.symm⟩

namespace Machine

variable {host : Host σ} {code : Array Instruction}

/-! ## Runs behind earlier output -/

/-- What can be seen of a machine after it has executed a chunk. -/
structure Report where
  result : Except RunError Unit
  locals : Array Value
  output : Array String
deriving DecidableEq

/-- What can be seen of an outcome. -/
def Outcome.report (outcome : Outcome σ) : Report :=
  ⟨outcome.result, outcome.locals, outcome.console.output⟩

/-- The same with lines that were written before. -/
def Report.behind (before : Array String) (r : Report) : Report :=
  { r with output := before ++ r.output }

/-- The second state is the first one with lines that were written before. -/
structure State.Behind (before : Array String) (s s' : State σ) : Prop where
  ip : s'.ip = s.ip
  stack : s'.stack = s.stack
  locals : s'.locals = s.locals
  output : s'.console.output = before ++ s.console.output

/-- The second run is the first one with lines that were written before: both go on, or both have
stopped with the same result and locals. -/
inductive Progress.Behind (before : Array String) : Progress σ → Progress σ → Prop
  | running {s s' : State σ} (h : s.Behind before s') :
      Progress.Behind before (.running s) (.running s')
  | stopped {outcome outcome' : Outcome σ} (h : outcome'.report = outcome.report.behind before) :
      Progress.Behind before (.stopped outcome) (.stopped outcome')

section

variable {before : Array String}

/-- A native that is called behind earlier lines gives the same answer and adds the same lines. -/
theorem answered_behind (hnatives : host.natives.Oblivious) {console console' : Console σ}
    (houtput : console'.output = before ++ console.output) (f : Native) (arguments : Array Value)
    (ip : Nat) (stack : List Entry) (locals : Array Value) :
    Progress.Behind before (.answered ip stack locals (host.natives f arguments console))
      (.answered ip stack locals (host.natives f arguments console')) := by
  obtain ⟨answer, lines, hanswer⟩ := hnatives f arguments
  have hcall := hanswer console
  have hcall' := hanswer console'
  generalize host.natives f arguments console = called,
    host.natives f arguments console' = called' at hcall hcall' ⊢
  obtain ⟨first, after⟩ := called
  obtain ⟨first', after'⟩ := called'
  obtain rfl : first = answer := hcall.1
  obtain rfl : first' = first := hcall'.1
  have hboth : after'.output = before ++ after.output := by
    rw [hcall'.2, hcall.2, houtput, Array.append_assoc]
  cases first' with
  | error e =>
    apply Progress.Behind.stopped
    simp only [Outcome.report, Report.behind, hboth]
  | ok v => exact .running ⟨rfl, rfl, rfl, hboth⟩

/-- An action does not notice earlier lines. -/
theorem Action.perform_behind (hnatives : host.natives.Oblivious) {console console' : Console σ}
    (houtput : console'.output = before ++ console.output) (action : Action) (ip : Nat)
    (stack : List Entry) (locals : Array Value) :
    Progress.Behind before (action.perform host ⟨ip, stack, locals, console⟩)
      (action.perform host ⟨ip, stack, locals, console'⟩) := by
  have hstops : ∀ result, Progress.Behind before (.stopped ⟨result, locals, console⟩)
      (.stopped ⟨result, locals, console'⟩) := by
    intro result
    apply Progress.Behind.stopped
    simp only [Outcome.report, Report.behind, houtput]
  cases action with
  | fails e => exact hstops (.error e)
  | returns => exact hstops (.ok ())
  | goesOn _ | jumps _ _ => exact .running ⟨rfl, rfl, rfl, houtput⟩
  | loads slot =>
    simp only [Action.perform]
    split
    · exact .running ⟨rfl, rfl, rfl, houtput⟩
    · exact hstops _
  | stores slot v rest =>
    simp only [Action.perform]
    split
    · exact .running ⟨rfl, rfl, rfl, houtput⟩
    · exact hstops _
  | calls f arguments rest => exact answered_behind hnatives houtput f arguments ip rest locals

theorem step_behind (hnatives : host.natives.Oblivious) {s s' : State σ}
    (h : s.Behind before s') :
    Progress.Behind before (step host code s) (step host code s') := by
  obtain ⟨ip, stack, locals, console⟩ := s
  obtain ⟨ip', stack', locals', console'⟩ := s'
  obtain ⟨rfl, rfl, rfl, houtput⟩ := h
  cases hi : code[ip']? with
  | none =>
    simp only [step, hi]
    exact Action.perform_behind hnatives houtput .returns ip' stack' locals'
  | some i =>
    obtain ⟨action, -, haction⟩ := exists_action host i stack'
    rw [step_eq_perform hi, step_eq_perform hi, haction, haction]
    exact action.perform_behind hnatives houtput (ip' + 1) stack' locals'

/-- Earlier lines are not noticed in a run of any length. -/
theorem runFor_behind (hnatives : host.natives.Oblivious) (n : Nat) {s s' : State σ}
    (h : s.Behind before s') :
    Progress.Behind before (runFor host code n s) (runFor host code n s') := by
  induction n generalizing s s' with
  | zero => exact .running h
  | succ n ih =>
    -- after the first step both runs go on, or both have stopped
    have hfirst : Progress.Behind before (step host code s) (step host code s') :=
      step_behind hnatives h
    simp only [runFor]
    generalize step host code s = first, step host code s' = first' at hfirst ⊢
    cases hfirst with
    | running hnext => exact ih hnext
    | stopped hreport => exact .stopped hreport

end

/-! ## Executions -/

/-- The state in which a machine starts a chunk, whatever state it is in: the pointer, the stack and
the locals are set anew, and the console is kept. -/
def State.reset (chunk : Chunk) (s : State σ) : State σ :=
  { s with ip := 0, stack := [], locals := Array.replicate chunk.localCount .null }

/-- The outcome of a run of code of some size that is cut after `limit` steps. -/
def Progress.cut (limit size : Nat) : Progress σ → Outcome σ
  | .stopped outcome => outcome
  | .running s => if s.ip < size then s.outcome (.error (.stepLimit limit)) else s.outcome (.ok ())

/-- A machine in a state executes a chunk with an outcome. It may have a step limit. -/
def Executes (host : Host σ) (limit : Option Nat) (s : State σ) (chunk : Chunk)
    (outcome : Outcome σ) : Prop :=
  match limit with
  | some n => (runFor host chunk.code n (s.reset chunk)).cut n chunk.code.size = outcome
  | none => ∃ n, runFor host chunk.code n (s.reset chunk) = .stopped outcome

/-- A chunk is executed by itself on a console with an outcome. -/
def Alone (host : Host σ) (limit : Option Nat) (console : Console σ) (chunk : Chunk)
    (outcome : Outcome σ) : Prop :=
  match limit with
  | some n => execute host n chunk console = outcome
  | none => Ends host chunk console outcome

/-- One machine executes chunks one after the other, from the state it is in, with a report after
each. An outcome tells the locals and the console that a run leaves; the pointer and the stack may
be left in any way. -/
inductive InTurn (host : Host σ) (limit : Option Nat) : State σ → List Chunk → List Report → Prop
  | nil (s : State σ) : InTurn host limit s [] []
  | cons {s s' : State σ} {chunk : Chunk} {chunks : List Chunk} {outcome : Outcome σ}
      {reports : List Report} (hfirst : Executes host limit s chunk outcome)
      (hlocals : s'.locals = outcome.locals) (hconsole : s'.console = outcome.console)
      (hrest : InTurn host limit s' chunks reports) :
      InTurn host limit s (chunk :: chunks) (outcome.report :: reports)

/-- Reports on chunks by themselves, each with the output of those before it in front of its own. -/
def Report.inTurn (before : Array String) : List Report → List Report
  | [] => []
  | r :: rs => r.behind before :: Report.inTurn (before ++ r.output) rs

section

variable {limit : Option Nat} {chunk : Chunk} {before : Array String}

/-- Of the state that a machine is in, only the console matters. -/
theorem executes_iff_alone {s : State σ} {outcome : Outcome σ} :
    Executes host limit s chunk outcome ↔ Alone host limit s.console chunk outcome := by
  cases limit with
  | none => exact Iff.rfl
  | some n =>
    have hcut : (runFor host chunk.code n (s.reset chunk)).cut n chunk.code.size =
        execute host n chunk s.console := by
      show _ = match runFor host chunk.code n (s.reset chunk) with
        | .stopped outcome => outcome
        | .running s =>
          if s.ip < chunk.code.size then s.outcome (.error (.stepLimit n)) else s.outcome (.ok ())
      cases runFor host chunk.code n (s.reset chunk) with
      | stopped outcome => rfl
      | running s' => rfl
    simp only [Executes, Alone, hcut]

theorem start_behind {console console' : Console σ}
    (h : console'.output = before ++ console.output) :
    State.Behind before (.start chunk console) (.start chunk console') :=
  ⟨rfl, rfl, rfl, h⟩

/-- A limit cuts a run and one behind earlier lines at the same place. -/
theorem execute_behind (hnatives : host.natives.Oblivious) (n : Nat)
    {console console' : Console σ} (h : console'.output = before ++ console.output) :
    (execute host n chunk console').report =
      (execute host n chunk console).report.behind before := by
  have hrun : Progress.Behind before (runFor host chunk.code n (.start chunk console))
      (runFor host chunk.code n (.start chunk console')) :=
    runFor_behind hnatives n (start_behind h)
  simp only [execute]
  generalize runFor host chunk.code n (.start chunk console) = last,
    runFor host chunk.code n (.start chunk console') = last' at hrun ⊢
  cases hrun with
  | stopped hreport => exact hreport
  | running hlast =>
    -- the limit has cut both, and the pointer tells whether anything was left to do
    simp only [hlast.ip]
    split
    · simp only [State.outcome, Outcome.report, Report.behind, hlast.locals, hlast.output]
    · simp only [State.outcome, Outcome.report, Report.behind, hlast.locals, hlast.output]

/-- A run without a limit ends behind earlier lines as it does without them. -/
theorem ends_behind (hnatives : host.natives.Oblivious) {console console' : Console σ}
    (h : console'.output = before ++ console.output) (report : Report) :
    (∃ outcome, Ends host chunk console' outcome ∧ outcome.report = report) ↔
      ∃ outcome, Ends host chunk console outcome ∧ report = outcome.report.behind before := by
  have hrun : ∀ n, Progress.Behind before (runFor host chunk.code n (.start chunk console))
      (runFor host chunk.code n (.start chunk console')) := by
    intro n
    exact runFor_behind hnatives n (start_behind h)
  constructor
  · rintro ⟨outcome', ⟨n, hn⟩, rfl⟩
    have hboth := hrun n
    rw [hn] at hboth
    generalize hlast : runFor host chunk.code n (.start chunk console) = last at hboth
    cases hboth with
    | stopped hreport => exact ⟨_, ⟨n, hlast⟩, hreport⟩
  · rintro ⟨outcome, ⟨n, hn⟩, rfl⟩
    have hboth := hrun n
    rw [hn] at hboth
    generalize hlast : runFor host chunk.code n (.start chunk console') = last at hboth
    cases hboth with
    | stopped hreport => exact ⟨_, ⟨n, hlast⟩, hreport⟩

/-- A chunk is reported on behind earlier lines as it is without them. -/
theorem alone_behind (hnatives : host.natives.Oblivious) {console console' : Console σ}
    (h : console'.output = before ++ console.output) (report : Report) :
    (∃ outcome, Alone host limit console' chunk outcome ∧ outcome.report = report) ↔
      ∃ outcome, Alone host limit console chunk outcome ∧
        report = outcome.report.behind before := by
  cases limit with
  | none => exact ends_behind hnatives h report
  | some n =>
    simp only [Alone, exists_eq_left', execute_behind hnatives n h]
    exact eq_comm

end

/-- **Nothing but output is left behind.** With natives that look at nothing but their arguments and
only add lines, on any host, with any step limit or none and for any code: a machine that executes
chunks one after the other, from whatever state it is in, shows after each chunk the result and the
locals of executing it alone on an empty console, and its output is the one from before with the
lines of that execution added. -/
theorem inTurn_iff_alone {host : Host σ} (hnatives : host.natives.Oblivious) (limit : Option Nat)
    (state : σ) (s : State σ) (chunks : List Chunk) (reports : List Report) :
    InTurn host limit s chunks reports ↔
      ∃ outcomes, List.Forall₂ (Alone host limit ⟨#[], state⟩) chunks outcomes ∧
        reports = Report.inTurn s.console.output (outcomes.map Outcome.report) := by
  have hempty : ∀ s : State σ, s.console.output = s.console.output ++
      (⟨#[], state⟩ : Console σ).output := fun s => Array.append_empty.symm
  constructor
  · -- the induction is on the executions, the first one first
    intro h
    induction h with
    | nil s => exact ⟨[], .nil, rfl⟩
    | @cons s s' chunk chunks outcome reports hfirst hlocals hconsole hrest ih =>
      rw [executes_iff_alone] at hfirst
      obtain ⟨first, halone, hreport⟩ :=
        (alone_behind hnatives (hempty s) outcome.report).1 ⟨outcome, hfirst, rfl⟩
      obtain ⟨rest, hall, rfl⟩ := ih
      refine ⟨first :: rest, .cons halone hall, ?_⟩
      -- the next chunk finds the lines of this one behind the earlier ones
      have hnext : s'.console.output = s.console.output ++ first.report.output := by
        rw [hconsole]
        exact congrArg Report.output hreport
      rw [List.map_cons, Report.inTurn, hreport, hnext]
  · rintro ⟨outcomes, hall, rfl⟩
    induction hall generalizing s with
    | nil => exact .nil s
    | @cons chunk first chunks rest halone _ ih =>
      obtain ⟨outcome, hexecutes, hreport⟩ :=
        (alone_behind hnatives (hempty s) _).2 ⟨first, halone, rfl⟩
      have hnext : outcome.console.output = s.console.output ++ first.report.output :=
        congrArg Report.output hreport
      -- the state in between may have any pointer and any stack; an empty stack will do
      have hrest := ih ⟨0, [], outcome.locals, outcome.console⟩
      rw [hnext] at hrest
      rw [List.map_cons, Report.inTurn, ← hreport]
      exact .cons (executes_iff_alone.2 hexecutes) rfl rfl hrest

/-- A machine found in the middle of another run prints, fails with an entry left on its stack, is
stopped by its limit in a loop that piles up entries, and then prints again as it did at first. -/
theorem inTurn_iff_alone_printing :
    let host : Host Unit := ⟨Library.standard.operation, .standard, .standard⟩
    let prints : Chunk := ⟨#[.loadBuiltin 0, .newArgs 1, .loadInt 7, .boxInt, .storeArg 0,
      .callRuntime ⟨8⟩, .storeLocal ⟨1⟩, .ret], 2⟩
    let fails : Chunk := ⟨#[.loadInt 1, .loadInt 2, .boxInt, .boxInt], 1⟩
    let loops : Chunk := ⟨#[.loadInt 1, .jump 0], 0⟩
    host.natives.Oblivious ∧
      InTurn host (some 9) ⟨3, [.raw 5], #[.int 6], ⟨#["earlier"], ()⟩⟩
        [prints, fails, loops, prints]
        [⟨.ok (), #[.null, .null], #["earlier", "7"]⟩,
          ⟨.error (unexpected "raw integer" (.boxed (.int 2))), #[.null], #["earlier", "7"]⟩,
          ⟨.error (.stepLimit 9), #[], #["earlier", "7"]⟩,
          ⟨.ok (), #[.null, .null], #["earlier", "7", "7"]⟩] := by
  intro host prints fails loops
  have hnatives : host.natives.Oblivious := Natives.oblivious_standard
  refine ⟨hnatives, (inTurn_iff_alone hnatives (some 9) () _ _ _).2
    ⟨[prints, fails, loops, prints].map (execute host 9 · ⟨#[], ()⟩), ?_, ?_⟩⟩
  · exact .cons rfl (.cons rfl (.cons rfl (.cons rfl .nil)))
  · decide +kernel

end Machine

end StackScript
