import Mathlib.Tactic
import StackScript.Proofs.Agreement
import StackScript.Proofs.CompileLayout
import StackScript.Proofs.Arithmetic

set_option autoImplicit false

/-!
# Compiled programs behave as their evaluation

From the state in which the code of a part of a program starts, the machine does what the evaluation
of that part does (`Simulates`): it reaches the end of the code where the evaluation has a result,
it stops with the error where the evaluation fails, and where a loop takes more rounds than the
evaluation looks at, it is still running after at least as many steps, with the same console. The
last clause is what makes divergence match. The main statement is `program_simulates`.

The code of an expression has no jumps, so there is more to say of it (`Computes`): a value is there
after as many steps as there are instructions, the locals are as before, and an error is one that
the host raises.
-/

namespace StackScript

open Machine (runFor step StandsAt)

/-! ## Simulation of an evaluation -/

/-- From `s`, the machine does what an evaluation with a given result has done. -/
inductive Simulates {σ α : Type} (host : Machine.Host σ) (code : Array Instruction) (rounds : Nat)
    (s : Machine.State σ) (goal : α → Console σ → Machine.State σ → Prop) :
    EStateM.Result Evaluator.Stop (Console σ) α → Prop
  /-- The machine reaches a state that has the result. -/
  | reaches {a : α} {console : Console σ} {n : Nat} {s' : Machine.State σ}
      (hrun : runFor host code n s = .running s') (hgoal : goal a console s') :
      Simulates host code rounds s goal (.ok a console)
  /-- The machine stops with the error. -/
  | fails {e : RunError} {console : Console σ} {n : Nat} {locals : Array Value}
      (hrun : runFor host code n s = .stopped ⟨.error e, locals, console⟩) :
      Simulates host code rounds s goal (.error (.failed e) console)
  /-- The machine goes on for as long as the evaluation looks, and has its console then. -/
  | goesOn {console : Console σ} {n : Nat} {s' : Machine.State σ} (hle : rounds ≤ n)
      (hrun : runFor host code n s = .running s') (hconsole : s'.console = console) :
      Simulates host code rounds s goal (.error .exhausted console)

namespace Simulates

variable {σ α β : Type} {host : Machine.Host σ} {code : Array Instruction} {rounds : Nat}
  {s s' : Machine.State σ} {goal : α → Console σ → Machine.State σ → Prop}
  {r : EStateM.Result Evaluator.Stop (Console σ) α}

theorem mono {rounds' : Nat} (h : Simulates host code rounds s goal r) (hle : rounds' ≤ rounds) :
    Simulates host code rounds' s goal r := by
  cases h with
  | reaches hrun hgoal => exact .reaches hrun hgoal
  | fails hrun => exact .fails hrun
  | goesOn hn hrun hconsole => exact .goesOn (hle.trans hn) hrun hconsole

theorem weaken {goal' : α → Console σ → Machine.State σ → Prop}
    (h : Simulates host code rounds s goal r)
    (hgoal : ∀ a console s', goal a console s' → goal' a console s') :
    Simulates host code rounds s goal' r := by
  cases h with
  | reaches hrun hend => exact .reaches hrun (hgoal _ _ _ hend)
  | fails hrun => exact .fails hrun
  | goesOn hn hrun hconsole => exact .goesOn hn hrun hconsole

/-- Steps before count as steps. -/
theorem after_steps {n : Nat} (hrun : runFor host code n s = .running s')
    (h : Simulates host code rounds s' goal r) : Simulates host code (n + rounds) s goal r := by
  cases h with
  | reaches hrest hgoal => exact .reaches ((Machine.runFor_of_running hrun _).trans hrest) hgoal
  | fails hrest => exact .fails ((Machine.runFor_of_running hrun _).trans hrest)
  | goesOn hn hrest hconsole =>
    exact .goesOn (Nat.add_le_add_left hn n) ((Machine.runFor_of_running hrun _).trans hrest)
      hconsole

/-- A step before. -/
theorem after (hstep : step host code s = .running s')
    (h : Simulates host code rounds s' goal r) : Simulates host code rounds s goal r :=
  (h.after_steps (Machine.runFor_one hstep)).mono (Nat.le_add_left _ _)

/-- One part of an evaluation after the other. -/
theorem bind {goal' : β → Console σ → Machine.State σ → Prop} {m : Evaluator.Eval σ α}
    {f : α → Evaluator.Eval σ β} {console : Console σ}
    (h : Simulates host code rounds s goal (m console))
    (next : ∀ a console' s', goal a console' s' →
      Simulates host code rounds s' goal' (f a console')) :
    Simulates host code rounds s goal' ((m >>= f) console) := by
  generalize hm : m console = r at h
  cases h with
  | reaches hrun hgoal =>
    rw [run_bind_of_ok hm]
    exact ((next _ _ _ hgoal).after_steps hrun).mono (Nat.le_add_left _ _)
  | fails hrun =>
    rw [run_bind_of_error hm]
    exact .fails hrun
  | goesOn hn hrun hconsole =>
    rw [run_bind_of_error hm]
    exact .goesOn hn hrun hconsole

/-- A last step that the evaluation does not take. -/
theorem followed_by {goal' : α → Console σ → Machine.State σ → Prop}
    (h : Simulates host code rounds s goal r)
    (next : ∀ a console s', goal a console s' →
      ∃ s'', step host code s' = .running s'' ∧ goal' a console s'') :
    Simulates host code rounds s goal' r := by
  cases h with
  | reaches hrun hgoal =>
    obtain ⟨s'', hstep, hgoal'⟩ := next _ _ _ hgoal
    exact .reaches ((Machine.runFor_of_running hrun 1).trans (Machine.runFor_one hstep)) hgoal'
  | fails hrun => exact .fails hrun
  | goesOn hn hrun hconsole => exact .goesOn hn hrun hconsole

/-- The evaluation goes on without the machine. -/
theorem done {goal' : β → Console σ → Machine.State σ → Prop} {a : β} {console : Console σ}
    (hgoal : goal' a console s) : Simulates host code rounds s goal' (.ok a console) :=
  .reaches (n := 0) rfl hgoal

end Simulates

/-! ## Computations -/

namespace Machine

/-- The errors with which operations and native functions stop a run. A native function may give
any error, and the console is then the one that it left. -/
inductive Host.Raises {σ : Type} (host : Host σ) (console : Console σ) : RunError → Prop
  | typeError (detail : String) : Raises host console (.typeError detail)
  | notCallable (value : String) : Raises host console (.notCallable value)
  | overflow (operation : String) : Raises host console (.overflow operation)
  | divisionByZero : Raises host console .divisionByZero
  | native {f : Native} {arguments : Array Value} {before : Console σ} {e : RunError}
      (h : host.natives f arguments before = (.error e, console)) : Raises host console e

variable {σ : Type} {host : Host σ}

theorem Host.raises_of_apply {op : Operation} (hop : op.IsBinary) {left right : Value}
    {e : RunError} (h : op.apply left right = .error e) (console : Console σ) :
    host.Raises console e := by
  rcases Operation.error_of_apply hop h with ⟨detail, rfl⟩ | rfl | rfl
  · exact .typeError detail
  · exact .overflow op.name
  · exact .divisionByZero

theorem Host.raises_of_call {callee : Value} {arguments : Array Value}
    {console console' : Console σ} {e : RunError}
    (h : callee.call host.natives arguments console = (.error e, console')) :
    host.Raises console' e := by
  cases callee with
  | native f => exact .native h
  | _ =>
    cases h
    exact .notCallable _

end Machine

/-- From `s`, the machine does in `n` steps what an evaluation with a given result has done. -/
inductive Computes {σ α : Type} (host : Machine.Host σ) (code : Array Instruction)
    (locals : Array Value) (s : Machine.State σ) (n : Nat)
    (goal : α → Console σ → Machine.State σ → Prop) :
    EStateM.Result Evaluator.Stop (Console σ) α → Prop
  /-- After `n` steps the machine is in a state that has the result. -/
  | reaches {a : α} {console : Console σ} {s' : Machine.State σ}
      (hrun : runFor host code n s = .running s') (hgoal : goal a console s') :
      Computes host code locals s n goal (.ok a console)
  /-- By then the machine has stopped with the error, which the host raises, and with the given
  locals. -/
  | fails {e : RunError} {console : Console σ} {m : Nat} (hle : m ≤ n)
      (herror : host.Raises console e)
      (hrun : runFor host code m s = .stopped ⟨.error e, locals, console⟩) :
      Computes host code locals s n goal (.error (.failed e) console)

namespace Computes

variable {σ α β : Type} {host : Machine.Host σ} {code : Array Instruction} {locals : Array Value}
  {s s' : Machine.State σ} {n k : Nat} {goal : α → Console σ → Machine.State σ → Prop}
  {goal' : β → Console σ → Machine.State σ → Prop}
  {r : EStateM.Result Evaluator.Stop (Console σ) α}

/-- Without the number of steps it is a simulation. -/
theorem simulates (h : Computes host code locals s n goal r) (rounds : Nat) :
    Simulates host code rounds s goal r := by
  cases h with
  | reaches hrun hgoal => exact .reaches hrun hgoal
  | fails _ _ hrun => exact .fails hrun

/-- Steps before are counted. -/
theorem after_steps (hrun : runFor host code k s = .running s')
    (h : Computes host code locals s' n goal r) :
    Computes host code locals s (k + n) goal r := by
  cases h with
  | reaches hrest hgoal => exact .reaches ((Machine.runFor_of_running hrun n).trans hrest) hgoal
  | @fails e console m hle herror hrest =>
    exact .fails (Nat.add_le_add_left hle k) herror
      ((Machine.runFor_of_running hrun m).trans hrest)

/-- A step before. -/
theorem after (hstep : step host code s = .running s')
    (h : Computes host code locals s' n goal r) : Computes host code locals s (1 + n) goal r :=
  h.after_steps (Machine.runFor_one hstep)

/-- One part of an evaluation after the other. -/
theorem bind {m : Evaluator.Eval σ α} {f : α → Evaluator.Eval σ β} {console : Console σ}
    (h : Computes host code locals s k goal (m console))
    (next : ∀ a console' s', goal a console' s' →
      Computes host code locals s' n goal' (f a console')) :
    Computes host code locals s (k + n) goal' ((m >>= f) console) := by
  generalize hm : m console = r at h
  cases h with
  | reaches hrun hgoal =>
    rw [run_bind_of_ok hm]
    exact (next _ _ _ hgoal).after_steps hrun
  | fails hle herror hrun =>
    rw [run_bind_of_error hm]
    exact .fails (Nat.le_add_right_of_le hle) herror hrun

/-- The evaluation goes on without the machine. -/
theorem done {a : β} {console : Console σ} (hgoal : goal' a console s) :
    Computes host code locals s 0 goal' (.ok a console) :=
  .reaches rfl hgoal

/-- A last part of the evaluation without the machine. -/
theorem last {m : Evaluator.Eval σ α} {f : α → Evaluator.Eval σ β} {console : Console σ}
    (h : Computes host code locals s n goal (m console))
    (next : ∀ a console' s', goal a console' s' →
      Computes host code locals s' 0 goal' (f a console')) :
    Computes host code locals s n goal' ((m >>= f) console) :=
  h.bind next

end Computes

/-! ## Expressions -/

section

variable {σ : Type} {host : Machine.Host σ} {code : Array Instruction} {library : Library}

/-- The machine finds each operation behind the entry that the library has for it. -/
def Resolves (library : Library) (host : Machine.Host σ) : Prop :=
  ∀ op entry, library.lookup op.name = some entry → host.operation entry = some op

/-- A value on top of the stack at an address. -/
def Pushed (pc : Nat) (stack : List Machine.Entry) (locals : Array Value) (v : Value)
    (console : Console σ) (s : Machine.State σ) : Prop :=
  s = ⟨pc, .boxed v :: stack, locals, console⟩

/-- The names have their values in their slots. -/
def Holds (slots : String → Option Slot) (values : String → Option Value) (locals : Array Value) :
    Prop :=
  ∀ name slot, slots name = some slot →
    ∃ v, values name = some v ∧ locals[slot.index.toNat]? = some v

/-- A binary operation on the two values on top of the stack. -/
theorem binary_computes (hresolves : Resolves library host) {op : Operation} (hop : op.IsBinary)
    {entry : EntryPoint} (hentry : library.lookup op.name = some entry) {pc : Nat}
    (hcode : code[pc]? = some (.callRuntime entry)) (left right : Value)
    (stack : List Machine.Entry) (locals : Array Value) (console : Console σ) :
    Computes host code locals ⟨pc, .boxed right :: .boxed left :: stack, locals, console⟩ 1
      (Pushed (pc + 1) stack locals) (Evaluator.ofResult (op.apply left right) console) := by
  have hstep : step host code ⟨pc, .boxed right :: .boxed left :: stack, locals, console⟩ = _ :=
    Machine.step_binary hop hcode (hresolves op entry hentry)
  cases hresult : op.apply left right with
  | ok v =>
    rw [hresult] at hstep
    exact .reaches (Machine.runFor_one hstep) rfl
  | error e =>
    rw [hresult] at hstep
    exact .fails le_rfl (Machine.Host.raises_of_apply hop hresult console)
      (Machine.runFor_one_of_stopped hstep)

/-- A call of the value below the arguments on top of the stack. -/
theorem call_computes (hresolves : Resolves library host) {entry : EntryPoint}
    (hentry : library.lookup Operation.call.name = some entry) {pc : Nat}
    (hcode : code[pc]? = some (.callRuntime entry)) (callee : Value) (arguments : List Value)
    (stack : List Machine.Entry) (locals : Array Value) (console : Console σ) :
    Computes host code locals
      ⟨pc, .args arguments.toArray :: .boxed callee :: stack, locals, console⟩ 1
      (Pushed (pc + 1) stack locals) (Evaluator.invoke host.natives callee arguments console) := by
  have hstep : step host code
      ⟨pc, .args arguments.toArray :: .boxed callee :: stack, locals, console⟩ = _ :=
    Machine.step_call hcode (hresolves .call entry hentry)
  unfold Evaluator.invoke
  cases hresult : callee.call host.natives arguments.toArray console with
  | mk result console' =>
    rw [hresult] at hstep
    cases result with
    | ok v => exact .reaches (Machine.runFor_one hstep) rfl
    | error e =>
      exact .fails le_rfl (Machine.Host.raises_of_call hresult)
        (Machine.runFor_one_of_stopped hstep)

/-- Arguments on top of the stack at an address: those stored so far, and then the given ones. -/
def Stored (pc : Nat) (stored : List Value) (stack : List Machine.Entry) (locals : Array Value)
    (values : List Value) (console : Console σ) (s : Machine.State σ) : Prop :=
  s = ⟨pc, .args (stored ++ values).toArray :: stack, locals, console⟩

/-- The next argument is stored behind those stored so far. -/
theorem set_next_argument (stored : List Value) (v : Value) (n : Nat)
    (h : stored.length < (stored ++ List.replicate (n + 1) Value.null).toArray.size) :
    (stored ++ List.replicate (n + 1) Value.null).toArray.set stored.length v h =
      (stored ++ [v] ++ List.replicate n Value.null).toArray := by
  apply Array.toList_inj.1
  simp [List.replicate_succ]

mutual

/-- The code of an expression pushes its value, in as many steps as it has instructions. -/
theorem expr_computes (hresolves : Resolves library host) {slots : String → Option Slot}
    {values : String → Option Value} {locals : Array Value} (hholds : Holds slots values locals) :
    ∀ (e : Expr) {is : List Instruction}, Layout.expr library slots e = .ok is →
    ∀ {pc : Nat}, StandsAt code pc is → ∀ (stack : List Machine.Entry) (console : Console σ),
    Computes host code locals ⟨pc, stack, locals, console⟩ is.length
      (Pushed (pc + is.length) stack locals) (Evaluator.expr host.natives values e console)
  | .binary left text right position, is, hlay, pc, hcode, stack, console => by
    obtain ⟨l, r, op, entry, hl, hr, hop, hentry, rfl⟩ := Layout.expr_binary hlay
    have hhead := hcode.right.head
    rw [List.length_append, ← Nat.add_assoc] at hhead
    simp only [List.length_append, List.length_singleton, ← Nat.add_assoc]
    rw [Nat.add_assoc l.length, Evaluator.expr]
    refine (expr_computes hresolves hholds left hl hcode.left.left stack console).bind ?_
    rintro a console₁ _ rfl
    refine (expr_computes hresolves hholds right hr hcode.left.right (.boxed a :: stack)
      console₁).bind ?_
    rintro b console₂ _ rfl
    simp only [hop, Evaluator.ofOption, pure_bind]
    exact binary_computes hresolves (Operation.isBinary_of_ofOperator? hop) hentry hhead a b stack
      locals console₂
  | .call callee arguments position, is, hlay, pc, hcode, stack, console => by
    obtain ⟨c, a, entry, hc, hcount, ha, hentry, rfl⟩ := Layout.expr_call hlay
    have hargs := hcode.left.right
    have hhead := hcode.right.head
    simp only [List.length_append, List.length_singleton, ← Nat.add_assoc] at hargs hhead
    simp only [List.length_append, List.length_singleton, ← Nat.add_assoc]
    rw [Nat.add_assoc c.length, Nat.add_assoc c.length, Nat.add_assoc 1, Evaluator.expr]
    refine (expr_computes hresolves hholds callee hc hcode.left.left.left stack console).bind ?_
    rintro f console₁ _ rfl
    -- the callee stays below the collection while the arguments are evaluated above both
    refine .after (Machine.step_newArgs hcode.left.left.right.head) ?_
    rw [toNat_toUInt16 hcount]
    refine (exprs_computes hresolves hholds arguments ha hargs [] rfl (by omega)
      (.boxed f :: stack) console₁).bind ?_
    rintro vs console₂ _ rfl
    exact call_computes hresolves hentry hhead f vs stack locals console₂
  | .parens inner position, is, hlay, pc, hcode, stack, console => by
    rw [Layout.expr_parens] at hlay
    rw [Evaluator.expr]
    exact expr_computes hresolves hholds inner hlay hcode stack console
  | .number text position, is, hlay, pc, hcode, stack, console => by
    obtain ⟨n, hn, rfl⟩ := Layout.expr_number hlay
    rw [Evaluator.expr]
    simp only [hn, Evaluator.ofOption, pure_bind]
    refine .after (Machine.step_loadInt hcode.head) ?_
    exact .after (Machine.step_boxInt hcode.tail.head) (.done rfl)
  | .identifier name position, is, hlay, pc, hcode, stack, console => by
    obtain ⟨slot, hslot, rfl⟩ := Layout.expr_identifier hlay
    obtain ⟨v, hv, hlocal⟩ := hholds name slot hslot
    rw [Evaluator.expr]
    simp only [hv, Evaluator.ofOption]
    exact .after (Machine.step_loadLocal hcode.head hlocal) (.done rfl)
  | .member object name position, is, hlay, pc, hcode, stack, console =>
    (Layout.expr_member hlay).elim

/-- The code of arguments stores their values. -/
theorem exprs_computes (hresolves : Resolves library host) {slots : String → Option Slot}
    {values : String → Option Value} {locals : Array Value} (hholds : Holds slots values locals) :
    ∀ (es : List Expr) {index : Nat} {is : List Instruction},
    Layout.exprs library slots index es = .ok is → ∀ {pc : Nat}, StandsAt code pc is →
    ∀ (stored : List Value), stored.length = index → index + es.length < 65536 →
    ∀ (stack : List Machine.Entry) (console : Console σ),
    Computes host code locals
      ⟨pc, .args (stored ++ List.replicate es.length Value.null).toArray :: stack, locals, console⟩
      is.length (Stored (pc + is.length) stored stack locals)
      (Evaluator.exprs host.natives values es console)
  | [], index, is, hlay, pc, hcode, stored, hstored, hfits, stack, console => by
    cases hlay
    rw [Evaluator.exprs]
    exact .done rfl
  | argument :: rest, index, is, hlay, pc, hcode, stored, hstored, hfits, stack, console => by
    obtain ⟨a, r, ha, hr, rfl⟩ := Layout.exprs_cons hlay
    rw [List.length_cons] at hfits
    have hrest := hcode.right
    simp only [List.length_append, List.length_singleton, ← Nat.add_assoc] at hrest
    simp only [List.length_append, List.length_singleton, ← Nat.add_assoc]
    rw [Nat.add_assoc a.length, Evaluator.exprs]
    refine (expr_computes hresolves hholds argument ha hcode.left.left _ console).bind ?_
    rintro v console₁ _ rfl
    -- the next argument goes behind those stored so far, in the place of the first null
    have hindex : index.toUInt16.toNat = stored.length := by
      rw [hstored, toNat_toUInt16 (by omega)]
    have hlt : index.toUInt16.toNat <
        (stored ++ List.replicate (argument :: rest).length Value.null).toArray.size := by
      simp [hindex]
    refine .after (Machine.step_storeArg hcode.left.right.head hlt) ?_
    simp only [hindex, List.length_cons, set_next_argument]
    refine (exprs_computes hresolves hholds rest hr hrest (stored ++ [v]) (by simp [hstored])
      (by omega) stack console₁).last ?_
    rintro vs console₂ _ rfl
    refine .done ?_
    rw [Stored, ← List.append_cons stored v vs]

end

/-- The code of an expression pushes its value. -/
theorem expr_simulates (hresolves : Resolves library host) (rounds : Nat)
    {slots : String → Option Slot} {values : String → Option Value} {locals : Array Value}
    (hholds : Holds slots values locals) (e : Expr) {is : List Instruction}
    (hlay : Layout.expr library slots e = .ok is) {pc : Nat} (hcode : StandsAt code pc is)
    (stack : List Machine.Entry) (console : Console σ) :
    Simulates host code rounds ⟨pc, stack, locals, console⟩
      (Pushed (pc + is.length) stack locals) (Evaluator.expr host.natives values e console) :=
  (expr_computes hresolves hholds e hlay hcode stack console).simulates rounds

/-- A truth value on top of the stack at an address. -/
def Tested (pc : Nat) (locals : Array Value) (v : Value) (console : Console σ)
    (s : Machine.State σ) : Prop :=
  s = ⟨pc, [.truth v.truth], locals, console⟩

/-- The code of a condition pushes the truth value of its value. -/
theorem condition_simulates (hresolves : Resolves library host) (rounds : Nat)
    {slots : String → Option Slot} {values : String → Option Value} {locals : Array Value}
    (hholds : Holds slots values locals) {test : Expr} {is : List Instruction}
    (hlay : Layout.condition library slots test = .ok is) {pc : Nat} (hcode : StandsAt code pc is)
    (console : Console σ) :
    Simulates host code rounds ⟨pc, [], locals, console⟩ (Tested (pc + is.length) locals)
      (Evaluator.expr host.natives values test console) := by
  obtain ⟨t, entry, ht, hentry, rfl⟩ := Layout.condition_eq_ok hlay
  refine (expr_simulates hresolves rounds hholds test ht hcode.left [] console).followed_by ?_
  rintro v console₁ _ rfl
  refine ⟨_, Machine.step_toBool hcode.right.head (hresolves .toBool entry hentry), ?_⟩
  rw [Tested, List.length_append, List.length_singleton, Nat.add_assoc]

/-! ## Statements -/

/-- The machine is between statements at an address, and its slots hold the environment. -/
def Arrived (count pc : Nat) (b : Blocks) (env : Frames Value) (console : Console σ)
    (s : Machine.State σ) : Prop :=
  ∃ locals, s = ⟨pc, [], locals, console⟩ ∧ Agrees count b env locals

/-- A loop is simulated if each round is: a round that has a next one ends a step before the head of
the loop. -/
theorem loop_simulates {rounds : Nat}
    {round : Frames Value → Evaluator.Eval σ (Option (Frames Value))}
    {head goal : Frames Value → Console σ → Machine.State σ → Prop}
    (hconsole : ∀ env console s, head env console s → s.console = console)
    (hround : ∀ env console s, head env console s →
      Simulates host code rounds s
        (fun next console' s' =>
          match next with
          | some env' => ∃ s'', step host code s' = .running s'' ∧ head env' console' s''
          | none => goal env console' s')
        (round env console)) :
    ∀ n ≤ rounds, ∀ env console s, head env console s →
      Simulates host code n s goal (Evaluator.loop round n env console) := by
  intro n
  -- induction on the rounds that the evaluation still looks at; each of them is at least the step
  -- back to the head, which is what keeps the machine running as long as the evaluation looks
  induction n with
  | zero =>
    intro _ env console s hhead
    exact .goesOn (n := 0) le_rfl rfl (hconsole env console s hhead)
  | succ n ih =>
    intro hn env console s hhead
    rw [Evaluator.loop]
    refine ((hround env console s hhead).mono hn).bind ?_
    intro next console' s' h
    cases next with
    | none => exact .done h
    | some env' =>
      obtain ⟨s'', hstep, hhead'⟩ := h
      rw [Nat.add_comm]
      exact (ih (Nat.le_of_succ_le hn) env' console' s'' hhead').after_steps
        (Machine.runFor_one hstep)

theorem Agrees.holds {count : Nat} {b : Blocks} {env : Frames Value} {locals : Array Value}
    (h : Agrees count b env locals) : Holds b.resolve? env.lookup? locals :=
  fun _ _ => h.lookup

/-- Popping a value into a slot. -/
theorem store_simulates {α : Type} {rounds pc : Nat} {slot : Slot} {v : Value}
    {locals : Array Value} {console : Console σ} {goal : α → Console σ → Machine.State σ → Prop}
    {r : EStateM.Result Evaluator.Stop (Console σ) α}
    (hcode : code[pc]? = some (.storeLocal slot)) (hlt : slot.index.toNat < locals.size)
    (h : Simulates host code rounds
      ⟨pc + 1, [], locals.set slot.index.toNat v hlt, console⟩ goal r) :
    Simulates host code rounds ⟨pc, [.boxed v], locals, console⟩ goal r :=
  .after (Machine.step_storeLocal hcode hlt) h

variable {count : Nat}

mutual

/-- The code of a statement does what the statement does. -/
theorem stmt_simulates (hresolves : Resolves library host) (hsize : code.size < 2 ^ 32)
    (rounds : Nat) :
    ∀ (s : Stmt) {pc : Nat} {b b' : Blocks} {is : List Instruction},
    Layout.stmt library pc b s = .ok (is, b') → StandsAt code pc is → b'.used ≤ count →
    ∀ {env : Frames Value} {locals : Array Value}, Agrees count b env locals →
    ∀ console : Console σ,
    Simulates host code rounds ⟨pc, [], locals, console⟩ (Arrived count (pc + is.length) b')
      (Evaluator.stmt host.natives rounds env s console)
  | .expression value position, pc, b, b', is, hlay, hcode, hcount, env, locals, hagree,
      console => by
    obtain ⟨v, hv, rfl, rfl⟩ := Layout.stmt_expression hlay
    rw [Evaluator.stmt]
    refine (expr_simulates hresolves rounds hagree.holds value hv hcode.left [] console).bind ?_
    rintro a console₁ _ rfl
    refine .after (Machine.step_pop hcode.right.head) (.done ⟨locals, ?_, hagree⟩)
    rw [List.length_append, List.length_singleton, Nat.add_assoc]
  | .declare name value position, pc, b, b', is, hlay, hcode, hcount, env, locals, hagree,
      console => by
    obtain ⟨v, hv, hroom, rfl, rfl⟩ := Layout.stmt_declare hlay
    rw [Evaluator.stmt]
    refine (expr_simulates hresolves rounds hagree.holds value hv hcode.left [] console).bind ?_
    rintro a console₁ _ rfl
    have hlt : (slotAt b.used).index.toNat < locals.size := by
      rw [toNat_slotAt hroom, hagree.size]
      exact hcount
    refine store_simulates hcode.right.head hlt
      (.done ⟨_, ?_, hagree.declare hroom hcount name a hlt⟩)
    rw [List.length_append, List.length_singleton, Nat.add_assoc]
    rfl
  | .assign name value position, pc, b, b', is, hlay, hcode, hcount, env, locals, hagree,
      console => by
    obtain ⟨slot, v, hslot, hv, rfl, rfl⟩ := Layout.stmt_assign hlay
    obtain ⟨old, hold, hlocal⟩ := hagree.lookup hslot
    rw [Evaluator.stmt]
    refine (expr_simulates hresolves rounds hagree.holds value hv hcode.left [] console).bind ?_
    rintro a console₁ _ rfl
    simp only [hold, Evaluator.ofOption, pure_bind]
    have hlt : slot.index.toNat < locals.size := (Array.getElem?_eq_some_iff.1 hlocal).1
    refine store_simulates hcode.right.head hlt (.done ⟨_, ?_, hagree.assign hslot a hlt⟩)
    rw [List.length_append, List.length_singleton, Nat.add_assoc]
  | .ifThen test body position, pc, b, b', is, hlay, hcode, hcount, env, locals, hagree,
      console => by
    obtain ⟨t, c, inner, ht, hc, rfl, rfl⟩ := Layout.stmt_ifThen hlay
    have hafter : pc + (t ++ [Instruction.jumpIfFalse (pc + t.length + 1 + c.length).toUInt32] ++
        c).length = pc + t.length + 1 + c.length := by
      simp only [List.length_append, List.length_singleton, ← Nat.add_assoc]
    have hend := hcode.le_size (by simp)
    rw [hafter] at hend ⊢
    rw [Evaluator.stmt]
    refine (condition_simulates hresolves rounds hagree.holds ht hcode.left.left console).bind ?_
    rintro v console₁ _ rfl
    refine .after (Machine.step_jumpIfFalse hcode.left.right.head) ?_
    cases htruth : v.truth with
    | true =>
      have hbody := hcode.right
      rw [List.length_append, List.length_singleton, ← Nat.add_assoc] at hbody
      refine (stmts_simulates hresolves hsize rounds body hc hbody hcount hagree.enter
        console₁).bind ?_
      rintro env' console₂ _ ⟨locals', rfl, hagree'⟩
      exact .done ⟨locals', rfl, hagree'.leave hagree.valid (Layout.extends_stmts body hc)⟩
    | false =>
      have hvalid := (Layout.extends_stmts body hc).leave.valid hagree.valid
      rw [toNat_toUInt32 (by omega)]
      exact .done ⟨locals, rfl, hagree.reuse rfl hvalid hcount⟩
  | .whileDo test body position, pc, b, b', is, hlay, hcode, hcount, env, locals, hagree,
      console => by
    obtain ⟨t, c, inner, ht, hc, rfl, rfl⟩ := Layout.stmt_whileDo hlay
    have hextends := Layout.extends_stmts body hc
    have hvalid := hextends.leave.valid hagree.valid
    have hafter : pc + (t ++ [Instruction.jumpIfFalse
        (pc + t.length + 1 + c.length + 1).toUInt32] ++ c ++
        [Instruction.jump pc.toUInt32]).length =
        pc + t.length + 1 + c.length + 1 := by
      simp only [List.length_append, List.length_singleton, ← Nat.add_assoc]
    have hend := hcode.le_size (by simp)
    rw [hafter] at hend ⊢
    rw [Evaluator.stmt]
    -- at the head of the loop the slots hold the environment, with the blocks from before the loop
    refine loop_simulates ?_ ?_ rounds le_rfl env console _
      (show Arrived count pc b env console _ from ⟨locals, rfl, hagree⟩)
    · rintro env console _ ⟨locals, rfl, -⟩
      rfl
    rintro env console _ ⟨locals, rfl, hagree⟩
    refine (condition_simulates hresolves rounds hagree.holds ht hcode.left.left.left
      console).bind ?_
    rintro v console₁ _ rfl
    refine .after (Machine.step_jumpIfFalse hcode.left.left.right.head) ?_
    cases htruth : v.truth with
    | true =>
      have hbody := hcode.left.right
      rw [List.length_append, List.length_singleton, ← Nat.add_assoc] at hbody
      refine (stmts_simulates hresolves hsize rounds body hc hbody hcount hagree.enter
        console₁).bind ?_
      rintro env' console₂ _ ⟨locals', rfl, hagree'⟩
      have hjump := hcode.right.head
      simp only [List.length_append, List.length_singleton, ← Nat.add_assoc] at hjump
      refine .done ⟨_, Machine.step_jump hjump, locals', ?_,
        (hagree'.leave hagree.valid hextends).reuse rfl hagree.valid hagree.room⟩
      rw [toNat_toUInt32 (by omega)]
    | false =>
      rw [toNat_toUInt32 (by omega)]
      exact .done ⟨locals, rfl, hagree.reuse rfl hvalid hcount⟩
  | .switch subject cases position, pc, b, b', is, hlay, hcode, hcount, env, locals, hagree,
      console => by
    obtain ⟨v, c, hv, hroom, hc, rfl⟩ := Layout.stmt_switch hlay
    have hextends := Layout.extends_arms cases hc
    have hused : b.used < count := lt_of_lt_of_le (Nat.lt_succ_self _)
      (hextends.used_le.trans hcount)
    rw [Evaluator.stmt]
    refine (expr_simulates hresolves rounds hagree.holds subject hv hcode.left.left [] console).bind
      ?_
    rintro a console₁ _ rfl
    have hlt : (slotAt b.used).index.toNat < locals.size := by
      rw [toNat_slotAt hroom, hagree.size]
      exact hused
    refine store_simulates hcode.left.right.head hlt ?_
    have harms := hcode.right
    rw [List.length_append, List.length_singleton, ← Nat.add_assoc] at harms
    have hdone : pc + v.length + 1 + c.length = pc + v.length + 1 + Layout.armsSize cases := by
      rw [Layout.length_arms cases hc]
    have hend : pc + (v ++ [Instruction.storeLocal ⟨b.used.toUInt16⟩] ++ c).length =
        pc + v.length + 1 + Layout.armsSize cases := by
      rw [← hdone]
      simp only [List.length_append, List.length_singleton, ← Nat.add_assoc]
    rw [hend]
    exact arms_simulates hresolves hsize rounds cases hc harms hdone hcount
      (hagree.fresh hroom hused a hlt) (by simp [slotAt]) console₁

theorem stmts_simulates (hresolves : Resolves library host) (hsize : code.size < 2 ^ 32)
    (rounds : Nat) :
    ∀ (ss : List Stmt) {pc : Nat} {b b' : Blocks} {is : List Instruction},
    Layout.stmts library pc b ss = .ok (is, b') → StandsAt code pc is → b'.used ≤ count →
    ∀ {env : Frames Value} {locals : Array Value}, Agrees count b env locals →
    ∀ console : Console σ,
    Simulates host code rounds ⟨pc, [], locals, console⟩ (Arrived count (pc + is.length) b')
      (Evaluator.stmts host.natives rounds env ss console)
  | [], pc, b, b', is, hlay, hcode, hcount, env, locals, hagree, console => by
    cases hlay
    rw [Evaluator.stmts]
    exact .done ⟨locals, rfl, hagree⟩
  | first :: rest, pc, b, b', is, hlay, hcode, hcount, env, locals, hagree, console => by
    obtain ⟨c, c', mid, hc, hc', rfl⟩ := Layout.stmts_cons hlay
    have hmid : mid.used ≤ count := (Layout.extends_stmts rest hc').used_le.trans hcount
    rw [Evaluator.stmts, List.length_append, ← Nat.add_assoc]
    refine (stmt_simulates hresolves hsize rounds first hc hcode.left hmid hagree console).bind ?_
    rintro env' console₁ _ ⟨locals', rfl, hagree'⟩
    exact stmts_simulates hresolves hsize rounds rest hc' hcode.right hcount hagree' console₁

theorem arms_simulates (hresolves : Resolves library host) (hsize : code.size < 2 ^ 32)
    (rounds : Nat) {slot : Slot} {done : Nat} {subject : Value} :
    ∀ (as : List Arm) {pc : Nat} {b b' : Blocks} {is : List Instruction},
    Layout.arms library slot done pc b as = .ok (is, b') → StandsAt code pc is →
    pc + is.length = done → b'.used ≤ count →
    ∀ {env : Frames Value} {locals : Array Value}, Agrees count b env locals →
    locals[slot.index.toNat]? = some subject → ∀ console : Console σ,
    Simulates host code rounds ⟨pc, [], locals, console⟩ (Arrived count done b')
      (Evaluator.arms host.natives rounds env subject as console)
  | [], pc, b, b', is, hlay, hcode, hdone, hcount, env, locals, hagree, hsubject, console => by
    cases hlay
    rw [Evaluator.arms, ← hdone]
    exact .done ⟨locals, rfl, hagree⟩
  | .case value body :: rest, pc, b, b', is, hlay, hcode, hdone, hcount, env, locals, hagree,
      hsubject, console => by
    obtain ⟨_, c', mid, harm, hrest, rfl⟩ := Layout.arms_cons hlay
    obtain ⟨v, eq, test, c, inner, hv, heq, htest, hc, rfl, rfl⟩ := Layout.arm_case harm
    have hextends := Layout.extends_stmts body hc
    have hmid := hextends.leave.valid hagree.valid
    have hlast := Layout.extends_arms rest hrest
    have hinner : inner.used ≤ count := hlast.used_le.trans hcount
    have hend := hcode.le_size (by simp)
    have hbody := hcode.left.left.right
    have hjump := hcode.left.right.head
    have hnext := hcode.right
    have hfour : ∀ i₁ i₂ i₃ i₄ : Instruction, [i₁, i₂, i₃, i₄].length = 4 := fun _ _ _ _ => rfl
    simp only [List.length_append, hfour, ← Nat.add_assoc] at hbody hjump
    simp only [List.length_append, List.length_singleton, hfour, ← Nat.add_assoc] at hnext hrest
    simp only [List.length_append, List.length_singleton, hfour, ← Nat.add_assoc] at hdone hend
    rw [Evaluator.arms]
    refine (expr_simulates hresolves rounds hagree.holds value hv hcode.left.left.left.left []
      console).bind ?_
    rintro a console₁ _ rfl
    have hcase := hcode.left.left.left.right
    refine .after (Machine.step_loadLocal hcase.head hsubject) ?_
    -- the case value is below the subject, so it is the left operand
    have hsame : step host code ⟨pc + v.length + 1, [.boxed subject, .boxed a], locals, console₁⟩ =
        .running ⟨pc + v.length + 1 + 1, [.boxed (.bool (a = subject))], locals, console₁⟩ :=
      Machine.step_binary ⟨by decide, by decide⟩ hcase.tail.head (hresolves .eq eq heq)
    refine .after hsame ?_
    refine .after (Machine.step_toBool hcase.tail.tail.head (hresolves .toBool test htest)) ?_
    refine .after (Machine.step_jumpIfFalse hcase.tail.tail.tail.head) ?_
    simp only [Operation.apply_eq, Evaluator.ofResult, pure_bind, Value.truth]
    -- a case that is taken jumps to the end behind its body; any other goes on at the next arm
    by_cases htaken : a = subject
    · simp only [htaken, decide_true, if_true]
      refine (stmts_simulates hresolves hsize rounds body hc hbody hinner hagree.enter
        console₁).bind ?_
      rintro env' console₂ _ ⟨locals', rfl, hagree'⟩
      refine .after (Machine.step_jump hjump) (.done ⟨locals', ?_,
        (hagree'.leave hagree.valid hextends).reuse (Layout.frames_arms hrest) (hlast.valid hmid)
          hcount⟩)
      rw [toNat_toUInt32 (by omega)]
    · simp only [htaken, decide_false, Bool.false_eq_true, if_false, Value.bool.injEq]
      rw [toNat_toUInt32 (by omega)]
      exact arms_simulates hresolves hsize rounds rest hrest hnext hdone hcount
        (hagree.reuse rfl hmid hinner) hsubject console₁
  | .otherwise body :: rest, pc, b, b', is, hlay, hcode, hdone, hcount, env, locals, hagree,
      hsubject, console => by
    obtain ⟨_, c', mid, harm, hrest, rfl⟩ := Layout.arms_cons hlay
    obtain ⟨c, inner, hc, rfl, rfl⟩ := Layout.arm_otherwise harm
    have hextends := Layout.extends_stmts body hc
    have hmid := hextends.leave.valid hagree.valid
    have hlast := Layout.extends_arms rest hrest
    have hend := hcode.le_size (by simp)
    rw [hdone] at hend
    rw [Evaluator.arms]
    refine (stmts_simulates hresolves hsize rounds body hc hcode.left.left
      (hlast.used_le.trans hcount) hagree.enter console).bind ?_
    rintro env' console₁ _ ⟨locals', rfl, hagree'⟩
    refine .after (Machine.step_jump hcode.left.right.head) (.done ⟨locals', ?_,
      (hagree'.leave hagree.valid hextends).reuse (Layout.frames_arms hrest) (hlast.valid hmid)
        hcount⟩)
    rw [toNat_toUInt32 (by omega)]

end

/-! ## Programs -/

/-- The code that installs builtins binds them in order. -/
theorem builtins_simulates (rounds : Nat) {total : Nat} :
    ∀ (entries : List (String × Value)) {index pc : Nat} {b b' : Blocks} {is : List Instruction},
    Layout.builtins total index b (entries.map Prod.fst) = .ok (is, b') → StandsAt code pc is →
    b'.used ≤ count →
    (∀ k entry, entries[k]? = some entry → host.builtins.get? (index + k) = some entry) →
    ∀ {env : Frames Value} {locals : Array Value}, Agrees count b env locals →
    ∀ console : Console σ,
    Simulates host code rounds ⟨pc, [], locals, console⟩ (Arrived count (pc + is.length) b')
      (.ok (entries.foldl (fun env entry => env.insert entry.1 entry.2) env) console)
  | [], index, pc, b, b', is, hlay, hcode, hcount, htable, env, locals, hagree, console => by
    cases hlay
    exact .done ⟨locals, rfl, hagree⟩
  | (name, v) :: rest, index, pc, b, b', is, hlay, hcode, hcount, htable, env, locals, hagree,
      console => by
    obtain ⟨c, hindex, hroom, hc, rfl⟩ := Layout.builtins_cons hlay
    have hused : b.used < count := lt_of_lt_of_le (Nat.lt_succ_self _)
      ((Layout.extends_builtins _ hc).used_le.trans hcount)
    have hlt : (slotAt b.used).index.toNat < locals.size := by
      rw [toNat_slotAt hroom, hagree.size]
      exact hused
    have hentry : host.builtins.get? index.toUInt16.toNat = some (name, v) := by
      rw [toNat_toUInt16 hindex]
      exact htable 0 (name, v) rfl
    refine .after (Machine.step_loadBuiltin hcode.head hentry) ?_
    refine store_simulates hcode.tail.head hlt ?_
    have hrest := builtins_simulates rounds rest hc hcode.tail.tail hcount
      (fun k entry hk => by
        rw [Nat.add_assoc, Nat.add_comm 1 k]
        exact htable (k + 1) entry hk)
      (hagree.declare hroom hused name v hlt) console
    have hlength : pc + (Instruction.loadBuiltin index.toUInt16 ::
        Instruction.storeLocal ⟨b.used.toUInt16⟩ :: c).length = pc + 1 + 1 + c.length := by
      simp only [List.length_cons]
      omega
    rw [hlength]
    exact hrest

end

/-- A compiled program does what its evaluation does, up to its last instruction. -/
theorem program_simulates {σ : Type} {library : Library} {table : BuiltinTable}
    {host : Machine.Host σ} {p : Program} {chunk : Chunk} (hresolves : Resolves library host)
    (htable : host.builtins = table)
    (hlay : Layout.program library table.names p.statements = .ok chunk)
    (hsize : chunk.code.size < 2 ^ 32) (rounds : Nat) (console : Console σ) :
    Simulates host chunk.code rounds (.start chunk console)
      (fun _ console' s => ∃ pc locals, s = ⟨pc, [], locals, console'⟩ ∧
        chunk.code[pc]? = some .ret)
      (Evaluator.program host.natives table rounds p console) := by
  obtain ⟨start, b₁, c, b₂, hstart, hc, rfl⟩ := Layout.program_eq_ok hlay
  have hcode := Machine.standsAt_toArray (start ++ c ++ [Instruction.ret])
  have hextends := Layout.extends_stmts p.statements hc
  -- before the builtins are installed no name is bound, so any values will do
  have hagree : Agrees b₂.used {} {} (Array.replicate b₂.used Value.null) := by
    refine ⟨.empty, Array.size_replicate, Nat.zero_le _, ?_⟩
    exact .cons (.empty _) .nil
  have hentries : ∀ k entry, table.entries.toList[k]? = some entry →
      host.builtins.get? (0 + k) = some entry := by
    intro k entry hk
    rw [Nat.zero_add, htable, BuiltinTable.get?, ← Array.getElem?_toList]
    exact hk
  have hbuiltins := builtins_simulates rounds table.entries.toList hstart hcode.left.left
    hextends.used_le hentries hagree console
  cases hbuiltins with
  | reaches hrun harrived =>
    obtain ⟨locals, rfl, hagree₁⟩ := harrived
    have hbody := hcode.left.right
    rw [← Nat.zero_add start.length] at hc
    have hstmts := stmts_simulates hresolves hsize rounds p.statements hc hbody le_rfl hagree₁
      console
    refine ((hstmts.weaken ?_).after_steps hrun).mono (Nat.le_add_left _ _)
    rintro env console' _ ⟨locals', rfl, -⟩
    have hret := hcode.right.head
    rw [List.length_append, ← Nat.add_assoc] at hret
    exact ⟨_, locals', rfl, hret⟩

end StackScript
