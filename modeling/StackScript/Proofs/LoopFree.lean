import Mathlib.Tactic
import StackScript.Proofs.CodeShape
import StackScript.Proofs.StepLimits

set_option autoImplicit false

/-!
# Programs without loops

In the code of a program without loops every instruction leads to a later one inside the code
(`LeadsForward`), for the backward jumps of compiled code are those of its loops. So the addresses
along a run increase, whatever the machine is given besides the code: no instruction is performed
twice, and the run ends within as many steps as there are instructions. The main statement is
`Program.ends_of_loopFree`.
-/

namespace StackScript

/-! ## Trees without loops -/

mutual

/-- Whether there is no loop in a statement, at any depth. -/
def Stmt.loopFree : Stmt → Bool
  | .expression _ _ => true
  | .declare _ _ _ => true
  | .assign _ _ _ => true
  | .ifThen _ body _ => Stmt.allLoopFree body
  | .whileDo _ _ _ => false
  | .switch _ cases _ => Arm.allLoopFree cases

/-- Whether there is no loop in any of the statements. -/
def Stmt.allLoopFree : List Stmt → Bool
  | [] => true
  | first :: rest => first.loopFree && Stmt.allLoopFree rest

/-- Whether there is no loop in an arm. -/
def Arm.loopFree : Arm → Bool
  | .case _ body => Stmt.allLoopFree body
  | .otherwise body => Stmt.allLoopFree body

/-- Whether there is no loop in any of the arms. -/
def Arm.allLoopFree : List Arm → Bool
  | [] => true
  | first :: rest => first.loopFree && Arm.allLoopFree rest

end

/-- Whether there is no loop anywhere in a program. -/
def Program.loopFree (p : Program) : Bool := Stmt.allLoopFree p.statements

namespace Layout

mutual

theorem stmtLoops_of_loopFree : ∀ (s : Stmt) (pc : Nat), s.loopFree = true → stmtLoops pc s = []
  | .expression _ _, _, _ => rfl
  | .declare _ _ _, _, _ => rfl
  | .assign _ _ _, _, _ => rfl
  | .ifThen _ body _, _, h => stmtsLoops_of_loopFree body _ h
  | .whileDo _ _ _, _, h => nomatch h
  | .switch _ cases _, _, h => armsLoops_of_loopFree cases _ h

theorem stmtsLoops_of_loopFree :
    ∀ (ss : List Stmt) (pc : Nat), Stmt.allLoopFree ss = true → stmtsLoops pc ss = []
  | [], _, _ => rfl
  | first :: rest, pc, h => by
    rw [Stmt.allLoopFree, Bool.and_eq_true] at h
    rw [stmtsLoops, stmtLoops_of_loopFree first pc h.1, stmtsLoops_of_loopFree rest _ h.2]
    rfl

theorem armLoops_of_loopFree : ∀ (a : Arm) (pc : Nat), a.loopFree = true → armLoops pc a = []
  | .case _ body, _, h => stmtsLoops_of_loopFree body _ h
  | .otherwise body, _, h => stmtsLoops_of_loopFree body _ h

theorem armsLoops_of_loopFree :
    ∀ (as : List Arm) (pc : Nat), Arm.allLoopFree as = true → armsLoops pc as = []
  | [], _, _ => rfl
  | first :: rest, pc, h => by
    rw [Arm.allLoopFree, Bool.and_eq_true] at h
    rw [armsLoops, armLoops_of_loopFree first pc h.1, armsLoops_of_loopFree rest _ h.2]
    rfl

end

end Layout

/-! ## Code that leads forward -/

/-- Every instruction leads only to later addresses, and these are inside the code. -/
def LeadsForward (code : Array Instruction) : Prop :=
  ∀ pc i pc', code[pc]? = some i → i.Goes pc pc' → pc < pc' ∧ pc' < code.size

/-- Where there are no backward jumps, no instruction is one. -/
theorem eachAt_of_backJumps {pc : Nat} {is : List Instruction} (h : backJumps pc is = []) :
    EachAt (fun pc i => i.backJump pc = []) pc is := by
  induction is generalizing pc with
  | nil => exact .nil
  | cons i is ih =>
    rw [backJumps, List.append_eq_nil_iff] at h
    exact .cons h.1 (ih h.2)

/-- A jump that is not a backward one leads forward. -/
theorem lt_of_backJump {a : UInt32} {pc : Nat} (h : (Instruction.jump a).backJump pc = []) :
    pc < a.toNat := by
  by_contra hle
  have hjump : (Instruction.jump a).backJump pc = [(pc, a.toNat)] := if_pos (Nat.le_of_not_lt hle)
  rw [h] at hjump
  cases hjump

/-- Well-formed code without loops leads forward. -/
theorem Shaped.leadsForward {library : Library} {chunk : Chunk} {builtins : Nat}
    {body : List Instruction} (hbody : chunk.code.toList = body ++ [Instruction.ret])
    (h : Shaped library chunk.code chunk.localCount builtins 0 [] [] [] body) :
    LeadsForward chunk.code := by
  intro pc i pc' hi hgoes
  have hsize : chunk.code.size = body.length + 1 := by
    rw [← Array.length_toList, hbody, List.length_append, List.length_singleton]
  rcases h.ret_or_legal hbody hi with rfl | hlegal
  · -- a return leads nowhere
    rcases hgoes with ⟨-, hret⟩ | ⟨hop, -⟩
    · exact absurd rfl hret
    · rcases hop with hop | hop <;> cases hop
  -- an instruction other than the return stands in the body
  have hin : body[pc]? = some i := by
    rw [← Array.getElem?_toList, hbody] at hi
    by_cases hpc : pc < body.length
    · rwa [List.getElem?_append_left hpc] at hi
    · rw [List.getElem?_append_right (Nat.le_of_not_lt hpc)] at hi
      exact absurd (congrArg Instruction.opcode (List.mem_singleton.1 (List.mem_of_getElem? hi)))
        hlegal.opcode_ne_ret
  have hpc : pc < body.length := (List.getElem?_eq_some_iff.1 hin).1
  rcases hgoes with ⟨-, -⟩ | ⟨hop, ha⟩
  · omega
  · refine ⟨?_, hlegal.target_lt ha⟩
    cases hlegal with
    | jump =>
      cases ha
      have hnone := eachAt_of_backJumps h.back pc _ hin
      rw [Nat.zero_add] at hnone
      exact lt_of_backJump hnone
    | jumpIfFalse _ hforward =>
      cases ha
      exact hforward
    | _ => rcases hop with hop | hop <;> cases hop

/-! ## Runs of such code -/

namespace Machine

variable {σ : Type} {host : Host σ} {code : Array Instruction} {s s' : State σ} {n : Nat}

/-- A run gets at least as far as it has made steps. -/
theorem ip_add_le (hforward : LeadsForward code) (h : runFor host code n s = .running s') :
    s.ip + n ≤ s'.ip := by
  induction n generalizing s' with
  | zero =>
    cases h
    exact le_rfl
  | succ n ih =>
    obtain ⟨mid, hmid, hstep⟩ := exists_last_step h
    obtain ⟨i, hi, hgoes⟩ := step_goes hstep
    have hlt := (hforward _ _ _ hi hgoes).1
    have hle := ih hmid
    omega

/-- A run stays inside the code. -/
theorem ip_lt_size (hforward : LeadsForward code) (hs : s.ip < code.size)
    (h : runFor host code n s = .running s') : s'.ip < code.size := by
  cases n with
  | zero =>
    cases h
    exact hs
  | succ n =>
    obtain ⟨mid, -, hstep⟩ := exists_last_step h
    obtain ⟨i, hi, hgoes⟩ := step_goes hstep
    exact (hforward _ _ _ hi hgoes).2

/-- The address at a later step is a later one. -/
theorem ip_lt_ip (hforward : LeadsForward code) {start : State σ} {m : Nat}
    (h : runFor host code m start = .running s) (h' : runFor host code n start = .running s')
    (hlt : m < n) : s.ip < s'.ip := by
  obtain ⟨k, rfl⟩ := Nat.exists_eq_add_of_lt hlt
  rw [Nat.add_assoc, runFor_of_running h] at h'
  have hle := ip_add_le hforward h'
  omega

/-- A run stops within as many steps as there are instructions. -/
theorem stops_of_leadsForward (hforward : LeadsForward code) (hs : s.ip < code.size) :
    ∃ outcome, runFor host code code.size s = .stopped outcome := by
  cases hrun : runFor host code code.size s with
  | stopped outcome => exact ⟨outcome, rfl⟩
  | running s' =>
    have hle := ip_add_le hforward hrun
    have hlt := ip_lt_size hforward hs hrun
    omega

/-! ## Reports of an exceeded limit -/

/-- A step that reports an exceeded limit passes on the report of a native. -/
theorem Touches.native_of_stepLimit {console : Console σ} {p : Progress σ} {limit : Nat}
    (h : Touches host console p) (hfails : p.Fails (.stepLimit limit)) :
    ∃ f arguments, (host.natives f arguments console).1 = .error (.stepLimit limit) := by
  rcases h with ⟨-, hlimit⟩ | ⟨f, arguments, -, herror⟩
  · exact absurd hfails (hlimit limit)
  · exact ⟨f, arguments, herror _ hfails⟩

/-- A run that stops with such a report has reached a state in which a native makes it. -/
theorem native_of_stepLimit {limit : Nat} (h : (runFor host code n s).Fails (.stepLimit limit)) :
    ∃ m s', runFor host code m s = .running s' ∧
      ∃ f arguments, (host.natives f arguments s'.console).1 = .error (.stepLimit limit) := by
  induction n generalizing s with
  | zero => exact h.elim
  | succ n ih =>
    have hfirst := step_touches host code s
    simp only [runFor] at h
    cases hstep : step host code s with
    | running next =>
      rw [hstep] at h
      obtain ⟨m, s', hrun, hnative⟩ := ih h
      refine ⟨m + 1, s', ?_, hnative⟩
      simp only [runFor, hstep, hrun]
    | stopped outcome =>
      rw [hstep] at h hfirst
      exact ⟨0, s, rfl, hfirst.native_of_stepLimit h⟩

end Machine

/-! ## Compiled programs -/

namespace Program

open Machine

/-- The code of a program without loops leads forward. -/
theorem leadsForward_of_compile {library : Library} {table : BuiltinTable} {p : Program}
    {chunk : Chunk} (hfree : p.loopFree = true) (hcompile : p.compile library table = .ok chunk)
    (hsize : chunk.code.size < 2 ^ 32) : LeadsForward chunk.code ∧ 0 < chunk.code.size := by
  obtain ⟨body, hbody, hshaped⟩ := program_shaped (layout_of_compile hcompile hsize) hsize
  rw [loops, Layout.stmtsLoops_of_loopFree p.statements _ hfree] at hshaped
  refine ⟨hshaped.leadsForward hbody, ?_⟩
  rw [← Array.length_toList, hbody, List.length_append]
  exact Nat.succ_pos _

/-- **Programs without loops end within their own length.** Let such a program compile to fewer than
`2 ^ 32` instructions. On any host, a run of its code is at no address twice; it stops within as
many steps as there are instructions, and performs no more of them. Under any limit of at least that
many, an execution ends as that run does, and does not report an exceeded limit, unless a native
that the run has come to makes that report itself. -/
theorem ends_of_loopFree {library : Library} {table : BuiltinTable} {p : Program} {chunk : Chunk}
    (hfree : p.loopFree = true) (hcompile : p.compile library table = .ok chunk)
    (hsize : chunk.code.size < 2 ^ 32) {σ : Type} (host : Host σ) (console : Console σ) :
    (∀ m n s s', runFor host chunk.code m (.start chunk console) = .running s →
        runFor host chunk.code n (.start chunk console) = .running s' → s.ip = s'.ip → m = n) ∧
      ¬ PerformsMore host chunk console chunk.code.size ∧
      ∃ outcome, runFor host chunk.code chunk.code.size (.start chunk console) = .stopped outcome ∧
        ∀ limit ≥ chunk.code.size, execute host limit chunk console = outcome ∧
          ∀ n, outcome.result = .error (.stepLimit n) →
            ∃ m s, runFor host chunk.code m (.start chunk console) = .running s ∧
              ∃ f arguments, (host.natives f arguments s.console).1 = .error (.stepLimit n) := by
  obtain ⟨hforward, hpos⟩ := leadsForward_of_compile hfree hcompile hsize
  obtain ⟨outcome, hstops⟩ : ∃ outcome,
      runFor host chunk.code chunk.code.size (.start chunk console) = .stopped outcome :=
    stops_of_leadsForward hforward hpos
  refine ⟨?_, ?_, outcome, hstops, ?_⟩
  · intro m n s s' h h' hip
    rcases Nat.lt_trichotomy m n with hlt | heq | hlt
    · exact absurd hip (Nat.ne_of_lt (ip_lt_ip hforward h h' hlt))
    · exact heq
    · exact absurd hip (Nat.ne_of_gt (ip_lt_ip hforward h' h hlt))
  · rw [performsMore_iff]
    rintro ⟨s, hrun, -⟩
    rw [hstops] at hrun
    cases hrun
  · intro limit hlimit
    refine ⟨execute_of_stopped hstops hlimit, ?_⟩
    intro n hn
    have hfails : (runFor host chunk.code chunk.code.size (.start chunk console)).Fails
        (.stepLimit n) := by
      rw [hstops]
      exact hn
    exact native_of_stepLimit hfails

/-- A switch with a test inside its first arm, behind a declaration: 23 instructions. The run stops
within 23 steps, and under each limit from 23 on an execution ends well, with 7 in the slot of the
variable and 1 in that of the subject. -/
theorem ends_of_loopFree_switch :
    let p : Program := ⟨none, [
      .declare "x" (.number "1" {}) {},
      .switch (.identifier "x" {}) [
        .case (.number "1" {}) [.ifThen (.identifier "x" {}) [.assign "x" (.number "7" {}) {}] {}],
        .otherwise [.assign "x" (.number "8" {}) {}]] {}]⟩
    let host : Host Unit := ⟨Library.standard.operation, .empty, .standard⟩
    let console : Console Unit := ⟨#[], ()⟩
    p.loopFree = true ∧ ∃ chunk, p.compile .standard .empty = .ok chunk ∧ chunk.code.size = 23 ∧
      ¬ PerformsMore host chunk console 23 ∧
      ∃ outcome, runFor host chunk.code 23 (.start chunk console) = .stopped outcome ∧
        (∀ limit ≥ 23, execute host limit chunk console = outcome) ∧
        outcome.result = .ok () ∧ outcome.locals = #[.int 7, .int 1] := by
  intro p host console
  have hfree : p.loopFree = true := by decide
  have hruns : (p.compile .standard .empty).map (fun chunk =>
      let outcome := execute host 23 chunk console
      (chunk.code.size, outcome.result, outcome.locals)) =
        .ok (23, .ok (), #[.int 7, .int 1]) := by
    decide +kernel
  cases hchunk : p.compile .standard .empty with
  | error e =>
    rw [hchunk] at hruns
    cases hruns
  | ok chunk =>
    rw [hchunk] at hruns
    obtain ⟨hlength, hresult, hlocals⟩ :
        chunk.code.size = 23 ∧ (execute host 23 chunk console).result = .ok () ∧
          (execute host 23 chunk console).locals = #[.int 7, .int 1] := by
      simpa only [Except.map, Except.ok.injEq, Prod.mk.injEq] using hruns
    obtain ⟨-, hfew, outcome, hstops, hends⟩ :=
      ends_of_loopFree hfree hchunk (by omega) host console
    rw [hlength] at hfew hstops hends
    rw [(hends 23 le_rfl).1] at hresult hlocals
    exact ⟨hfree, chunk, rfl, hlength, hfew, outcome, hstops, fun limit h => (hends limit h).1,
      hresult, hlocals⟩

end Program

end StackScript
