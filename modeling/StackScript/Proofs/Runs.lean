import Mathlib.Tactic
import StackScript.Machine

set_option autoImplicit false

/-!
# Runs of the machine

How runs of the machine are put together, and what each instruction does in a state that fits it.
`EachAt` says something of each instruction of some code at its address, and `StandsAt` that code
stands at an address; the lemmas `step_…` give the next state of each instruction.
-/

namespace StackScript

namespace Operation

/-- The operations on two values. -/
def IsBinary (op : Operation) : Prop := op ≠ .toBool ∧ op ≠ .call

/-- Operators stand for operations on two values. -/
theorem isBinary_of_ofOperator? {text : String} {op : Operation}
    (h : ofOperator? text = some op) : op.IsBinary := by
  unfold ofOperator? at h
  split at h <;> cases h <;> exact ⟨by decide, by decide⟩

theorem apply_eq (left right : Value) : eq.apply left right = .ok (.bool (left = right)) := rfl

end Operation

/-! ## Instructions one by one -/

/-- Each instruction of a list satisfies `P` at its address, the first one being at `pc`. -/
def EachAt (P : Nat → Instruction → Prop) (pc : Nat) (is : List Instruction) : Prop :=
  ∀ k i, is[k]? = some i → P (pc + k) i

section

variable {P : Nat → Instruction → Prop} {pc : Nat} {i : Instruction} {is js : List Instruction}

theorem EachAt.nil : EachAt P pc [] := fun k i h => by cases h

theorem EachAt.cons (h : P pc i) (h' : EachAt P (pc + 1) is) : EachAt P pc (i :: is) := by
  intro k j hj
  cases k with
  | zero =>
    cases hj
    exact h
  | succ k =>
    rw [← Nat.add_assoc, Nat.add_right_comm]
    exact h' k j hj

theorem EachAt.single (h : P pc i) : EachAt P pc [i] := .cons h .nil

theorem EachAt.append (h : EachAt P pc is) (h' : EachAt P (pc + is.length) js) :
    EachAt P pc (is ++ js) := by
  intro k j hj
  by_cases hk : k < is.length
  · rw [List.getElem?_append_left hk] at hj
    exact h k j hj
  · obtain ⟨d, rfl⟩ := Nat.exists_eq_add_of_le (Nat.le_of_not_lt hk)
    rw [List.getElem?_append_right (Nat.le_add_right _ _), Nat.add_sub_cancel_left] at hj
    rw [← Nat.add_assoc]
    exact h' d j hj

theorem EachAt.at (h : EachAt P 0 is) (hi : is.toArray[pc]? = some i) : P pc i := by
  rw [List.getElem?_toArray] at hi
  have hat := h pc i hi
  rwa [Nat.zero_add] at hat

end

namespace Machine

variable {σ : Type} {host : Host σ} {code : Array Instruction}

/-! ## Composition -/

/-- A run that goes on after `m` steps goes on from there. -/
theorem runFor_of_running {m : Nat} {s s' : State σ} (h : runFor host code m s = .running s')
    (n : Nat) : runFor host code (m + n) s = runFor host code n s' := by
  induction m generalizing s with
  | zero =>
    cases h
    rw [Nat.zero_add]
  | succ m ih =>
    rw [Nat.succ_add]
    simp only [runFor] at h ⊢
    cases hstep : step host code s with
    | running next =>
      rw [hstep] at h
      exact ih h
    | stopped outcome =>
      rw [hstep] at h
      cases h

/-- A run that has stopped stays so. -/
theorem runFor_of_stopped {m : Nat} {s : State σ} {outcome : Outcome σ}
    (h : runFor host code m s = .stopped outcome) (n : Nat) :
    runFor host code (m + n) s = .stopped outcome := by
  induction m generalizing s with
  | zero => cases h
  | succ m ih =>
    rw [Nat.succ_add]
    simp only [runFor] at h ⊢
    cases hstep : step host code s with
    | running next =>
      rw [hstep] at h
      exact ih h
    | stopped outcome' =>
      rw [hstep] at h
      exact h

/-- A run that goes on after `n` steps has not stopped before. -/
theorem lt_of_running {m n : Nat} {s s' : State σ} {outcome : Outcome σ}
    (h : runFor host code m s = .stopped outcome) (h' : runFor host code n s = .running s') :
    n < m := by
  by_contra hle
  obtain ⟨k, rfl⟩ := Nat.exists_eq_add_of_le (Nat.le_of_not_lt hle)
  rw [runFor_of_stopped h k] at h'
  cases h'

theorem runFor_one {s s' : State σ} (h : step host code s = .running s') :
    runFor host code 1 s = .running s' := by
  simp only [runFor, h]

theorem runFor_one_of_stopped {s : State σ} {outcome : Outcome σ}
    (h : step host code s = .stopped outcome) : runFor host code 1 s = .stopped outcome := by
  simp only [runFor, h]

/-- A run that goes on after `n` steps goes on before. -/
theorem running_of_le {m n : Nat} {s s' : State σ} (h : runFor host code n s = .running s')
    (hle : m ≤ n) : ∃ s'', runFor host code m s = .running s'' := by
  cases hm : runFor host code m s with
  | running s'' => exact ⟨s'', rfl⟩
  | stopped outcome => exact absurd (lt_of_running hm h) (Nat.not_lt.2 hle)

/-! ## Runs of chunks -/

section

variable {chunk : Chunk} {console : Console σ}

/-- A limit that a run does not reach does not matter. -/
theorem execute_of_stopped {n limit : Nat} {outcome : Outcome σ}
    (h : runFor host chunk.code n (State.start chunk console) = .stopped outcome)
    (hle : n ≤ limit) : execute host limit chunk console = outcome := by
  obtain ⟨k, rfl⟩ := Nat.exists_eq_add_of_le hle
  simp only [execute, runFor_of_stopped h k]

/-- A run that never stops reaches every limit. -/
theorem execute_of_running
    (h : ∀ n, ∃ s, runFor host chunk.code n (State.start chunk console) = .running s)
    (limit : Nat) : (execute host limit chunk console).result = .error (.stepLimit limit) := by
  obtain ⟨s, hs⟩ := h limit
  obtain ⟨s', hs'⟩ := h (limit + 1)
  rw [runFor_of_running hs 1] at hs'
  -- behind the end of the code the next step would stop the run
  have hip : s.ip < chunk.code.size := by
    by_contra hle
    obtain ⟨ip, stack, locals, console⟩ := s
    have hnone : chunk.code[ip]? = none := Array.getElem?_eq_none (Nat.le_of_not_lt hle)
    simp only [runFor, step, hnone] at hs'
    cases hs'
  simp only [execute, hs, if_pos hip, State.outcome]

/-- A run stops or goes on forever. -/
theorem stops_or_runs (host : Host σ) (chunk : Chunk) (console : Console σ) :
    (∃ n outcome, runFor host chunk.code n (State.start chunk console) = .stopped outcome) ∨
      ∀ n, ∃ s, runFor host chunk.code n (State.start chunk console) = .running s := by
  by_cases h : ∃ n outcome,
      runFor host chunk.code n (State.start chunk console) = .stopped outcome
  · exact .inl h
  · refine .inr fun n => ?_
    cases hn : runFor host chunk.code n (State.start chunk console) with
    | running s => exact ⟨s, rfl⟩
    | stopped outcome => exact absurd ⟨n, outcome, hn⟩ h

end

/-! ## What stands at an address -/

/-- A list stands in an array at an address. -/
def StandsAt {α : Type} (array : Array α) (pc : Nat) (xs : List α) : Prop :=
  ∀ k < xs.length, array[pc + k]? = xs[k]?

section

variable {α : Type} {array : Array α} {pc : Nat} {x : α} {xs ys : List α}

theorem StandsAt.left (h : StandsAt array pc (xs ++ ys)) : StandsAt array pc xs := by
  intro k hk
  rw [h k (by rw [List.length_append]; omega), List.getElem?_append_left hk]

theorem StandsAt.right (h : StandsAt array pc (xs ++ ys)) :
    StandsAt array (pc + xs.length) ys := by
  intro k hk
  rw [Nat.add_assoc, h (xs.length + k) (by rw [List.length_append]; omega),
    List.getElem?_append_right (Nat.le_add_right _ _), Nat.add_sub_cancel_left]

theorem StandsAt.right_at {pc' : Nat} (h : StandsAt array pc (xs ++ ys))
    (hpc : pc' = pc + xs.length) : StandsAt array pc' ys := by
  rw [hpc]
  exact h.right

theorem StandsAt.head (h : StandsAt array pc (x :: xs)) : array[pc]? = some x :=
  h 0 (Nat.succ_pos _)

theorem StandsAt.tail (h : StandsAt array pc (x :: xs)) : StandsAt array (pc + 1) xs :=
  @StandsAt.right α array pc [x] xs h

theorem standsAt_toArray (xs : List α) : StandsAt xs.toArray 0 xs := by
  intro k _
  rw [Nat.zero_add, List.getElem?_toArray]

/-- An array ends behind all that stands in it. -/
theorem StandsAt.le_size (h : StandsAt array pc xs) (hpos : 0 < xs.length) :
    pc + xs.length ≤ array.size := by
  have hlast := h (xs.length - 1) (by omega)
  rw [List.getElem?_eq_getElem (by omega)] at hlast
  have hlt := (Array.getElem?_eq_some_iff.1 hlast).1
  omega

end

/-! ## Single instructions -/

section

variable {pc : Nat} {stack : List Entry} {locals : Array Value} {console : Console σ}

/-- A step performs the instruction at the address, with the pointer already behind it. -/
theorem step_eq_perform {i : Instruction} (h : code[pc]? = some i) :
    step host code ⟨pc, stack, locals, console⟩ =
      perform host i ⟨pc + 1, stack, locals, console⟩ := by
  simp only [step, h]

theorem step_ret (h : code[pc]? = some .ret) :
    step host code ⟨pc, stack, locals, console⟩ = .stopped ⟨.ok (), locals, console⟩ := by
  rw [step_eq_perform h]
  rfl

theorem step_loadInt {n : Int32} (h : code[pc]? = some (.loadInt n)) :
    step host code ⟨pc, stack, locals, console⟩ =
      .running ⟨pc + 1, .raw n :: stack, locals, console⟩ := by
  rw [step_eq_perform h]
  rfl

theorem step_boxInt {n : Int32} (h : code[pc]? = some .boxInt) :
    step host code ⟨pc, .raw n :: stack, locals, console⟩ =
      .running ⟨pc + 1, .boxed (.int n) :: stack, locals, console⟩ := by
  rw [step_eq_perform h]
  rfl

theorem step_pop {entry : Entry} (h : code[pc]? = some .pop) :
    step host code ⟨pc, entry :: stack, locals, console⟩ =
      .running ⟨pc + 1, stack, locals, console⟩ := by
  rw [step_eq_perform h]
  rfl

theorem step_loadLocal {slot : Slot} {v : Value} (h : code[pc]? = some (.loadLocal slot))
    (hv : locals[slot.index.toNat]? = some v) :
    step host code ⟨pc, stack, locals, console⟩ =
      .running ⟨pc + 1, .boxed v :: stack, locals, console⟩ := by
  rw [step_eq_perform h]
  simp only [perform, Instruction.loadLocal, hv]

theorem step_storeLocal {slot : Slot} {v : Value} (h : code[pc]? = some (.storeLocal slot))
    (hslot : slot.index.toNat < locals.size) :
    step host code ⟨pc, .boxed v :: stack, locals, console⟩ =
      .running ⟨pc + 1, stack, locals.set slot.index.toNat v hslot, console⟩ := by
  rw [step_eq_perform h]
  exact dif_pos hslot

theorem step_loadBuiltin {n : UInt16} {name : String} {v : Value}
    (h : code[pc]? = some (.loadBuiltin n)) (hv : host.builtins.get? n.toNat = some (name, v)) :
    step host code ⟨pc, stack, locals, console⟩ =
      .running ⟨pc + 1, .boxed v :: stack, locals, console⟩ := by
  rw [step_eq_perform h]
  simp only [perform, Instruction.loadBuiltin, hv]

theorem step_newArgs {n : UInt16} (h : code[pc]? = some (.newArgs n)) :
    step host code ⟨pc, stack, locals, console⟩ =
      .running ⟨pc + 1, .args (Array.replicate n.toNat .null) :: stack, locals, console⟩ := by
  rw [step_eq_perform h]
  rfl

theorem step_storeArg {n : UInt16} {v : Value} {values : Array Value}
    (h : code[pc]? = some (.storeArg n)) (hn : n.toNat < values.size) :
    step host code ⟨pc, .boxed v :: .args values :: stack, locals, console⟩ =
      .running ⟨pc + 1, .args (values.set n.toNat v hn) :: stack, locals, console⟩ := by
  rw [step_eq_perform h]
  exact dif_pos hn

theorem step_jump {a : UInt32} (h : code[pc]? = some (.jump a)) :
    step host code ⟨pc, stack, locals, console⟩ =
      .running ⟨a.toNat, stack, locals, console⟩ := by
  rw [step_eq_perform h]
  rfl

theorem step_jumpIfFalse {a : UInt32} {b : Bool} (h : code[pc]? = some (.jumpIfFalse a)) :
    step host code ⟨pc, .truth b :: stack, locals, console⟩ =
      .running ⟨if b then pc + 1 else a.toNat, stack, locals, console⟩ := by
  rw [step_eq_perform h]
  rfl

theorem step_callRuntime {e : EntryPoint} {op : Operation}
    (h : code[pc]? = some (.callRuntime e)) (hop : host.operation e = some op) :
    step host code ⟨pc, stack, locals, console⟩ =
      callOperation host op ⟨pc + 1, stack, locals, console⟩ := by
  rw [step_eq_perform h]
  simp only [perform, Instruction.callRuntime, hop]

end

/-! ## Operations -/

section

variable {pc : Nat} {stack : List Entry} {locals : Array Value} {console : Console σ}
  {e : EntryPoint}

theorem step_toBool {v : Value} (h : code[pc]? = some (.callRuntime e))
    (hop : host.operation e = some .toBool) :
    step host code ⟨pc, .boxed v :: stack, locals, console⟩ =
      .running ⟨pc + 1, .truth v.truth :: stack, locals, console⟩ := by
  rw [step_callRuntime h hop]
  rfl

theorem step_call {callee : Value} {arguments : Array Value}
    (h : code[pc]? = some (.callRuntime e)) (hop : host.operation e = some .call) :
    step host code ⟨pc, .args arguments :: .boxed callee :: stack, locals, console⟩ =
      match callee.call host.natives arguments console with
      | (.error e, console) => .stopped ⟨.error e, locals, console⟩
      | (.ok v, console) => .running ⟨pc + 1, .boxed v :: stack, locals, console⟩ := by
  rw [step_callRuntime h hop]
  rfl

theorem callOperation_of_isBinary {op : Operation} (h : op.IsBinary) :
    callOperation host op = callBinary op := by
  funext s
  cases op with
  | toBool => exact absurd rfl h.1
  | call => exact absurd rfl h.2
  | _ => rfl

theorem step_binary {op : Operation} (hbinary : op.IsBinary) {left right : Value}
    (h : code[pc]? = some (.callRuntime e)) (hop : host.operation e = some op) :
    step host code ⟨pc, .boxed right :: .boxed left :: stack, locals, console⟩ =
      match op.apply left right with
      | .error e => .stopped ⟨.error e, locals, console⟩
      | .ok v => .running ⟨pc + 1, .boxed v :: stack, locals, console⟩ := by
  rw [step_callRuntime h hop, callOperation_of_isBinary hbinary]
  rfl

end

end Machine

end StackScript
