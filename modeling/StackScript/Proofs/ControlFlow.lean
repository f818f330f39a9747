import Mathlib.Tactic
import StackScript.Proofs.Actions

set_option autoImplicit false

/-!
# Where a run goes and what it sees of the locals

A step leads from an instruction to the next one or to its target (`Machine.step_goes`), and does
the same from other locals as long as these agree on the slot that it loads from
(`Machine.perform_both`). So the slots to which a run has stored when it reaches an address can be
told from a table that every instruction keeps to (`Machine.Keeps`). In such code each load comes
after a store to its slot, and what the slots held at the start is never seen
(`Machine.loads_after_stores`, `Machine.runFor_alike`).
-/

namespace StackScript

/-! ## What single instructions may do -/

/-- The addresses that a run can go to from an instruction at `pc`. -/
inductive Instruction.Goes (i : Instruction) (pc : Nat) : Nat → Prop
  | next (hjump : i.opcode ≠ .jump) (hret : i.opcode ≠ .ret) : Goes i pc (pc + 1)
  | jumps {a : UInt32} (hop : i.opcode = .jump ∨ i.opcode = .jumpIfFalse)
      (ha : i.target? = some a) : Goes i pc a.toNat

/-- The slots that an instruction stores to. -/
def Instruction.stores (i : Instruction) : List Slot :=
  match i.opcode, i.operand with
  | .storeLocal, some (.slot slot) => [slot]
  | _, _ => []

theorem Instruction.eq_storeLocal_of_mem_stores {i : Instruction} {slot : Slot}
    (h : slot ∈ i.stores) : i = .storeLocal slot := by
  obtain ⟨op, operand⟩ := i
  unfold stores at h
  split at h
  · next hop hoperand =>
    cases hop
    cases hoperand
    rw [List.mem_singleton.1 h]
    rfl
  · cases h

theorem Instruction.stores_of_ne {i : Instruction} (h : i.opcode ≠ .storeLocal) :
    i.stores = [] := by
  unfold stores
  split
  · next hop _ => exact absurd hop h
  · rfl

namespace Machine

variable {σ : Type} {host : Host σ} {code : Array Instruction}

/-! ## Where steps lead -/

theorem Progress.answered_keeps {ip : Nat} {stack : List Entry} {locals : Array Value}
    {answer : Except RunError Value × Console σ} {s : State σ}
    (h : Progress.answered ip stack locals answer = .running s) :
    s.ip = ip ∧ s.locals = locals := by
  rcases answer with ⟨e | v, console⟩
  · cases h
  · cases h
    exact ⟨rfl, rfl⟩

/-- An instruction that does not stop the run leads to the next one or to its target. -/
theorem perform_goes {i : Instruction} {pc : Nat} {stack : List Entry} {locals : Array Value}
    {console : Console σ} {s : State σ}
    (h : perform host i ⟨pc + 1, stack, locals, console⟩ = .running s) : i.Goes pc s.ip := by
  obtain ⟨action, hof, haction⟩ := exists_action host i stack
  rw [haction] at h
  cases hof with
  | fails _ | returns => cases h
  | goesOn hstraight =>
    cases h
    refine .next ?_ ?_ <;> intro hop <;> rw [hop] at hstraight <;> cases hstraight
  | jumps hop htarget =>
    cases h
    exact .jumps hop htarget
  | loads hi =>
    subst hi
    simp only [Action.perform] at h
    split at h
    · cases h
      exact .next (by simp [Instruction.loadLocal]) (by simp [Instruction.loadLocal])
    · cases h
  | stores hi =>
    subst hi
    simp only [Action.perform] at h
    split at h
    · cases h
      exact .next (by simp [Instruction.storeLocal]) (by simp [Instruction.storeLocal])
    · cases h
  | calls hi =>
    rw [(Progress.answered_keeps h).1]
    exact .next (by simp [hi]) (by simp [hi])

/-- A step leads from an instruction to one of those it can go to. -/
theorem step_goes {s s' : State σ} (h : step host code s = .running s') :
    ∃ i, code[s.ip]? = some i ∧ i.Goes s.ip s'.ip := by
  obtain ⟨pc, stack, locals, console⟩ := s
  cases hi : code[pc]? with
  | none =>
    simp only [step, hi] at h
    cases h
  | some i =>
    rw [step_eq_perform hi] at h
    exact ⟨i, rfl, perform_goes h⟩

/-- A run of one more step ends with that step. -/
theorem exists_last_step {n : Nat} {s s' : State σ}
    (h : runFor host code (n + 1) s = .running s') :
    ∃ mid, runFor host code n s = .running mid ∧ step host code mid = .running s' := by
  obtain ⟨mid, hmid⟩ := running_of_le h (Nat.le_succ n)
  refine ⟨mid, hmid, ?_⟩
  rw [runFor_of_running hmid 1] at h
  cases hstep : step host code mid with
  | running next => simpa only [runFor, hstep] using h
  | stopped outcome =>
    simp only [runFor, hstep] at h
    cases h

/-! ## Tables of stored slots -/

/-- A run that has stored to the given slots may go to an address: these include all that a table
has for it. -/
def Suffices (known : Array (List Slot)) (pc : Nat) (stored : List Slot) : Prop :=
  ∃ slots, known[pc]? = some slots ∧ slots ⊆ stored

theorem Suffices.mono {known : Array (List Slot)} {pc : Nat} {stored stored' : List Slot}
    (h : Suffices known pc stored) (hsub : stored ⊆ stored') : Suffices known pc stored' := by
  obtain ⟨slots, hslots, hstored⟩ := h
  exact ⟨slots, hslots, List.Subset.trans hstored hsub⟩

/-- An instruction keeps to a table of stored slots: it loads from one of those that the table has
for its address, and it leads only to addresses that these and its own store suffice for. -/
def Keeps (known : Array (List Slot)) (pc : Nat) (i : Instruction) : Prop :=
  ∃ stored, known[pc]? = some stored ∧ (∀ slot, i = .loadLocal slot → slot ∈ stored) ∧
    ∀ pc', i.Goes pc pc' → Suffices known pc' (i.stores ++ stored)

/-- A run from `s` performs a store to a slot among its first `n` instructions. -/
def StoredWithin (host : Host σ) (code : Array Instruction) (s : State σ) (n : Nat) (slot : Slot) :
    Prop :=
  ∃ m < n, ∃ s', runFor host code m s = .running s' ∧ code[s'.ip]? = some (.storeLocal slot)

section

variable {known : Array (List Slot)} {s : State σ}

/-- What the table has for an address has been stored whenever a run gets there. -/
theorem stored_of_running (hkeeps : ∀ pc i, code[pc]? = some i → Keeps known pc i)
    (hstart : Suffices known s.ip []) (n : Nat) {s' : State σ}
    (h : runFor host code n s = .running s') :
    ∃ slots, known[s'.ip]? = some slots ∧ ∀ slot ∈ slots, StoredWithin host code s n slot := by
  induction n generalizing s' with
  | zero =>
    cases h
    obtain ⟨slots, hslots, hnone⟩ := hstart
    exact ⟨slots, hslots, fun slot hslot => absurd (hnone hslot) List.not_mem_nil⟩
  | succ n ih =>
    obtain ⟨mid, hmid, hstep⟩ := exists_last_step h
    obtain ⟨i, hi, hgoes⟩ := step_goes hstep
    obtain ⟨stored, hstored, -, hnext⟩ := hkeeps mid.ip i hi
    obtain ⟨slots, hslots, hsub⟩ := hnext s'.ip hgoes
    refine ⟨slots, hslots, fun slot hslot => ?_⟩
    -- either the last instruction has stored to the slot, or an earlier one
    rcases List.mem_append.1 (hsub hslot) with hnew | hold
    · rw [Instruction.eq_storeLocal_of_mem_stores hnew] at hi
      exact ⟨n, Nat.lt_succ_self n, mid, hmid, hi⟩
    · obtain ⟨before, hbefore, hall⟩ := ih hmid
      cases hstored.symm.trans hbefore
      obtain ⟨m, hm, hstore⟩ := hall slot hold
      exact ⟨m, Nat.lt_succ_of_lt hm, hstore⟩

/-- **Loads come after stores** in code that keeps to a table. -/
theorem loads_after_stores (hkeeps : ∀ pc i, code[pc]? = some i → Keeps known pc i)
    (hstart : Suffices known s.ip []) {n : Nat} {s' : State σ}
    (h : runFor host code n s = .running s') {slot : Slot}
    (hload : code[s'.ip]? = some (.loadLocal slot)) : StoredWithin host code s n slot := by
  obtain ⟨stored, hstored, hslot, -⟩ := hkeeps s'.ip _ hload
  obtain ⟨slots, hslots, hall⟩ := stored_of_running hkeeps hstart n h
  cases hstored.symm.trans hslots
  exact hall slot (hslot slot rfl)

end

/-! ## Runs from other locals -/

/-- Two states that differ at most in their locals, and there not in the given slots. -/
structure State.SameOn (slots : List Slot) (s s' : State σ) : Prop where
  ip : s'.ip = s.ip
  stack : s'.stack = s.stack
  console : s'.console = s.console
  size : s'.locals.size = s.locals.size
  locals : ∀ slot ∈ slots, s'.locals[slot.index.toNat]? = s.locals[slot.index.toNat]?

/-- Two runs that have both stopped, with the same result and console, or both go on, in states
that a relation holds of. -/
def Progress.Both (R : State σ → State σ → Prop) : Progress σ → Progress σ → Prop
  | .running s, .running s' => R s s'
  | .stopped outcome, .stopped outcome' =>
    outcome'.result = outcome.result ∧ outcome'.console = outcome.console
  | _, _ => False

/-- Two runs that cannot be told apart without a look at their locals. -/
def Progress.Alike : Progress σ → Progress σ → Prop :=
  Both fun s s' => s'.ip = s.ip ∧ s'.stack = s.stack ∧ s'.console = s.console

section

variable {slots : List Slot} {known : Array (List Slot)}

theorem State.SameOn.mono {slots' : List Slot} {s s' : State σ} (h : s.SameOn slots s')
    (hsub : slots' ⊆ slots) : s.SameOn slots' s' :=
  ⟨h.ip, h.stack, h.console, h.size, fun slot hslot => h.locals slot (hsub hslot)⟩

theorem Progress.Both.imp {R R' : State σ → State σ → Prop} {p p' : Progress σ}
    (h : Both R p p') (hR : ∀ s s', p = .running s → R s s' → R' s s') : Both R' p p' := by
  cases p with
  | running s =>
    cases p' with
    | running s' => exact hR s s' rfl h
    | stopped outcome' => exact h
  | stopped outcome =>
    cases p' with
    | running s' => exact h
    | stopped outcome' => exact h

/-- After a store two states agree on its slot as well. -/
theorem State.SameOn.store {ip : Nat} {stack : List Entry} {locals locals' : Array Value}
    {console : Console σ} (hsize : locals'.size = locals.size)
    (hagree : ∀ slot ∈ slots, locals'[slot.index.toNat]? = locals[slot.index.toNat]?)
    {slot : Slot} (v : Value) (hslot : slot.index.toNat < locals.size)
    (hslot' : slot.index.toNat < locals'.size) :
    State.SameOn (slot :: slots)
      (⟨ip, stack, locals.set slot.index.toNat v hslot, console⟩ : State σ)
      ⟨ip, stack, locals'.set slot.index.toNat v hslot', console⟩ := by
  refine ⟨rfl, rfl, rfl, by simpa only [Array.size_set] using hsize, fun other hother => ?_⟩
  simp only [Array.getElem?_set]
  rcases List.mem_cons.1 hother with rfl | hother
  · simp only [if_true]
  · rw [hagree other hother]

/-- An instruction that loads only from slots on which two states agree does the same in both, and
they then agree on the slot that it stores to as well. -/
theorem perform_both (host : Host σ) (i : Instruction) (ip : Nat) (stack : List Entry)
    {locals locals' : Array Value} (console : Console σ) (hsize : locals'.size = locals.size)
    (hagree : ∀ slot ∈ slots, locals'[slot.index.toNat]? = locals[slot.index.toNat]?)
    (hload : ∀ slot, i = .loadLocal slot → slot ∈ slots) :
    Progress.Both (State.SameOn (i.stores ++ slots))
      (perform host i ⟨ip, stack, locals, console⟩)
      (perform host i ⟨ip, stack, locals', console⟩) := by
  -- the locals stay as they are unless the instruction stores
  have hkept : i.opcode ≠ .storeLocal → ∀ ip stack console,
      State.SameOn (i.stores ++ slots) (⟨ip, stack, locals, console⟩ : State σ)
        ⟨ip, stack, locals', console⟩ := by
    intro hop ip stack console
    rw [Instruction.stores_of_ne hop]
    exact ⟨rfl, rfl, rfl, hsize, hagree⟩
  obtain ⟨action, hof, haction⟩ := exists_action host i stack
  rw [haction, haction]
  cases hof with
  | fails _ | returns => exact ⟨rfl, rfl⟩
  | goesOn hstraight =>
    refine hkept (fun hop => ?_) ip _ console
    rw [hop] at hstraight
    cases hstraight
  | jumps hop _ => exact hkept (by rcases hop with hop | hop <;> simp [hop]) _ _ console
  | @loads slot hi =>
    simp only [Action.perform, hagree slot (hload slot hi)]
    cases locals[slot.index.toNat]? with
    | none => exact ⟨rfl, rfl⟩
    | some v => exact hkept (by simp [hi, Instruction.loadLocal]) ip (.boxed v :: stack) console
  | @stores slot v rest hi =>
    subst hi
    by_cases hslot : slot.index.toNat < locals.size
    · have hslot' : slot.index.toNat < locals'.size := hsize ▸ hslot
      simp only [Action.perform, dif_pos hslot, dif_pos hslot']
      exact .store hsize hagree v hslot hslot'
    · have hslot' : ¬slot.index.toNat < locals'.size := hsize ▸ hslot
      simp only [Action.perform, dif_neg hslot, dif_neg hslot']
      exact ⟨rfl, rfl⟩
  | @calls f arguments rest hi =>
    simp only [Action.perform]
    rcases host.natives f arguments console with ⟨e | v, console'⟩
    · exact ⟨rfl, rfl⟩
    · exact hkept (by simp [hi]) ip (.boxed v :: rest) console'

/-- Two states at an address that agree on what a table has for it. -/
def SameFor (known : Array (List Slot)) (s s' : State σ) : Prop :=
  ∃ slots, known[s.ip]? = some slots ∧ s.SameOn slots s'

/-- Steps of code that keeps to a table lead to states that agree on the table again. -/
theorem step_both (host : Host σ)
    (hkeeps : ∀ pc i, code[pc]? = some i → Keeps known pc i) {s s' : State σ}
    (hsame : SameFor known s s') :
    Progress.Both (SameFor known) (step host code s) (step host code s') := by
  obtain ⟨_, _, locals, _⟩ := s
  obtain ⟨pc, stack, locals', console⟩ := s'
  obtain ⟨slots, hslots, rfl, rfl, rfl, hsize, hagree⟩ := hsame
  cases hi : code[pc]? with
  | none =>
    simp only [step, hi]
    exact ⟨rfl, rfl⟩
  | some i =>
    obtain ⟨stored, hstored, hload, hgoes⟩ := hkeeps pc i hi
    cases hstored.symm.trans hslots
    have hboth := perform_both host i (pc + 1) stack console hsize hagree hload
    rw [← step_eq_perform hi, ← step_eq_perform hi] at hboth
    -- what the table has for the next address is stored by now, so the states agree on it
    refine hboth.imp fun next next' hstep hsame => ?_
    obtain ⟨i', hi', hnext⟩ := step_goes hstep
    cases hi.symm.trans hi'
    obtain ⟨slots', hslots', hsub⟩ := hgoes next.ip hnext
    exact ⟨slots', hslots', hsame.mono hsub⟩

/-- **What the locals hold at the start is never seen** in code that keeps to a table. -/
theorem runFor_alike (hkeeps : ∀ pc i, code[pc]? = some i → Keeps known pc i) (n : Nat)
    {s s' : State σ} (hsame : SameFor known s s') :
    Progress.Alike (runFor host code n s) (runFor host code n s') := by
  induction n generalizing s s' with
  | zero =>
    obtain ⟨slots, -, hsame⟩ := hsame
    exact ⟨hsame.ip, hsame.stack, hsame.console⟩
  | succ n ih =>
    -- neither run stops while the other one goes on
    have hboth := step_both host hkeeps hsame
    simp only [runFor]
    cases hstep : step host code s with
    | running next =>
      cases hstep' : step host code s' with
      | running next' =>
        rw [hstep, hstep'] at hboth
        exact ih hboth
      | stopped outcome' =>
        rw [hstep, hstep'] at hboth
        exact hboth.elim
    | stopped outcome =>
      cases hstep' : step host code s' with
      | running next' =>
        rw [hstep, hstep'] at hboth
        exact hboth.elim
      | stopped outcome' =>
        rw [hstep, hstep'] at hboth
        exact hboth

end

end Machine

end StackScript
