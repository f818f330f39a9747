import Mathlib.Tactic
import StackScript.Proofs.Arithmetic

set_option autoImplicit false

/-!
# What an instruction does

On a given stack an instruction does one thing, whatever the address, the locals and the console
are: it fails or returns, it goes on with another stack, it jumps, it loads from a slot or stores to
one, or it has one native called. This is `Machine.exists_action`, which looks at every instruction
and every stack once. What holds for all instructions follows from it, by the kind of action: where
a run can go, which locals it sees and changes, and what becomes of the console.
-/

namespace StackScript

/-- Whether an opcode may lead to the next instruction with all locals as they are. -/
def Opcode.isStraight : Opcode → Bool
  | jump | storeLocal | ret => false
  | loadInt | boxInt | pop | loadLocal | loadBuiltin | newArgs | storeArg | callRuntime
  | jumpIfFalse => true

namespace Machine

variable {σ : Type}

/-- What an instruction does on a given stack. The stack in an action is the one after it. -/
inductive Action
  | fails (e : RunError)
  | returns
  | goesOn (stack : List Entry)
  | jumps (target : UInt32) (stack : List Entry)
  | loads (slot : Slot)
  | stores (slot : Slot) (v : Value) (stack : List Entry)
  | calls (f : Native) (arguments : Array Value) (stack : List Entry)

/-- A run after the answer of a native: it goes on with the value, or stops. -/
def Progress.answered (ip : Nat) (stack : List Entry) (locals : Array Value) :
    Except RunError Value × Console σ → Progress σ
  | (.error e, console) => .stopped ⟨.error e, locals, console⟩
  | (.ok v, console) => .running ⟨ip, .boxed v :: stack, locals, console⟩

namespace Action

/-- A run after an action, in a state whose pointer is already behind the instruction. -/
def perform (host : Host σ) (action : Action) : State σ → Progress σ
  | ⟨ip, stack, locals, console⟩ =>
    match action with
    | fails e => .stopped ⟨.error e, locals, console⟩
    | returns => .stopped ⟨.ok (), locals, console⟩
    | goesOn stack' => .running ⟨ip, stack', locals, console⟩
    | jumps target stack' => .running ⟨target.toNat, stack', locals, console⟩
    | loads slot =>
      match locals[slot.index.toNat]? with
      | some v => .running ⟨ip, .boxed v :: stack, locals, console⟩
      | none => .stopped ⟨.error (noLocal slot), locals, console⟩
    | stores slot v stack' =>
      if h : slot.index.toNat < locals.size then
        .running ⟨ip, stack', locals.set slot.index.toNat v h, console⟩
      else .stopped ⟨.error (noLocal slot), locals, console⟩
    | calls f arguments stack' => .answered ip stack' locals (host.natives f arguments console)

/-- The actions that an instruction may come to. None fails over a step limit. -/
inductive Of (i : Instruction) : Action → Prop
  | fails {e : RunError} (h : ∀ limit, e ≠ .stepLimit limit) : Of i (fails e)
  | returns : Of i returns
  | goesOn {stack : List Entry} (h : i.opcode.isStraight = true) : Of i (goesOn stack)
  | jumps {target : UInt32} {stack : List Entry} (hop : i.opcode = .jump ∨ i.opcode = .jumpIfFalse)
      (htarget : i.target? = some target) : Of i (jumps target stack)
  | loads {slot : Slot} (h : i = .loadLocal slot) : Of i (loads slot)
  | stores {slot : Slot} {v : Value} {stack : List Entry} (h : i = .storeLocal slot) :
      Of i (stores slot v stack)
  | calls {f : Native} {arguments : Array Value} {stack : List Entry}
      (h : i.opcode = .callRuntime) : Of i (calls f arguments stack)

end Action

/-- On a stack, something is an action that an instruction may come to. -/
def ActsOn (host : Host σ) (i : Instruction) (stack : List Entry) (f : State σ → Progress σ) :
    Prop :=
  ∃ action : Action, action.Of i ∧ ∀ ip locals console,
    f ⟨ip, stack, locals, console⟩ = action.perform host ⟨ip, stack, locals, console⟩

/-- Only malformed code has nothing to pop. -/
theorem exists_malformed_of_popValue {stack : List Entry} {e : RunError}
    (h : popValue stack = .error e) : ∃ detail, e = .malformed detail := by
  unfold popValue at h
  split at h
  · cases h
  · cases h
    exact ⟨_, rfl⟩
  · cases h
    exact ⟨_, rfl⟩

theorem exists_malformed_of_popArguments {stack : List Entry} {e : RunError}
    (h : popArguments stack = .error e) : ∃ detail, e = .malformed detail := by
  unfold popArguments at h
  split at h
  · cases h
  · cases h
    exact ⟨_, rfl⟩
  · cases h
    exact ⟨_, rfl⟩

section

variable {host : Host σ} {i : Instruction} {stack : List Entry} {f : State σ → Progress σ}

theorem ActsOn.fails {e : RunError} (he : ∀ limit, e ≠ .stepLimit limit)
    (h : ∀ ip locals console,
      f ⟨ip, stack, locals, console⟩ = .stopped ⟨.error e, locals, console⟩) :
    ActsOn host i stack f :=
  ⟨.fails e, .fails he, h⟩

theorem ActsOn.malformed {e : RunError} (he : ∃ detail, e = .malformed detail)
    (h : ∀ ip locals console,
      f ⟨ip, stack, locals, console⟩ = .stopped ⟨.error e, locals, console⟩) :
    ActsOn host i stack f := by
  obtain ⟨detail, rfl⟩ := he
  exact .fails (fun limit heq => by cases heq) h

theorem ActsOn.yields (hi : i.opcode.isStraight = true) (stack' : List Entry)
    (h : ∀ ip locals console,
      f ⟨ip, stack, locals, console⟩ = .running ⟨ip, stack', locals, console⟩) :
    ActsOn host i stack f :=
  ⟨.goesOn stack', .goesOn hi, h⟩

end

/-! ## Operations -/

section

variable (host : Host σ) {i : Instruction} (hi : i.opcode = .callRuntime)

include hi

/-- Two values are taken from the stack, the right one first. -/
theorem binary_actsOn {op : Operation} (hop : op.IsBinary) (stack : List Entry) :
    ActsOn host i stack (callOperation host op) := by
  rw [callOperation_of_isBinary hop]
  rcases hright : popValue stack with e | ⟨right, rest⟩
  · apply ActsOn.malformed (exists_malformed_of_popValue hright)
    intro ip locals console
    simp only [callBinary, hright]
  rcases hleft : popValue rest with e | ⟨left, rest'⟩
  · apply ActsOn.malformed (exists_malformed_of_popValue hleft)
    intro ip locals console
    simp only [callBinary, hright, hleft]
  cases happly : op.apply left right with
  | error e =>
    refine ActsOn.fails (e := e) ?_ ?_
    · rintro limit rfl
      rcases Operation.error_of_apply hop happly with ⟨detail, h⟩ | h | h <;> cases h
    · intro ip locals console
      simp only [callBinary, hright, hleft, happly]
  | ok v =>
    apply ActsOn.yields (hi ▸ rfl) (.boxed v :: rest')
    intro ip locals console
    simp only [callBinary, hright, hleft, happly]

/-- Only a native is called, and any other callee is refused. -/
theorem call_actsOn (stack : List Entry) : ActsOn host i stack (callOperation host .call) := by
  rcases ha : popArguments stack with e | ⟨arguments, rest⟩
  · apply ActsOn.malformed (exists_malformed_of_popArguments ha)
    intro ip locals console
    simp only [callOperation, ha]
  rcases hv : popValue rest with e | ⟨callee, rest'⟩
  · apply ActsOn.malformed (exists_malformed_of_popValue hv)
    intro ip locals console
    simp only [callOperation, ha, hv]
  cases hcallee : callee with
  | native g =>
    refine ⟨.calls g arguments rest', .calls hi, ?_⟩
    intro ip locals console
    simp only [callOperation, ha, hv, hcallee, Value.call, Action.perform]
    rcases host.natives g arguments console with ⟨e | v, console'⟩
    · rfl
    · rfl
  | null | bool b | int n =>
    refine ActsOn.fails (e := .notCallable callee.display) (fun limit heq => by cases heq) ?_
    intro ip locals console
    simp only [callOperation, ha, hv, hcallee, Value.call]

theorem callOperation_actsOn (op : Operation) (stack : List Entry) :
    ActsOn host i stack (callOperation host op) := by
  cases op with
  | toBool =>
    rcases hv : popValue stack with e | ⟨v, rest⟩
    · apply ActsOn.malformed (exists_malformed_of_popValue hv)
      intro ip locals console
      simp only [callOperation, hv]
    · apply ActsOn.yields (hi ▸ rfl) (.truth v.truth :: rest)
      intro ip locals console
      simp only [callOperation, hv]
  | call => exact call_actsOn host hi stack
  | _ => exact binary_actsOn host hi ⟨by decide, by decide⟩ stack

end

/-! ## Instructions -/

theorem storeLocal_actsOn (host : Host σ) (slot : Slot) (stack : List Entry) :
    ActsOn host (.storeLocal slot) stack (perform host (.storeLocal slot)) := by
  rcases hv : popValue stack with e | ⟨v, rest⟩
  · apply ActsOn.malformed (exists_malformed_of_popValue hv)
    intro ip locals console
    simp only [perform, Instruction.storeLocal, hv]
  · refine ⟨.stores slot v rest, .stores rfl, ?_⟩
    intro ip locals console
    simp only [perform, Instruction.storeLocal, hv, Action.perform]

theorem storeArg_actsOn (host : Host σ) (n : UInt16) (stack : List Entry) :
    ActsOn host (.storeArg n) stack (perform host (.storeArg n)) := by
  rcases hv : popValue stack with e | ⟨v, rest⟩
  · apply ActsOn.malformed (exists_malformed_of_popValue hv)
    intro ip locals console
    simp only [perform, Instruction.storeArg, hv]
  rcases rest with _ | ⟨_ | _ | _ | values, rest⟩
  case ok.cons.args =>
    by_cases hn : n.toNat < values.size
    · apply ActsOn.yields rfl (.args (values.set n.toNat v hn) :: rest)
      intro ip locals console
      simp only [perform, Instruction.storeArg, hv, dif_pos hn]
    · apply ActsOn.malformed (e := noArguments n) ⟨_, rfl⟩
      intro ip locals console
      simp only [perform, Instruction.storeArg, hv, dif_neg hn]
  -- below the value there is no collection
  all_goals
    apply ActsOn.malformed (e := noArguments n) ⟨_, rfl⟩
    intro ip locals console
    simp only [perform, Instruction.storeArg, hv]

/-- **On a given stack an instruction does one thing**, whatever the address, the locals and the
console are. -/
theorem exists_action (host : Host σ) (i : Instruction) (stack : List Entry) :
    ActsOn host i stack (perform host i) := by
  obtain ⟨op, operand⟩ := i
  cases op with
  | ret => exact ⟨.returns, .returns, fun _ _ _ => rfl⟩
  | loadInt =>
    rcases operand with _ | (n | _ | _ | _ | _ | _ | _)
    case some.int => exact .yields rfl (.raw n :: stack) fun _ _ _ => rfl
    all_goals exact .malformed ⟨_, rfl⟩ fun _ _ _ => rfl
  | boxInt =>
    rcases stack with _ | ⟨n | v | b | values, rest⟩
    case cons.raw => exact .yields rfl (.boxed (.int n) :: rest) fun _ _ _ => rfl
    all_goals exact .malformed ⟨_, rfl⟩ fun _ _ _ => rfl
  | pop =>
    cases stack with
    | nil => exact .malformed ⟨_, rfl⟩ fun _ _ _ => rfl
    | cons entry rest => exact .yields rfl rest fun _ _ _ => rfl
  | loadLocal =>
    rcases operand with _ | (_ | slot | _ | _ | _ | _ | _)
    case some.slot => exact ⟨.loads slot, .loads rfl, fun _ _ _ => rfl⟩
    all_goals exact .malformed ⟨_, rfl⟩ fun _ _ _ => rfl
  | storeLocal =>
    rcases operand with _ | (_ | slot | _ | _ | _ | _ | _)
    case some.slot => exact storeLocal_actsOn host slot stack
    all_goals exact .malformed ⟨_, rfl⟩ fun _ _ _ => rfl
  | loadBuiltin =>
    rcases operand with _ | (_ | _ | n | _ | _ | _ | _)
    case some.builtin =>
      cases hv : host.builtins.get? n.toNat with
      | none =>
        apply ActsOn.malformed (e := noBuiltin n) ⟨_, rfl⟩
        intro ip locals console
        simp only [perform, hv]
      | some entry =>
        apply ActsOn.yields rfl (.boxed entry.2 :: stack)
        intro ip locals console
        simp only [perform, hv]
    all_goals exact .malformed ⟨_, rfl⟩ fun _ _ _ => rfl
  | newArgs =>
    rcases operand with _ | (_ | _ | _ | n | _ | _ | _)
    case some.count =>
      exact .yields rfl (.args (Array.replicate n.toNat .null) :: stack) fun _ _ _ => rfl
    all_goals exact .malformed ⟨_, rfl⟩ fun _ _ _ => rfl
  | storeArg =>
    rcases operand with _ | (_ | _ | _ | _ | n | _ | _)
    case some.index => exact storeArg_actsOn host n stack
    all_goals exact .malformed ⟨_, rfl⟩ fun _ _ _ => rfl
  | callRuntime =>
    rcases operand with _ | (_ | _ | _ | _ | _ | e | _)
    case some.entry =>
      cases hop : host.operation e with
      | none =>
        apply ActsOn.fails (e := .unknownEntryPoint e) fun limit heq => by cases heq
        intro ip locals console
        simp only [perform, hop]
      | some op =>
        obtain ⟨action, hof, haction⟩ :=
          callOperation_actsOn host (i := ⟨.callRuntime, some (.entry e)⟩) rfl op stack
        refine ⟨action, hof, fun ip locals console => ?_⟩
        simp only [perform, hop, haction]
    all_goals exact .malformed ⟨_, rfl⟩ fun _ _ _ => rfl
  | jump =>
    rcases operand with _ | (_ | _ | _ | _ | _ | _ | target)
    case some.target => exact ⟨.jumps target stack, .jumps (.inl rfl) rfl, fun _ _ _ => rfl⟩
    all_goals exact .malformed ⟨_, rfl⟩ fun _ _ _ => rfl
  | jumpIfFalse =>
    rcases operand with _ | (_ | _ | _ | _ | _ | _ | target)
    case some.target =>
      rcases stack with _ | ⟨n | v | (_ | _) | values, rest⟩
      case cons.truth.true => exact .yields rfl rest fun _ _ _ => rfl
      case cons.truth.false =>
        exact ⟨.jumps target rest, .jumps (.inr rfl) rfl, fun _ _ _ => rfl⟩
      all_goals exact .malformed ⟨_, rfl⟩ fun _ _ _ => rfl
    all_goals exact .malformed ⟨_, rfl⟩ fun _ _ _ => rfl

end Machine

end StackScript
