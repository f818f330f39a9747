import Mathlib.Tactic
import StackScript.Proofs.Arithmetic

set_option autoImplicit false

/-!
# Kinds of stack entries

A table gives, for each address of some code, the kinds of the entries on the stack before the
instruction there. An instruction fits a table if the kinds before it are those it needs and the
kinds at the addresses after it are those it leaves (`Fits`). Code that fits a table is safe: in
every state of a run the stack has the kinds of the table, and no error blames the code
(`Machine.runFor_safe`).
-/

namespace StackScript

/-- The kind of a stack entry. -/
inductive Kind
  | raw
  | boxed
  | truth
  | args (count : Nat)
deriving DecidableEq

/-- The kind of an entry. -/
def Machine.Entry.kind : Machine.Entry → Kind
  | .raw _ => .raw
  | .boxed _ => .boxed
  | .truth _ => .truth
  | .args values => .args values.size

/-- Whether an error says that the code itself is at fault. -/
def RunError.blamesCode : RunError → Bool
  | .malformed _ | .unknownEntryPoint _ => true
  | .typeError _ | .notCallable _ | .overflow _ | .divisionByZero | .native _ _ | .stepLimit _ =>
    false

/-- A result that does not blame the code. -/
def Blameless {α : Type} (result : Except RunError α) : Prop :=
  ∀ e, result = .error e → e.blamesCode = false

theorem blameless_ok {α : Type} (a : α) : Blameless (.ok a) := fun _ h => by cases h

namespace Machine

variable {σ : Type}

/-! ## Code that fits a table -/

/-- An instruction at an address fits a table of kinds, for a host and a number of local slots. A
jump goes from an empty stack to an empty stack. -/
inductive Fits (host : Host σ) (count : Nat) (kinds : Array (List Kind)) (pc : Nat) :
    Instruction → Prop
  | loadInt {n : Int32} {stack : List Kind} (hpre : kinds[pc]? = some stack)
      (hpost : kinds[pc + 1]? = some (.raw :: stack)) : Fits host count kinds pc (.loadInt n)
  | boxInt {stack : List Kind} (hpre : kinds[pc]? = some (.raw :: stack))
      (hpost : kinds[pc + 1]? = some (.boxed :: stack)) : Fits host count kinds pc .boxInt
  | pop {stack : List Kind} (hpre : kinds[pc]? = some (.boxed :: stack))
      (hpost : kinds[pc + 1]? = some stack) : Fits host count kinds pc .pop
  | loadLocal {slot : Slot} {stack : List Kind} (hslot : slot.index.toNat < count)
      (hpre : kinds[pc]? = some stack) (hpost : kinds[pc + 1]? = some (.boxed :: stack)) :
      Fits host count kinds pc (.loadLocal slot)
  | storeLocal {slot : Slot} {stack : List Kind} (hslot : slot.index.toNat < count)
      (hpre : kinds[pc]? = some (.boxed :: stack)) (hpost : kinds[pc + 1]? = some stack) :
      Fits host count kinds pc (.storeLocal slot)
  | loadBuiltin {n : UInt16} {stack : List Kind} (hn : n.toNat < host.builtins.size)
      (hpre : kinds[pc]? = some stack) (hpost : kinds[pc + 1]? = some (.boxed :: stack)) :
      Fits host count kinds pc (.loadBuiltin n)
  | newArgs {n : UInt16} {stack : List Kind} (hpre : kinds[pc]? = some stack)
      (hpost : kinds[pc + 1]? = some (.args n.toNat :: stack)) :
      Fits host count kinds pc (.newArgs n)
  | storeArg {n : UInt16} {size : Nat} {stack : List Kind} (hn : n.toNat < size)
      (hpre : kinds[pc]? = some (.boxed :: .args size :: stack))
      (hpost : kinds[pc + 1]? = some (.args size :: stack)) :
      Fits host count kinds pc (.storeArg n)
  | toBool {e : EntryPoint} {stack : List Kind} (hop : host.operation e = some .toBool)
      (hpre : kinds[pc]? = some (.boxed :: stack))
      (hpost : kinds[pc + 1]? = some (.truth :: stack)) : Fits host count kinds pc (.callRuntime e)
  | call {e : EntryPoint} {size : Nat} {stack : List Kind} (hop : host.operation e = some .call)
      (hpre : kinds[pc]? = some (.args size :: .boxed :: stack))
      (hpost : kinds[pc + 1]? = some (.boxed :: stack)) : Fits host count kinds pc (.callRuntime e)
  | binary {e : EntryPoint} {op : Operation} {stack : List Kind} (hbinary : op.IsBinary)
      (hop : host.operation e = some op) (hpre : kinds[pc]? = some (.boxed :: .boxed :: stack))
      (hpost : kinds[pc + 1]? = some (.boxed :: stack)) : Fits host count kinds pc (.callRuntime e)
  | jump {a : UInt32} (hpre : kinds[pc]? = some []) (htarget : kinds[a.toNat]? = some []) :
      Fits host count kinds pc (.jump a)
  | jumpIfFalse {a : UInt32} (hpre : kinds[pc]? = some [.truth])
      (hpost : kinds[pc + 1]? = some []) (htarget : kinds[a.toNat]? = some []) :
      Fits host count kinds pc (.jumpIfFalse a)
  | ret (hpre : kinds[pc]? = some []) : Fits host count kinds pc .ret

section

variable {host : Host σ} {count pc : Nat} {kinds : Array (List Kind)} {i : Instruction}
  {is js : List Instruction}

/-- Code that fits a table and starts on a stack of kinds `before`, if the stack behind it has kinds
`after`. -/
def Leads (host : Host σ) (count : Nat) (kinds : Array (List Kind)) (pc : Nat)
    (before after : List Kind) (is : List Instruction) : Prop :=
  kinds[pc + is.length]? = some after →
    EachAt (Fits host count kinds) pc is ∧ kinds[pc]? = some before

theorem Leads.nil (stack : List Kind) : Leads host count kinds pc stack stack [] :=
  fun h => ⟨.nil, h⟩

theorem Leads.single {before after : List Kind} (hpre : kinds[pc]? = some before)
    (h : kinds[pc + 1]? = some after → Fits host count kinds pc i) :
    Leads host count kinds pc before after [i] :=
  fun hpost => ⟨.cons (h hpost) .nil, hpre⟩

theorem Leads.append {pc' : Nat} {before mid after : List Kind}
    (h : Leads host count kinds pc before mid is) (h' : Leads host count kinds pc' mid after js)
    (hpc : pc' = pc + is.length) : Leads host count kinds pc before after (is ++ js) := by
  subst hpc
  intro hafter
  rw [List.length_append, ← Nat.add_assoc] at hafter
  obtain ⟨hjs, hmid⟩ := h' hafter
  obtain ⟨his, hbefore⟩ := h hmid
  exact ⟨his.append hjs, hbefore⟩

/-- The target of a jump that fits has an empty stack. -/
theorem Fits.empty_at_target (h : Fits host count kinds pc i) {a : UInt32}
    (ha : i.target? = some a) : kinds[a.toNat]? = some [] := by
  cases h with
  | jump hpre htarget =>
    cases ha
    exact htarget
  | jumpIfFalse hpre hpost htarget =>
    cases ha
    exact htarget
  | _ => cases ha

theorem Fits.empty_at_ret (h : Fits host count kinds pc .ret) : kinds[pc]? = some [] := by
  cases h
  assumption

end

/-! ## Stacks of given kinds -/

section

variable {stack : List Entry} {kinds : List Kind}

theorem exists_raw_of_kinds (h : stack.map Entry.kind = .raw :: kinds) :
    ∃ n rest, stack = .raw n :: rest ∧ rest.map Entry.kind = kinds := by
  obtain ⟨entry, rest, rfl, hentry, hrest⟩ := List.map_eq_cons_iff.1 h
  cases entry <;> cases hentry
  exact ⟨_, rest, rfl, hrest⟩

theorem exists_boxed_of_kinds (h : stack.map Entry.kind = .boxed :: kinds) :
    ∃ v rest, stack = .boxed v :: rest ∧ rest.map Entry.kind = kinds := by
  obtain ⟨entry, rest, rfl, hentry, hrest⟩ := List.map_eq_cons_iff.1 h
  cases entry <;> cases hentry
  exact ⟨_, rest, rfl, hrest⟩

theorem exists_truth_of_kinds (h : stack.map Entry.kind = .truth :: kinds) :
    ∃ b rest, stack = .truth b :: rest ∧ rest.map Entry.kind = kinds := by
  obtain ⟨entry, rest, rfl, hentry, hrest⟩ := List.map_eq_cons_iff.1 h
  cases entry <;> cases hentry
  exact ⟨_, rest, rfl, hrest⟩

theorem exists_args_of_kinds {size : Nat} (h : stack.map Entry.kind = .args size :: kinds) :
    ∃ values rest, stack = .args values :: rest ∧ values.size = size ∧
      rest.map Entry.kind = kinds := by
  obtain ⟨entry, rest, rfl, hentry, hrest⟩ := List.map_eq_cons_iff.1 h
  cases entry <;> cases hentry
  exact ⟨_, rest, rfl, rfl, hrest⟩

end

end Machine

/-! ## Errors of operations and calls -/

namespace Operation

/-- An operation on two values does not blame the code. -/
theorem blameless_apply {op : Operation} (h : op.IsBinary) (left right : Value) :
    Blameless (op.apply left right) := by
  intro e he
  rcases error_of_apply h he with ⟨detail, rfl⟩ | rfl | rfl
  · rfl
  · rfl
  · rfl

end Operation

theorem blameless_standard {σ : Type} (f : Native) (arguments : Array Value)
    (console : Console σ) : Blameless (Natives.standard f arguments console).1 := by
  unfold Natives.standard
  split
  · exact blameless_ok _
  · intro e he
    cases he
    rfl

namespace Machine

variable {σ : Type}

/-- The native functions of a host do not blame the code. -/
def Host.Blameless (host : Host σ) : Prop :=
  ∀ f arguments console, StackScript.Blameless (host.natives f arguments console).1

theorem blameless_call {host : Host σ} (h : host.Blameless) (callee : Value)
    (arguments : Array Value) (console : Console σ) :
    StackScript.Blameless (callee.call host.natives arguments console).1 := by
  cases callee with
  | native f => exact h f arguments console
  | _ =>
    intro e he
    cases he
    rfl

/-! ## Safety -/

/-- The stack of a state has the kinds that a table has for its address. -/
structure HasKinds (count : Nat) (kinds : Array (List Kind)) (s : State σ) : Prop where
  stack : kinds[s.ip]? = some (s.stack.map Entry.kind)
  locals : s.locals.size = count

theorem HasKinds.stack_eq_nil {count : Nat} {kinds : Array (List Kind)} {s : State σ}
    (h : HasKinds count kinds s) (hempty : kinds[s.ip]? = some []) : s.stack = [] :=
  List.map_eq_nil_iff.1 (Option.some.inj (h.stack.symm.trans hempty))

/-- A run that can go on has the kinds of a table, and one that has stopped does not blame the
code. -/
def Safe (count : Nat) (kinds : Array (List Kind)) : Progress σ → Prop
  | .running s => HasKinds count kinds s
  | .stopped outcome => Blameless outcome.result

variable {host : Host σ} {count : Nat} {kinds : Array (List Kind)} {code : Array Instruction}

/-- A step from a state that has the kinds of a table is safe. -/
theorem step_safe (hnatives : host.Blameless) (hcode : EachAt (Fits host count kinds) 0 code.toList)
    {s : State σ} (hs : HasKinds count kinds s) : Safe count kinds (step host code s) := by
  obtain ⟨pc, stack, locals, console⟩ := s
  obtain ⟨hstack, hlocals⟩ := hs
  dsimp only at hstack hlocals
  cases hi : code[pc]? with
  | none =>
    simp only [step, hi]
    exact blameless_ok ()
  | some i =>
    -- the rule for the instruction says what is on the stack, and with it what the step does
    have hfits := hcode pc i (by rw [Array.getElem?_toList, hi])
    rw [Nat.zero_add] at hfits
    cases hfits with
    | loadInt hpre hpost =>
      cases hstack.symm.trans hpre
      rw [step_loadInt hi]
      exact ⟨hpost, hlocals⟩
    | boxInt hpre hpost =>
      obtain ⟨n, rest, rfl, rfl⟩ := exists_raw_of_kinds (Option.some.inj (hstack.symm.trans hpre))
      rw [step_boxInt hi]
      exact ⟨hpost, hlocals⟩
    | pop hpre hpost =>
      obtain ⟨v, rest, rfl, rfl⟩ :=
        exists_boxed_of_kinds (Option.some.inj (hstack.symm.trans hpre))
      rw [step_pop hi]
      exact ⟨hpost, hlocals⟩
    | loadLocal hslot hpre hpost =>
      cases hstack.symm.trans hpre
      rw [← hlocals] at hslot
      rw [step_loadLocal hi (Array.getElem?_eq_getElem hslot)]
      exact ⟨hpost, hlocals⟩
    | storeLocal hslot hpre hpost =>
      obtain ⟨v, rest, rfl, rfl⟩ :=
        exists_boxed_of_kinds (Option.some.inj (hstack.symm.trans hpre))
      rw [← hlocals] at hslot
      rw [step_storeLocal hi hslot]
      exact ⟨hpost, by rw [← hlocals, Array.size_set]⟩
    | loadBuiltin hn hpre hpost =>
      cases hstack.symm.trans hpre
      rw [step_loadBuiltin hi (Array.getElem?_eq_getElem hn)]
      exact ⟨hpost, hlocals⟩
    | newArgs hpre hpost =>
      cases hstack.symm.trans hpre
      rw [step_newArgs hi]
      exact ⟨by simpa [Entry.kind] using hpost, hlocals⟩
    | storeArg hn hpre hpost =>
      obtain ⟨v, rest, rfl, hrest⟩ :=
        exists_boxed_of_kinds (Option.some.inj (hstack.symm.trans hpre))
      obtain ⟨values, rest, rfl, rfl, rfl⟩ := exists_args_of_kinds hrest
      rw [step_storeArg hi hn]
      exact ⟨by simpa [Entry.kind] using hpost, hlocals⟩
    | toBool hop hpre hpost =>
      obtain ⟨v, rest, rfl, rfl⟩ :=
        exists_boxed_of_kinds (Option.some.inj (hstack.symm.trans hpre))
      rw [step_toBool hi hop]
      exact ⟨hpost, hlocals⟩
    | call hop hpre hpost =>
      obtain ⟨values, rest, rfl, rfl, hrest⟩ :=
        exists_args_of_kinds (Option.some.inj (hstack.symm.trans hpre))
      obtain ⟨callee, rest, rfl, rfl⟩ := exists_boxed_of_kinds hrest
      rw [step_call hi hop]
      -- a call is the one instruction that runs code of the host
      have hcall := blameless_call hnatives callee values console
      split
      · next e console' heq =>
        rw [heq] at hcall
        exact fun _ he => hcall _ (by cases he; rfl)
      · exact ⟨hpost, hlocals⟩
    | binary hbinary hop hpre hpost =>
      obtain ⟨right, rest, rfl, hrest⟩ :=
        exists_boxed_of_kinds (Option.some.inj (hstack.symm.trans hpre))
      obtain ⟨left, rest, rfl, rfl⟩ := exists_boxed_of_kinds hrest
      rw [step_binary hbinary hi hop]
      have happly := Operation.blameless_apply hbinary left right
      split
      · next e heq =>
        rw [heq] at happly
        exact fun _ he => happly _ (by cases he; rfl)
      · exact ⟨hpost, hlocals⟩
    | jump hpre htarget =>
      obtain rfl := List.map_eq_nil_iff.1 (Option.some.inj (hstack.symm.trans hpre))
      rw [step_jump hi]
      exact ⟨htarget, hlocals⟩
    | jumpIfFalse hpre hpost htarget =>
      obtain ⟨b, rest, rfl, hrest⟩ :=
        exists_truth_of_kinds (Option.some.inj (hstack.symm.trans hpre))
      obtain rfl := List.map_eq_nil_iff.1 hrest
      rw [step_jumpIfFalse hi]
      -- the jump is taken on false
      cases b with
      | true => exact ⟨hpost, hlocals⟩
      | false => exact ⟨htarget, hlocals⟩
    | ret hpre =>
      rw [step_ret hi]
      exact blameless_ok ()

/-- A run from a state that has the kinds of a table is safe, however long it is. -/
theorem runFor_safe (hnatives : host.Blameless)
    (hcode : EachAt (Fits host count kinds) 0 code.toList) (n : Nat) {s : State σ}
    (hs : HasKinds count kinds s) :
    Safe count kinds (runFor host code n s) := by
  induction n generalizing s with
  | zero => exact hs
  | succ n ih =>
    have hstep := step_safe hnatives hcode hs
    simp only [runFor]
    cases hnext : step host code s with
    | running next =>
      rw [hnext] at hstep
      exact ih hstep
    | stopped outcome =>
      rw [hnext] at hstep
      exact hstep

theorem hasKinds_start {chunk : Chunk} (hstart : kinds[0]? = some []) (console : Console σ) :
    HasKinds chunk.localCount kinds (State.start chunk console) :=
  ⟨hstart, Array.size_replicate⟩

/-- An execution that starts on an empty stack does not blame the code, under any step limit. -/
theorem blameless_execute (hnatives : host.Blameless) {chunk : Chunk}
    (hcode : EachAt (Fits host chunk.localCount kinds) 0 chunk.code.toList)
    (hstart : kinds[0]? = some []) (limit : Nat) (console : Console σ) :
    StackScript.Blameless (execute host limit chunk console).result := by
  have hsafe := runFor_safe hnatives hcode limit (hasKinds_start hstart console)
  unfold execute
  cases hrun : runFor host chunk.code limit (State.start chunk console) with
  | stopped outcome =>
    rw [hrun] at hsafe
    exact hsafe
  | running s =>
    intro e he
    dsimp only at he
    split at he <;> cases he
    rfl

end Machine

end StackScript
