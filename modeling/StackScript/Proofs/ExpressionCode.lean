import Mathlib.Tactic
import StackScript.Proofs.LexicalEffects
import StackScript.Proofs.Lookups
import StackScript.Proofs.Simulation
import StackScript.Proofs.StackSafety

set_option autoImplicit false

/-!
# The code of expressions

An expression is lowered to instructions and nothing else: they are all that the sink is handed, so
no label is created, and the scope stays as it is, whatever the sink is and the state that lowering
is in (`Lowering.expr_writes`). Placed anywhere in any code, the instructions are performed one
after the other. They push one boxed value on any stack and leave the locals alone, or stop at an
error of an operation or of a native function (`expr_computes`). The main statement is
`Lowering.expr_pushes_one_value`.

The state may have any resolver, so the entries in the code need not be those of the library that is
asked now. They are those that the resolver remembers in the end (`Resolver.exports`).
-/

namespace StackScript

/-! ## What a resolver remembers -/

namespace Resolver

/-- What one resolver remembers, another one remembers as well. -/
def KeptBy (r r' : Resolver) : Prop :=
  ∀ op entry, r.resolved.lookup op = some entry → r'.resolved.lookup op = some entry

theorem KeptBy.refl (r : Resolver) : r.KeptBy r := fun _ _ h => h

theorem KeptBy.trans {r r₁ r₂ : Resolver} (h : r.KeptBy r₁) (h' : r₁.KeptBy r₂) : r.KeptBy r₂ :=
  fun op entry hentry => h' op entry (h op entry hentry)

/-- Resolving an operation forgets nothing, and remembers the entry. -/
theorem keptBy_resolve (library : Library) (op : Operation) (r : Resolver) :
    r.KeptBy (r.resolve library op).2 ∧
      ∀ entry, (r.resolve library op).1 = some entry →
        (r.resolve library op).2.resolved.lookup op = some entry := by
  obtain ⟨resolved, asked⟩ := r
  simp only [resolve]
  cases hfound : resolved.lookup op with
  | some found =>
    refine ⟨KeptBy.refl _, fun entry hentry => ?_⟩
    rw [← hentry]
    exact hfound
  | none =>
    cases library.lookup op.name with
    | none => exact ⟨KeptBy.refl _, fun entry hentry => by cases hentry⟩
    | some answer =>
      constructor
      · intro op' entry hentry
        have hne : op' ≠ op := by
          rintro rfl
          rw [hfound] at hentry
          cases hentry
        simpa [List.lookup_cons, beq_eq_false_iff_ne.2 hne] using hentry
      · intro entry hentry
        cases hentry
        simp

/-- The operations that a resolver remembers, as a library for the compiler. -/
def exports (r : Resolver) : Library where
  lookup name := (Operation.ofName? name).bind fun op => r.resolved.lookup op
  operation _ := none

theorem lookup_exports (r : Resolver) (op : Operation) :
    r.exports.lookup op.name = r.resolved.lookup op := by
  simp [exports, Operation.ofName?_name]

end Resolver

/-! ## Lowering of expressions -/

/-- Hands instructions to a sink, one after the other. -/
def Sink.emits {τ ω : Type} (sink : Sink τ ω) (is : List Instruction) (s : τ) : τ :=
  is.foldl (fun s i => sink.emit i s) s

theorem Sink.emits_append {τ ω : Type} (sink : Sink τ ω) (is js : List Instruction) (s : τ) :
    sink.emits (is ++ js) s = sink.emits js (sink.emits is s) :=
  List.foldl_append

/-- An assembler that is handed instructions appends them, and has no label more. -/
theorem Assembler.emits_eq (is : List Instruction) (a : Assembler) :
    Assembler.sink.emits is a = ⟨a.code ++ is.toArray, a.labels, a.branches⟩ := by
  induction is generalizing a with
  | nil => simp [Sink.emits]
  | cons i is ih =>
    show Assembler.sink.emits is (a.emit i) = _
    rw [ih]
    simp [Assembler.emit]

namespace Lowering

variable {τ ω : Type}

/-- Between two states of a walk the sink has been handed instructions, and nothing else has
happened. -/
structure Straight (sink : Sink τ ω) (st st' : State τ) (is : List Instruction) : Prop where
  handed : st'.sink = sink.emits is st.sink
  scope : st'.scope = st.scope
  kept : st.resolver.KeptBy st'.resolver

/-- From `st`, the walk `m` writes instructions and does nothing else, whether it succeeds or not.
Where it succeeds, the instructions are as `post` says. -/
def Writes {α : Type} (sink : Sink τ ω) (st : State τ) (m : Lower τ α)
    (post : α → State τ → List Instruction → Prop) : Prop :=
  (∃ a st' is, m st = .ok a st' ∧ Straight sink st st' is ∧ post a st' is) ∨
    ∃ e st' is, m st = .error e st' ∧ Straight sink st st' is

section

variable {α β : Type} {sink : Sink τ ω} {st st₁ st₂ : State τ} {is js : List Instruction}

theorem Straight.refl : Straight sink st st [] := ⟨rfl, rfl, .refl _⟩

theorem Straight.emit (i : Instruction) :
    Straight sink st { st with sink := sink.emit i st.sink } [i] :=
  ⟨rfl, rfl, .refl _⟩

theorem Straight.trans (h : Straight sink st st₁ is) (h' : Straight sink st₁ st₂ js) :
    Straight sink st st₂ (is ++ js) where
  handed := by rw [h'.handed, h.handed, Sink.emits_append]
  scope := h'.scope.trans h.scope
  kept := h.kept.trans h'.kept

namespace Writes

variable {m : Lower τ α} {f : α → Lower τ β} {post : α → State τ → List Instruction → Prop}
  {post' : β → State τ → List Instruction → Prop}

theorem of_error {e : CompileError} (h : m st = .error e st) : Writes sink st m post :=
  .inr ⟨e, st, [], h, .refl⟩

/-- One part after the other. -/
theorem bind (h : Writes sink st m post)
    (next : ∀ a st₁ is, Straight sink st st₁ is → post a st₁ is →
      Writes sink st₁ (f a) fun b st₂ js => post' b st₂ (is ++ js)) :
    Writes sink st (m >>= f) post' := by
  rcases h with ⟨a, st₁, is, hm, his, hpost⟩ | ⟨e, st₁, is, hm, his⟩
  · rcases next a st₁ is his hpost with ⟨b, st₂, js, hf, hjs, hpost'⟩ | ⟨e, st₂, js, hf, hjs⟩
    · exact .inl ⟨b, st₂, is ++ js, (run_bind_of_ok hm).trans hf, his.trans hjs, hpost'⟩
    · exact .inr ⟨e, st₂, is ++ js, (run_bind_of_ok hm).trans hf, his.trans hjs⟩
  · exact .inr ⟨e, st₁, is, run_bind_of_error hm, his⟩

theorem mono {post' : α → State τ → List Instruction → Prop} (h : Writes sink st m post)
    (hpost : ∀ a st₁ is, Straight sink st st₁ is → post a st₁ is → post' a st₁ is) :
    Writes sink st m post' := by
  rcases h with ⟨a, st₁, is, hm, his, h⟩ | h
  · exact .inl ⟨a, st₁, is, hm, his, hpost a st₁ is his h⟩
  · exact .inr h

/-- An instruction is written in front of what comes next. -/
theorem emit {m : Lower τ β} {i : Instruction} (h : ∀ st₁, Straight sink st st₁ [i] →
    Writes sink st₁ m fun b st₂ js => post' b st₂ (i :: js)) :
    Writes sink st (Lowering.emit sink i >>= fun _ => m) post' := by
  have hfirst : Writes sink st (Lowering.emit sink i) fun _ _ is => is = [i] :=
    .inl ⟨(), _, [i], rfl, .emit i, rfl⟩
  refine hfirst.bind ?_
  rintro _ st₁ _ his rfl
  exact h st₁ his

end Writes

/-- The call of an operation has the entry that is remembered. -/
theorem operate_writes (sink : Sink τ ω) (library : Library) (op : Operation) (st : State τ) :
    Writes sink st (operate sink library op) fun _ st' is =>
      ∃ entry, st'.resolver.resolved.lookup op = some entry ∧ is = [.callRuntime entry] := by
  obtain ⟨scope, resolver, s⟩ := st
  obtain ⟨hkept, hentry⟩ := resolver.keptBy_resolve library op
  cases hfound : resolver.resolve library op with
  | mk found resolver' =>
    rw [hfound] at hkept hentry
    cases found with
    | none =>
      have hrun : entryOf library op (⟨scope, resolver, s⟩ : State τ) =
          .error (.internal (.unresolvedOperation op.name)) ⟨scope, resolver', s⟩ := by
        simp only [entryOf, hfound]
      exact .inr ⟨_, _, [], run_bind_of_error hrun, rfl, rfl, hkept⟩
    | some entry =>
      have hrun : entryOf library op (⟨scope, resolver, s⟩ : State τ) =
          .ok entry ⟨scope, resolver', s⟩ := by simp only [entryOf, hfound]
      refine .inl ⟨(), _, [.callRuntime entry], run_bind_of_ok hrun, ?_, entry, ?_, rfl⟩
      · exact ⟨rfl, rfl, hkept⟩
      · exact hentry entry rfl

end

mutual

/-- An expression is lowered to its layout, for the entries that are remembered in the end. -/
theorem expr_writes (sink : Sink τ ω) (library : Library) {slots : String → Option Slot} :
    ∀ (e : Expr) (st : State τ), st.scope.resolve? = slots →
    Writes sink st (expr sink library e) fun _ st' is =>
      ∀ r, st'.resolver.KeptBy r → Layout.expr r.exports slots e = .ok is
  | .binary left text right position, st, hslots => by
    rw [expr]
    refine (expr_writes sink library left st hslots).bind fun _ st₁ l h₁ hl => ?_
    have hslots₁ : st₁.scope.resolve? = slots := by rw [h₁.scope, hslots]
    refine (expr_writes sink library right st₁ hslots₁).bind fun _ st₂ r h₂ hr => ?_
    cases hop : Operation.ofOperator? text with
    | none => exact .of_error rfl
    | some op =>
      refine (operate_writes sink library op st₂).mono ?_
      rintro _ st₃ _ h₃ ⟨entry, hentry, rfl⟩ resolver hkept
      -- what was remembered after each operand is remembered in the end
      have hleft := hl resolver ((h₂.kept.trans h₃.kept).trans hkept)
      have hright := hr resolver (h₃.kept.trans hkept)
      have hlookup : resolver.exports.lookup op.name = some entry := by
        rw [Resolver.lookup_exports]
        exact hkept op entry hentry
      rw [Layout.expr, ← List.append_assoc]
      refine bind_eq_ok.2 ⟨l, hleft, bind_eq_ok.2 ⟨r, hright, ?_⟩⟩
      exact bind_eq_ok.2 ⟨op, Layout.operator_eq_ok.2 hop,
        bind_eq_ok.2 ⟨entry, Layout.entry_eq_ok.2 hlookup, rfl⟩⟩
  | .call callee arguments position, st, hslots => by
    rw [expr]
    refine (expr_writes sink library callee st hslots).bind fun _ st₁ c h₁ hc => ?_
    have hslots₁ : st₁.scope.resolve? = slots := by rw [h₁.scope, hslots]
    by_cases hcount : arguments.length < 65536
    · rw [operand16, if_pos hcount, pure_bind]
      refine .emit fun st₂ h₂ => ?_
      have hslots₂ : st₂.scope.resolve? = slots := by rw [h₂.scope, hslots₁]
      refine (exprs_writes sink library arguments 0 st₂ hslots₂ (by omega)).bind ?_
      intro _ st₃ a h₃ ha
      refine (operate_writes sink library .call st₃).mono ?_
      rintro _ st₄ _ h₄ ⟨entry, hentry, rfl⟩ resolver hkept
      have hcallee := hc resolver (((h₂.kept.trans h₃.kept).trans h₄.kept).trans hkept)
      have harguments := ha resolver (h₄.kept.trans hkept)
      have hlookup : resolver.exports.lookup Operation.call.name = some entry := by
        rw [Resolver.lookup_exports]
        exact hkept .call entry hentry
      rw [Layout.expr]
      refine bind_eq_ok.2 ⟨c, hcallee, bind_eq_ok.2
        ⟨_, Layout.operand16_eq_ok.2 ⟨hcount, rfl⟩, bind_eq_ok.2 ⟨a, harguments, ?_⟩⟩⟩
      refine bind_eq_ok.2 ⟨entry, Layout.entry_eq_ok.2 hlookup, ?_⟩
      simp [pure, Except.pure]
    · rw [operand16, if_neg hcount]
      exact .of_error rfl
  | .parens inner position, st, hslots => by
    rw [expr]
    exact expr_writes sink library inner st hslots
  | .number text position, st, hslots => by
    rw [expr]
    cases hn : Literal.parse? text with
    | none => exact .of_error rfl
    | some n =>
      refine .emit fun st₁ h₁ => .inl ⟨(), _, [.boxInt], rfl, .emit .boxInt, ?_⟩
      intro resolver hkept
      rw [Layout.expr]
      exact bind_eq_ok.2 ⟨n, Layout.literal_eq_ok.2 hn, rfl⟩
  | .identifier name position, st, hslots => by
    rw [expr]
    cases hslot : st.scope.resolve? name with
    | none =>
      have hrun : slotOf name position st =
          .error (.diagnosed ⟨position, .unknownVariable name⟩) st := by simp only [slotOf, hslot]
      exact .of_error (run_bind_of_error hrun)
    | some slot =>
      have hrun : slotOf name position st = .ok slot st := by simp only [slotOf, hslot]
      refine .inl ⟨(), _, [.loadLocal slot], run_bind_of_ok hrun, .emit (.loadLocal slot), ?_⟩
      intro resolver hkept
      rw [Layout.expr]
      rw [hslots] at hslot
      exact bind_eq_ok.2 ⟨slot, Layout.slotOf_eq_ok.2 hslot, rfl⟩
  | .member object name position, st, hslots => by
    rw [expr]
    exact .of_error rfl

theorem exprs_writes (sink : Sink τ ω) (library : Library) {slots : String → Option Slot}
    {total : Nat} : ∀ (es : List Expr) (index : Nat) (st : State τ),
    st.scope.resolve? = slots → index + es.length < 65536 →
    Writes sink st (exprs sink library total index es) fun _ st' is =>
      ∀ r, st'.resolver.KeptBy r → Layout.exprs r.exports slots index es = .ok is
  | [], index, st, hslots, hfits => by
    rw [exprs]
    exact .inl ⟨(), st, [], rfl, .refl, fun _ _ => rfl⟩
  | argument :: rest, index, st, hslots, hfits => by
    rw [List.length_cons] at hfits
    have hindex : index < 65536 := by omega
    rw [exprs, operand16, if_pos hindex, pure_bind]
    refine (expr_writes sink library argument st hslots).bind fun _ st₁ a h₁ ha => ?_
    have hslots₁ : st₁.scope.resolve? = slots := by rw [h₁.scope, hslots]
    refine .emit fun st₂ h₂ => ?_
    have hslots₂ : st₂.scope.resolve? = slots := by rw [h₂.scope, hslots₁]
    refine (exprs_writes sink library rest (index + 1) st₂ hslots₂ (by omega)).mono ?_
    intro _ st₃ r h₃ hr resolver hkept
    have hargument := ha resolver ((h₂.kept.trans h₃.kept).trans hkept)
    rw [Layout.exprs]
    refine bind_eq_ok.2 ⟨a, hargument, bind_eq_ok.2 ⟨r, hr resolver hkept, ?_⟩⟩
    simp [pure, Except.pure]

end

end Lowering

/-! ## Runs of the code -/

namespace Machine

variable {σ : Type} {host : Host σ} {code : Array Instruction} {s : State σ}

/-- The code of an expression is performed from one instruction to the next. -/
theorem ip_of_running {slots : String → Option Slot} {is : List Instruction}
    (hexpr : ∀ i ∈ is, Layout.OfExpr slots i) {pc : Nat} (hcode : StandsAt code pc is)
    (hs : s.ip = pc) :
    ∀ k ≤ is.length, ∀ s', runFor host code k s = .running s' → s'.ip = pc + k := by
  intro k
  induction k with
  | zero =>
    intro _ s' hrun
    cases hrun
    exact hs
  | succ k ih =>
    intro hk s' hrun
    obtain ⟨mid, hmid, hstep⟩ := exists_last_step hrun
    have hip := ih (Nat.le_of_succ_le hk) mid hmid
    obtain ⟨i, hi, hgoes⟩ := step_goes hstep
    -- the step performs instruction `k`, which does not jump
    rw [hip, hcode k hk] at hi
    obtain ⟨stored, hreads⟩ := (hexpr i (List.mem_of_getElem? hi)).exists_reads
    rw [hreads.eq_of_goes hgoes, hip, Nat.add_assoc]

/-- Locals that cover the slots hold a value for each name. -/
theorem holds_of_slotsBelow {slots : String → Option Slot} {locals : Array Value}
    (h : SlotsBelow locals.size slots) :
    Holds slots (fun name => (slots name).bind fun slot => locals[slot.index.toNat]?) locals := by
  intro name slot hslot
  have hlt := h name slot hslot
  refine ⟨locals[slot.index.toNat], ?_, Array.getElem?_eq_getElem hlt⟩
  simp only [hslot, Option.bind_some, Array.getElem?_eq_getElem hlt]

end Machine

/-! ## Lowered expressions -/

namespace Lowering

/-- **An expression pushes one value.** Lowering an expression hands its sink instructions and
nothing else, so it creates no label, and it leaves the scope alone: for any sink, in any state and
also if it fails. Take a host that has each operation behind the entry remembered for it, the
instructions at any address of any code, and locals that cover the visible slots. From the first
instruction on, with any stack and console, they are performed one after the other: until the
machine has come to their end, with one boxed value on top of the old stack, or until it stops with
an error that the host raises. The locals are as before in both cases. -/
theorem expr_pushes_one_value {σ τ ω : Type} (sink : Sink τ ω) (library : Library) (e : Expr)
    (st : State τ) :
    (∀ error st', expr sink library e st = .error error st' →
      st'.scope = st.scope ∧ ∃ is, st'.sink = sink.emits is st.sink) ∧
    ∀ st', expr sink library e st = .ok () st' →
      st'.scope = st.scope ∧
      ∃ is, st'.sink = sink.emits is st.sink ∧
        ∀ (host : Machine.Host σ) (code : Array Instruction) (pc : Nat)
          (stack : List Machine.Entry) (locals : Array Value) (console : Console σ),
          (∀ op entry, st'.resolver.resolved.lookup op = some entry →
            host.operation entry = some op) →
          (∀ name slot, st.scope.resolve? name = some slot → slot.index.toNat < locals.size) →
          Machine.StandsAt code pc is →
          (∀ k ≤ is.length, ∀ s,
            Machine.runFor host code k ⟨pc, stack, locals, console⟩ = .running s →
            s.ip = pc + k) ∧
          ((∃ v console', Machine.runFor host code is.length ⟨pc, stack, locals, console⟩ =
              .running ⟨pc + is.length, .boxed v :: stack, locals, console'⟩) ∨
            ∃ n ≤ is.length, ∃ error console', host.Raises console' error ∧
              Machine.runFor host code n ⟨pc, stack, locals, console⟩ =
                .stopped ⟨.error error, locals, console'⟩) := by
  rcases expr_writes sink library e st rfl with
    ⟨⟨⟩, st₁, is, hrun, h, hlay⟩ | ⟨e', st₁, is, hrun, h⟩
  · refine ⟨fun error st' herror => ?_, fun st' hok => ?_⟩
    · cases hrun.symm.trans herror
    cases hrun.symm.trans hok
    refine ⟨h.scope, is, h.handed, ?_⟩
    intro host code pc stack locals console hhost hslots hcode
    have hlayout := hlay st₁.resolver (.refl _)
    have hresolves : Resolves st₁.resolver.exports host := by
      intro op entry hentry
      rw [Resolver.lookup_exports] at hentry
      exact hhost op entry hentry
    refine ⟨Machine.ip_of_running (Layout.ofExpr_expr e hlayout) hcode rfl, ?_⟩
    have hcomputes := expr_computes hresolves (Machine.holds_of_slotsBelow hslots) e hlayout hcode
      stack console
    generalize Evaluator.expr host.natives _ e console = result at hcomputes
    cases hcomputes with
    | @reaches v console' _ hend hgoal =>
      cases hgoal
      exact .inl ⟨v, console', hend⟩
    | @fails error console' n hle herror hend =>
      exact .inr ⟨n, hle, error, console', herror, hend⟩
  · refine ⟨fun error st' herror => ?_, fun st' hok => ?_⟩
    · cases hrun.symm.trans herror
      exact ⟨h.scope, is, h.handed⟩
    · cases hrun.symm.trans hok

/-- A call among the arguments of a call, in a state that remembers an entry for calls which is not
the library's. Its code stands behind another instruction, and below its value is an entry of
before. The assembler has created three labels, and has created no more afterwards. -/
theorem expr_pushes_one_value_nested :
    let e : Expr := .call (.identifier "print" {}) [.number "1" {},
      .binary (.call (.identifier "print" {}) [.number "2" {}] {}) "==" (.number "3" {}) {}] {}
    let st : State Assembler := {
      scope := (Scope.declare "print" {}).2, resolver := ⟨[(.call, ⟨40⟩)], #["Call"]⟩
      sink := { labels := #[none, some 0, none] } }
    let host : Machine.Host Unit :=
      ⟨fun entry => if entry = ⟨40⟩ then some .call else Library.standard.operation entry,
        .empty, .standard⟩
    ∃ st' is v console, expr Assembler.sink .standard e st = .ok () st' ∧
      (∀ op entry, st'.resolver.resolved.lookup op = some entry →
        host.operation entry = some op) ∧
      (∀ name slot, st.scope.resolve? name = some slot → slot.index.toNat < 1) ∧
      st'.scope = st.scope ∧ st'.sink = ⟨is.toArray, #[none, some 0, none], #[]⟩ ∧
      is.length = 16 ∧
      Machine.runFor host (.boxInt :: is).toArray 16
        ⟨1, [.raw 7], #[.native .print], ⟨#[], ()⟩⟩ =
        .running ⟨17, [.boxed v, .raw 7], #[.native .print], console⟩ := by
  intro e st host
  let code : List Instruction := [.loadLocal ⟨0⟩, .newArgs 2, .loadInt 1, .boxInt, .storeArg 0,
    .loadLocal ⟨0⟩, .newArgs 1, .loadInt 2, .boxInt, .storeArg 0, .callRuntime ⟨40⟩, .loadInt 3,
    .boxInt, .callRuntime ⟨6⟩, .storeArg 1, .callRuntime ⟨40⟩]
  let start : Machine.State Unit := ⟨1, [.raw 7], #[.native .print], ⟨#[], ()⟩⟩
  let walk : Lower Assembler (List Instruction × List (Operation × EntryPoint)) := do
    expr Assembler.sink .standard e
    let st' ← get
    return (st'.sink.code.toList, st'.resolver.resolved)
  have hwalk : walk.run' st = some (code, [(.eq, ⟨6⟩), (.call, ⟨40⟩)]) := by
    decide +kernel
  obtain ⟨_, hw⟩ := exists_ok_of_run' hwalk
  obtain ⟨⟨⟩, st', hexpr, hw₁⟩ := run_bind_eq_ok hw
  obtain ⟨_, _, hget, hw₂⟩ := run_bind_eq_ok hw₁
  cases hget
  obtain ⟨hcode, hresolved⟩ := Prod.mk.inj (EStateM.Result.ok.inj hw₂).1
  have hhost : ∀ op entry, st'.resolver.resolved.lookup op = some entry →
      host.operation entry = some op := by
    rw [hresolved]
    intro op entry h
    cases op <;> cases h <;> rfl
  have hslots : ∀ name slot, st.scope.resolve? name = some slot → slot.index.toNat < 1 := by
    intro name slot h
    obtain ⟨-, rfl⟩ : "print" = name ∧ (⟨0⟩ : Slot) = slot := by
      simpa [st, Scope.declare, Scope.fresh, Scope.capacity, Scope.bind, Scope.resolve?,
        Std.TreeMap.getElem?_insert] using h
    decide
  obtain ⟨hscope, is, hhanded, hruns⟩ :=
    (expr_pushes_one_value Assembler.sink .standard e st).2 st' hexpr
  have hsink : st'.sink = ⟨is.toArray, #[none, some 0, none], #[]⟩ := by
    rw [hhanded, Assembler.emits_eq]
    simp [st]
  obtain rfl : is = code := by
    rw [hsink] at hcode
    simpa using hcode
  have hstands : Machine.StandsAt (.boxInt :: code).toArray 1 code :=
    (Machine.standsAt_toArray (.boxInt :: code)).tail
  have hcontinues : (Machine.runFor host (.boxInt :: code).toArray 16 start).state?.isSome := by
    decide +kernel
  obtain ⟨-, ⟨v, console, hend⟩ | ⟨n, hle, error, console, -, hend⟩⟩ :=
    hruns host (.boxInt :: code).toArray 1 start.stack start.locals start.console hhost hslots
      hstands
  · exact ⟨st', _, v, console, hexpr, hhost, hslots, hscope, hsink, rfl, hend⟩
  · obtain ⟨s, hs⟩ := Option.isSome_iff_exists.1 hcontinues
    have hlt := Machine.lt_of_running hend (Machine.Progress.state?_eq_some.1 hs)
    exact absurd hle (Nat.not_le.2 hlt)

end Lowering

end StackScript
