import Mathlib.Tactic
import StackScript.Assembler

set_option autoImplicit false

/-!
# What the assembler makes of directives

Once every label has an address, directives are code: `Directives.code` reads them under an
assignment of addresses to labels, and `Directives.PlacedAt` says that the assignment gives each
bound label the address where it is bound. Directives that keep to the discipline of
`Directive.track` (a label is bound once, after its creation, and branched to after its creation)
are never refused by the assembler, and if they bind every label it ends with their code under such
an assignment (`Assembler.finish_eq_of_track`).
-/

namespace StackScript

theorem toNat_toUInt16 {n : Nat} (h : n < 65536) : n.toUInt16.toNat = n :=
  UInt16.toNat_ofNat_of_lt' h

theorem toNat_toUInt32 {n : Nat} (h : n < 2 ^ 32) : n.toUInt32.toNat = n :=
  UInt32.toNat_ofNat_of_lt' h

/-- A result after two steps is a result of the second after a result of the first. -/
theorem bind_eq_ok {ε α β : Type} {x : Except ε α} {f : α → Except ε β} {b : β} :
    (x >>= f) = .ok b ↔ ∃ a, x = .ok a ∧ f a = .ok b := by
  cases x with
  | error e => simp [bind, Except.bind]
  | ok a => simp [bind, Except.bind]

/-- An error of two steps is one of the first, or one of the second after a result. -/
theorem bind_eq_error {ε α β : Type} {x : Except ε α} {f : α → Except ε β} {e : ε} :
    (x >>= f) = .error e ↔ x = .error e ∨ ∃ a, x = .ok a ∧ f a = .error e := by
  cases x with
  | error e => simp [bind, Except.bind]
  | ok a => simp [bind, Except.bind]

section

variable {ε σ α β : Type} {m : EStateM ε σ α} {f : α → EStateM ε σ β} {s s' : σ}

theorem run_bind_of_ok {a : α} (h : m s = .ok a s') : (m >>= f) s = f a s' := by
  simp [bind, EStateM.bind, h]

theorem run_bind_of_error {e : ε} (h : m s = .error e s') : (m >>= f) s = .error e s' := by
  simp [bind, EStateM.bind, h]

/-- A run of two steps that goes well is one of each. -/
theorem run_bind_eq_ok {b : β} (h : (m >>= f) s = .ok b s') :
    ∃ a mid, m s = .ok a mid ∧ f a mid = .ok b s' := by
  cases hm : m s with
  | ok a mid =>
    rw [run_bind_of_ok hm] at h
    exact ⟨a, mid, rfl, h⟩
  | error e mid =>
    rw [run_bind_of_error hm] at h
    cases h

theorem exists_ok_of_run' {a : α} (h : m.run' s = some a) : ∃ s', m s = .ok a s' := by
  delta EStateM.run' EStateM.run at h
  cases hm : m s with
  | ok a' s' =>
    rw [hm] at h
    exact ⟨s', congrArg (EStateM.Result.ok · s') (Option.some.inj h)⟩
  | error e s' =>
    rw [hm] at h
    cases h

end

section

variable {σ ω : Type}

/-- Hands one directive to a sink. -/
def Sink.take (sink : Sink σ ω) (state : σ) : Directive → Except InternalError σ
  | .emit i => .ok (sink.emit i state)
  | .newLabel _ => .ok (sink.newLabel state).2
  | .bind label =>
    match sink.bind label state with
    | (.ok _, next) => .ok next
    | (.error e, _) => .error e
  | .branchIfFalse label => .ok (sink.branchIfFalse label state)
  | .branch label => .ok (sink.branch label state)

/-- Hands directives to a sink until it refuses one. -/
def Sink.takeAll (sink : Sink σ ω) (directives : List Directive) : Except InternalError σ :=
  directives.foldlM sink.take sink.start

end

/-- The number of instructions that a directive stands for. -/
def Directive.width : Directive → Nat
  | .emit _ | .branchIfFalse _ | .branch _ => 1
  | .newLabel _ | .bind _ => 0

/-- The instruction that a directive stands for, given the addresses of the labels. -/
def Directive.instruction? (place : Label → UInt32) : Directive → Option Instruction
  | .emit i => some i
  | .branchIfFalse label => some (.jumpIfFalse (place label))
  | .branch label => some (.jump (place label))
  | .newLabel _ | .bind _ => none

namespace Directives

/-- The number of instructions that directives stand for. -/
def size (ds : List Directive) : Nat := (ds.map Directive.width).sum

/-- The code that directives stand for, given the addresses of the labels. -/
def code (place : Label → UInt32) (ds : List Directive) : List Instruction :=
  ds.filterMap (Directive.instruction? place)

/-- The directives that write instructions. -/
def emits (is : List Instruction) : List Directive := is.map .emit

/-- Every label that directives bind has the address of its bind, the first directive being at
`pc`. -/
def PlacedAt (place : Label → UInt32) : Nat → List Directive → Prop
  | _, [] => True
  | pc, d :: ds =>
    (∀ label, d = .bind label → place label = pc.toUInt32) ∧ PlacedAt place (pc + d.width) ds

/-- The branches among directives, each with its address and its label. -/
def branches : Nat → List Directive → List (Nat × Label)
  | _, [] => []
  | pc, .branchIfFalse label :: ds => (pc, label) :: branches (pc + 1) ds
  | pc, .branch label :: ds => (pc, label) :: branches (pc + 1) ds
  | pc, d :: ds => branches (pc + d.width) ds

@[simp] theorem size_nil : size [] = 0 := rfl

@[simp] theorem size_cons (d : Directive) (ds : List Directive) :
    size (d :: ds) = d.width + size ds := rfl

@[simp] theorem size_append (ds es : List Directive) : size (ds ++ es) = size ds + size es := by
  simp [size]

@[simp] theorem emits_nil : emits [] = [] := rfl

theorem emits_cons (i : Instruction) (is : List Instruction) :
    emits (i :: is) = .emit i :: emits is := rfl

@[simp] theorem emits_append (is js : List Instruction) : emits (is ++ js) = emits is ++ emits js :=
  List.map_append

@[simp] theorem size_emits (is : List Instruction) : size (emits is) = is.length := by
  induction is with
  | nil => rfl
  | cons i is ih => rw [emits_cons, size_cons, ih, Directive.width, List.length_cons, Nat.add_comm]

@[simp] theorem code_nil (place : Label → UInt32) : code place [] = [] := rfl

@[simp] theorem code_emit (place : Label → UInt32) (i : Instruction) (ds : List Directive) :
    code place (.emit i :: ds) = i :: code place ds := rfl

@[simp] theorem code_newLabel (place : Label → UInt32) (label : Label) (ds : List Directive) :
    code place (.newLabel label :: ds) = code place ds := rfl

@[simp] theorem code_bind (place : Label → UInt32) (label : Label) (ds : List Directive) :
    code place (.bind label :: ds) = code place ds := rfl

@[simp] theorem code_branchIfFalse (place : Label → UInt32) (label : Label) (ds : List Directive) :
    code place (.branchIfFalse label :: ds) = .jumpIfFalse (place label) :: code place ds := rfl

@[simp] theorem code_branch (place : Label → UInt32) (label : Label) (ds : List Directive) :
    code place (.branch label :: ds) = .jump (place label) :: code place ds := rfl

@[simp] theorem code_append (place : Label → UInt32) (ds es : List Directive) :
    code place (ds ++ es) = code place ds ++ code place es := by
  simp [code]

@[simp] theorem code_emits (place : Label → UInt32) (is : List Instruction) :
    code place (emits is) = is := by
  induction is with
  | nil => rfl
  | cons i is ih => rw [emits_cons, code_emit, ih]

theorem length_code (place : Label → UInt32) (ds : List Directive) :
    (code place ds).length = size ds := by
  induction ds with
  | nil => rfl
  | cons d ds ih =>
    rw [size_cons, ← ih]
    cases d <;> simp [Directive.width, Nat.add_comm]

@[simp] theorem placedAt_nil (place : Label → UInt32) (pc : Nat) : PlacedAt place pc [] := trivial

@[simp] theorem placedAt_emit (place : Label → UInt32) (pc : Nat) (i : Instruction)
    (ds : List Directive) : PlacedAt place pc (.emit i :: ds) ↔ PlacedAt place (pc + 1) ds := by
  simp [PlacedAt, Directive.width]

@[simp] theorem placedAt_newLabel (place : Label → UInt32) (pc : Nat) (label : Label)
    (ds : List Directive) : PlacedAt place pc (.newLabel label :: ds) ↔ PlacedAt place pc ds := by
  simp [PlacedAt, Directive.width]

@[simp] theorem placedAt_bind (place : Label → UInt32) (pc : Nat) (label : Label)
    (ds : List Directive) :
    PlacedAt place pc (.bind label :: ds) ↔ place label = pc.toUInt32 ∧ PlacedAt place pc ds := by
  simp [PlacedAt, Directive.width]

@[simp] theorem placedAt_branchIfFalse (place : Label → UInt32) (pc : Nat) (label : Label)
    (ds : List Directive) :
    PlacedAt place pc (.branchIfFalse label :: ds) ↔ PlacedAt place (pc + 1) ds := by
  simp [PlacedAt, Directive.width]

@[simp] theorem placedAt_branch (place : Label → UInt32) (pc : Nat) (label : Label)
    (ds : List Directive) :
    PlacedAt place pc (.branch label :: ds) ↔ PlacedAt place (pc + 1) ds := by
  simp [PlacedAt, Directive.width]

theorem placedAt_append (place : Label → UInt32) (pc : Nat) (ds es : List Directive) :
    PlacedAt place pc (ds ++ es) ↔ PlacedAt place pc ds ∧ PlacedAt place (pc + size ds) es := by
  induction ds generalizing pc with
  | nil => simp
  | cons d ds ih =>
    simp only [List.cons_append, PlacedAt, ih, size_cons]
    rw [and_assoc, Nat.add_assoc]

end Directives

/-! ## One directive after the other -/

/-- The flags of the labels created so far, each telling whether the label is bound, after a
directive; none if the directive breaks the discipline. -/
def Directive.track (flags : List Bool) : Directive → Option (List Bool)
  | .emit _ => some flags
  | .newLabel _ => some (flags ++ [false])
  | .bind label =>
    if flags[label.id.toNat]? = some false then some (flags.set label.id.toNat true) else none
  | .branchIfFalse label | .branch label =>
    if label.id.toNat < flags.length then some flags else none

theorem Directive.track_bind_eq_some {before after : List Bool} {label : Label} :
    (Directive.bind label).track before = some after ↔
      before[label.id.toNat]? = some false ∧ before.set label.id.toNat true = after := by
  simp [track]

theorem Directive.track_branchIfFalse_eq_some {before after : List Bool} {label : Label} :
    (Directive.branchIfFalse label).track before = some after ↔
      label.id.toNat < before.length ∧ before = after := by
  simp [track]

theorem Directive.track_branch_eq_some {before after : List Bool} {label : Label} :
    (Directive.branch label).track before = some after ↔
      label.id.toNat < before.length ∧ before = after := by
  simp [track]

/-- The flags after directives. -/
def Directives.track (flags : List Bool) (ds : List Directive) : Option (List Bool) :=
  ds.foldlM Directive.track flags

namespace Directives

@[simp] theorem track_nil (flags : List Bool) : track flags [] = some flags := rfl

@[simp] theorem track_cons (flags : List Bool) (d : Directive) (ds : List Directive) :
    track flags (d :: ds) = (d.track flags).bind fun flags => track flags ds := by
  simp only [track, List.foldlM_cons]
  rfl

@[simp] theorem track_append (flags : List Bool) (ds es : List Directive) :
    track flags (ds ++ es) = (track flags ds).bind fun flags => track flags es := by
  simp only [track, List.foldlM_append]
  rfl

@[simp] theorem track_emits (flags : List Bool) (is : List Instruction) :
    track flags (emits is) = some flags := by
  induction is with
  | nil => rfl
  | cons i is ih => simpa [emits_cons, Directive.track] using ih

end Directives

namespace Assembler

/-- The address that a table of labels has for a label, zero if it has none. -/
def placeIn (labels : Array (Option UInt32)) (label : Label) : UInt32 :=
  (labels[label.id.toNat]?.join).getD 0

theorem placeIn_of_bound {labels : Array (Option UInt32)} {label : Label} {address : UInt32}
    (h : labels[label.id.toNat]? = some (some address)) : placeIn labels label = address := by
  simp [placeIn, h]

/-- Directives taken one after the other lead from one assembler to another. -/
def Takes (a : Assembler) (ds : List Directive) (a' : Assembler) : Prop :=
  ds.foldlM Assembler.sink.take a = .ok a'

theorem takes_cons {a a' : Assembler} {d : Directive} {ds : List Directive} :
    Takes a (d :: ds) a' ↔ ∃ b, Assembler.sink.take a d = .ok b ∧ Takes b ds a' := by
  rw [Takes, List.foldlM_cons]
  exact bind_eq_ok

section

variable {a b : Assembler} {label : Label}

theorem bind_of_unknown (h : a.labels[label.id.toNat]? = none) :
    a.bind label = (.error (.unknownLabel label), a) := by
  simp only [Assembler.bind, h]

theorem bind_of_bound {address : UInt32} (h : a.labels[label.id.toNat]? = some (some address)) :
    a.bind label = (.error (.labelRebound label), a) := by
  simp only [Assembler.bind, h]

theorem bind_of_free (h : a.labels[label.id.toNat]? = some none) :
    a.bind label =
      (.ok (), { a with
        labels := a.labels.setIfInBounds label.id.toNat (some a.code.size.toUInt32) }) := by
  simp only [Assembler.bind, h]

/-- An assembler takes the bind of a label that is there without an address. -/
theorem take_bind_eq_ok :
    Assembler.sink.take a (.bind label) = .ok b ↔
      a.labels[label.id.toNat]? = some none ∧
        b = { a with
          labels := a.labels.setIfInBounds label.id.toNat (some a.code.size.toUInt32) } := by
  simp only [Sink.take, sink]
  cases hlabel : a.labels[label.id.toNat]? with
  | none => simp [bind_of_unknown hlabel]
  | some place =>
    cases place with
    | none => simp [bind_of_free hlabel, eq_comm]
    | some address => simp [bind_of_bound hlabel]

end

/-- What one directive does to an assembler that takes it. -/
theorem take_facts {a b : Assembler} {d : Directive} (h : Assembler.sink.take a d = .ok b) :
    b.code.toList = a.code.toList ++ Directives.code (fun _ => 0) [d] ∧
      b.branches.toList = a.branches.toList ++ Directives.branches a.code.size [d] ∧
      (∀ (i : Nat) (address : UInt32), a.labels[i]? = some (some address) →
        b.labels[i]? = some (some address)) ∧
      ∀ label, d = .bind label →
        b.labels[label.id.toNat]? = some (some a.code.size.toUInt32) := by
  obtain ⟨code, labels, branches⟩ := a
  cases d with
  | emit i =>
    cases h
    refine ⟨?_, ?_, fun _ _ h => h, fun _ h => by cases h⟩
    · simp [sink, emit, Directives.code, Directive.instruction?]
    · simp [sink, emit, Directives.branches]
  | newLabel label =>
    cases h
    refine ⟨?_, ?_, fun i address h => ?_, fun _ h => by cases h⟩
    · simp [sink, newLabel, Directives.code, Directive.instruction?]
    · simp [sink, newLabel, Directives.branches]
    · have hi : i < labels.size := (Array.getElem?_eq_some_iff.1 h).1
      show (labels.push none)[i]? = _
      rw [Array.getElem?_push, if_neg (Nat.ne_of_lt hi)]
      exact h
  | bind label =>
    obtain ⟨hlabel, rfl⟩ := take_bind_eq_ok.1 h
    dsimp only at hlabel
    refine ⟨by simp [Directives.code, Directive.instruction?], by simp [Directives.branches],
      fun i address h => ?_, fun l hl => ?_⟩
    · -- the label was unbound, so it is not the one at `i`
      have hne : label.id.toNat ≠ i := by
        rintro rfl
        rw [hlabel] at h
        cases h
      show (labels.setIfInBounds _ _)[i]? = _
      rw [Array.getElem?_setIfInBounds, if_neg hne]
      exact h
    · cases hl
      have hi : label.id.toNat < labels.size := (Array.getElem?_eq_some_iff.1 hlabel).1
      show (labels.setIfInBounds _ _)[label.id.toNat]? = _
      rw [Array.getElem?_setIfInBounds, if_pos rfl, if_pos hi]
  | branchIfFalse label =>
    cases h
    refine ⟨?_, ?_, fun _ _ h => h, fun _ h => by cases h⟩
    · simp [sink, branchIfFalse, branchTo, Directives.code, Directive.instruction?,
        Instruction.jumpIfFalse]
    · simp [sink, branchIfFalse, branchTo, Directives.branches]
  | branch label =>
    cases h
    refine ⟨?_, ?_, fun _ _ h => h, fun _ h => by cases h⟩
    · simp [sink, branch, branchTo, Directives.code, Directive.instruction?, Instruction.jump]
    · simp [sink, branch, branchTo, Directives.branches]

/-- What directives do to an assembler that takes them all. -/
theorem takes_facts {a a' : Assembler} {ds : List Directive} (h : Takes a ds a') :
    a'.code.toList = a.code.toList ++ Directives.code (fun _ => 0) ds ∧
      a'.branches.toList = a.branches.toList ++ Directives.branches a.code.size ds ∧
      (∀ (i : Nat) (address : UInt32), a.labels[i]? = some (some address) →
        a'.labels[i]? = some (some address)) ∧
      Directives.PlacedAt (placeIn a'.labels) a.code.size ds := by
  induction ds generalizing a with
  | nil =>
    cases h
    exact ⟨by simp, by simp [Directives.branches], fun _ _ h => h, trivial⟩
  | cons d ds ih =>
    obtain ⟨b, hb, hrest⟩ := takes_cons.1 h
    obtain ⟨hcode, hbranches, hlabels, hbound⟩ := take_facts hb
    obtain ⟨hcode', hbranches', hlabels', hplaced⟩ := ih hrest
    -- the next directive stands behind this one
    have hsize : b.code.size = a.code.size + d.width := by
      have hlength := congrArg List.length hcode
      rw [List.length_append, Directives.length_code] at hlength
      simpa using hlength
    rw [hsize] at hbranches' hplaced
    refine ⟨?_, ?_, fun i address hi => hlabels' i address (hlabels i address hi), ?_, hplaced⟩
    · rw [hcode', hcode, List.append_assoc, ← Directives.code_append, List.singleton_append]
    · rw [hbranches', hbranches, List.append_assoc]
      cases d <;> rfl
    · intro label hlabel
      exact placeIn_of_bound (hlabels' _ _ (hbound label hlabel))

/-- Filling in a branch changes the target of the instruction at its address and nothing else. -/
theorem patch_append {labels : Array (Option UInt32)} {label : Label} {address : UInt32}
    (h : labels[label.id.toNat]? = some (some address)) (opcode : Opcode)
    (done rest : List Instruction) :
    patch labels (done ++ ⟨opcode, some (.target 0)⟩ :: rest).toArray (done.length, label) =
      .ok (done ++ ⟨opcode, some (.target address)⟩ :: rest).toArray := by
  have hmodify : (done ++ ⟨opcode, some (.target 0)⟩ :: rest).modify done.length
      ({ · with operand := some (.target address) }) =
        done ++ ⟨opcode, some (.target address)⟩ :: rest := by
    induction done with
    | nil => rfl
    | cons i done ih => simpa using ih
  simp only [patch, h, List.modify_toArray, hmodify]

/-- Filling in the branches of directives, in order, turns the code with empty targets into the code
under the addresses of the table. -/
theorem patch_branches (labels : Array (Option UInt32)) (ds : List Directive)
    (done : List Instruction)
    (h : ∀ entry ∈ Directives.branches done.length ds,
      ∃ address, labels[entry.2.id.toNat]? = some (some address)) :
    (Directives.branches done.length ds).foldlM (patch labels)
        (done ++ Directives.code (fun _ => 0) ds).toArray =
      .ok (done ++ Directives.code (placeIn labels) ds).toArray := by
  -- the part before `done.length` is already filled in
  induction ds generalizing done with
  | nil => rfl
  | cons d ds ih =>
    have hnext : ∀ i : Instruction, (done ++ [i]).length = done.length + 1 := by simp
    -- both kinds of branch are filled in alike
    have hbranch : ∀ (label : Label) (opcode : Opcode),
        (∀ entry ∈ (done.length, label) :: Directives.branches (done.length + 1) ds,
          ∃ address, labels[entry.2.id.toNat]? = some (some address)) →
        ((done.length, label) :: Directives.branches (done.length + 1) ds).foldlM (patch labels)
            (done ++ ⟨opcode, some (.target 0)⟩ :: Directives.code (fun _ => 0) ds).toArray =
          .ok (done ++ ⟨opcode, some (.target (placeIn labels label))⟩ ::
            Directives.code (placeIn labels) ds).toArray := by
      intro label opcode hall
      obtain ⟨address, haddress⟩ := hall (done.length, label) List.mem_cons_self
      have hrest := ih (done ++ [⟨opcode, some (.target address)⟩])
        (by rw [hnext]; exact fun entry he => hall entry (List.mem_cons_of_mem _ he))
      rw [hnext, List.append_assoc, List.append_assoc] at hrest
      rw [placeIn_of_bound haddress, List.foldlM_cons]
      exact bind_eq_ok.2 ⟨_, patch_append haddress opcode done _, hrest⟩
    cases d with
    | emit i =>
      have hrest := ih (done ++ [i]) (by rw [hnext]; exact h)
      rw [hnext, List.append_assoc, List.append_assoc] at hrest
      exact hrest
    | newLabel label => exact ih done h
    | bind label => exact ih done h
    | branchIfFalse label => exact hbranch label .jumpIfFalse h
    | branch label => exact hbranch label .jump h

/-! ## Directives that keep to the discipline -/

/-- The flags of the labels of an assembler: whether each is bound. -/
def flags (a : Assembler) : List Bool := a.labels.toList.map Option.isSome

theorem getElem?_flags (a : Assembler) (i : Nat) :
    a.flags[i]? = a.labels[i]?.map Option.isSome := by
  simp [flags]

/-- An assembler takes a directive that keeps to the discipline. -/
theorem take_of_track {a : Assembler} {d : Directive} {flags : List Bool}
    (h : d.track a.flags = some flags) :
    ∃ b, Assembler.sink.take a d = .ok b ∧ b.flags = flags := by
  obtain ⟨code, labels, branches⟩ := a
  cases d with
  | emit i =>
    cases h
    exact ⟨_, rfl, rfl⟩
  | newLabel label =>
    cases h
    exact ⟨_, rfl, by simp [sink, newLabel, Assembler.flags]⟩
  | bind label =>
    obtain ⟨hflag, rfl⟩ := Directive.track_bind_eq_some.1 h
    rw [getElem?_flags, Option.map_eq_some_iff] at hflag
    obtain ⟨place, hplace, hnone⟩ := hflag
    have hlabel : labels[label.id.toNat]? = some none := by
      rw [hplace, Option.isSome_eq_false_iff.1 hnone |> Option.isNone_iff_eq_none.1]
    refine ⟨⟨code, labels.setIfInBounds label.id.toNat (some code.size.toUInt32), branches⟩,
      ?_, ?_⟩
    · exact take_bind_eq_ok.2 ⟨hlabel, rfl⟩
    · simp [Assembler.flags, List.map_set]
  | branchIfFalse label =>
    obtain ⟨-, rfl⟩ := Directive.track_branchIfFalse_eq_some.1 h
    exact ⟨_, rfl, rfl⟩
  | branch label =>
    obtain ⟨-, rfl⟩ := Directive.track_branch_eq_some.1 h
    exact ⟨_, rfl, rfl⟩

/-- An assembler takes directives that keep to the discipline. -/
theorem takes_of_track {a : Assembler} {ds : List Directive} {flags : List Bool}
    (h : Directives.track a.flags ds = some flags) : ∃ a', Takes a ds a' ∧ a'.flags = flags := by
  induction ds generalizing a with
  | nil =>
    cases h
    exact ⟨a, rfl, rfl⟩
  | cons d ds ih =>
    rw [Directives.track_cons, Option.bind_eq_some_iff] at h
    obtain ⟨next, hd, hds⟩ := h
    obtain ⟨b, hb, rfl⟩ := take_of_track hd
    obtain ⟨a', ha', hflags⟩ := ih hds
    exact ⟨a', takes_cons.2 ⟨b, hb, ha'⟩, hflags⟩

/-- The flags only grow. -/
theorem length_le_of_track {d : Directive} {before after : List Bool}
    (h : d.track before = some after) : before.length ≤ after.length := by
  cases d with
  | emit i =>
    cases h
    exact le_rfl
  | newLabel label =>
    cases h
    simp
  | bind label =>
    obtain ⟨-, rfl⟩ := Directive.track_bind_eq_some.1 h
    simp
  | branchIfFalse label =>
    obtain ⟨-, rfl⟩ := Directive.track_branchIfFalse_eq_some.1 h
    exact le_rfl
  | branch label =>
    obtain ⟨-, rfl⟩ := Directive.track_branch_eq_some.1 h
    exact le_rfl

theorem length_le_of_trackAll {ds : List Directive} {before after : List Bool}
    (h : Directives.track before ds = some after) : before.length ≤ after.length := by
  induction ds generalizing before with
  | nil =>
    cases h
    exact le_rfl
  | cons d ds ih =>
    rw [Directives.track_cons, Option.bind_eq_some_iff] at h
    obtain ⟨next, hd, hds⟩ := h
    exact (length_le_of_track hd).trans (ih hds)

/-- Every branch goes to a label that exists at the end. -/
theorem branch_lt_of_track {ds : List Directive} {before after : List Bool} {pc : Nat}
    (h : Directives.track before ds = some after) :
    ∀ entry ∈ Directives.branches pc ds, entry.2.id.toNat < after.length := by
  induction ds generalizing before pc with
  | nil => simp [Directives.branches]
  | cons d ds ih =>
    rw [Directives.track_cons, Option.bind_eq_some_iff] at h
    obtain ⟨next, hd, hds⟩ := h
    intro entry hentry
    cases d with
    | emit i => exact ih hds entry hentry
    | newLabel label => exact ih hds entry hentry
    | bind label => exact ih hds entry hentry
    | branchIfFalse label =>
      rcases List.mem_cons.1 hentry with rfl | hentry
      · obtain ⟨hlt, rfl⟩ := Directive.track_branchIfFalse_eq_some.1 hd
        exact hlt.trans_le (length_le_of_trackAll hds)
      · exact ih hds entry hentry
    | branch label =>
      rcases List.mem_cons.1 hentry with rfl | hentry
      · obtain ⟨hlt, rfl⟩ := Directive.track_branch_eq_some.1 hd
        exact hlt.trans_le (length_le_of_trackAll hds)
      · exact ih hds entry hentry

/-- Directives that keep to the discipline and bind all their labels assemble to their code, under
addresses that fit their binds. -/
theorem finish_eq_of_track {ds : List Directive} {flags : List Bool}
    (h : Directives.track [] ds = some flags) (hall : ∀ flag ∈ flags, flag = true)
    (localCount : Nat) :
    ∃ a place, Assembler.sink.takeAll ds = .ok a ∧ Directives.PlacedAt place 0 ds ∧
      a.finish localCount = .ok ⟨(Directives.code place ds).toArray, localCount⟩ := by
  obtain ⟨a, htakes, hflags⟩ := takes_of_track (a := {}) h
  obtain ⟨hcode, hbranches, -, hplaced⟩ := takes_facts htakes
  refine ⟨a, placeIn a.labels, htakes, hplaced, ?_⟩
  have hbound : ∀ i : Nat, i < a.labels.size →
      ∃ address, a.labels[i]? = some (some address) := by
    intro i hi
    have hflag : a.flags[i]? = a.labels[i]?.map Option.isSome := getElem?_flags a i
    rw [Array.getElem?_eq_getElem hi] at hflag ⊢
    have htrue := hall _ (hflags ▸ List.mem_of_getElem? hflag)
    obtain ⟨address, haddress⟩ := Option.isSome_iff_exists.1 htrue
    exact ⟨address, by rw [haddress]⟩
  -- so the search for an unbound label finds none
  have hnone : a.labels.findIdx? Option.isNone = none := by
    rw [Array.findIdx?_eq_none_iff]
    intro place hplace
    obtain ⟨i, hi, rfl⟩ := Array.mem_iff_getElem.1 hplace
    obtain ⟨address, haddress⟩ := hbound i hi
    rw [Array.getElem?_eq_getElem hi, Option.some.injEq] at haddress
    rw [haddress]
    rfl
  have hlength : a.labels.size = flags.length := by
    rw [← hflags, Assembler.flags, List.length_map, Array.length_toList]
  -- every branch goes to a label that was created, so its address is there to be filled in
  have hpatch := patch_branches a.labels ds [] fun entry hentry =>
    hbound _ (hlength ▸ branch_lt_of_track h entry hentry)
  simp only [List.nil_append] at hcode hpatch
  obtain ⟨code, labels, branches⟩ := a
  simp only [finish, hnone]
  refine bind_eq_ok.2 ⟨_, ?_, rfl⟩
  rw [hbranches, ← hpatch]
  exact congrArg (fun code => List.foldlM (patch labels) code _) (Array.toList_inj.1 hcode)

/-- Filling in branches keeps the number of instructions. -/
theorem size_patch {labels : Array (Option UInt32)} {branches : List (Nat × Label)}
    {code code' : Array Instruction} (h : branches.foldlM (patch labels) code = .ok code') :
    code'.size = code.size := by
  induction branches generalizing code with
  | nil =>
    cases h
    rfl
  | cons entry branches ih =>
    rw [List.foldlM_cons] at h
    obtain ⟨next, hnext, h⟩ := bind_eq_ok.1 h
    rw [ih h]
    simp only [patch] at hnext
    split at hnext
    · cases hnext
      exact Array.size_modify
    · cases hnext

/-- An assembled chunk has as many instructions as its directives. -/
theorem size_finish {ds : List Directive} {a : Assembler} {localCount : Nat} {chunk : Chunk}
    (htakes : Assembler.sink.takeAll ds = .ok a) (h : a.finish localCount = .ok chunk) :
    chunk.code.size = Directives.size ds := by
  obtain ⟨hcode, -⟩ := takes_facts htakes
  have hsize := congrArg List.length hcode
  obtain ⟨code, labels, branches⟩ := a
  simp only [finish] at h
  split at h
  · cases h
  · obtain ⟨code', hpatch, h⟩ := bind_eq_ok.1 h
    cases h
    rw [size_patch hpatch]
    simpa [sink, Directives.length_code] using hsize

end Assembler

end StackScript
