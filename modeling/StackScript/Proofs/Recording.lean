import Mathlib.Tactic
import StackScript.Proofs.CompileLayout
import StackScript.Proofs.TwoPassAssembly
import StackScript.Recorder

set_option autoImplicit false

/-!
# Recorded compilations

Lowering into a recorder that refuses nothing and lowering into the assembler are compared. Each of
the two sinks answers a creation of a label with the label that a draft goes on to use
(`Sink.Answers`), so each is handed the directives of the draft. The log of the recorder is these
directives, and the code can be read off it: each branch goes to the number of instruction entries
before the one entry that binds its label (`Recorder.Resolves`). The main statement is
`Program.compile_eq_recorded`.
-/

namespace StackScript

/-! ## Labels in the order of their creation -/

namespace Directives

/-- A label is created by one of the directives if its number is below their number of creations. -/
theorem mem_of_numberedFrom {n k : Nat} {ds : List Directive} (h : NumberedFrom n ds)
    (hk : k < labelCount ds) : .newLabel (labelOf (n + k)) ∈ ds := by
  induction ds generalizing n k with
  | nil => exact absurd hk (Nat.not_lt_zero k)
  | cons d ds ih =>
    obtain ⟨hd, hds⟩ := h
    cases d with
    | newLabel label =>
      cases k with
      | zero =>
        rw [hd label rfl]
        exact List.mem_cons_self
      | succ k =>
        have hnext : n + (k + 1) = n + 1 + k := by omega
        rw [hnext]
        apply List.mem_cons_of_mem
        apply ih hds
        rw [labelCount_cons, Directive.labelCount] at hk
        omega
    | emit i | bind label | branchIfFalse label | branch label =>
      apply List.mem_cons_of_mem
      apply ih hds
      rw [labelCount_cons, Directive.labelCount] at hk
      omega

/-- Every creation names a number in the range. -/
theorem exists_of_mem_of_numberedFrom {n : Nat} {label : Label} {ds : List Directive}
    (h : NumberedFrom n ds) (hmem : .newLabel label ∈ ds) :
    ∃ k < labelCount ds, label = labelOf (n + k) := by
  induction ds generalizing n with
  | nil => cases hmem
  | cons d ds ih =>
    obtain ⟨hd, hds⟩ := h
    rw [labelCount_cons]
    rcases List.mem_cons.1 hmem with rfl | hmem
    · refine ⟨0, ?_, hd label rfl⟩
      rw [Directive.labelCount]
      omega
    · obtain ⟨k, hk, rfl⟩ := ih hds hmem
      exact ⟨d.labelCount + k, by omega, by rw [Nat.add_assoc]⟩

end Directives

/-! ## What the recorder writes down -/

namespace Recorder

theorem answers_of_numberedFrom {ds : List Directive} (h : Directives.NumberedFrom 0 ds) :
    (sink none).Answers (sink none).start ds := by
  refine Sink.answers_of_numberedFrom (fun r => r.created) (fun _ => rfl) ?_ h
  intro r d next hnext
  obtain ⟨log, created, bound⟩ := r
  cases d with
  | emit i | newLabel label | bind label | branchIfFalse label | branch label =>
    cases hnext
    rfl

/-- The recorder takes every directive and notes it down as it is. -/
theorem take_eq_ok {r : Recorder} {d : Directive}
    (h : ∀ label, d = .newLabel label → r.newLabel.1 = label) :
    ∃ next, (sink none).take r d = .ok next ∧ next.log = r.log.push (.directive d) := by
  obtain ⟨log, created, bound⟩ := r
  cases d with
  | newLabel label =>
    have hlabel : (⟨created.toUInt32⟩ : Label) = label := h label rfl
    refine ⟨_, rfl, ?_⟩
    rw [← hlabel]
    rfl
  | emit i | bind label | branchIfFalse label | branch label => exact ⟨_, rfl, rfl⟩

theorem foldlM_take_eq_ok {r : Recorder} {ds : List Directive} (h : (sink none).Answers r ds) :
    ∃ last, ds.foldlM (sink none).take r = .ok last ∧
      last.log.toList = r.log.toList ++ ds.map .directive := by
  induction ds generalizing r with
  | nil => exact ⟨r, rfl, by simp⟩
  | cons d ds ih =>
    obtain ⟨hd, hds⟩ := h
    obtain ⟨next, hnext, hlog⟩ := take_eq_ok hd
    obtain ⟨last, hlast, hall⟩ := ih (hds next hnext)
    refine ⟨last, ?_, ?_⟩
    · rw [List.foldlM_cons]
      exact bind_eq_ok.2 ⟨next, hnext, hlast⟩
    · rw [hall, hlog, Array.toList_push, List.append_assoc]
      rfl

/-! ## Code read off a log -/

/-- The log of directives and an end with a number of slots. -/
def logOf (ds : List Directive) (n : Nat) : List Entry := ds.map .directive ++ [.finish n]

/-- Whether an entry stands for an instruction. -/
def Entry.isInstruction : Entry → Bool
  | directive (.emit _) | directive (.branchIfFalse _) | directive (.branch _) => true
  | directive (.newLabel _) | directive (.bind _) | finish _ => false

/-- The number of instruction entries before the first entry that binds a label. -/
def place (log : List Entry) (label : Label) : Nat :=
  (log.takeWhile (· ≠ .directive (.bind label))).countP Entry.isInstruction

/-- The instruction that an entry of a log stands for: a branch goes to the place of its label. -/
inductive Entry.StandsFor (log : List Entry) : Entry → Instruction → Prop
  | emit (i : Instruction) : StandsFor log (.directive (.emit i)) i
  | branchIfFalse {label : Label} {a : UInt32} (ha : a.toNat = place log label) :
      StandsFor log (.directive (.branchIfFalse label)) (.jumpIfFalse a)
  | branch {label : Label} {a : UInt32} (ha : a.toNat = place log label) :
      StandsFor log (.directive (.branch label)) (.jump a)

/-- A log resolves to a chunk: its instruction entries stand for the code, every branch goes to a
label that is created, every label that is created is bound once, and the log ends with the number
of slots. -/
structure Resolves (log : List Entry) (chunk : Chunk) : Prop where
  code : List.Forall₂ (Entry.StandsFor log) (log.filter Entry.isInstruction) chunk.code.toList
  created : ∀ label, .directive (.branchIfFalse label) ∈ log ∨ .directive (.branch label) ∈ log →
    .directive (.newLabel label) ∈ log
  bound : ∀ label, .directive (.newLabel label) ∈ log →
    log.count (.directive (.bind label)) = 1
  finish : ∃ calls, log = calls ++ [.finish chunk.localCount] ∧
    ∀ n, Entry.finish n ∉ calls

end Recorder

namespace Directives

/-- A label is bound as often as its flag goes up. -/
theorem count_bind_of_track {ds : List Directive} {before after : List Bool} (label : Label)
    (h : track before ds = some after) :
    ds.count (.bind label) + (if before[label.id.toNat]? = some true then 1 else 0) =
      if after[label.id.toNat]? = some true then 1 else 0 := by
  induction ds generalizing before with
  | nil =>
    cases h
    rw [List.count_nil, Nat.zero_add]
  | cons d ds ih =>
    rw [track_cons, Option.bind_eq_some_iff] at h
    obtain ⟨next, hd, hds⟩ := h
    rw [← ih hds]
    cases d with
    | emit i =>
      cases hd
      rw [List.count_cons_of_ne (by simp)]
    | branchIfFalse l =>
      obtain ⟨-, rfl⟩ := Directive.track_branchIfFalse_eq_some.1 hd
      rw [List.count_cons_of_ne (by simp)]
    | branch l =>
      obtain ⟨-, rfl⟩ := Directive.track_branch_eq_some.1 hd
      rw [List.count_cons_of_ne (by simp)]
    | newLabel l =>
      cases hd
      rw [List.count_cons_of_ne (by simp)]
      -- the new flag is not set
      have hsame : (before ++ [false])[label.id.toNat]? = some true ↔
          before[label.id.toNat]? = some true := by
        rcases Nat.lt_or_ge label.id.toNat before.length with hlt | hge
        · rw [List.getElem?_append_left hlt]
        · rw [List.getElem?_append_right hge, List.getElem?_eq_none hge]
          cases label.id.toNat - before.length <;> simp
      simp only [hsame]
    | bind l =>
      obtain ⟨hfree, rfl⟩ := Directive.track_bind_eq_some.1 hd
      by_cases hl : l = label
      · subst hl
        have hlt : l.id.toNat < before.length := (List.getElem?_eq_some_iff.1 hfree).1
        rw [List.count_cons_self, hfree, List.getElem?_set_self hlt]
        simp
      · have hid : l.id.toNat ≠ label.id.toNat := by
          intro hid
          exact hl (by rw [← labelOf_toNat l, hid, labelOf_toNat])
        rw [List.count_cons_of_ne (by simpa using hl), List.getElem?_set_ne hid]

section

variable {ds : List Directive} {label : Label}

/-- Where all labels end up bound, each label that is created is bound once. -/
theorem count_bind_eq_one (hlabels : labelCount ds ≤ 2 ^ 32) (hnumbered : NumberedFrom 0 ds)
    (htrack : track [] ds = some (List.replicate (labelCount ds) true))
    (hlabel : .newLabel label ∈ ds) : ds.count (.bind label) = 1 := by
  obtain ⟨k, hk, rfl⟩ := exists_of_mem_of_numberedFrom hnumbered hlabel
  have hflags := count_bind_of_track (labelOf (0 + k)) htrack
  rw [toNat_labelOf (by omega), Nat.zero_add, List.getElem?_replicate_of_lt hk] at hflags
  simpa using hflags

/-- The label of a branch is created somewhere. -/
theorem newLabel_mem_of_branch (hnumbered : NumberedFrom 0 ds)
    (htrack : track [] ds = some (List.replicate (labelCount ds) true))
    (hlabel : .branchIfFalse label ∈ ds ∨ .branch label ∈ ds) : .newLabel label ∈ ds := by
  have hbranch : label ∈ branchLabels ds := by
    rw [branchLabels, List.mem_filterMap]
    rcases hlabel with hlabel | hlabel
    · exact ⟨_, hlabel, rfl⟩
    · exact ⟨_, hlabel, rfl⟩
  rw [← map_snd_branches 0] at hbranch
  obtain ⟨entry, hentry, rfl⟩ := List.mem_map.1 hbranch
  have hlt := Assembler.branch_lt_of_track htrack entry hentry
  rw [List.length_replicate] at hlt
  have hmem := mem_of_numberedFrom hnumbered hlt
  rwa [Nat.zero_add, labelOf_toNat] at hmem

/-- The address of a label that is bound is the number of instructions before its first bind. -/
theorem place_of_placedAt {place : Label → UInt32} {pc : Nat} (h : PlacedAt place pc ds)
    (hmem : .bind label ∈ ds) :
    place label = (pc + size (ds.takeWhile (· ≠ .bind label))).toUInt32 := by
  induction ds generalizing pc with
  | nil => cases hmem
  | cons d ds ih =>
    obtain ⟨hd, hds⟩ := h
    by_cases hbind : d = .bind label
    · rw [hd label hbind, List.takeWhile_cons_of_neg (by simpa using hbind)]
      rfl
    · have hrest : .bind label ∈ ds := (List.mem_cons.1 hmem).resolve_left (Ne.symm hbind)
      rw [ih hds hrest, List.takeWhile_cons_of_pos (by simpa using hbind), size_cons,
        Nat.add_assoc]

theorem size_takeWhile_le (f : Directive → Bool) (ds : List Directive) :
    size (ds.takeWhile f) ≤ size ds := by
  have hsum := size_append (ds.takeWhile f) (ds.dropWhile f)
  rw [List.takeWhile_append_dropWhile] at hsum
  omega

end

end Directives

namespace Recorder

variable {ds : List Directive} {label : Label} {n : Nat}

theorem countP_isInstruction (ds : List Directive) :
    (ds.map Entry.directive).countP Entry.isInstruction = Directives.size ds := by
  induction ds with
  | nil => rfl
  | cons d ds ih =>
    rw [List.map_cons, List.countP_cons, ih, Directives.size_cons, Nat.add_comm]
    cases d <;> rfl

/-- The place of a label in a log is the number of instructions before its first bind. -/
theorem place_eq (hmem : .bind label ∈ ds) :
    place (logOf ds n) label = Directives.size (ds.takeWhile (· ≠ .bind label)) := by
  have htake : (logOf ds n).takeWhile (· ≠ .directive (.bind label)) =
      (ds.takeWhile (· ≠ .bind label)).map .directive := by
    unfold logOf
    induction ds with
    | nil => cases hmem
    | cons d ds ih =>
      by_cases hbind : d = .bind label
      · simp [hbind]
      · have hrest := ih ((List.mem_cons.1 hmem).resolve_left (Ne.symm hbind))
        simpa [hbind] using hrest
  rw [place, htake, countP_isInstruction]

/-- Entries stand for the code of their directives if the addresses of labels are their places. -/
theorem forall₂_standsFor {log : List Entry} {place' : Label → UInt32}
    (h : ∀ label, .branchIfFalse label ∈ ds ∨ .branch label ∈ ds →
      (place' label).toNat = place log label) :
    List.Forall₂ (Entry.StandsFor log) ((ds.map .directive).filter Entry.isInstruction)
      (Directives.code place' ds) := by
  induction ds with
  | nil => exact .nil
  | cons d ds ih =>
    have hrest := ih fun label hlabel => h label (hlabel.imp (.tail _) (.tail _))
    cases d with
    | emit i => exact .cons (.emit i) hrest
    | newLabel l => exact hrest
    | bind l => exact hrest
    | branchIfFalse l => exact .cons (.branchIfFalse (h l (.inl List.mem_cons_self))) hrest
    | branch l => exact .cons (.branch (h l (.inr List.mem_cons_self))) hrest

/-- A fitting address of a label is its place in the log. -/
theorem toNat_eq_place {address : Label → UInt32} (hsize : Directives.size ds < 2 ^ 32)
    (hplaced : Directives.PlacedAt address 0 ds) (hmem : .bind label ∈ ds) :
    (address label).toNat = place (logOf ds n) label := by
  have hle := Directives.size_takeWhile_le (· ≠ .bind label) ds
  rw [Directives.place_of_placedAt hplaced hmem, place_eq hmem, Nat.zero_add,
    toNat_toUInt32 (hle.trans_lt hsize)]

theorem mem_logOf {d : Directive} : .directive d ∈ logOf ds n ↔ d ∈ ds := by
  simp [logOf]

/-- The log of directives that create, bind and use their labels in order resolves to their code. -/
theorem resolves_of_placedAt {address : Label → UInt32} (hsize : Directives.size ds < 2 ^ 32)
    (hlabels : Directives.labelCount ds ≤ 2 ^ 32) (hnumbered : Directives.NumberedFrom 0 ds)
    (hplaced : Directives.PlacedAt address 0 ds)
    (htrack : Directives.track [] ds =
      some (List.replicate (Directives.labelCount ds) true)) :
    Resolves (logOf ds n) ⟨(Directives.code address ds).toArray, n⟩ := by
  have hbound : ∀ {label}, .newLabel label ∈ ds → ds.count (.bind label) = 1 :=
    Directives.count_bind_eq_one hlabels hnumbered htrack
  have hcreated : ∀ {label}, .branchIfFalse label ∈ ds ∨ .branch label ∈ ds →
      .newLabel label ∈ ds :=
    Directives.newLabel_mem_of_branch hnumbered htrack
  constructor
  case code =>
    rw [logOf, List.filter_append, List.filter_cons_of_neg (by simp [Entry.isInstruction]),
      List.filter_nil, List.append_nil]
    apply forall₂_standsFor
    intro label hlabel
    apply toNat_eq_place hsize hplaced
    apply List.count_pos_iff.1
    rw [hbound (hcreated hlabel)]
    exact Nat.one_pos
  case created =>
    intro label hlabel
    simp only [mem_logOf] at hlabel ⊢
    exact hcreated hlabel
  case bound =>
    intro label hlabel
    rw [mem_logOf] at hlabel
    have hinjective : Function.Injective Entry.directive := fun _ _ h => Entry.directive.inj h
    rw [logOf, List.count_append, List.count_map_of_injective _ _ hinjective, hbound hlabel]
    rfl
  case finish =>
    refine ⟨_, rfl, ?_⟩
    intro k hk
    simp at hk

end Recorder

/-! ## The two compilations -/

namespace Program

variable {library : Library} {table : BuiltinTable} {p : Program}

/-- What compilation makes of a draft that ends well and does not run out of label numbers: its
labels are all bound, and the chunk is its code under addresses that fit its binds. -/
theorem exists_placedAt_of_labelCount {count : Nat}
    (hlabels : (p.draft library table.names).labelCount ≤ 2 ^ 32)
    (hending : (p.draft library table.names).ending = .ok count) :
    ∃ place, Directives.PlacedAt place 0 (p.draft library table.names).directives.toList ∧
      Directives.track [] (p.draft library table.names).directives.toList =
        some (List.replicate (p.draft library table.names).labelCount true) ∧
      p.compile library table =
        .ok ⟨(Directives.code place (p.draft library table.names).directives.toList).toArray,
          count⟩ := by
  rcases Lowering.program_tracks library table.names p.statements with
    ⟨_, st, chunk, hrun, -, -, hwhole⟩ | ⟨e, st, hrun, -, -⟩
  · have hcreated := hwhole.created
    rw [compile_eq_into]
    simp only [draft, hrun, Draft.into, Draft.labelCount] at hlabels hending ⊢
    cases hending
    have htrack := hwhole.tracked (by omega) [] rfl
    obtain ⟨a, place, htakes, hplaced, hfinish⟩ :=
      Assembler.finish_eq_of_track htrack (by simp) st.scope.slotCount
    refine ⟨place, hplaced, ?_, ?_⟩
    · rw [htrack, ← hcreated]
      simp
    · simp only [htakes]
      show Except.mapError CompileError.internal (a.finish st.scope.slotCount) = _
      rw [hfinish]
      rfl
  · simp only [draft, hrun] at hending
    cases hending

/-- A short draft does not run out of label numbers. -/
theorem exists_placedAt_of_draft {count : Nat}
    (hsize : (p.draft library table.names).size < 2 ^ 32)
    (hending : (p.draft library table.names).ending = .ok count) :
    ∃ place, Directives.PlacedAt place 0 (p.draft library table.names).directives.toList ∧
      Directives.track [] (p.draft library table.names).directives.toList =
        some (List.replicate (p.draft library table.names).labelCount true) ∧
      p.compile library table =
        .ok ⟨(Directives.code place (p.draft library table.names).directives.toList).toArray,
          count⟩ :=
  exists_placedAt_of_labelCount (labelCount_draft_le hsize) hending

/-- A draft that ends with an error does not compile, and that error is reported. -/
theorem compile_eq_error_of_draft {e : CompileError}
    (hsize : (p.draft library table.names).size < 2 ^ 32)
    (hending : (p.draft library table.names).ending = .error e) :
    p.compile library table = .error e := by
  rw [compile_eq_layout (labelCount_draft_le hsize)]
  rw [draft_ending] at hending
  cases hlayout : Layout.program library table.names p.statements with
  | error e' =>
    rw [hlayout] at hending
    cases hending
    rfl
  | ok chunk =>
    rw [hlayout] at hending
    cases hending

/-- Lowering into the recorder gives the error of the draft, or the log of its directives. -/
theorem recorded_eq_draft (library : Library) (globals : List String) (p : Program) :
    (p.compileInto (Recorder.sink none) library globals).result =
      (p.draft library globals).ending.map fun count =>
        (Recorder.logOf (p.draft library globals).directives.toList count).toArray := by
  have hanswers := Recorder.answers_of_numberedFrom (numbered_draft library globals p)
  obtain ⟨last, hlast, hlog⟩ := Recorder.foldlM_take_eq_ok hanswers
  have htakes : (Recorder.sink none).takeAll (p.draft library globals).directives.toList =
      .ok last := hlast
  rw [compileInto_eq_into hanswers]
  simp only [Draft.into, htakes]
  cases (p.draft library globals).ending with
  | error e => rfl
  | ok count =>
    have hpush : last.log.push (.finish count) =
        (Recorder.logOf (p.draft library globals).directives.toList count).toArray := by
      apply Array.toList_inj.1
      rw [Array.toList_push, hlog]
      rfl
    show Except.ok (last.log.push (.finish count)) = _
    rw [hpush]
    rfl

/-- **Compilation does not depend on the sink.** Let the draft of a program have fewer than `2 ^ 32`
instructions. The recorder that refuses nothing and the assembler both answer each creation of a
label with the label that the draft uses, so both are handed its directives. Compiling into the
recorder and compiling into the assembler fail with the same error, or both succeed, and then the
log resolves to the chunk: without its label entries, and with the places of labels for labels, it
is the code. -/
theorem compile_eq_recorded (hsize : (p.draft library table.names).size < 2 ^ 32) :
    let draft := p.draft library table.names
    let recorded := (p.compileInto (Recorder.sink none) library table.names).result
    (Recorder.sink none).Answers (Recorder.sink none).start draft.directives.toList ∧
      recorded = draft.into (Recorder.sink none) ∧
      Assembler.sink.Answers Assembler.sink.start draft.directives.toList ∧
      p.compile library table = draft.into Assembler.sink ∧
      ((∃ e, recorded = .error e ∧ p.compile library table = .error e) ∨
        ∃ log chunk, recorded = .ok log ∧ p.compile library table = .ok chunk ∧
          Recorder.Resolves log.toList chunk) := by
  intro draft recorded
  have hnumbered : Directives.NumberedFrom 0 draft.directives.toList :=
    numbered_draft library table.names p
  have hrecorder := Recorder.answers_of_numberedFrom hnumbered
  have hrecorded : recorded = _ := recorded_eq_draft library table.names p
  refine ⟨hrecorder, compileInto_eq_into hrecorder, Assembler.answers_of_numberedFrom hnumbered,
    compile_eq_into library table p, ?_⟩
  cases hending : draft.ending with
  | error e =>
    left
    refine ⟨e, ?_, compile_eq_error_of_draft hsize hending⟩
    rw [hrecorded, hending]
    rfl
  | ok count =>
    right
    obtain ⟨place, hplaced, htrack, hcompile⟩ := exists_placedAt_of_draft hsize hending
    refine ⟨_, _, ?_, hcompile,
      Recorder.resolves_of_placedAt hsize (labelCount_draft_le hsize) hnumbered hplaced htrack⟩
    rw [hrecorded, hending]
    rfl

/-- A loop around a switch: the log resolves to the chunk, with the binds of the loop at 0 and 16
and that of the end of the switch at 15. Over a library that exports nothing both compilations fail
with the same error. -/
theorem compile_eq_recorded_switch :
    let p : Program := ⟨none, [
      .whileDo (.number "1" {}) [
        .switch (.number "2" {}) [.case (.number "3" {}) [], .otherwise []] {}] {}]⟩
    let bare : Library := ⟨fun _ => none, fun _ => none⟩
    let recorded := fun library =>
      (p.compileInto (Recorder.sink none) library BuiltinTable.empty.names).result
    (p.draft .standard BuiltinTable.empty.names).size < 2 ^ 32 ∧
      (∃ log chunk, recorded .standard = .ok log ∧
        p.compile .standard .empty = .ok chunk ∧ Recorder.Resolves log.toList chunk ∧
        [0, 1, 2].map (fun n => Recorder.place log.toList ⟨n⟩) = [0, 16, 15]) ∧
      ∃ e, recorded bare = .error e ∧ p.compile bare .empty = .error e := by
  intro p bare recorded
  have hsize : (p.draft .standard BuiltinTable.empty.names).size < 2 ^ 32 := by decide +kernel
  have hsize' : (p.draft bare BuiltinTable.empty.names).size < 2 ^ 32 := by decide +kernel
  obtain ⟨-, -, -, -, hboth⟩ := compile_eq_recorded hsize
  obtain ⟨-, -, -, -, hboth'⟩ := compile_eq_recorded hsize'
  refine ⟨hsize, ?_, ?_⟩
  · rcases hboth with ⟨e, -, herror⟩ | ⟨log, chunk, hlog, hchunk, hresolves⟩
    · have hok : (p.compile .standard .empty).isOk = true := by decide +kernel
      rw [herror] at hok
      cases hok
    · refine ⟨log, chunk, hlog, hchunk, hresolves, ?_⟩
      have hplaces : (recorded .standard).map
          (fun log => [0, 1, 2].map (fun n => Recorder.place log.toList ⟨n⟩)) =
            .ok [0, 16, 15] := by
        decide +kernel
      have hlog' : recorded .standard = .ok log := hlog
      rw [hlog'] at hplaces
      exact Except.ok.inj hplaces
  · rcases hboth' with herror | ⟨log, chunk, -, hchunk, -⟩
    · exact herror
    · have herror : (p.compile bare .empty).isOk = false := by decide +kernel
      rw [hchunk] at herror
      cases herror

end Program

end StackScript
