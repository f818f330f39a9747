import Mathlib.Tactic
import StackScript.Proofs.Frames
import StackScript.Scope

set_option autoImplicit false

/-!
# The scope as a stack of maps

A `Scope` keeps one table of the visible bindings and, for each open block, a log of what the block
has hidden. `Blocks` is the plain picture of it: one map per block and a count of the slots used. A
user of either sees the answers to its calls, the number of slots and the depth. The two cannot be
told apart by any sequence of calls (`Scope.observe_eq_blocks`).

`Represents` relates the table and the logs to the maps. Undoing the innermost log leads from a
table that stands for all the maps to a table that stands for all but the innermost one.
-/

namespace StackScript

/-- A stack of maps from names to slots, and the number of slots used. -/
structure Blocks where
  frames : Frames Slot := {}
  used : Nat := 0

namespace Blocks

/-- Opens a block: a new, empty map. -/
def enter (b : Blocks) : Blocks := { b with frames := b.frames.push }

/-- Closes the innermost block. The base map stays. -/
def exit (b : Blocks) : Blocks := { b with frames := b.frames.pop }

/-- The next slot number, without a name. It fails and changes nothing once all are used. -/
def fresh (b : Blocks) : Except InternalError Slot × Blocks :=
  if b.used < 65536 then (.ok ⟨b.used.toUInt16⟩, { b with used := b.used + 1 })
  else (.error .tooManyLocals, b)

/-- Binds a name to the next slot number in the innermost map. It fails and changes nothing once all
slot numbers are used. -/
def declare (name : String) (b : Blocks) : Except InternalError Slot × Blocks :=
  if b.used < 65536 then
    (.ok ⟨b.used.toUInt16⟩, ⟨b.frames.insert name ⟨b.used.toUInt16⟩, b.used + 1⟩)
  else (.error .tooManyLocals, b)

/-- The slot of a name in the innermost map that has it. -/
def resolve? (b : Blocks) (name : String) : Option Slot := b.frames.lookup? name

/-- The number of open blocks. -/
def depth (b : Blocks) : Nat := b.frames.depth

end Blocks

/-! ## Calls and what they show -/

/-- A call to a scope. -/
inductive ScopeCall
  | enter
  | exit
  | declare (name : String)
  | fresh
  | resolve (name : String)
deriving DecidableEq

/-- The answer to a call. -/
inductive ScopeAnswer
  | done
  | slot (result : Except InternalError Slot)
  | binding (found : Option Slot)
deriving DecidableEq

/-- What can be called and seen of a scope with states in `σ`. -/
structure ScopeInterface (σ : Type) where
  enter : σ → σ
  exit : σ → σ
  declare : String → σ → Except InternalError Slot × σ
  fresh : σ → Except InternalError Slot × σ
  resolve? : σ → String → Option Slot
  slotCount : σ → Nat
  depth : σ → Nat

namespace ScopeInterface

variable {σ : Type}

/-- The answer to a call and the state after it. -/
def call (i : ScopeInterface σ) (s : σ) : ScopeCall → ScopeAnswer × σ
  | .enter => (.done, i.enter s)
  | .exit => (.done, i.exit s)
  | .declare name => ((i.declare name s).map .slot id)
  | .fresh => ((i.fresh s).map .slot id)
  | .resolve name => (.binding (i.resolve? s name), s)

/-- What a sequence of calls shows: each answer, with the number of slots and the depth after it. -/
def observe (i : ScopeInterface σ) (s : σ) : List ScopeCall → List (ScopeAnswer × Nat × Nat)
  | [] => []
  | c :: rest =>
    let (answer, s) := i.call s c
    (answer, i.slotCount s, i.depth s) :: i.observe s rest

end ScopeInterface

/-- The scope of the compiler. -/
def Scope.interface : ScopeInterface Scope where
  enter := Scope.enter
  exit := Scope.exit
  declare := Scope.declare
  fresh := Scope.fresh
  resolve? := Scope.resolve?
  slotCount := Scope.slotCount
  depth := Scope.depth

/-- The stack of maps. -/
def Blocks.interface : ScopeInterface Blocks where
  enter := Blocks.enter
  exit := Blocks.exit
  declare := Blocks.declare
  fresh := Blocks.fresh
  resolve? := Blocks.resolve?
  slotCount := Blocks.used
  depth := Blocks.depth

/-! ## Undoing a log -/

namespace Scope

theorem getElem?_restore (table : Std.TreeMap String Slot) (name x : String) (old : Option Slot) :
    (restore table name old)[x]? = if name = x then old else table[x]? := by
  cases old with
  | none => exact NameMap.getElem?_erase table name x
  | some slot => exact NameMap.getElem?_insert table name x slot

/-- A table with the records of a log taken back, last one first. -/
def undo (hidden : List (String × Option Slot)) (table : Std.TreeMap String Slot) :
    Std.TreeMap String Slot :=
  hidden.foldl (fun table entry => restore table entry.1 entry.2) table

@[simp] theorem undo_nil (table : Std.TreeMap String Slot) : undo [] table = table := rfl

@[simp] theorem undo_cons (name : String) (old : Option Slot)
    (hidden : List (String × Option Slot)) (table : Std.TreeMap String Slot) :
    undo ((name, old) :: hidden) table = undo hidden (restore table name old) := rfl

/-- A name without a record keeps its binding. -/
theorem getElem?_undo_of_not_mem {hidden : List (String × Option Slot)} {x : String}
    (table : Std.TreeMap String Slot) (h : x ∉ hidden.map Prod.fst) :
    (undo hidden table)[x]? = table[x]? := by
  induction hidden generalizing table with
  | nil => rfl
  | cons entry hidden ih =>
    obtain ⟨name, old⟩ := entry
    simp only [List.map_cons, List.mem_cons, not_or] at h
    rw [undo_cons, ih _ h.2, getElem?_restore, if_neg (Ne.symm h.1)]

/-- A name with a record gets the same binding from any table. -/
theorem getElem?_undo_congr {hidden : List (String × Option Slot)} {x : String}
    {table table' : Std.TreeMap String Slot}
    (h : x ∈ hidden.map Prod.fst ∨ table[x]? = table'[x]?) :
    (undo hidden table)[x]? = (undo hidden table')[x]? := by
  -- a record of `x` overwrites what the tables say of it, so they may differ there until it is met
  induction hidden generalizing table table' with
  | nil => simpa using h
  | cons entry hidden ih =>
    obtain ⟨name, old⟩ := entry
    rw [undo_cons, undo_cons]
    apply ih
    rw [getElem?_restore, getElem?_restore]
    by_cases hname : name = x
    · exact Or.inr (by rw [if_pos hname, if_pos hname])
    · rw [if_neg hname, if_neg hname]
      simpa [Ne.symm hname] using h

end Scope

/-! ## What a table and its logs stand for -/

/-- The table and the logs of the open blocks stand for a list of maps, innermost first. -/
inductive Represents :
    Std.TreeMap String Slot → List Scope.Frame → List (Std.TreeMap String Slot) → Prop
  | base {table m : Std.TreeMap String Slot} (same : ∀ x : String, table[x]? = m[x]?) :
      Represents table [] [m]
  | block {table m : Std.TreeMap String Slot} {frame : Scope.Frame} {frames : List Scope.Frame}
      {ms : List (Std.TreeMap String Slot)}
      (seen : ∀ x, x ∈ frame.seen ↔ x ∈ m)
      (hidden : ∀ x, x ∈ frame.hidden.map Prod.fst ↔ x ∈ m)
      (inner : ∀ x ∈ m, table[x]? = m[x]?)
      (outer : Represents (Scope.undo frame.hidden table) frames ms) :
      Represents table (frame :: frames) (m :: ms)

namespace Represents

variable {table table' : Std.TreeMap String Slot} {frames : List Scope.Frame}
  {maps : List (Std.TreeMap String Slot)}

/-- Only the bindings of a table matter. -/
theorem congr (h : Represents table frames maps) (same : ∀ x : String, table'[x]? = table[x]?) :
    Represents table' frames maps := by
  induction h generalizing table' with
  | base hbase => exact .base fun x => (same x).trans (hbase x)
  | block seen hidden inner _ ih =>
    refine .block seen hidden (fun x hx => (same x).trans (inner x hx)) (ih fun x => ?_)
    exact Scope.getElem?_undo_congr (Or.inr (same x))

/-- The table holds what a search through the maps finds. -/
theorem getElem?_eq (h : Represents table frames maps) (x : String) :
    table[x]? = Frames.lookupIn maps x := by
  induction h with
  | base same =>
    rw [same, Frames.lookupIn_cons, Frames.lookupIn_nil, Option.or_none]
  | @block table m frame frames ms _ hidden inner _ ih =>
    rw [Frames.lookupIn_cons]
    -- a name of the innermost map stands in the table; any other name has no record in the log,
    -- so taking the log back does not change its binding
    by_cases hx : x ∈ m
    · obtain ⟨slot, hslot⟩ := (NameMap.mem_iff m x).1 hx
      rw [inner x hx, hslot, Option.some_or]
    · rw [NameMap.getElem?_of_not_mem hx, Option.none_or, ← ih]
      exact (Scope.getElem?_undo_of_not_mem table (mt (hidden x).1 hx)).symm

theorem length_eq (h : Represents table frames maps) : maps.length = frames.length + 1 := by
  induction h with
  | base => rfl
  | block _ _ _ _ ih => rw [List.length_cons, ih, List.length_cons]

/-- Opening a block starts a log and a map. -/
theorem enter (h : Represents table frames maps) :
    Represents table ({} :: frames) (∅ :: maps) :=
  .block (by simp) (by simp) (by simp) h

/-- A repeated declaration in a block leaves its log alone: the record of the name hides whatever
the table says about it. -/
theorem bind_seen {frame : Scope.Frame} {m : Std.TreeMap String Slot}
    {ms : List (Std.TreeMap String Slot)} (name : String) (slot : Slot)
    (hname : name ∈ frame.seen) (h : Represents table (frame :: frames) (m :: ms)) :
    Represents (table.insert name slot) (frame :: frames) (m.insert name slot :: ms) := by
  cases h with
  | block seen hidden inner outer =>
    have hm : name ∈ m := (seen name).1 hname
    -- the map has the name already, so seen names and records need not change
    have hmem : ∀ x, x ∈ m.insert name slot ↔ x ∈ m := by
      intro x
      rw [Std.TreeMap.mem_insert, Std.LawfulEqCmp.compare_eq_iff_eq]
      exact ⟨fun hx => hx.elim (fun e => e ▸ hm) id, Or.inr⟩
    refine .block (fun x => (seen x).trans (hmem x).symm) (fun x => (hidden x).trans (hmem x).symm)
      (fun x hx => ?_) (outer.congr fun x => Scope.getElem?_undo_congr ?_)
    · rw [NameMap.getElem?_insert, NameMap.getElem?_insert, inner x ((hmem x).1 hx)]
    -- only the binding of `name` differs, and its record takes that back
    · by_cases hx : name = x
      · exact Or.inl (hx ▸ (hidden name).2 hm)
      · exact Or.inr (by rw [NameMap.getElem?_insert, if_neg hx])

/-- The first declaration of a name in a block records the binding that it hides, so undoing the
record and then the older ones gives the table from before the block. -/
theorem bind_new {frame : Scope.Frame} {m : Std.TreeMap String Slot}
    {ms : List (Std.TreeMap String Slot)} (name : String) (slot : Slot)
    (h : Represents table (frame :: frames) (m :: ms)) :
    Represents (table.insert name slot)
      (⟨(name, table[name]?) :: frame.hidden, frame.seen.insert name⟩ :: frames)
      (m.insert name slot :: ms) := by
  cases h with
  | block seen hidden inner outer =>
    have hmem : ∀ x, x ∈ m.insert name slot ↔ name = x ∨ x ∈ m := by
      intro x
      rw [Std.TreeMap.mem_insert, Std.LawfulEqCmp.compare_eq_iff_eq]
    refine .block (fun x => ?_) (fun x => ?_) (fun x hx => ?_) (outer.congr fun x => ?_)
    · rw [hmem, Std.TreeSet.mem_insert, Std.LawfulEqCmp.compare_eq_iff_eq, seen]
    · rw [hmem, List.map_cons, List.mem_cons, hidden, eq_comm]
    · rw [NameMap.getElem?_insert, NameMap.getElem?_insert]
      by_cases hname : name = x
      · rw [if_pos hname, if_pos hname]
      · rw [if_neg hname, if_neg hname, inner x (((hmem x).1 hx).resolve_left hname)]
    -- the new record is taken back first and gives the table from before the declaration
    · rw [Scope.undo_cons]
      refine Scope.getElem?_undo_congr (Or.inr ?_)
      rw [Scope.getElem?_restore, NameMap.getElem?_insert]
      split
      · next hname => rw [hname]
      · rfl

end Represents

/-! ## Scopes and stacks of maps, call by call -/

/-- A scope stands for a stack of maps and has used as many slots. -/
structure Scope.Models (scope : Scope) (b : Blocks) : Prop where
  table : Represents scope.bindings scope.frames b.frames.maps
  count : scope.slotCount = b.used

namespace Scope.Models

variable {scope : Scope} {b : Blocks}

theorem empty : Scope.empty.Models {} :=
  ⟨.base fun _ => rfl, rfl⟩

theorem resolve?_eq (h : scope.Models b) (name : String) : scope.resolve? name = b.resolve? name :=
  h.table.getElem?_eq name

theorem depth_eq (h : scope.Models b) : scope.depth = b.depth := by
  have hlength : b.frames.outer.length + 1 = scope.frames.length + 1 := h.table.length_eq
  exact (Nat.succ.inj hlength).symm

theorem enter (h : scope.Models b) : scope.enter.Models b.enter :=
  ⟨h.table.enter, h.count⟩

theorem exit (h : scope.Models b) : scope.exit.Models b.exit := by
  obtain ⟨bindings, frames, slotCount⟩ := scope
  obtain ⟨⟨m, ms⟩, used⟩ := b
  obtain ⟨htable, rfl⟩ := h
  cases htable with
  | base same => exact ⟨.base same, rfl⟩
  | block _ _ _ outer =>
    -- the outer maps are not empty, as the rest of the logs stands for them
    cases ms with
    | nil => exact absurd outer.length_eq (by simp)
    | cons m ms => exact ⟨outer, rfl⟩

theorem fresh (h : scope.Models b) :
    scope.fresh.1 = b.fresh.1 ∧ scope.fresh.2.Models b.fresh.2 := by
  obtain ⟨bindings, frames, slotCount⟩ := scope
  obtain ⟨frame, used⟩ := b
  obtain ⟨htable, rfl⟩ := h
  by_cases hroom : slotCount < 65536
  · have hscope : Scope.fresh ⟨bindings, frames, slotCount⟩ =
        (.ok ⟨slotCount.toUInt16⟩, ⟨bindings, frames, slotCount + 1⟩) := if_pos hroom
    rw [hscope, Blocks.fresh, if_pos hroom]
    exact ⟨rfl, htable, rfl⟩
  · have hscope : Scope.fresh ⟨bindings, frames, slotCount⟩ =
        (.error .tooManyLocals, ⟨bindings, frames, slotCount⟩) := if_neg hroom
    rw [hscope, Blocks.fresh, if_neg hroom]
    exact ⟨rfl, htable, rfl⟩

theorem bind (h : scope.Models b) (name : String) (slot : Slot) :
    (scope.bind name slot).Models { b with frames := b.frames.insert name slot } := by
  obtain ⟨bindings, frames, slotCount⟩ := scope
  obtain ⟨⟨m, ms⟩, used⟩ := b
  obtain ⟨htable, hcount⟩ := h
  cases frames with
  | nil =>
    cases htable with
    | base same =>
      have hsame : ∀ x : String, (bindings.insert name slot)[x]? = (m.insert name slot)[x]? := by
        intro x
        rw [NameMap.getElem?_insert, NameMap.getElem?_insert]
        exact congrArg _ (same x)
      exact ⟨.base hsame, hcount⟩
  | cons frame frames =>
    simp only [Scope.bind]
    split
    · next hname =>
      exact ⟨htable.bind_seen name slot (Std.TreeSet.mem_iff_contains.2 hname), hcount⟩
    · exact ⟨htable.bind_new name slot, hcount⟩

theorem declare (h : scope.Models b) (name : String) :
    (scope.declare name).1 = (b.declare name).1 ∧
      (scope.declare name).2.Models (b.declare name).2 := by
  obtain ⟨hanswer, hmodels⟩ := h.fresh
  -- a declaration is a fresh slot and then a binding; the answers say that both sides got one
  unfold Scope.declare Blocks.declare
  simp only [Blocks.fresh] at hanswer hmodels
  split
  · next slot scope' heq =>
    rw [heq] at hanswer hmodels
    split at hanswer
    · cases hanswer
      rw [if_pos ‹_›] at hmodels ⊢
      exact ⟨rfl, hmodels.bind name _⟩
    · cases hanswer
  · next e scope' heq =>
    rw [heq] at hanswer hmodels
    split at hanswer
    · cases hanswer
    · cases hanswer
      rw [if_neg ‹_›] at hmodels ⊢
      exact ⟨rfl, hmodels⟩

/-- One call gets the same answer from both, and both still agree after it. -/
theorem call (h : scope.Models b) (c : ScopeCall) :
    (Scope.interface.call scope c).1 = (Blocks.interface.call b c).1 ∧
      (Scope.interface.call scope c).2.Models (Blocks.interface.call b c).2 := by
  cases c with
  | enter => exact ⟨rfl, h.enter⟩
  | exit => exact ⟨rfl, h.exit⟩
  | declare name =>
    obtain ⟨hanswer, hmodels⟩ := h.declare name
    exact ⟨congrArg ScopeAnswer.slot hanswer, hmodels⟩
  | fresh =>
    obtain ⟨hanswer, hmodels⟩ := h.fresh
    exact ⟨congrArg ScopeAnswer.slot hanswer, hmodels⟩
  | resolve name => exact ⟨congrArg ScopeAnswer.binding (h.resolve?_eq name), h⟩

/-- Scopes that stand for a stack of maps show the same as it under all calls. -/
theorem observe (h : scope.Models b) (calls : List ScopeCall) :
    Scope.interface.observe scope calls = Blocks.interface.observe b calls := by
  induction calls generalizing scope b with
  | nil => rfl
  | cons c rest ih =>
    obtain ⟨hanswer, hmodels⟩ := h.call c
    have hcount : Scope.interface.slotCount (Scope.interface.call scope c).2 =
        Blocks.interface.slotCount (Blocks.interface.call b c).2 := hmodels.count
    have hdepth : Scope.interface.depth (Scope.interface.call scope c).2 =
        Blocks.interface.depth (Blocks.interface.call b c).2 := hmodels.depth_eq
    simp only [ScopeInterface.observe]
    rw [hanswer, hcount, hdepth, ih hmodels]

end Scope.Models

/-- A new scope and a new stack of maps answer every sequence of calls alike, with the same number
of slots and the same depth after each call. -/
theorem Scope.observe_eq_blocks (calls : List ScopeCall) :
    Scope.interface.observe Scope.empty calls = Blocks.interface.observe {} calls :=
  Scope.Models.empty.observe calls

end StackScript
