import Mathlib.Tactic
import StackScript.Proofs.ScopeRefinement
import StackScript.Proofs.Slots

set_option autoImplicit false

/-!
# Live bindings never share a slot

A binding is live while the table shows it or the log of an open block can bring it back.
`Scope.bindingsOf` lists the live bindings of a name, the visible one first. Leaving a block only
takes bindings off this list, and a declaration only puts the newest slot on top. So every live
binding was made by a declaration of its own name, and it is older than the one that hides it
(`Scope.Accounted`). As slots are handed out in ascending order, each by one call, names that are
visible together have different slots, and slots without a name stay without one. The main statement
is `Scope.unaliased_after_calls`.
-/

namespace StackScript

/-! ## Sequences of calls -/

namespace ScopeInterface

variable {σ : Type} (face : ScopeInterface σ)

/-- The state after a sequence of calls. -/
def after (s : σ) (calls : List ScopeCall) : σ :=
  calls.foldl (fun s c => (face.call s c).2) s

theorem after_concat (s : σ) (calls : List ScopeCall) (c : ScopeCall) :
    face.after s (calls ++ [c]) = (face.call (face.after s calls) c).2 := by
  simp [after]

theorem length_observe (s : σ) (calls : List ScopeCall) :
    (face.observe s calls).length = calls.length := by
  induction calls generalizing s with
  | nil => rfl
  | cons c rest ih => simp [observe, ih]

/-- One more call shows its answer after all the others. -/
theorem observe_concat (s : σ) (calls : List ScopeCall) (c : ScopeCall) :
    ∃ shown, face.observe s (calls ++ [c]) =
      face.observe s calls ++ [((face.call (face.after s calls) c).1, shown)] := by
  induction calls generalizing s with
  | nil => exact ⟨_, rfl⟩
  | cons first rest ih =>
    obtain ⟨shown, h⟩ := ih (face.call s first).2
    refine ⟨shown, ?_⟩
    simp only [List.cons_append, observe, h]
    rfl

end ScopeInterface

namespace Scope

/-- The scope after a sequence of calls to a new one. -/
def after (calls : List ScopeCall) : Scope := interface.after empty calls

/-- The call with number `i` of a sequence has returned a slot. -/
def Returned (calls : List ScopeCall) (i : Nat) (slot : Slot) : Prop :=
  ∃ shown, (interface.observe empty calls)[i]? = some (.slot (.ok slot), shown)

/-- The call with number `i` of a sequence has declared a name and returned a slot for it. -/
def Declared (calls : List ScopeCall) (i : Nat) (name : String) (slot : Slot) : Prop :=
  calls[i]? = some (.declare name) ∧ Returned calls i slot

variable {calls : List ScopeCall} {scope scope' : Scope} {c : ScopeCall} {i : Nat} {slot : Slot}
  {name : String}

theorem Returned.lt_length (h : Returned calls i slot) : i < calls.length := by
  obtain ⟨shown, h⟩ := h
  rw [← interface.length_observe empty calls]
  exact (List.getElem?_eq_some_iff.1 h).1

theorem returned_concat :
    Returned (calls ++ [c]) i slot ↔ Returned calls i slot ∨
      i = calls.length ∧ (interface.call (after calls) c).1 = .slot (.ok slot) := by
  obtain ⟨shown, hobserve⟩ := interface.observe_concat empty calls c
  have hlength := interface.length_observe empty calls
  constructor
  · rintro ⟨shown', h⟩
    rw [hobserve] at h
    by_cases hi : i < calls.length
    · rw [List.getElem?_append_left (hi.trans_eq hlength.symm)] at h
      exact .inl ⟨shown', h⟩
    · rw [List.getElem?_append_right (by omega), List.getElem?_singleton] at h
      split at h
      · next hfirst =>
        simp only [Option.some.injEq, Prod.mk.injEq] at h
        exact .inr ⟨by omega, h.1⟩
      · cases h
  · rintro (h | ⟨rfl, h⟩)
    · obtain ⟨shown', hi⟩ := h
      refine ⟨shown', ?_⟩
      rw [hobserve, List.getElem?_append_left (List.getElem?_eq_some_iff.1 hi).1, hi]
    · refine ⟨shown, ?_⟩
      rw [hobserve, ← hlength, List.getElem?_concat_length]
      exact congrArg (fun answer => some (answer, shown)) h

theorem Declared.concat (h : Declared calls i name slot) (c : ScopeCall) :
    Declared (calls ++ [c]) i name slot :=
  ⟨(List.getElem?_append_left h.2.lt_length).trans h.1, returned_concat.2 (.inl h.2)⟩

/-! ## The live bindings of a name -/

/-- What a log has of a name, the last record first. -/
def recordsOf (x : String) (hidden : List (String × Option Slot)) : List (Option Slot) :=
  hidden.filterMap fun entry => if entry.1 = x then some entry.2 else none

/-- The visible binding of a name, and then what the logs of the open blocks have of it. -/
def bindingsOf (scope : Scope) (x : String) : List (Option Slot) :=
  scope.resolve? x :: scope.frames.flatMap fun frame => recordsOf x frame.hidden

theorem mem_recordsOf {x : String} {hidden : List (String × Option Slot)} {old : Option Slot}
    (h : (x, old) ∈ hidden) : old ∈ recordsOf x hidden :=
  List.mem_filterMap.2 ⟨(x, old), h, if_pos rfl⟩

@[simp] theorem recordsOf_cons_self (x : String) (old : Option Slot)
    (hidden : List (String × Option Slot)) :
    recordsOf x ((x, old) :: hidden) = old :: recordsOf x hidden := by
  simp [recordsOf]

theorem recordsOf_cons_of_ne {x name : String} (h : name ≠ x) (old : Option Slot)
    (hidden : List (String × Option Slot)) :
    recordsOf x ((name, old) :: hidden) = recordsOf x hidden := by
  simp [recordsOf, h]

/-- Taking a log back leaves one of the bindings that the table and the log have of a name. -/
theorem getElem?_undo_cons_sublist (x : String) (hidden : List (String × Option Slot))
    (table : Std.TreeMap String Slot) (rest : List (Option Slot)) :
    List.Sublist ((undo hidden table)[x]? :: rest) (table[x]? :: (recordsOf x hidden ++ rest)) := by
  -- each record of `x` replaces the binding before it, so the last one taken back remains
  induction hidden generalizing table with
  | nil => exact List.Sublist.refl _
  | cons entry hidden ih =>
    obtain ⟨name, old⟩ := entry
    have hrest := ih (restore table name old)
    rw [getElem?_restore] at hrest
    rw [undo_cons]
    by_cases hname : name = x
    · subst hname
      rw [if_pos rfl] at hrest
      rw [recordsOf_cons_self]
      exact hrest.cons _
    · rw [if_neg hname] at hrest
      rw [recordsOf_cons_of_ne hname]
      exact hrest

theorem bindingsOf_exit_sublist (scope : Scope) (x : String) :
    List.Sublist (scope.exit.bindingsOf x) (scope.bindingsOf x) := by
  obtain ⟨table, frames, count⟩ := scope
  cases frames with
  | nil => exact List.Sublist.refl _
  | cons frame frames =>
    simp only [bindingsOf, List.flatMap_cons]
    exact getElem?_undo_cons_sublist x frame.hidden table _

/-- Binding a name puts its slot on top of bindings that were there. -/
theorem bindingsOf_bind_self (scope : Scope) (name : String) (slot : Slot) :
    ∃ older, List.Sublist older (scope.bindingsOf name) ∧
      (scope.bind name slot).bindingsOf name = some slot :: older := by
  obtain ⟨table, frames, count⟩ := scope
  have hself : (table.insert name slot)[name]? = some slot := by
    rw [NameMap.getElem?_insert, if_pos rfl]
  cases frames with
  | nil => exact ⟨[], List.nil_sublist _, congrArg (· :: []) hself⟩
  | cons frame frames =>
    simp only [bind]
    split
    -- a name declared again in its block: the binding made there before is gone
    · exact ⟨_, List.sublist_cons_self _ _, congrArg (· :: _) hself⟩
    -- the first declaration of the name in the block: the log now has what was visible
    · refine ⟨_, List.Sublist.refl _, ?_⟩
      simp only [bindingsOf, resolve?, List.flatMap_cons, recordsOf_cons_self, List.cons_append,
        hself]

theorem bindingsOf_bind_of_ne (scope : Scope) {name x : String} (slot : Slot) (h : name ≠ x) :
    (scope.bind name slot).bindingsOf x = scope.bindingsOf x := by
  obtain ⟨table, frames, count⟩ := scope
  have hother : (table.insert name slot)[x]? = table[x]? := by
    rw [NameMap.getElem?_insert, if_neg h]
  cases frames with
  | nil => exact congrArg (· :: []) hother
  | cons frame frames =>
    simp only [bind]
    split
    · exact congrArg (· :: _) hother
    · simp only [bindingsOf, resolve?, List.flatMap_cons, recordsOf_cons_of_ne h, hother]

theorem slotCount_bind (scope : Scope) (name : String) (slot : Slot) :
    (scope.bind name slot).slotCount = scope.slotCount := by
  obtain ⟨table, frames, count⟩ := scope
  cases frames with
  | nil => rfl
  | cons frame frames =>
    simp only [bind]
    split <;> rfl

theorem slotCount_exit (scope : Scope) : scope.exit.slotCount = scope.slotCount := by
  obtain ⟨table, frames, count⟩ := scope
  cases frames <;> rfl

/-! ## What is true of every scope that calls lead to -/

/-- A binding is newer than one that it hides. -/
def Hides (newer older : Option Slot) : Prop :=
  ∀ slot, older = some slot → ∃ slot', newer = some slot' ∧ slot.index.toNat < slot'.index.toNat

/-- Calls account for the slots and the live bindings of a scope. -/
structure Accounted (calls : List ScopeCall) (scope : Scope) : Prop where
  room : scope.slotCount ≤ 65536
  below : ∀ {i : Nat} {slot : Slot}, Returned calls i slot → slot.index.toNat < scope.slotCount
  ascending : ∀ {i j : Nat} {slot slot' : Slot}, i < j → Returned calls i slot →
    Returned calls j slot' → slot.index.toNat < slot'.index.toNat
  declared : ∀ {x : String} {slot : Slot}, some slot ∈ scope.bindingsOf x →
    ∃ i, Declared calls i x slot
  layered : ∀ x, (scope.bindingsOf x).Pairwise Hides

namespace Accounted

theorem empty : Accounted [] Scope.empty where
  room := by decide
  below h := absurd h.lt_length (Nat.not_lt_zero _)
  ascending _ h := absurd h.lt_length (Nat.not_lt_zero _)
  declared h := by simp [bindingsOf, Scope.empty, resolve?] at h
  layered x := List.pairwise_singleton _ _

/-- Fewer bindings are still accounted for. -/
theorem of_sublist (h : Accounted calls scope) (hcount : scope'.slotCount = scope.slotCount)
    (hbindings : ∀ x, List.Sublist (scope'.bindingsOf x) (scope.bindingsOf x)) :
    Accounted calls scope' where
  room := hcount ▸ h.room
  below hi := hcount ▸ h.below hi
  ascending := h.ascending
  declared hslot := h.declared ((hbindings _).mem hslot)
  layered x := (h.layered x).sublist (hbindings x)

theorem exit (h : Accounted calls scope) : Accounted calls scope.exit :=
  h.of_sublist (slotCount_exit scope) (bindingsOf_exit_sublist scope)

/-- A call that returns no slot. -/
theorem concat_quiet (h : Accounted calls scope)
    (hquiet : ∀ slot, (interface.call (after calls) c).1 ≠ .slot (.ok slot)) :
    Accounted (calls ++ [c]) scope := by
  have hback : ∀ {i : Nat} {slot : Slot}, Returned (calls ++ [c]) i slot → Returned calls i slot :=
    fun hi => (returned_concat.1 hi).resolve_right fun hlast => hquiet _ hlast.2
  exact {
    room := h.room
    below := fun hi => h.below (hback hi)
    ascending := fun hij hi hj => h.ascending hij (hback hi) (hback hj)
    declared := fun hslot => (h.declared hslot).imp fun i hi => hi.concat c
    layered := h.layered }

/-- A call that returns the next slot. -/
theorem concat_allocating (h : Accounted calls scope) (hroom : scope.slotCount < 65536)
    (hanswer : (interface.call (after calls) c).1 = .slot (.ok (slotAt scope.slotCount))) :
    Accounted (calls ++ [c]) { scope with slotCount := scope.slotCount + 1 } := by
  -- the slot of the last call is the one whose number was the count before it
  have hlast : ∀ {slot : Slot}, (interface.call (after calls) c).1 = .slot (.ok slot) →
      slot.index.toNat = scope.slotCount := by
    intro slot hslot
    rw [hanswer] at hslot
    cases hslot
    exact toNat_slotAt hroom
  refine ⟨hroom, fun {i slot} hi => ?_, fun {i j slot slot'} hij hi hj => ?_,
    fun hslot => (h.declared hslot).imp fun i hi => hi.concat c, h.layered⟩
  · rcases returned_concat.1 hi with hi | ⟨-, hi⟩
    · exact Nat.lt_succ_of_lt (h.below hi)
    · exact Nat.lt_succ_of_le (hlast hi).le
  · rcases returned_concat.1 hi with hi | ⟨rfl, -⟩
    · rcases returned_concat.1 hj with hj | ⟨-, hj⟩
      · exact h.ascending hij hi hj
      · rw [hlast hj]
        exact h.below hi
    · have hlt := hj.lt_length
      rw [List.length_append, List.length_singleton] at hlt
      omega

/-- A name bound to a slot that a declaration of it has returned, after all its live bindings. -/
theorem bind (h : Accounted calls scope) (hdeclared : Declared calls i name slot)
    (hnewest : ∀ slot', some slot' ∈ scope.bindingsOf name →
      slot'.index.toNat < slot.index.toNat) :
    Accounted calls (scope.bind name slot) := by
  obtain ⟨older, hsub, htop⟩ := bindingsOf_bind_self scope name slot
  refine ⟨slotCount_bind scope name slot ▸ h.room, fun hi => ?_, h.ascending,
    fun {x slot'} hslot => ?_, fun x => ?_⟩
  · rw [slotCount_bind]
    exact h.below hi
  · by_cases hx : name = x
    · subst hx
      rw [htop, List.mem_cons] at hslot
      rcases hslot with hslot | hslot
      · cases hslot
        exact ⟨i, hdeclared⟩
      · exact h.declared (hsub.mem hslot)
    · rw [bindingsOf_bind_of_ne scope slot hx] at hslot
      exact h.declared hslot
  · by_cases hx : name = x
    · subst hx
      rw [htop, List.pairwise_cons]
      refine ⟨fun old hold slot' hslot' => ⟨slot, rfl, ?_⟩, (h.layered name).sublist hsub⟩
      exact hnewest slot' (hslot' ▸ hsub.mem hold)
    · rw [bindingsOf_bind_of_ne scope slot hx]
      exact h.layered x

end Accounted

/-! ## Calls, one after the other -/

theorem fresh_cases (scope : Scope) :
    scope.slotCount < 65536 ∧ scope.fresh =
        (.ok (slotAt scope.slotCount), { scope with slotCount := scope.slotCount + 1 }) ∨
      scope.fresh = (.error .tooManyLocals, scope) := by
  obtain ⟨table, frames, count⟩ := scope
  by_cases hroom : count < 65536
  · exact .inl ⟨hroom, if_pos hroom⟩
  · exact .inr (if_neg hroom)

theorem declare_cases (name : String) (scope : Scope) :
    scope.slotCount < 65536 ∧ scope.declare name =
        (.ok (slotAt scope.slotCount),
          bind name (slotAt scope.slotCount) { scope with slotCount := scope.slotCount + 1 }) ∨
      scope.declare name = (.error .tooManyLocals, scope) := by
  rw [declare]
  rcases fresh_cases scope with ⟨hroom, hfresh⟩ | hfresh
  · exact .inl ⟨hroom, by rw [hfresh]⟩
  · exact .inr (by rw [hfresh])

/-- One call keeps the account. -/
theorem accounted_call (h : Accounted calls (after calls)) (c : ScopeCall) :
    Accounted (calls ++ [c]) (interface.call (after calls) c).2 := by
  cases c with
  | enter =>
    have hquiet := h.concat_quiet (c := .enter) fun _ => ScopeAnswer.noConfusion
    exact hquiet.of_sublist rfl fun _ => List.Sublist.refl _
  | exit =>
    have hquiet := h.concat_quiet (c := .exit) fun _ => ScopeAnswer.noConfusion
    exact hquiet.exit
  | resolve name => exact h.concat_quiet fun _ => ScopeAnswer.noConfusion
  | fresh =>
    have hcall : interface.call (after calls) .fresh =
      (.slot (after calls).fresh.1, (after calls).fresh.2) := rfl
    rcases fresh_cases (after calls) with ⟨hroom, hfresh⟩ | hfresh
    · rw [hfresh] at hcall
      rw [hcall]
      exact h.concat_allocating hroom (congrArg Prod.fst hcall)
    · rw [hfresh] at hcall
      rw [hcall]
      exact h.concat_quiet (by rw [hcall]; exact fun _ => nofun)
  | declare name =>
    have hcall : interface.call (after calls) (.declare name) =
      (.slot ((after calls).declare name).1, ((after calls).declare name).2) := rfl
    rcases declare_cases name (after calls) with ⟨hroom, hdeclare⟩ | hdeclare
    · rw [hdeclare] at hcall
      rw [hcall]
      have hanswer := congrArg Prod.fst hcall
      -- the declaration is the last call, and all live bindings are from before it
      refine (h.concat_allocating hroom hanswer).bind
        ⟨List.getElem?_concat_length, returned_concat.2 (.inr ⟨rfl, hanswer⟩)⟩ fun slot hslot => ?_
      obtain ⟨i, -, hi⟩ := h.declared hslot
      rw [toNat_slotAt hroom]
      exact h.below hi
    · rw [hdeclare] at hcall
      rw [hcall]
      exact h.concat_quiet (by rw [hcall]; exact fun _ => nofun)

/-- Any calls account for the scope that they lead to. -/
theorem accounted_after (calls : List ScopeCall) : Accounted calls (after calls) := by
  induction calls using List.reverseRecOn with
  | nil => exact .empty
  | append_singleton calls c ih =>
    have hafter : after (calls ++ [c]) = (interface.call (after calls) c).2 :=
      interface.after_concat empty calls c
    rw [hafter]
    exact accounted_call ih c

/-- A name declared outside and inside a block: both bindings are live, and leaving the block brings
the older one back. -/
example :
    (after [.declare "x", .enter, .declare "x"]).bindingsOf "x" = [some ⟨1⟩, some ⟨0⟩] ∧
      (after [.declare "x", .enter, .declare "x", .exit]).bindingsOf "x" = [some ⟨0⟩] := by
  decide +kernel

/-- Leaving blocks needs no further account. -/
theorem Accounted.exits (h : Accounted calls scope) (n : Nat) :
    Accounted calls (Scope.exit^[n] scope) := by
  induction n generalizing scope with
  | zero => exact h
  | succ n ih => exact ih h.exit

/-! ## Slots and names -/

namespace Accounted

/-- A slot is returned by one call only. -/
theorem returned_inj (h : Accounted calls scope) {i j : Nat} (hi : Returned calls i slot)
    (hj : Returned calls j slot) : i = j := by
  rcases lt_trichotomy i j with hij | hij | hij
  · exact absurd (h.ascending hij hi hj) (lt_irrefl _)
  · exact hij
  · exact absurd (h.ascending hij hj hi) (lt_irrefl _)

/-- The calls that have returned two slots are ordered as these are. -/
theorem lt_of_returned (h : Accounted calls scope) {i j : Nat} {slot' : Slot}
    (hi : Returned calls i slot) (hj : Returned calls j slot')
    (hlt : slot.index.toNat < slot'.index.toNat) : i < j := by
  rcases lt_trichotomy i j with hij | rfl | hij
  · exact hij
  · obtain ⟨_, hi⟩ := hi
    obtain ⟨_, hj⟩ := hj
    rw [hi] at hj
    cases hj
    exact absurd hlt (lt_irrefl _)
  · exact absurd (h.ascending hij hj hi) (lt_asymm hlt)

theorem declared_of_resolve? (h : Accounted calls scope) (hslot : scope.resolve? name = some slot) :
    ∃ i, Declared calls i name slot :=
  h.declared (List.mem_cons.2 (.inl hslot.symm))

/-- A binding in the log of a block is hidden by a newer one that is visible. -/
theorem visible_of_hidden (h : Accounted calls scope) {frame : Frame}
    (hframe : frame ∈ scope.frames) (hentry : (name, some slot) ∈ frame.hidden) :
    (∃ i, Declared calls i name slot) ∧
      ∃ newer, scope.resolve? name = some newer ∧ slot.index.toNat < newer.index.toNat := by
  have hmem : some slot ∈ scope.frames.flatMap fun frame => recordsOf name frame.hidden :=
    List.mem_flatMap.2 ⟨frame, hframe, mem_recordsOf hentry⟩
  obtain ⟨hhides, -⟩ := List.pairwise_cons.1 (h.layered name)
  exact ⟨h.declared (List.mem_cons_of_mem _ hmem), hhides _ hmem slot rfl⟩

end Accounted

/-- Slots and names of a scope that calls have led to: slots are few enough to be numbered by 16
bits and each of them comes from one call, names have slots of their own, and what the logs keep was
declared for the same name before its visible binding. -/
structure Unaliased (calls : List ScopeCall) (scope : Scope) : Prop where
  slotCount_le : scope.slotCount ≤ 65536
  returned_once : ∀ (i j : Nat) (slot : Slot), Returned calls i slot → Returned calls j slot → i = j
  returned_below : ∀ (i : Nat) (slot : Slot), Returned calls i slot →
    slot.index.toNat < scope.slotCount
  resolve_inj : ∀ (x y : String) (slot : Slot), scope.resolve? x = some slot →
    scope.resolve? y = some slot → x = y
  fresh_unnamed : ∀ (i : Nat) (slot : Slot), calls[i]? = some .fresh → Returned calls i slot →
    ∀ x, scope.resolve? x ≠ some slot
  hidden_declared : ∀ frame ∈ scope.frames, ∀ (x : String) (slot : Slot),
    (x, some slot) ∈ frame.hidden → ∃ (i j : Nat) (newer : Slot), i < j ∧
      Declared calls i x slot ∧ Declared calls j x newer ∧ scope.resolve? x = some newer

theorem Accounted.unaliased (h : Accounted calls scope) : Unaliased calls scope where
  slotCount_le := h.room
  returned_once _ _ _ hi hj := h.returned_inj hi hj
  returned_below _ _ hi := h.below hi
  resolve_inj x y slot hx hy := by
    obtain ⟨i, hi, hslot⟩ := h.declared_of_resolve? hx
    obtain ⟨j, hj, hslot'⟩ := h.declared_of_resolve? hy
    -- both names were declared by the one call that has returned the slot
    obtain rfl := h.returned_inj hslot hslot'
    rw [hi] at hj
    cases hj
    rfl
  fresh_unnamed i slot hi hslot x hx := by
    obtain ⟨j, hj, hslot'⟩ := h.declared_of_resolve? hx
    obtain rfl := h.returned_inj hslot hslot'
    rw [hi] at hj
    cases hj
  hidden_declared frame hframe x slot hentry := by
    obtain ⟨⟨i, hi⟩, newer, hnewer, hlt⟩ := h.visible_of_hidden hframe hentry
    obtain ⟨j, hj⟩ := h.declared_of_resolve? hnewer
    exact ⟨i, j, newer, h.lt_of_returned hi.2 hj.2 hlt, hi, hj, hnewer⟩

/-- After any calls to a new scope, and after leaving any number of blocks then, live bindings do
not share slots. -/
theorem unaliased_after_calls (calls : List ScopeCall) (exits : Nat) :
    Unaliased calls (Scope.exit^[exits] (after calls)) :=
  ((accounted_after calls).exits exits).unaliased

end Scope

end StackScript
