import Mathlib.Tactic
import StackScript.Proofs.Evaluator
import StackScript.Proofs.Slots

set_option autoImplicit false

/-!
# Environments in local slots

While compiled code runs, the value of every visible name is in the slot of that name. `Agrees` says
so frame by frame, and the lemmas say how it is kept: by a block, by a declaration, by the temporary
of a switch, and by an assignment, for which it matters that no two names share a slot.
-/

namespace StackScript

/-- The values of a frame are in the slots of its names. -/
def Mirrors (locals : Array Value) (m : Std.TreeMap String Slot) (e : Std.TreeMap String Value) :
    Prop :=
  ∀ name : String, e[name]? = m[name]?.bind fun slot => locals[slot.index.toNat]?

/-- The `count` local values hold the environment at the slots of the blocks. -/
structure Agrees (count : Nat) (b : Blocks) (env : Frames Value) (locals : Array Value) :
    Prop where
  valid : b.Valid
  size : locals.size = count
  room : b.used ≤ count
  frames : List.Forall₂ (Mirrors locals) b.frames.maps env.maps

section

variable {locals : Array Value} {m : Std.TreeMap String Slot} {e : Std.TreeMap String Value}
  {ms : List (Std.TreeMap String Slot)} {es : List (Std.TreeMap String Value)} {name : String}
  {slot : Slot} {v : Value}

theorem Mirrors.empty (locals : Array Value) : Mirrors locals ∅ ∅ := fun name => by simp

/-- A name has a value where it has a slot. -/
theorem Mirrors.mem_iff (h : Mirrors locals m e)
    (hbelow : ∀ (x : String) (slot : Slot), m[x]? = some slot → slot.index.toNat < locals.size)
    (name : String) : name ∈ e ↔ name ∈ m := by
  rw [NameMap.mem_iff, NameMap.mem_iff, h name]
  cases hslot : m[name]? with
  | none => simp
  | some slot => simp [hbelow name slot hslot]

/-- A value stored in a slot without a name is not seen. -/
theorem Mirrors.set {i : Nat} (h : Mirrors locals m e) (hi : i < locals.size) (v : Value)
    (hfree : ∀ (x : String) (slot : Slot), m[x]? = some slot → slot.index.toNat ≠ i) :
    Mirrors (locals.set i v hi) m e := by
  intro x
  rw [h x]
  cases hslot : m[x]? with
  | none => rfl
  | some slot =>
    simp only [Option.bind_some]
    rw [Array.getElem?_set, if_neg (hfree x slot hslot).symm]

/-- A value stored in the slot of a name is the value of the name. -/
theorem Mirrors.set_insert (h : Mirrors locals m e) (hslot : slot.index.toNat < locals.size)
    (v : Value)
    (hname : ∀ (x : String) (slot' : Slot), x ≠ name → m[x]? = some slot' →
      slot'.index.toNat ≠ slot.index.toNat) :
    Mirrors (locals.set slot.index.toNat v hslot) (m.insert name slot) (e.insert name v) := by
  intro x
  rw [NameMap.getElem?_insert, NameMap.getElem?_insert]
  by_cases hx : name = x
  · rw [if_pos hx, if_pos hx, Option.bind_some, Array.getElem?_set, if_pos rfl]
  · rw [if_neg hx, if_neg hx, h x]
    cases hslot' : m[x]? with
    | none => rfl
    | some slot' =>
      simp only [Option.bind_some]
      rw [Array.getElem?_set, if_neg (hname x slot' (Ne.symm hx) hslot').symm]

/-- A visible name has its value in its slot. -/
theorem lookupIn_of_mirrors (h : List.Forall₂ (Mirrors locals) ms es)
    (hbelow : ∀ m ∈ ms, ∀ (x : String) (slot : Slot),
      m[x]? = some slot → slot.index.toNat < locals.size)
    (hslot : Frames.lookupIn ms name = some slot) :
    ∃ v, Frames.lookupIn es name = some v ∧ locals[slot.index.toNat]? = some v := by
  induction h with
  | nil => cases hslot
  | @cons m e ms es hhead htail ih =>
    rw [Frames.lookupIn_cons] at hslot ⊢
    cases hm : m[name]? with
    | none =>
      rw [hm, Option.none_or] at hslot
      rw [hhead name, hm, Option.bind_none, Option.none_or]
      exact ih (fun m' hm' => hbelow m' (List.mem_cons_of_mem _ hm')) hslot
    | some slot' =>
      rw [hm, Option.some_or] at hslot
      cases hslot
      have hlt := hbelow m List.mem_cons_self name slot hm
      rw [hhead name, hm, Option.bind_some, Array.getElem?_eq_getElem hlt, Option.some_or]
      exact ⟨_, rfl, rfl⟩

/-- A value stored in slots without names is not seen in any frame. -/
theorem forall₂_mirrors_set {i : Nat} (h : List.Forall₂ (Mirrors locals) ms es)
    (hi : i < locals.size) (v : Value)
    (hfree : ∀ m ∈ ms, ∀ (x : String) (slot : Slot), m[x]? = some slot → slot.index.toNat ≠ i) :
    List.Forall₂ (Mirrors (locals.set i v hi)) ms es := by
  induction h with
  | nil => exact .nil
  | @cons m e ms es hhead htail ih =>
    exact .cons (hhead.set hi v (hfree m List.mem_cons_self))
      (ih fun m' hm' => hfree m' (List.mem_cons_of_mem _ hm'))

/-- Storing a value in the slot of a visible name assigns to the name, since no other name has the
slot. -/
theorem forall₂_mirrors_assign (h : List.Forall₂ (Mirrors locals) ms es) (hsep : Separate ms)
    (hbelow : ∀ m ∈ ms, ∀ (x : String) (slot : Slot),
      m[x]? = some slot → slot.index.toNat < locals.size)
    (hslot : Frames.lookupIn ms name = some slot) (hlt : slot.index.toNat < locals.size)
    (v : Value) :
    List.Forall₂ (Mirrors (locals.set slot.index.toNat v hlt)) ms (Frames.assignIn name v es) := by
  -- slots are compared as numbers by the machine and as slots by the blocks
  have hindex : ∀ slot' : Slot, slot'.index.toNat = slot.index.toNat → slot' = slot := by
    intro slot' heq
    cases slot'
    cases slot
    exact congrArg Slot.mk (UInt16.toNat_inj.1 heq)
  induction h with
  | nil => cases hslot
  | @cons m e ms es hhead htail ih =>
    obtain ⟨hinner, houter, hrest⟩ := hsep
    have hmem := hhead.mem_iff (hbelow m List.mem_cons_self) name
    rw [Frames.lookupIn_cons] at hslot
    rw [Frames.assignIn]
    cases hm : m[name]? with
    | none =>
      rw [hm, Option.none_or] at hslot
      have hnot : name ∉ e := by
        rw [hmem, NameMap.mem_iff, hm]
        simp
      rw [if_neg hnot]
      refine .cons (hhead.set hlt v fun x slot' hx heq => ?_)
        (ih hrest (fun m' hm' => hbelow m' (List.mem_cons_of_mem _ hm')) hslot)
      -- the slot belongs to a name of an outer frame
      obtain ⟨m', hm', hname⟩ := Frames.exists_of_lookupIn hslot
      exact houter m' hm' x name slot (hindex slot' heq ▸ hx) hname
    | some slot' =>
      rw [hm, Option.some_or] at hslot
      cases hslot
      rw [if_pos (hmem.2 ((NameMap.mem_iff _ _).2 ⟨slot, hm⟩))]
      -- the name is bound here, so the outer frames stay as they are
      refine .cons ?_ (forall₂_mirrors_set htail hlt v fun m' hm' x slot' hx heq =>
        houter m' hm' name x slot hm (hindex slot' heq ▸ hx))
      intro x
      have hset := hhead.set_insert hlt v (fun x slot' hx hslot' heq =>
        hx (hinner x name slot (hindex slot' heq ▸ hslot') hm)) x
      rw [hset, NameMap.getElem?_insert]
      by_cases hx : name = x
      · rw [if_pos hx, ← hx, hm]
      · rw [if_neg hx]

end

namespace Agrees

variable {count : Nat} {b : Blocks} {env : Frames Value} {locals : Array Value}

theorem below (h : Agrees count b env locals) :
    ∀ m ∈ b.frames.maps, ∀ (x : String) (slot : Slot),
      m[x]? = some slot → slot.index.toNat < locals.size := by
  intro m hm x slot hslot
  rw [h.size]
  exact (h.valid.below m hm x slot hslot).trans_le h.room

theorem lookup (h : Agrees count b env locals) {name : String} {slot : Slot}
    (hslot : b.resolve? name = some slot) :
    ∃ v, env.lookup? name = some v ∧ locals[slot.index.toNat]? = some v :=
  lookupIn_of_mirrors h.frames h.below hslot

theorem enter (h : Agrees count b env locals) : Agrees count b.enter env.push locals where
  valid := h.valid.enter
  size := h.size
  room := h.room
  frames := .cons (.empty locals) h.frames

/-- After a block the frames from before it are back, with the values they have now. -/
theorem leave {inner : Blocks} (h : Agrees count inner env locals) (hb : b.Valid)
    (hinner : b.enter.Extends inner) :
    Agrees count { b with used := inner.used } env.pop locals := by
  have hframes := h.frames
  rw [Frames.maps, Frames.maps, hinner.outer, List.forall₂_cons] at hframes
  refine ⟨hinner.leave.valid hb, h.size, h.room, ?_⟩
  obtain ⟨e, es⟩ := env
  cases es with
  | nil => cases hframes.2
  | cons e' es => exact hframes.2

/-- The number of slots used does not matter to the values of the names. -/
theorem reuse {b' : Blocks} (h : Agrees count b env locals) (hframes : b'.frames = b.frames)
    (hvalid : b'.Valid) (hroom : b'.used ≤ count) : Agrees count b' env locals :=
  ⟨hvalid, h.size, hroom, hframes ▸ h.frames⟩

/-- A temporary takes the next slot and is not seen. -/
theorem fresh (h : Agrees count b env locals) (hroom : b.used < 65536) (hcount : b.used < count)
    (v : Value) (hlt : (slotAt b.used).index.toNat < locals.size) :
    Agrees count { b with used := b.used + 1 } env
      (locals.set (slotAt b.used).index.toNat v hlt) where
  valid := (Blocks.Extends.fresh hroom).valid h.valid
  size := by rw [Array.size_set, h.size]
  room := hcount
  frames := forall₂_mirrors_set h.frames hlt v fun m hm x slot hslot => by
    rw [toNat_slotAt hroom]
    exact (h.valid.below m hm x slot hslot).ne

/-- A declaration takes the next slot. -/
theorem declare (h : Agrees count b env locals) (hroom : b.used < 65536) (hcount : b.used < count)
    (name : String) (v : Value) (hlt : (slotAt b.used).index.toNat < locals.size) :
    Agrees count ⟨b.frames.insert name (slotAt b.used), b.used + 1⟩ (env.insert name v)
      (locals.set (slotAt b.used).index.toNat v hlt) where
  valid := h.valid.declare hroom name
  size := by rw [Array.size_set, h.size]
  room := hcount
  frames := by
    -- the next slot is above all that have names
    have hfree : ∀ m ∈ b.frames.maps, ∀ (x : String) (slot : Slot),
        m[x]? = some slot → slot.index.toNat ≠ (slotAt b.used).index.toNat := by
      intro m hm x slot hslot
      rw [toNat_slotAt hroom]
      exact (h.valid.below m hm x slot hslot).ne
    have hframes := List.forall₂_cons.1 h.frames
    refine .cons ?_ (forall₂_mirrors_set hframes.2 hlt v fun m hm =>
      hfree m (List.mem_cons_of_mem _ hm))
    exact hframes.1.set_insert hlt v fun x slot _ => hfree _ List.mem_cons_self x slot

theorem assign (h : Agrees count b env locals) {name : String} {slot : Slot}
    (hslot : b.resolve? name = some slot) (v : Value) (hlt : slot.index.toNat < locals.size) :
    Agrees count b (env.assign name v) (locals.set slot.index.toNat v hlt) where
  valid := h.valid
  size := by rw [Array.size_set, h.size]
  room := h.room
  frames := by
    rw [Frames.maps_assign]
    exact forall₂_mirrors_assign h.frames h.valid.separate h.below hslot hlt v

end Agrees

end StackScript
