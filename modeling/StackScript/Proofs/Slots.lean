import Mathlib.Tactic
import StackScript.Proofs.Layout

set_option autoImplicit false

/-!
# Slots in layouts

In the blocks of a layout no two bindings share a slot, and every slot in use is below the number of
slots used so far (`Blocks.Valid`). A layout keeps this, only adds slots, and ends in the block in
which it started (`Blocks.Extends`).
-/

namespace StackScript

/-- The slot with a number. -/
def slotAt (n : Nat) : Slot := ⟨n.toUInt16⟩

theorem toNat_slotAt {n : Nat} (h : n < 65536) : (slotAt n).index.toNat = n :=
  toNat_toUInt16 h

/-- No two bindings in a stack of maps share a slot. -/
def Separate : List (Std.TreeMap String Slot) → Prop
  | [] => True
  | m :: ms =>
    (∀ (x y : String) (slot : Slot), m[x]? = some slot → m[y]? = some slot → x = y) ∧
      (∀ m' ∈ ms, ∀ (x y : String) (slot : Slot), m[x]? = some slot → m'[y]? ≠ some slot) ∧
      Separate ms

namespace Blocks

/-- The slots of all bindings are different, and among those used so far. -/
structure Valid (b : Blocks) : Prop where
  separate : Separate b.frames.maps
  below : ∀ m ∈ b.frames.maps, ∀ (x : String) (slot : Slot),
    m[x]? = some slot → slot.index.toNat < b.used
  room : b.used ≤ 65536

variable {b b₁ b₂ : Blocks}

theorem Valid.empty : Valid {} where
  separate := by simp [Frames.maps, Separate]
  below := by simp [Frames.maps]
  room := by decide

theorem Valid.enter (h : b.Valid) : b.enter.Valid where
  separate := by
    show Separate (∅ :: b.frames.maps)
    refine ⟨?_, ?_, h.separate⟩
    · simp
    · simp
  below := by
    intro m (hm : m ∈ ∅ :: b.frames.maps) x slot hslot
    rcases List.mem_cons.1 hm with rfl | hm
    · simp at hslot
    · exact h.below m hm x slot hslot
  room := h.room

/-- A name bound to the next slot. -/
theorem Valid.declare (h : b.Valid) (hroom : b.used < 65536) (name : String) :
    Valid ⟨b.frames.insert name (slotAt b.used), b.used + 1⟩ where
  separate := by
    obtain ⟨hinner, houter, hrest⟩ := h.separate
    -- a slot that is bound already is not the next one
    have hnew : ∀ m ∈ b.frames.maps, ∀ x : String, m[x]? ≠ some (slotAt b.used) := by
      intro m hm x hx
      have hlt := h.below m hm x _ hx
      rw [toNat_slotAt hroom] at hlt
      exact lt_irrefl _ hlt
    have hfresh : ∀ x : String, b.frames.inner[x]? ≠ some (slotAt b.used) :=
      hnew b.frames.inner List.mem_cons_self
    show Separate (b.frames.inner.insert name (slotAt b.used) :: b.frames.outer)
    -- two names of the innermost map, and then one of it and one of an outer map
    refine ⟨fun x y slot hx hy => ?_, fun m' hm' x y slot hx hy => ?_, hrest⟩
    · rw [NameMap.getElem?_insert] at hx hy
      split at hx
      · next hname =>
        cases hx
        split at hy
        · next hname' => exact hname.symm.trans hname'
        · exact absurd hy (hfresh y)
      · split at hy
        · cases hy
          exact absurd hx (hfresh x)
        · exact hinner x y slot hx hy
    · rw [NameMap.getElem?_insert] at hx
      split at hx
      · cases hx
        exact hnew m' (List.mem_cons_of_mem _ hm') y hy
      · exact houter m' hm' x y slot hx hy
  below := by
    intro m (hm : m ∈ b.frames.inner.insert name (slotAt b.used) :: b.frames.outer) x slot hslot
    rcases List.mem_cons.1 hm with rfl | hm
    · rw [NameMap.getElem?_insert] at hslot
      split at hslot
      · cases hslot
        rw [toNat_slotAt hroom]
        exact Nat.lt_succ_self _
      · exact Nat.lt_succ_of_lt (h.below _ List.mem_cons_self x slot hslot)
    · exact Nat.lt_succ_of_lt (h.below m (List.mem_cons_of_mem _ hm) x slot hslot)
  room := hroom

/-- The slot of a visible name is one of those used. -/
theorem Valid.lt_of_resolve? (h : b.Valid) {name : String} {slot : Slot}
    (hslot : b.resolve? name = some slot) : slot.index.toNat < b.used := by
  obtain ⟨m, hm, hslot⟩ := Frames.exists_of_lookupIn hslot
  exact h.below m hm name slot hslot

/-- Blocks that have come from others in the same block. -/
structure Extends (b b' : Blocks) : Prop where
  used_le : b.used ≤ b'.used
  outer : b'.frames.outer = b.frames.outer
  valid : b.Valid → b'.Valid

theorem Extends.refl (b : Blocks) : Extends b b := ⟨le_rfl, rfl, id⟩

theorem Extends.trans (h : Extends b b₁) (h' : Extends b₁ b₂) : Extends b b₂ :=
  ⟨h.used_le.trans h'.used_le, h'.outer.trans h.outer, h'.valid ∘ h.valid⟩

theorem Extends.fresh (hroom : b.used < 65536) : Extends b { b with used := b.used + 1 } where
  used_le := Nat.le_succ _
  outer := rfl
  valid h :=
    ⟨h.separate, fun m hm x slot hslot => Nat.lt_succ_of_lt (h.below m hm x slot hslot), hroom⟩

theorem Extends.declare (hroom : b.used < 65536) (name : String) :
    Extends b ⟨b.frames.insert name (slotAt b.used), b.used + 1⟩ where
  used_le := Nat.le_succ _
  outer := rfl
  valid h := h.declare hroom name

/-- A block leaves the slots it has used. -/
theorem Extends.leave {inner : Blocks} (h : Extends b.enter inner) :
    Extends b { b with used := inner.used } where
  used_le := h.used_le
  outer := rfl
  valid hb :=
    ⟨hb.separate, fun m hm x slot hslot => (hb.below m hm x slot hslot).trans_le h.used_le,
      (h.valid hb.enter).room⟩

end Blocks

namespace Layout

variable {library : Library}

mutual

theorem extends_stmt : ∀ (s : Stmt) {pc : Nat} {b b' : Blocks} {code : List Instruction},
    stmt library pc b s = .ok (code, b') → b.Extends b'
  | .expression value position, pc, b, b', code, h => by
    obtain ⟨v, -, -, rfl⟩ := stmt_expression h
    exact .refl _
  | .declare name value position, pc, b, b', code, h => by
    obtain ⟨v, -, hroom, -, rfl⟩ := stmt_declare h
    exact .declare hroom name
  | .assign name value position, pc, b, b', code, h => by
    obtain ⟨slot, v, -, -, -, rfl⟩ := stmt_assign h
    exact .refl _
  | .ifThen test body position, pc, b, b', code, h => by
    obtain ⟨t, c, inner, -, hc, -, rfl⟩ := stmt_ifThen h
    exact (extends_stmts body hc).leave
  | .whileDo test body position, pc, b, b', code, h => by
    obtain ⟨t, c, inner, -, hc, -, rfl⟩ := stmt_whileDo h
    exact (extends_stmts body hc).leave
  | .switch subject cases position, pc, b, b', code, h => by
    obtain ⟨v, c, -, hroom, hc, -⟩ := stmt_switch h
    exact (Blocks.Extends.fresh hroom).trans (extends_arms cases hc)

theorem extends_stmts : ∀ (ss : List Stmt) {pc : Nat} {b b' : Blocks} {code : List Instruction},
    stmts library pc b ss = .ok (code, b') → b.Extends b'
  | [], pc, b, b', code, h => by
    cases h
    exact .refl _
  | first :: rest, pc, b, b', code, h => by
    obtain ⟨c, c', mid, hc, hc', -⟩ := stmts_cons h
    exact (extends_stmt first hc).trans (extends_stmts rest hc')

theorem extends_arm : ∀ (a : Arm) {slot : Slot} {done pc : Nat} {b b' : Blocks}
    {code : List Instruction},
    arm library slot done pc b a = .ok (code, b') → b.Extends b'
  | .case value body, slot, done, pc, b, b', code, h => by
    obtain ⟨v, eq, test, c, inner, -, -, -, hc, -, rfl⟩ := arm_case h
    exact (extends_stmts body hc).leave
  | .otherwise body, slot, done, pc, b, b', code, h => by
    obtain ⟨c, inner, hc, -, rfl⟩ := arm_otherwise h
    exact (extends_stmts body hc).leave

theorem extends_arms : ∀ (as : List Arm) {slot : Slot} {done pc : Nat} {b b' : Blocks}
    {code : List Instruction},
    arms library slot done pc b as = .ok (code, b') → b.Extends b'
  | [], slot, done, pc, b, b', code, h => by
    cases h
    exact .refl _
  | first :: rest, slot, done, pc, b, b', code, h => by
    obtain ⟨c, c', mid, hc, hc', -⟩ := arms_cons h
    exact (extends_arm first hc).trans (extends_arms rest hc')

end

/-- The bindings of an arm are gone after it. -/
theorem frames_arm {a : Arm} {slot : Slot} {done pc : Nat} {b b' : Blocks}
    {code : List Instruction} (h : arm library slot done pc b a = .ok (code, b')) :
    b'.frames = b.frames := by
  cases a with
  | case value body =>
    obtain ⟨v, eq, test, c, inner, -, -, -, -, -, rfl⟩ := arm_case h
    rfl
  | otherwise body =>
    obtain ⟨c, inner, -, -, rfl⟩ := arm_otherwise h
    rfl

theorem frames_arms {as : List Arm} {slot : Slot} {done pc : Nat} {b b' : Blocks}
    {code : List Instruction} (h : arms library slot done pc b as = .ok (code, b')) :
    b'.frames = b.frames := by
  induction as generalizing pc b code with
  | nil =>
    cases h
    rfl
  | cons first rest ih =>
    obtain ⟨c, c', mid, hc, hc', -⟩ := arms_cons h
    exact (ih hc').trans (frames_arm hc)

theorem extends_builtins : ∀ (names : List String) {total index : Nat} {b b' : Blocks}
    {code : List Instruction}, builtins total index b names = .ok (code, b') → b.Extends b'
  | [], total, index, b, b', code, h => by
    cases h
    exact .refl _
  | name :: rest, total, index, b, b', code, h => by
    obtain ⟨c, -, hroom, hc, -⟩ := builtins_cons h
    exact (Blocks.Extends.declare hroom name).trans (extends_builtins rest hc)

end Layout

end StackScript
