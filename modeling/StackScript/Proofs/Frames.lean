import Mathlib.Tactic

set_option autoImplicit false

/-!
# Stacks of name maps

A `Frames α` is a non-empty stack of maps from names to `α`: the innermost map and those around it.
A lookup goes through the maps from the innermost outward. Slots are kept in such a stack while a
program is compiled, and values while it is evaluated.
-/

namespace StackScript

variable {α : Type}

/-! ## Maps from names -/

namespace NameMap

theorem getElem?_insert (m : Std.TreeMap String α) (name x : String) (a : α) :
    (m.insert name a)[x]? = if name = x then some a else m[x]? := by
  simp [Std.TreeMap.getElem?_insert]

theorem getElem?_erase (m : Std.TreeMap String α) (name x : String) :
    (m.erase name)[x]? = if name = x then none else m[x]? := by
  simp [Std.TreeMap.getElem?_erase]

theorem mem_iff (m : Std.TreeMap String α) (x : String) : x ∈ m ↔ ∃ a, m[x]? = some a := by
  rw [Std.TreeMap.mem_iff_isSome_getElem?, Option.isSome_iff_exists]

theorem getElem?_of_not_mem {m : Std.TreeMap String α} {x : String} (h : x ∉ m) :
    m[x]? = none :=
  Std.TreeMap.getElem?_eq_none h

end NameMap

/-! ## Stacks -/

/-- The innermost map and the maps around it, going outward. -/
structure Frames (α : Type) where
  inner : Std.TreeMap String α := ∅
  outer : List (Std.TreeMap String α) := []

namespace Frames

/-- The maps, innermost first. -/
def maps (f : Frames α) : List (Std.TreeMap String α) := f.inner :: f.outer

/-- The binding of a name in the innermost of some maps that has one. -/
def lookupIn (maps : List (Std.TreeMap String α)) (name : String) : Option α :=
  maps.findSome? (·[name]?)

/-- The innermost binding of a name. -/
def lookup? (f : Frames α) (name : String) : Option α := lookupIn f.maps name

/-- The number of maps around the innermost one. -/
def depth (f : Frames α) : Nat := f.outer.length

/-- Puts an empty map on top. -/
def push (f : Frames α) : Frames α := ⟨∅, f.maps⟩

/-- Takes the innermost map away. The last map stays. -/
def pop : Frames α → Frames α
  | ⟨inner, []⟩ => ⟨inner, []⟩
  | ⟨_, m :: ms⟩ => ⟨m, ms⟩

/-- Binds a name in the innermost map. -/
def insert (name : String) (a : α) (f : Frames α) : Frames α := ⟨f.inner.insert name a, f.outer⟩

/-- Rebinds a name in the innermost of some maps that has it. -/
def assignIn (name : String) (a : α) :
    List (Std.TreeMap String α) → List (Std.TreeMap String α)
  | [] => []
  | m :: ms => if name ∈ m then m.insert name a :: ms else m :: assignIn name a ms

/-- Rebinds a name where its innermost binding is. -/
def assign (name : String) (a : α) (f : Frames α) : Frames α :=
  if name ∈ f.inner then ⟨f.inner.insert name a, f.outer⟩
  else ⟨f.inner, assignIn name a f.outer⟩

@[simp] theorem maps_push (f : Frames α) : f.push.maps = ∅ :: f.maps := rfl

@[simp] theorem maps_insert (name : String) (a : α) (f : Frames α) :
    (f.insert name a).maps = f.inner.insert name a :: f.outer := rfl

@[simp] theorem pop_push (f : Frames α) : f.push.pop = f := rfl

/-- A stack that has the maps of another one below its innermost map goes back to it. -/
theorem pop_eq_of_outer {f g : Frames α} (h : f.outer = g.maps) : f.pop = g := by
  obtain ⟨inner, outer⟩ := f
  subst h
  rfl

@[simp] theorem outer_insert (name : String) (a : α) (f : Frames α) :
    (f.insert name a).outer = f.outer := rfl

theorem maps_assign (name : String) (a : α) (f : Frames α) :
    (f.assign name a).maps = assignIn name a f.maps := by
  by_cases h : name ∈ f.inner
  · simp [assign, maps, assignIn, h]
  · simp [assign, maps, assignIn, h]

@[simp] theorem lookupIn_nil (x : String) : lookupIn ([] : List (Std.TreeMap String α)) x = none :=
  rfl

theorem lookupIn_cons (m : Std.TreeMap String α) (ms : List (Std.TreeMap String α)) (x : String) :
    lookupIn (m :: ms) x = m[x]?.or (lookupIn ms x) := by
  simp only [lookupIn, List.findSome?_cons]
  cases m[x]? <;> rfl

theorem lookup?_insert (name x : String) (a : α) (f : Frames α) :
    (f.insert name a).lookup? x = if name = x then some a else f.lookup? x := by
  show lookupIn (f.inner.insert name a :: f.outer) x =
    if name = x then some a else lookupIn (f.inner :: f.outer) x
  rw [lookupIn_cons, lookupIn_cons, NameMap.getElem?_insert]
  split <;> rfl

@[simp] theorem lookup?_push (f : Frames α) (x : String) : f.push.lookup? x = f.lookup? x := by
  simp [lookup?, lookupIn_cons]

/-- What a lookup finds is bound in one of the maps. -/
theorem exists_of_lookupIn {maps : List (Std.TreeMap String α)} {x : String} {a : α}
    (h : lookupIn maps x = some a) : ∃ m ∈ maps, m[x]? = some a :=
  List.exists_of_findSome?_eq_some h

end Frames

end StackScript
