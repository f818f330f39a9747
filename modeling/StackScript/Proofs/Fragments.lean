import Mathlib.Tactic
import StackScript.Proofs.Assembly

set_option autoImplicit false

/-!
# Fragments of directives

The directives of one part of a program form a fragment. A fragment is `Whole` when it creates the
labels `n, …, m - 1`, binds every one of them and reads as given code once labels have addresses.
A walk that stops at an error leaves a fragment that is only `Broken`: it has kept to the
discipline of labels so far. The lemmas put together fragments of the control statements.

Labels are numbered by 32 bits, so all this is about walks that create at most `2 ^ 32` labels.
There are at most two labels to three instructions, which bounds the labels of a walk by its
instructions.
-/

namespace StackScript

/-- The label with a number. -/
def labelOf (n : Nat) : Label := ⟨n.toUInt32⟩

theorem toNat_labelOf {n : Nat} (h : n < 2 ^ 32) : (labelOf n).id.toNat = n :=
  toNat_toUInt32 h

/-- The number of labels that a directive creates. -/
def Directive.labelCount : Directive → Nat
  | .newLabel _ => 1
  | .emit _ | .bind _ | .branchIfFalse _ | .branch _ => 0

namespace Directives

/-- The number of labels that directives create. -/
def labelCount (ds : List Directive) : Nat := (ds.map Directive.labelCount).sum

@[simp] theorem labelCount_nil : labelCount [] = 0 := rfl

@[simp] theorem labelCount_cons (d : Directive) (ds : List Directive) :
    labelCount (d :: ds) = d.labelCount + labelCount ds := rfl

@[simp] theorem labelCount_append (ds es : List Directive) :
    labelCount (ds ++ es) = labelCount ds + labelCount es := by
  simp [labelCount]

@[simp] theorem labelCount_emits (is : List Instruction) : labelCount (emits is) = 0 := by
  induction is with
  | nil => rfl
  | cons i is ih => rw [emits_cons, labelCount_cons, ih, Directive.labelCount]

/-- Directives that create the labels from `n` to `m`, bind each of them, and read as `code` at
address `pc` under the assignments of addresses that are `allowed`. -/
structure Whole (allowed : (Label → UInt32) → Prop) (pc n m : Nat) (ds : List Directive)
    (code : List Instruction) : Prop where
  created : n + labelCount ds = m
  -- at most two labels for three instructions, so short code has few labels
  few : 3 * m ≤ 3 * n + 2 * size ds
  size_eq : size ds = code.length
  tracked : m ≤ 2 ^ 32 → ∀ flags : List Bool, flags.length = n →
    track flags ds = some (flags ++ List.replicate (m - n) true)
  reads : ∀ place, allowed place → PlacedAt place pc ds → Directives.code place ds = code

/-- Directives that create the labels from `n` to `m` and keep to the discipline so far. -/
structure Broken (n m : Nat) (ds : List Directive) : Prop where
  created : n + labelCount ds = m
  -- a loop that stops in its test has created two labels ahead of its instructions
  few : 3 * m ≤ 3 * n + 2 * size ds + 6
  tracked : m ≤ 2 ^ 32 → ∀ flags : List Bool, flags.length = n → (track flags ds).isSome

variable {allowed : (Label → UInt32) → Prop} {pc n m k : Nat} {ds es : List Directive}
  {code code' : List Instruction}

theorem Whole.le (h : Whole allowed pc n m ds code) : n ≤ m :=
  h.created ▸ Nat.le_add_right n (labelCount ds)

theorem Broken.le (h : Broken n m ds) : n ≤ m :=
  h.created ▸ Nat.le_add_right n (labelCount ds)

/-! ## Labels one by one -/

/-- Creating a label adds an unbound one. -/
theorem track_newLabel (flags : List Bool) (label : Label) :
    track flags [Directive.newLabel label] = some (flags ++ [false]) := rfl

/-- Binding an unbound label sets its flag. -/
theorem track_bind (hn : n < 2 ^ 32) {before : List Bool} (hbefore : before.length = n)
    (after : List Bool) :
    track (before ++ false :: after) [Directive.bind (labelOf n)] =
      some (before ++ true :: after) := by
  subst hbefore
  simp [Directive.track, toNat_labelOf hn]

/-- A branch to a label that exists keeps the flags. -/
theorem track_branchIfFalse (hn : n < 2 ^ 32) {flags : List Bool} (hlt : n < flags.length) :
    track flags [Directive.branchIfFalse (labelOf n)] = some flags := by
  simp [Directive.track, toNat_labelOf hn, hlt]

theorem track_branch (hn : n < 2 ^ 32) {flags : List Bool} (hlt : n < flags.length) :
    track flags [Directive.branch (labelOf n)] = some flags := by
  simp [Directive.track, toNat_labelOf hn, hlt]

/-- The flag of a first label apart from those of the labels behind it. -/
theorem replicate_labels (h : n + 1 ≤ m) :
    List.replicate (m - n) true = true :: List.replicate (m - (n + 1)) true := by
  rw [← List.replicate_succ]
  congr 1
  omega

/-! ## Straight code and sequences -/

/-- Instructions are a whole fragment without labels. -/
theorem Whole.straight (allowed : (Label → UInt32) → Prop) (pc n : Nat) (is : List Instruction) :
    Whole allowed pc n n (emits is) is where
  created := by rw [labelCount_emits, Nat.add_zero]
  few := Nat.le_add_right _ _
  size_eq := size_emits is
  tracked _ flags _ := by simp
  reads place _ _ := code_emits place is

/-- Whole fragments one after the other are a whole fragment. -/
theorem Whole.append (h : Whole allowed pc n m ds code)
    (h' : Whole allowed (pc + code.length) m k es code') :
    Whole allowed pc n k (ds ++ es) (code ++ code') where
  created := by rw [labelCount_append, ← Nat.add_assoc, h.created, h'.created]
  few := by
    have := h.few
    have := h'.few
    rw [size_append]
    omega
  size_eq := by rw [size_append, h.size_eq, h'.size_eq, List.length_append]
  tracked hk flags hflags := by
    have hle := h.le
    have hle' := h'.le
    have hnext : (flags ++ List.replicate (m - n) true).length = m := by
      rw [List.length_append, List.length_replicate, hflags]
      omega
    have hsum : List.replicate (m - n) true ++ List.replicate (k - m) true =
        List.replicate (k - n) true := by
      rw [List.replicate_append_replicate]
      congr 1
      omega
    rw [track_append, h.tracked (by omega) flags hflags, Option.bind_some, h'.tracked hk _ hnext,
      List.append_assoc, hsum]
  reads place hplace hds := by
    rw [placedAt_append, h.size_eq] at hds
    rw [code_append, h.reads place hplace hds.1, h'.reads place hplace hds.2]

/-- A whole fragment is a broken one. -/
theorem Whole.broken (h : Whole allowed pc n m ds code) : Broken n m ds where
  created := h.created
  few := h.few.trans (Nat.le_add_right _ _)
  tracked hm flags hflags := by rw [h.tracked hm flags hflags, Option.isSome_some]

/-- A walk can break after a whole fragment. -/
theorem Whole.append_broken (h : Whole allowed pc n m ds code) (h' : Broken m k es) :
    Broken n k (ds ++ es) where
  created := by rw [labelCount_append, ← Nat.add_assoc, h.created, h'.created]
  few := by
    have := h.few
    have := h'.few
    rw [size_append]
    omega
  tracked hk flags hflags := by
    have hle := h.le
    have hle' := h'.le
    rw [track_append, h.tracked (by omega) flags hflags, Option.bind_some]
    apply h'.tracked hk
    rw [List.length_append, List.length_replicate, hflags]
    omega

theorem Broken.straight (n : Nat) (is : List Instruction) : Broken n n (emits is) :=
  (Whole.straight (fun _ => True) 0 n is).broken

/-! ## Control statements -/

/-- Code, then a branch over a fragment. -/
theorem Whole.branchOver (t : List Instruction) (ht : 1 ≤ t.length)
    (h : Whole allowed (pc + t.length + 1) (n + 1) m ds code) :
    Whole allowed pc n m
      (emits t ++ [Directive.newLabel (labelOf n), Directive.branchIfFalse (labelOf n)] ++ ds ++
        [Directive.bind (labelOf n)])
      (t ++ [Instruction.jumpIfFalse (pc + t.length + 1 + code.length).toUInt32] ++ code) where
  created := by
    have := h.created
    simp only [labelCount_append, labelCount_emits, labelCount_cons, labelCount_nil,
      Directive.labelCount]
    omega
  few := by
    have := h.few
    simp only [size_append, size_emits, size_cons, size_nil, Directive.width]
    omega
  size_eq := by
    simp only [size_append, size_emits, size_cons, size_nil, Directive.width, h.size_eq,
      List.length_append, List.length_singleton]
    omega
  tracked hm flags hflags := by
    have hle := h.le
    -- inside the fragment the new label exists and is unbound; the bind behind it sets its flag
    have hbody := h.tracked hm (flags ++ [false]) (by simp [hflags])
    rw [track_append, track_append, track_append, track_emits, Option.bind_some, track_cons,
      Directive.track, Option.bind_some, track_branchIfFalse (by omega) (by simp [hflags]),
      Option.bind_some, hbody, Option.bind_some, List.append_assoc, List.singleton_append,
      track_bind (by omega) hflags _, replicate_labels hle]
  reads place hplace hds := by
    simp only [placedAt_append, placedAt_bind, placedAt_nil, size_append, size_emits, size_cons,
      size_nil, Directive.width, h.size_eq] at hds
    obtain ⟨⟨-, hbody⟩, hbind, -⟩ := hds
    have hpc : pc + (t.length + (0 + (1 + 0))) = pc + t.length + 1 := by omega
    rw [hpc] at hbody
    -- the bind stands where the branch goes
    have hafter : pc + (t.length + (0 + (1 + 0)) + code.length) =
        pc + t.length + 1 + code.length := by omega
    rw [hafter] at hbind
    simp only [code_append, code_emits, code_newLabel, code_branchIfFalse, code_bind, code_nil,
      h.reads place hplace hbody, hbind, List.append_nil]

/-- The head of a loop: its two labels, the first of them bound. -/
def loopHead (n : Nat) : List Directive :=
  [Directive.newLabel (labelOf n), Directive.newLabel (labelOf (n + 1)), Directive.bind (labelOf n)]

theorem size_loopHead (n : Nat) : size (loopHead n) = 0 := rfl

theorem track_loopHead (hn : n < 2 ^ 32) {flags : List Bool} (hflags : flags.length = n) :
    track flags (loopHead n) = some (flags ++ [true, false]) := by
  have hbind := track_bind hn hflags [false]
  show track (flags ++ [false] ++ [false]) [Directive.bind (labelOf n)] = _
  rw [List.append_assoc]
  exact hbind

/-- A loop: a test, a branch out of the loop, a fragment and the branch back. -/
theorem Whole.loop (t : List Instruction) (ht : 1 ≤ t.length)
    (h : Whole allowed (pc + t.length + 1) (n + 2) m ds code) :
    Whole allowed pc n m
      (loopHead n ++ emits t ++ [Directive.branchIfFalse (labelOf (n + 1))] ++ ds ++
        [Directive.branch (labelOf n), Directive.bind (labelOf (n + 1))])
      (t ++ [Instruction.jumpIfFalse (pc + t.length + 1 + code.length + 1).toUInt32] ++ code ++
        [Instruction.jump pc.toUInt32]) where
  created := by
    have := h.created
    simp only [loopHead, labelCount_append, labelCount_emits, labelCount_cons, labelCount_nil,
      Directive.labelCount]
    omega
  few := by
    have := h.few
    simp only [size_append, size_loopHead, size_emits, size_cons, size_nil, Directive.width]
    omega
  size_eq := by
    simp only [size_append, size_loopHead, size_emits, size_cons, size_nil, Directive.width,
      h.size_eq, List.length_append, List.length_singleton]
    omega
  tracked hm flags hflags := by
    have hle := h.le
    -- the label of the head is bound before the test, that of the end behind the jump back
    have hbody := h.tracked hm (flags ++ [true, false]) (by simp [hflags])
    have hrest : List.replicate (m - n) true =
        true :: true :: List.replicate (m - (n + 2)) true := by
      rw [replicate_labels (by omega), replicate_labels hle]
    have hnext : (flags ++ [true]).length = n + 1 := by simp [hflags]
    have hend := track_bind (by omega) hnext (List.replicate (m - (n + 2)) true)
    rw [track_append, track_append, track_append, track_append, track_loopHead (by omega) hflags,
      Option.bind_some, track_emits, Option.bind_some,
      track_branchIfFalse (by omega) (by simp [hflags]), Option.bind_some, hbody, Option.bind_some]
    rw [show [Directive.branch (labelOf n), Directive.bind (labelOf (n + 1))] =
        [Directive.branch (labelOf n)] ++ [Directive.bind (labelOf (n + 1))] from rfl, track_append,
      track_branch (by omega) (by simp [hflags]), Option.bind_some]
    simpa [hrest] using hend
  reads place hplace hds := by
    simp only [loopHead, placedAt_append, placedAt_newLabel, placedAt_bind, placedAt_branch,
      placedAt_nil, size_append, size_emits, size_cons, size_nil, Directive.width, h.size_eq] at hds
    obtain ⟨⟨⟨⟨hloop, -⟩, -⟩, hbody⟩, hbind, -⟩ := hds
    have hpc : pc + (0 + (0 + (0 + 0)) + t.length + (1 + 0)) = pc + t.length + 1 := by omega
    rw [hpc] at hbody
    have hafter : pc + (0 + (0 + (0 + 0)) + t.length + (1 + 0) + code.length) + 1 =
        pc + t.length + 1 + code.length + 1 := by omega
    rw [hafter] at hbind
    simp only [loopHead, code_append, code_emits, code_newLabel, code_bind, code_branchIfFalse,
      code_branch, code_nil, h.reads place hplace hbody, hloop, hbind, List.nil_append]

/-- A branch to a label outside of the fragment whose address is known. -/
theorem Whole.branch {address : UInt32} {d : Nat} (hd : d < n)
    (haddress : ∀ place, allowed place → place (labelOf d) = address) :
    Whole allowed pc n n [Directive.branch (labelOf d)] [Instruction.jump address] where
  created := rfl
  few := Nat.le_add_right _ _
  size_eq := rfl
  tracked hn flags hflags := by
    rw [track_branch (by omega) (by omega), Nat.sub_self, List.replicate_zero, List.append_nil]
  reads place hplace _ := by
    rw [code_branch, code_nil, haddress place hplace]

/-- A fragment between a label and its bind, which may branch to the label. -/
theorem Whole.labelled (v : List Instruction) (hv : 2 ≤ v.length)
    (h : Whole (fun place => place (labelOf n) = (pc + v.length + code.length).toUInt32)
      (pc + v.length) (n + 1) m ds code) :
    Whole allowed pc n m
      (emits v ++ [Directive.newLabel (labelOf n)] ++ ds ++ [Directive.bind (labelOf n)])
      (v ++ code) where
  created := by
    have := h.created
    simp only [labelCount_append, labelCount_emits, labelCount_cons, labelCount_nil,
      Directive.labelCount]
    omega
  few := by
    have := h.few
    simp only [size_append, size_emits, size_cons, size_nil, Directive.width]
    omega
  size_eq := by
    simp only [size_append, size_emits, size_cons, size_nil, Directive.width, h.size_eq,
      List.length_append]
    omega
  tracked hm flags hflags := by
    have hle := h.le
    have hbody := h.tracked hm (flags ++ [false]) (by simp [hflags])
    rw [track_append, track_append, track_append, track_emits, Option.bind_some, track_newLabel,
      Option.bind_some, hbody, Option.bind_some, List.append_assoc, List.singleton_append,
      track_bind (by omega) hflags _, replicate_labels hle]
  reads place _ hds := by
    simp only [placedAt_append, placedAt_bind, placedAt_nil, size_append, size_emits, size_cons,
      size_nil, Directive.width, h.size_eq] at hds
    -- the bind at the end is what allows the assignment inside the fragment
    obtain ⟨⟨-, hbody⟩, hbind, -⟩ := hds
    have hpc : pc + (v.length + (0 + 0)) = pc + v.length := by omega
    rw [hpc] at hbody
    have hafter : pc + (v.length + (0 + 0) + code.length) = pc + v.length + code.length := by omega
    rw [hafter] at hbind
    simp only [code_append, code_emits, code_newLabel, code_bind, code_nil,
      h.reads place hbind hbody, List.append_nil]

/-- Fewer assignments of addresses can be allowed. -/
theorem Whole.restrict {allowed' : (Label → UInt32) → Prop} (h : Whole allowed pc n m ds code)
    (hallowed : ∀ place, allowed' place → allowed place) : Whole allowed' pc n m ds code :=
  { h with reads := fun place hplace => h.reads place (hallowed place hplace) }

/-! ## Control statements that break -/

theorem Broken.branchOver (t : List Instruction) (ht : 1 ≤ t.length) (h : Broken (n + 1) m es) :
    Broken n m
      (emits t ++ [Directive.newLabel (labelOf n), Directive.branchIfFalse (labelOf n)] ++ es) where
  created := by
    have := h.created
    simp only [labelCount_append, labelCount_emits, labelCount_cons, labelCount_nil,
      Directive.labelCount]
    omega
  few := by
    have := h.few
    simp only [size_append, size_emits, size_cons, size_nil, Directive.width]
    omega
  tracked hm flags hflags := by
    have hle := h.le
    have hbody := h.tracked hm (flags ++ [false]) (by simp [hflags])
    rw [track_append, track_append, track_emits, Option.bind_some, track_cons, Directive.track,
      Option.bind_some, track_branchIfFalse (by omega) (by simp [hflags]), Option.bind_some]
    exact hbody

theorem Broken.loopTest (is : List Instruction) :
    Broken n (n + 2) (loopHead n ++ emits is) where
  created := by rw [labelCount_append, labelCount_emits]; rfl
  few := by
    rw [size_append, size_loopHead]
    omega
  tracked hm flags hflags := by
    rw [track_append, track_loopHead (by omega) hflags, Option.bind_some, track_emits]
    rfl

theorem Broken.loopBody (t : List Instruction) (ht : 2 ≤ t.length) (h : Broken (n + 2) m es) :
    Broken n m (loopHead n ++ emits t ++ [Directive.branchIfFalse (labelOf (n + 1))] ++ es) where
  created := by
    have := h.created
    simp only [loopHead, labelCount_append, labelCount_emits, labelCount_cons, labelCount_nil,
      Directive.labelCount]
    omega
  few := by
    have := h.few
    simp only [size_append, size_loopHead, size_emits, size_cons, size_nil, Directive.width]
    omega
  tracked hm flags hflags := by
    have hle := h.le
    have hbody := h.tracked hm (flags ++ [true, false]) (by simp [hflags])
    rw [track_append, track_append, track_append, track_loopHead (by omega) hflags,
      Option.bind_some, track_emits, Option.bind_some,
      track_branchIfFalse (by omega) (by simp [hflags]), Option.bind_some]
    exact hbody

theorem Broken.labelled (v : List Instruction) (hv : 2 ≤ v.length) (h : Broken (n + 1) m es) :
    Broken n m (emits v ++ [Directive.newLabel (labelOf n)] ++ es) where
  created := by
    have := h.created
    simp only [labelCount_append, labelCount_emits, labelCount_cons, labelCount_nil,
      Directive.labelCount]
    omega
  few := by
    have := h.few
    simp only [size_append, size_emits, size_cons, size_nil, Directive.width]
    omega
  tracked hm flags hflags := by
    have hbody := h.tracked hm (flags ++ [false]) (by simp [hflags])
    rw [track_append, track_append, track_emits, Option.bind_some, track_newLabel,
      Option.bind_some]
    exact hbody

end Directives

end StackScript
