import Mathlib.Tactic
import StackScript.Proofs.Fragments

set_option autoImplicit false

/-!
# The assembler under arbitrary calls

An assembler may be called in any order: labels are bound before or after the branches to them,
bound twice, or never created at all. What it must answer is said in terms of the calls alone. A
label is created by the first `label.id + 1` creations, and its bind is the first call that asks to
bind it from then on (`Directives.FirstBind`); a bind that is refused changes nothing. `AnswersBind`
and `Finishes` say what a bind and the end of assembly are answered after given calls; the cases of
each exclude one another, so they leave one answer. The main statement is
`Assembler.assembles_calls`.
-/

namespace StackScript

theorem labelOf_toNat (label : Label) : labelOf label.id.toNat = label := by
  simp [labelOf]

/-- The label that a branch goes to. -/
def Directive.branchLabel? : Directive → Option Label
  | .branchIfFalse label | .branch label => some label
  | .emit _ | .newLabel _ | .bind _ => none

namespace Directives

/-! ## What calls ask for -/

/-- The labels of the branches, in the order of the calls. -/
def branchLabels (calls : List Directive) : List Label := calls.filterMap Directive.branchLabel?

/-- The call with number `k` asks to bind a label that exists by then. -/
def BindsAt (calls : List Directive) (k : Nat) (label : Label) : Prop :=
  calls[k]? = some (.bind label) ∧ label.id.toNat < labelCount (calls.take k)

/-- Some call asks to bind a label that exists by then. -/
def Binds (calls : List Directive) (label : Label) : Prop := ∃ k, BindsAt calls k label

/-- The call with number `k` is the one that binds a label: no call before it could. -/
structure FirstBind (calls : List Directive) (k : Nat) (label : Label) : Prop where
  binds : BindsAt calls k label
  first : ∀ j < k, ¬ BindsAt calls j label

/-- A label is bound to `n` if `n` instructions come before the call that binds it. -/
def BoundTo (calls : List Directive) (label : Label) (n : Nat) : Prop :=
  ∃ k, FirstBind calls k label ∧ size (calls.take k) = n

section

variable {calls : List Directive} {k n : Nat} {label : Label}

theorem BindsAt.lt_length (h : BindsAt calls k label) : k < calls.length :=
  (List.getElem?_eq_some_iff.1 h.1).1

theorem binds_iff_boundTo : Binds calls label ↔ ∃ n, BoundTo calls label n := by
  classical
  constructor
  · intro h
    exact ⟨_, Nat.find h, ⟨Nat.find_spec h, fun j hj => Nat.find_min h hj⟩, rfl⟩
  · rintro ⟨n, k, hk, -⟩
    exact ⟨k, hk.binds⟩

/-- The calls so far decide about their binds. -/
theorem bindsAt_append (d : Directive) :
    BindsAt (calls ++ [d]) k label ↔
      BindsAt calls k label ∨
        k = calls.length ∧ d = .bind label ∧ label.id.toNat < labelCount calls := by
  unfold BindsAt
  rcases Nat.lt_trichotomy k calls.length with hk | rfl | hk
  · rw [List.getElem?_append_left hk, List.take_append_of_le_length hk.le]
    simp [hk.ne]
  · simp
  · have hnone : calls[k]? = none := List.getElem?_eq_none hk.le
    have hnone' : (calls ++ [d])[k]? = none := by
      rw [List.getElem?_eq_none]
      rw [List.length_append, List.length_singleton]
      omega
    simp [hnone, hnone', hk.ne']

theorem firstBind_append (d : Directive) :
    FirstBind (calls ++ [d]) k label ↔
      FirstBind calls k label ∨
        k = calls.length ∧ d = .bind label ∧ label.id.toNat < labelCount calls ∧
          ¬ Binds calls label := by
  constructor
  · rintro ⟨hbinds, hfirst⟩
    have hearlier : ∀ j < k, ¬ BindsAt calls j label :=
      fun j hj hbind => hfirst j hj ((bindsAt_append d).2 (.inl hbind))
    rcases (bindsAt_append d).1 hbinds with hbinds | ⟨rfl, hd, hcreated⟩
    · exact .inl ⟨hbinds, hearlier⟩
    · refine .inr ⟨rfl, hd, hcreated, ?_⟩
      rintro ⟨j, hj⟩
      exact hearlier j hj.lt_length hj
  · rintro (⟨hbinds, hfirst⟩ | ⟨rfl, hd, hcreated, hnone⟩)
    · refine ⟨(bindsAt_append d).2 (.inl hbinds), fun j hj hbind => ?_⟩
      rcases (bindsAt_append d).1 hbind with hbind | ⟨rfl, -⟩
      · exact hfirst j hj hbind
      · exact absurd hbinds.lt_length (Nat.not_lt.2 hj.le)
    · refine ⟨(bindsAt_append d).2 (.inr ⟨rfl, hd, hcreated⟩), fun j hj hbind => ?_⟩
      rcases (bindsAt_append d).1 hbind with hbind | ⟨rfl, -⟩
      · exact hnone ⟨j, hbind⟩
      · exact absurd hj (Nat.lt_irrefl _)

theorem bindsAt_take {j : Nat} :
    BindsAt (calls.take k) j label ↔ j < k ∧ BindsAt calls j label := by
  unfold BindsAt
  rw [List.getElem?_take]
  by_cases hj : j < k
  · rw [if_pos hj, List.take_take, Nat.min_eq_left hj.le]
    exact (and_iff_right hj).symm
  · simp [hj]

/-- Whether a call is the one that binds its label is decided by the calls before it. -/
theorem firstBind_iff (hk : calls[k]? = some (.bind label)) :
    FirstBind calls k label ↔
      label.id.toNat < labelCount (calls.take k) ∧ ¬ Binds (calls.take k) label := by
  constructor
  · rintro ⟨hbinds, hfirst⟩
    refine ⟨hbinds.2, ?_⟩
    rintro ⟨j, hj⟩
    obtain ⟨hlt, hj⟩ := bindsAt_take.1 hj
    exact hfirst j hlt hj
  · rintro ⟨hcreated, hfree⟩
    exact ⟨⟨hk, hcreated⟩, fun j hj hbind => hfree ⟨j, bindsAt_take.2 ⟨hj, hbind⟩⟩⟩

theorem boundTo_append (d : Directive) :
    BoundTo (calls ++ [d]) label n ↔
      BoundTo calls label n ∨
        d = .bind label ∧ label.id.toNat < labelCount calls ∧ ¬ Binds calls label ∧
          size calls = n := by
  constructor
  · rintro ⟨k, hk, rfl⟩
    rcases (firstBind_append d).1 hk with hk | ⟨rfl, hd, hcreated, hfree⟩
    · rw [List.take_append_of_le_length hk.binds.lt_length.le]
      exact .inl ⟨k, hk, rfl⟩
    · rw [List.take_left]
      exact .inr ⟨hd, hcreated, hfree, rfl⟩
  · rintro (⟨k, hk, rfl⟩ | ⟨hd, hcreated, hfree, rfl⟩)
    · refine ⟨k, (firstBind_append d).2 (.inl hk), ?_⟩
      rw [List.take_append_of_le_length hk.binds.lt_length.le]
    · refine ⟨calls.length, (firstBind_append d).2 (.inr ⟨rfl, hd, hcreated, hfree⟩), ?_⟩
      rw [List.take_left]

/-- A call that does not ask for a label leaves it bound as it is. -/
theorem boundTo_append_of_ne {d : Directive} (hd : d ≠ .bind label) :
    BoundTo (calls ++ [d]) label n ↔ BoundTo calls label n := by
  rw [boundTo_append]
  exact or_iff_left fun h => hd h.1

theorem BoundTo.le_size (h : BoundTo calls label n) : n ≤ size calls := by
  obtain ⟨k, -, rfl⟩ := h
  have hsum := size_append (calls.take k) (calls.drop k)
  rw [List.take_append_drop] at hsum
  omega

theorem map_snd_branches (pc : Nat) (calls : List Directive) :
    (branches pc calls).map Prod.snd = branchLabels calls := by
  induction calls generalizing pc with
  | nil => rfl
  | cons d calls ih =>
    cases d with
    | emit i => exact ih _
    | newLabel label => exact ih _
    | bind label => exact ih _
    | branchIfFalse label => exact congrArg (label :: ·) (ih _)
    | branch label => exact congrArg (label :: ·) (ih _)

theorem branches_append_singleton (pc : Nat) (calls : List Directive) (d : Directive) :
    branches pc (calls ++ [d]) = branches pc calls ++ branches (pc + size calls) [d] := by
  induction calls generalizing pc with
  | nil => rfl
  | cons e calls ih =>
    cases e <;> simp [branches, ih, Directive.width, Nat.add_assoc]

end

/-! ## What must be answered -/

/-- What a bind is answered after given calls. -/
inductive AnswersBind (calls : List Directive) (label : Label) :
    Except InternalError (Option Label) → Prop
  | bound (hcreated : label.id.toNat < labelCount calls) (hfree : ¬ Binds calls label) :
      AnswersBind calls label (.ok none)
  | rebound (hcreated : label.id.toNat < labelCount calls) (hbound : Binds calls label) :
      AnswersBind calls label (.error (.labelRebound label))
  | unknown (hnone : labelCount calls ≤ label.id.toNat) :
      AnswersBind calls label (.error (.unknownLabel label))

/-- A bind is accepted if its label was created before and is not bound. -/
theorem AnswersBind.eq_ok_iff {calls : List Directive} {label : Label}
    {answer : Except InternalError (Option Label)} (h : AnswersBind calls label answer) :
    answer = .ok none ↔ label.id.toNat < labelCount calls ∧ ¬ Binds calls label := by
  cases h with
  | bound hcreated hfree => exact iff_of_true rfl ⟨hcreated, hfree⟩
  | rebound hcreated hbound =>
    refine iff_of_false (fun h => by cases h) ?_
    exact fun h => h.2 hbound
  | unknown hnone =>
    refine iff_of_false (fun h => by cases h) ?_
    exact fun h => Nat.not_lt.2 hnone h.1

/-- What the end of assembly is answered after given calls: the lowest label that is never bound, or
else the first branch whose label is never created, or else the code of the calls, in which each
branch goes to the number of instructions before the bind of its label. -/
inductive Finishes (calls : List Directive) (localCount : Nat) : Except InternalError Chunk → Prop
  | unbound {n : Nat} (hcreated : n < labelCount calls) (hfree : ¬ Binds calls (labelOf n))
      (hlowest : ∀ m < n, Binds calls (labelOf m)) :
      Finishes calls localCount (.error (.unboundLabel (labelOf n)))
  | unknown {before rest : List Label} {label : Label}
      (hbound : ∀ n < labelCount calls, Binds calls (labelOf n))
      (hbranches : branchLabels calls = before ++ label :: rest)
      (hbefore : ∀ l ∈ before, l.id.toNat < labelCount calls)
      (hnone : labelCount calls ≤ label.id.toNat) :
      Finishes calls localCount (.error (.unknownLabel label))
  | chunk {place : Label → UInt32} (hbound : ∀ n < labelCount calls, Binds calls (labelOf n))
      (hbranches : ∀ l ∈ branchLabels calls, l.id.toNat < labelCount calls)
      (hplace : ∀ label n, BoundTo calls label n → (place label).toNat = n) :
      Finishes calls localCount (.ok ⟨(code place calls).toArray, localCount⟩)

end Directives

/-! ## The state after calls -/

namespace Assembler

open Directives (labelCount size Binds BoundTo binds_iff_boundTo boundTo_append
  boundTo_append_of_ne)

/-- The answer to a call, and the assembler after it. A creation is answered with its label, and a
bind may be refused. -/
def call (a : Assembler) : Directive → Except InternalError (Option Label) × Assembler
  | .emit i => (.ok none, a.emit i)
  | .newLabel _ => (.ok (some a.newLabel.1), a.newLabel.2)
  | .bind label => ((a.bind label).1.map fun _ => none, (a.bind label).2)
  | .branchIfFalse label => (.ok none, a.branchIfFalse label)
  | .branch label => (.ok none, a.branch label)

/-- The assembler after calls, from one without code and labels. -/
def after (calls : List Directive) : Assembler :=
  calls.foldl (fun a d => (a.call d).2) empty

theorem after_append_singleton (calls : List Directive) (d : Directive) :
    after (calls ++ [d]) = ((after calls).call d).2 := by
  simp [after]

/-- The calls that have led to an assembler, as far as its state tells. -/
structure Describes (calls : List Directive) (a : Assembler) : Prop where
  code_eq : a.code.toList = Directives.code (fun _ => 0) calls
  branches_eq : a.branches.toList = Directives.branches 0 calls
  created : a.labels.size = labelCount calls
  bound : ∀ (label : Label) (address : UInt32),
    a.labels[label.id.toNat]? = some (some address) ↔
      ∃ n, BoundTo calls label n ∧ n.toUInt32 = address

section

variable {calls : List Directive} {a : Assembler}

theorem Describes.empty : Describes [] empty where
  code_eq := rfl
  branches_eq := rfl
  created := rfl
  bound label address := by
    constructor
    · intro h
      simp [Assembler.empty] at h
    · rintro ⟨n, ⟨k, hk, -⟩, -⟩
      exact absurd hk.binds.lt_length (Nat.not_lt_zero k)

/-- A label is bound in the table if the calls bind it. -/
theorem Describes.binds_iff (h : Describes calls a) (label : Label) :
    Binds calls label ↔ ∃ address, a.labels[label.id.toNat]? = some (some address) := by
  rw [binds_iff_boundTo]
  constructor
  · rintro ⟨n, hn⟩
    exact ⟨_, (h.bound label _).2 ⟨n, hn, rfl⟩⟩
  · rintro ⟨address, haddress⟩
    obtain ⟨n, hn, -⟩ := (h.bound label address).1 haddress
    exact ⟨n, hn⟩

/-- A label that was created is in the table, bound or not. -/
theorem Describes.getElem?_of_created (h : Describes calls a) {n : Nat}
    (hcreated : n < labelCount calls) : ∃ place, a.labels[n]? = some place := by
  rw [← h.created] at hcreated
  exact ⟨_, Array.getElem?_eq_getElem hcreated⟩

theorem Describes.getElem?_eq_none (h : Describes calls a) {n : Nat}
    (hnone : labelCount calls ≤ n) : a.labels[n]? = none :=
  Array.getElem?_eq_none (h.created ▸ hnone)

/-- A label that is in the table without an address is not bound by the calls. -/
theorem Describes.not_binds (h : Describes calls a) {label : Label}
    (hlabel : a.labels[label.id.toNat]? = some none) : ¬ Binds calls label := by
  rw [h.binds_iff label, hlabel]
  rintro ⟨address, haddress⟩
  cases haddress

theorem Describes.size_eq (h : Describes calls a) : a.code.size = size calls := by
  rw [← Directives.length_code (fun _ => 0), ← h.code_eq, Array.length_toList]

/-- A bind that is refused leaves the assembler as it is. -/
theorem call_of_error {d : Directive} {e : InternalError} (h : (a.call d).1 = .error e) :
    (a.call d).2 = a := by
  cases d with
  | bind label =>
    simp only [call] at h ⊢
    cases hlabel : a.labels[label.id.toNat]? with
    | none => rw [bind_of_unknown hlabel]
    | some place =>
      cases place with
      | none =>
        rw [bind_of_free hlabel] at h
        cases h
      | some address => rw [bind_of_bound hlabel]
  | emit i => cases h
  | newLabel label => cases h
  | branchIfFalse label => cases h
  | branch label => cases h

/-- A call is answered as the assembler takes its directive. -/
theorem take_eq_call (a : Assembler) (d : Directive) :
    sink.take a d = (a.call d).1.map fun _ => (a.call d).2 := by
  cases d with
  | bind label =>
    simp only [call, Sink.take, sink]
    cases a.bind label with
    | mk answer next => cases answer <;> rfl
  | emit i | newLabel label | branchIfFalse label | branch label => rfl

/-- One call adds the code and the branches of its directive, also when it is refused. -/
theorem call_facts (a : Assembler) (d : Directive) :
    (a.call d).2.code.toList = a.code.toList ++ Directives.code (fun _ => 0) [d] ∧
      (a.call d).2.branches.toList = a.branches.toList ++ Directives.branches a.code.size [d] := by
  have htake := take_eq_call a d
  cases hanswer : (a.call d).1 with
  | ok answer =>
    rw [hanswer] at htake
    obtain ⟨hcode, hbranches, -⟩ := take_facts htake
    exact ⟨hcode, hbranches⟩
  | error e =>
    -- only a bind is refused, and it stands for no instruction
    rw [call_of_error hanswer]
    cases d with
    | bind label =>
      constructor
      · simp
      · simp [Directives.branches]
    | emit i => cases hanswer
    | newLabel label => cases hanswer
    | branchIfFalse label => cases hanswer
    | branch label => cases hanswer

/-- The table of labels after a bind that is refused: it was in vain. -/
theorem Describes.bound_of_refused (h : Describes calls a) {l : Label}
    (hvain : l.id.toNat < labelCount calls → Binds calls l) (label : Label) (address : UInt32) :
    a.labels[label.id.toNat]? = some (some address) ↔
      ∃ n, BoundTo (calls ++ [Directive.bind l]) label n ∧ n.toUInt32 = address := by
  have hsame : ∀ n, BoundTo (calls ++ [Directive.bind l]) label n ↔ BoundTo calls label n := by
    intro n
    rw [boundTo_append]
    refine or_iff_left ?_
    rintro ⟨hl, hcreated, hfree, -⟩
    cases hl
    exact hfree (hvain hcreated)
  simp only [hsame]
  exact h.bound label address

/-- The table of labels after a bind: the label has the number of instructions so far, and every
other label is as it was. -/
theorem Describes.bound_of_bound (h : Describes calls a) {l : Label}
    (hl : a.labels[l.id.toNat]? = some none) (label : Label) (address : UInt32) :
    (a.labels.setIfInBounds l.id.toNat (some a.code.size.toUInt32))[label.id.toNat]? =
        some (some address) ↔
      ∃ n, BoundTo (calls ++ [Directive.bind l]) label n ∧ n.toUInt32 = address := by
  have hlt : l.id.toNat < a.labels.size := (Array.getElem?_eq_some_iff.1 hl).1
  rw [Array.getElem?_setIfInBounds]
  by_cases hlabel : label = l
  · subst hlabel
    have hfree := h.not_binds hl
    rw [if_pos rfl, if_pos hlt]
    constructor
    · intro haddress
      refine ⟨size calls, (boundTo_append _).2 (.inr ⟨rfl, h.created ▸ hlt, hfree, rfl⟩), ?_⟩
      rw [← h.size_eq]
      exact Option.some.inj (Option.some.inj haddress)
    · rintro ⟨n, hn, rfl⟩
      rcases (boundTo_append _).1 hn with hn | ⟨-, -, -, rfl⟩
      · exact absurd (binds_iff_boundTo.2 ⟨n, hn⟩) hfree
      · rw [h.size_eq]
  · have hid : l.id.toNat ≠ label.id.toNat := by
      intro hid
      exact hlabel (by rw [← labelOf_toNat label, ← hid, labelOf_toNat])
    have hother : (Directive.bind l) ≠ .bind label := by
      intro heq
      cases heq
      exact hlabel rfl
    rw [if_neg hid]
    simp only [boundTo_append_of_ne hother]
    exact h.bound label address

/-- A call that leaves the table of labels alone, or adds a label to it that is not bound. -/
theorem bound_append_of_ne {d : Directive} (hd : ∀ label, d ≠ .bind label) (label : Label)
    (address : UInt32) :
    (∃ n, BoundTo (calls ++ [d]) label n ∧ n.toUInt32 = address) ↔
      ∃ n, BoundTo calls label n ∧ n.toUInt32 = address := by
  simp only [boundTo_append_of_ne (hd label)]

/-- The table of labels after a call, against the binds of the calls. -/
theorem Describes.labels_call (h : Describes calls a) (d : Directive) :
    (a.call d).2.labels.size = labelCount (calls ++ [d]) ∧
      ∀ (label : Label) (address : UInt32),
        (a.call d).2.labels[label.id.toNat]? = some (some address) ↔
          ∃ n, BoundTo (calls ++ [d]) label n ∧ n.toUInt32 = address := by
  have hcount : labelCount (calls ++ [d]) = a.labels.size + d.labelCount := by
    rw [Directives.labelCount_append, h.created, Directives.labelCount_cons,
      Directives.labelCount_nil, Nat.add_zero]
  rw [hcount]
  cases d with
  | emit i =>
    refine ⟨rfl, fun label address => ?_⟩
    rw [bound_append_of_ne (by simp)]
    exact h.bound label address
  | branchIfFalse l =>
    refine ⟨rfl, fun label address => ?_⟩
    rw [bound_append_of_ne (by simp)]
    exact h.bound label address
  | branch l =>
    refine ⟨rfl, fun label address => ?_⟩
    rw [bound_append_of_ne (by simp)]
    exact h.bound label address
  | newLabel l =>
    have hlabels : (a.call (.newLabel l)).2.labels = a.labels.push none := rfl
    rw [hlabels]
    refine ⟨Array.size_push none, fun label address => ?_⟩
    rw [bound_append_of_ne (by simp), ← h.bound label address, Array.getElem?_push]
    -- the new entry holds no address, and there was none at its place
    split
    · next heq => simp [heq]
    · rfl
  | bind l =>
    cases hl : a.labels[l.id.toNat]? with
    | none =>
      have hcall : (a.call (.bind l)).2 = a := congrArg Prod.snd (bind_of_unknown hl)
      rw [hcall]
      refine ⟨rfl, h.bound_of_refused fun hcreated => ?_⟩
      obtain ⟨place, hplace⟩ := h.getElem?_of_created hcreated
      rw [hl] at hplace
      cases hplace
    | some place =>
      cases place with
      | none =>
        have hcall : (a.call (.bind l)).2.labels =
            a.labels.setIfInBounds l.id.toNat (some a.code.size.toUInt32) := by
          rw [Assembler.call, bind_of_free hl]
        rw [hcall]
        exact ⟨Array.size_setIfInBounds, h.bound_of_bound hl⟩
      | some address =>
        have hcall : (a.call (.bind l)).2 = a := congrArg Prod.snd (bind_of_bound hl)
        rw [hcall]
        exact ⟨rfl, h.bound_of_refused fun _ => (h.binds_iff l).2 ⟨address, hl⟩⟩

theorem Describes.call (h : Describes calls a) (d : Directive) :
    Describes (calls ++ [d]) (a.call d).2 where
  code_eq := by
    rw [(call_facts a d).1, h.code_eq, Directives.code_append]
  branches_eq := by
    rw [(call_facts a d).2, h.branches_eq, h.size_eq, Directives.branches_append_singleton,
      Nat.zero_add]
  created := (h.labels_call d).1
  bound := (h.labels_call d).2

/-- The bind of a label is answered as the calls so far demand. -/
theorem Describes.answersBind (h : Describes calls a) (label : Label) :
    Directives.AnswersBind calls label (a.call (.bind label)).1 := by
  by_cases hcreated : label.id.toNat < labelCount calls
  · obtain ⟨place, hplace⟩ := h.getElem?_of_created hcreated
    cases place with
    | none =>
      have hanswer : (a.call (.bind label)).1 = .ok none := by
        rw [Assembler.call, bind_of_free hplace]
        rfl
      rw [hanswer]
      exact .bound hcreated (h.not_binds hplace)
    | some address =>
      have hanswer : (a.call (.bind label)).1 = .error (.labelRebound label) := by
        rw [Assembler.call, bind_of_bound hplace]
        rfl
      rw [hanswer]
      exact .rebound hcreated ((h.binds_iff label).2 ⟨address, hplace⟩)
  · have hnone := h.getElem?_eq_none (Nat.le_of_not_lt hcreated)
    have hanswer : (a.call (.bind label)).1 = .error (.unknownLabel label) := by
      rw [Assembler.call, bind_of_unknown hnone]
      rfl
    rw [hanswer]
    exact .unknown (Nat.le_of_not_lt hcreated)

/-- The state after any calls tells of these calls. -/
theorem describes_after (calls : List Directive) : Describes calls (after calls) := by
  induction calls using List.reverseRecOn with
  | nil => exact .empty
  | append_singleton calls d ih =>
    rw [after_append_singleton]
    exact ih.call d

/-! ## The end of assembly -/

/-- Filling in branches stops at the first one whose label is not in the table. -/
theorem patch_eq_error {labels : Array (Option UInt32)} {before rest : List (Nat × Label)}
    {branch : Nat × Label}
    (hbefore : ∀ entry ∈ before, ∃ address, labels[entry.2.id.toNat]? = some (some address))
    (hnone : labels[branch.2.id.toNat]? = none) (code : Array Instruction) :
    (before ++ branch :: rest).foldlM (patch labels) code =
      .error (.unknownLabel branch.2) := by
  induction before generalizing code with
  | nil =>
    obtain ⟨place, label⟩ := branch
    rw [List.nil_append, List.foldlM_cons]
    simp only [patch, hnone]
    rfl
  | cons entry before ih =>
    obtain ⟨place, label⟩ := entry
    obtain ⟨address, haddress⟩ := hbefore _ List.mem_cons_self
    rw [List.cons_append, List.foldlM_cons]
    simp only [patch, haddress]
    exact ih (fun entry hentry => hbefore entry (List.mem_cons_of_mem _ hentry)) _

/-- Assembly ends with the lowest label that is not bound. -/
theorem Describes.finish_of_free (h : Describes calls a) (hlabels : labelCount calls < 2 ^ 32)
    {n : Nat} (hn : a.labels.findIdx? Option.isNone = some n) (localCount : Nat) :
    Directives.Finishes calls localCount (a.finish localCount) := by
  have hfinish : a.finish localCount = .error (.unboundLabel (labelOf n)) := by
    simp only [finish, hn]
    rfl
  obtain ⟨hlt, hfree, hlowest⟩ := Array.findIdx?_eq_some_iff_getElem.1 hn
  have hsize := h.created
  rw [hfinish]
  refine .unbound (hsize ▸ hlt) (h.not_binds ?_) fun m hm => (h.binds_iff _).2 ?_
  · rw [toNat_labelOf (by omega), Array.getElem?_eq_getElem hlt, Option.isNone_iff_eq_none.1 hfree]
  · obtain ⟨address, haddress⟩ := Option.ne_none_iff_exists'.1 fun hnone =>
      hlowest m hm (Option.isNone_iff_eq_none.2 hnone)
    exact ⟨address, by
      rw [toNat_labelOf (by omega), Array.getElem?_eq_getElem (hm.trans hlt), haddress]⟩

/-- With no label left unbound, every label that was created has an address. -/
theorem Describes.address_of_created (h : Describes calls a)
    (hnone : a.labels.findIdx? Option.isNone = none) {n : Nat} (hn : n < labelCount calls) :
    ∃ address, a.labels[n]? = some (some address) := by
  rw [← h.created] at hn
  rw [Array.getElem?_eq_getElem hn]
  have hbound := Array.findIdx?_eq_none_iff.1 hnone _ (Array.getElem_mem hn)
  obtain ⟨address, haddress⟩ := Option.isNone_eq_false_iff.1 hbound |> Option.isSome_iff_exists.1
  exact ⟨address, by rw [haddress]⟩

theorem Describes.binds_of_created (h : Describes calls a) (hlabels : labelCount calls < 2 ^ 32)
    (hnone : a.labels.findIdx? Option.isNone = none) :
    ∀ n < labelCount calls, Binds calls (labelOf n) := by
  intro n hn
  rw [h.binds_iff, toNat_labelOf (hn.trans hlabels)]
  exact h.address_of_created hnone hn

/-- With no label left unbound, assembly ends with the branches filled in. -/
theorem finish_eq_patch (hnone : a.labels.findIdx? Option.isNone = none) (localCount : Nat) :
    a.finish localCount =
      (a.branches.toList.foldlM (patch a.labels) a.code).map (⟨·, localCount⟩) := by
  simp only [finish, hnone]
  cases a.branches.toList.foldlM (patch a.labels) a.code with
  | error e => rfl
  | ok code => rfl

/-- Assembly ends with the first branch to a label that was never created. -/
theorem Describes.finish_of_unknown (h : Describes calls a) (hlabels : labelCount calls < 2 ^ 32)
    (hnone : a.labels.findIdx? Option.isNone = none) {before rest : List (Nat × Label)}
    {branch : Nat × Label} (hsplit : Directives.branches 0 calls = before ++ branch :: rest)
    (hbefore : ∀ entry ∈ before, entry.2.id.toNat < labelCount calls)
    (hunknown : labelCount calls ≤ branch.2.id.toNat) (localCount : Nat) :
    Directives.Finishes calls localCount (a.finish localCount) := by
  have hpatch : a.branches.toList.foldlM (patch a.labels) a.code =
      .error (.unknownLabel branch.2) := by
    rw [h.branches_eq, hsplit]
    apply patch_eq_error
    · intro entry hentry
      exact h.address_of_created hnone (hbefore entry hentry)
    · exact h.getElem?_eq_none hunknown
  have hbranches : Directives.branchLabels calls =
      before.map Prod.snd ++ branch.2 :: rest.map Prod.snd := by
    rw [← Directives.map_snd_branches 0, hsplit, List.map_append, List.map_cons]
  rw [finish_eq_patch hnone, hpatch]
  refine .unknown (h.binds_of_created hlabels hnone) hbranches ?_ hunknown
  intro label hlabel
  obtain ⟨entry, hentry, rfl⟩ := List.mem_map.1 hlabel
  exact hbefore entry hentry

/-- Assembly ends with the code if the labels of all branches were created. -/
theorem Describes.finish_of_known (h : Describes calls a) (hlabels : labelCount calls < 2 ^ 32)
    (hsize : size calls < 2 ^ 32) (hnone : a.labels.findIdx? Option.isNone = none)
    (hcreated : ∀ entry ∈ Directives.branches 0 calls, entry.2.id.toNat < labelCount calls)
    (localCount : Nat) : Directives.Finishes calls localCount (a.finish localCount) := by
  have hpatch := patch_branches a.labels calls []
    fun entry hentry => h.address_of_created hnone (hcreated entry hentry)
  rw [List.nil_append, List.nil_append, ← h.code_eq, Array.toArray_toList] at hpatch
  rw [finish_eq_patch hnone, h.branches_eq]
  rw [List.length_nil] at hpatch
  rw [hpatch]
  refine .chunk (h.binds_of_created hlabels hnone) ?_ ?_
  · intro label hlabel
    rw [← Directives.map_snd_branches 0] at hlabel
    obtain ⟨entry, hentry, rfl⟩ := List.mem_map.1 hlabel
    exact hcreated entry hentry
  · intro label n hn
    rw [placeIn_of_bound ((h.bound label _).2 ⟨n, hn, rfl⟩),
      toNat_toUInt32 (hn.le_size.trans_lt hsize)]

/-- Assembly without unbound labels turns on the first branch to a label that was never created. -/
theorem Describes.finish_of_bound (h : Describes calls a) (hlabels : labelCount calls < 2 ^ 32)
    (hsize : size calls < 2 ^ 32) (hnone : a.labels.findIdx? Option.isNone = none)
    (localCount : Nat) : Directives.Finishes calls localCount (a.finish localCount) := by
  cases hfirst : (Directives.branches 0 calls).find? (labelCount calls ≤ ·.2.id.toNat) with
  | some branch =>
    obtain ⟨hbranch, before, rest, hsplit, hbefore⟩ := List.find?_eq_some_iff_append.1 hfirst
    have hunknown : labelCount calls ≤ branch.2.id.toNat := of_decide_eq_true hbranch
    apply h.finish_of_unknown hlabels hnone hsplit _ hunknown
    intro entry hentry
    simpa using hbefore entry hentry
  | none =>
    apply h.finish_of_known hlabels hsize hnone
    intro entry hentry
    simpa using List.find?_eq_none.1 hfirst entry hentry

end

/-- **The assembler is a two-pass assembler.** After any calls with fewer than `2 ^ 32` labels and
instructions: a creation was answered with the next label; a bind was answered as the calls before
it demand, it was the bind of its label exactly when it was accepted, and otherwise it changed
nothing; and assembly ends with the lowest label that is not bound, the first branch to a label that
was never created, or the code of the calls. -/
theorem assembles_calls (calls : List Directive) (localCount : Nat)
    (hlabels : labelCount calls < 2 ^ 32) (hsize : size calls < 2 ^ 32) :
    (∀ k label, calls[k]? = some (.newLabel label) →
        ((after (calls.take k)).call (.newLabel label)).1 =
          .ok (some (labelOf (labelCount (calls.take k))))) ∧
      (∀ k label, calls[k]? = some (.bind label) →
        let answer := ((after (calls.take k)).call (.bind label)).1
        Directives.AnswersBind (calls.take k) label answer ∧
          (answer = .ok none ↔ Directives.FirstBind calls k label) ∧
          ∀ e, answer = .error e → after (calls.take (k + 1)) = after (calls.take k)) ∧
      Directives.Finishes calls localCount ((after calls).finish localCount) := by
  refine ⟨fun k label hk => ?_, fun k label hk => ?_, ?_⟩
  · have hcreated := (describes_after (calls.take k)).created
    show Except.ok (some (labelOf (after (calls.take k)).labels.size)) = _
    rw [hcreated]
  · have hanswer := (describes_after (calls.take k)).answersBind label
    refine ⟨hanswer, hanswer.eq_ok_iff.trans (Directives.firstBind_iff hk).symm, fun e he => ?_⟩
    rw [List.take_add_one, hk, Option.toList_some, after_append_singleton, call_of_error he]
  · cases hfree : (after calls).labels.findIdx? Option.isNone with
    | some n => exact (describes_after calls).finish_of_free hlabels hfree localCount
    | none => exact (describes_after calls).finish_of_bound hlabels hsize hfree localCount

/-- A label bound behind a branch to it and then once more, a bind too early, and an appended jump
with a target of its own. -/
theorem assembles_calls_out_of_order :
    let calls : List Directive :=
      [.branch ⟨0⟩, .bind ⟨0⟩, .newLabel ⟨7⟩, .emit (.jump 9), .bind ⟨0⟩, .emit .pop, .bind ⟨0⟩,
        .branchIfFalse ⟨0⟩]
    labelCount calls < 2 ^ 32 ∧ size calls < 2 ^ 32 ∧
      Directives.AnswersBind (calls.take 1) ⟨0⟩ (.error (.unknownLabel ⟨0⟩)) ∧
      Directives.FirstBind calls 4 ⟨0⟩ ∧
      Directives.AnswersBind (calls.take 6) ⟨0⟩ (.error (.labelRebound ⟨0⟩)) ∧
      Directives.Finishes calls 3
        (.ok ⟨#[.jump 2, .jump 9, .pop, .jumpIfFalse 2], 3⟩) := by
  intro calls
  have hlabels : labelCount calls < 2 ^ 32 := by decide
  have hsize : size calls < 2 ^ 32 := by decide
  obtain ⟨-, hbinds, hfinish⟩ := assembles_calls calls 3 hlabels hsize
  have hchunk : (after calls).finish 3 =
      .ok ⟨#[.jump 2, .jump 9, .pop, .jumpIfFalse 2], 3⟩ := by
    decide +kernel
  rw [hchunk] at hfinish
  exact ⟨hlabels, hsize, (hbinds 1 ⟨0⟩ rfl).1, (hbinds 4 ⟨0⟩ rfl).2.1.1 rfl,
    (hbinds 6 ⟨0⟩ rfl).1, hfinish⟩

end Assembler

end StackScript
