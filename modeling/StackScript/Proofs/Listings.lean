import Mathlib
import StackScript.Proofs.CodeShape
import StackScript.Proofs.JsonText

set_option autoImplicit false

/-!
# A listing determines its chunk

A listing is a sequence of lines (`Chunk.lines`), and no line contains a line feed, so the text
determines the lines. A line determines its instruction: the name of the opcode ends at the first
blank, the opcode says of which kind the operand is, and among operands of one kind the text is
enough (`Instruction.eq_of_text`). The main statement is `Chunk.listing_eq_iff`.
-/

namespace StackScript

/-! ## Decimal texts -/

namespace Decimal

/-- Leading zeros do not count. -/
theorem value_replicate_append (k : Nat) (digits : List Char) :
    value (List.replicate k '0' ++ digits) = value digits := by
  induction k with
  | zero => rfl
  | succ k ih =>
    rw [List.replicate_succ, List.cons_append]
    exact ih

theorem value_padded (width n : Nat) : value (padded width n).toList = n := by
  rw [padded, String.toList_ofList, value_replicate_append, Json.value_toDigits]

theorem padded_injective (width : Nat) : Function.Injective (padded width) := by
  intro m n h
  rw [← value_padded width m, h, value_padded]

theorem isDigit_of_mem_padded {width n : Nat} {c : Char} (h : c ∈ (padded width n).toList) :
    c.isDigit := by
  rw [padded, String.toList_ofList, List.mem_append] at h
  rcases h with h | h
  · rw [List.eq_of_mem_replicate h]
    rfl
  · exact Nat.isDigit_of_mem_toDigits (by decide) (by decide) h

end Decimal

/-! ## Texts without line feeds -/

/-- A text without a line feed. -/
def Unbroken (text : String) : Prop := '\n' ∉ text.toList

instance (text : String) : Decidable (Unbroken text) :=
  inferInstanceAs (Decidable ('\n' ∉ text.toList))

theorem Unbroken.append {s t : String} (hs : Unbroken s) (ht : Unbroken t) : Unbroken (s ++ t) := by
  rw [Unbroken, String.toList_append, List.mem_append]
  exact not_or.2 ⟨hs, ht⟩

theorem unbroken_of_isDigit {text : String} (h : ∀ c ∈ text.toList, c.isDigit) : Unbroken text :=
  fun hmem => absurd (h _ hmem) (by decide)

theorem unbroken_nat (n : Nat) : Unbroken (toString n) := by
  refine unbroken_of_isDigit fun c hc => ?_
  rw [Nat.toString_eq_repr, Nat.toList_repr] at hc
  exact Nat.isDigit_of_mem_toDigits (by decide) (by decide) hc

theorem unbroken_int (n : Int) : Unbroken (toString n) := by
  cases n with
  | ofNat m => exact unbroken_nat m
  | negSucc m => exact Unbroken.append (s := "-") (by decide) (unbroken_nat (m + 1))

theorem unbroken_padded (width n : Nat) : Unbroken (Decimal.padded width n) :=
  unbroken_of_isDigit fun _ => Decimal.isDigit_of_mem_padded

/-- Up to a character that neither has, two texts with an equal continuation are equal. -/
theorem append_cons_inj {c : Char} {xs ys s t : List Char} (hx : c ∉ xs) (hy : c ∉ ys)
    (h : xs ++ c :: s = ys ++ c :: t) : xs = ys ∧ s = t := by
  induction xs generalizing ys with
  | nil =>
    cases ys with
    | nil => exact ⟨rfl, (List.cons.inj h).2⟩
    | cons y ys =>
      -- the other text would begin with the character
      exact absurd ((List.cons.inj h).1 ▸ List.mem_cons_self) hy
  | cons x xs ih =>
    rw [List.mem_cons, not_or] at hx
    cases ys with
    | nil => exact absurd (List.cons.inj h).1.symm hx.1
    | cons y ys =>
      rw [List.mem_cons, not_or] at hy
      obtain ⟨rfl, hrest⟩ := List.cons.inj h
      obtain ⟨rfl, rfl⟩ := ih hx.2 hy.2 hrest
      exact ⟨rfl, rfl⟩

theorem ended_ne_empty (l : String) (ls : List String) :
    String.join ((l :: ls).map (· ++ "\n")) ≠ "" := by
  intro h
  have hlist := congrArg String.toList h
  simp at hlist

/-- Lines without line feeds can be told apart when each is ended by one. -/
theorem lines_inj {ls ms : List String} (hls : ∀ l ∈ ls, Unbroken l) (hms : ∀ m ∈ ms, Unbroken m)
    (h : String.join (ls.map (· ++ "\n")) = String.join (ms.map (· ++ "\n"))) : ls = ms := by
  induction ls generalizing ms with
  | nil =>
    cases ms with
    | nil => rfl
    | cons m ms => exact absurd h (ended_ne_empty m ms).symm
  | cons l ls ih =>
    cases ms with
    | nil => exact absurd h (ended_ne_empty l ls)
    | cons m ms =>
      obtain ⟨hl, hls⟩ := List.forall_mem_cons.1 hls
      obtain ⟨hm, hms⟩ := List.forall_mem_cons.1 hms
      simp only [List.map_cons, String.join_cons, ← String.toList_inj, String.toList_append,
        List.append_assoc] at h
      obtain ⟨hline, hrest⟩ := append_cons_inj hl hm h
      rw [String.toList_inj.1 hline, ih hls hms (String.toList_inj.1 hrest)]

/-! ## Instructions -/

theorem Opcode.ofName?_name (op : Opcode) : Opcode.ofName? op.name = some op := by
  cases op <;> decide

theorem Opcode.name_injective : Function.Injective Opcode.name := by
  intro op op' h
  have hname := Opcode.ofName?_name op
  rw [h, Opcode.ofName?_name] at hname
  exact (Option.some.inj hname).symm

theorem Opcode.blank_not_mem_name (op : Opcode) : ' ' ∉ op.name.toList := by
  cases op <;> decide

theorem Opcode.unbroken_name (op : Opcode) : Unbroken op.name := by
  cases op <;> decide

theorem Operand.unbroken_text (operand : Operand) : Unbroken operand.text := by
  cases operand with
  | int n => exact unbroken_int n.toInt
  | slot s => exact Unbroken.append (s := "%") (by decide) (unbroken_nat _)
  | builtin n => exact Unbroken.append (s := "builtin#") (by decide) (unbroken_nat _)
  | count n => exact unbroken_nat n.toNat
  | index n =>
    exact (Unbroken.append (s := "[") (by decide) (unbroken_nat _)).append (t := "]") (by decide)
  | entry e => exact Unbroken.append (s := "@") (by decide) (unbroken_nat _)
  | target a => exact Unbroken.append (s := "-> ") (by decide) (unbroken_padded _ _)

/-- Among operands of one kind the text is enough. -/
theorem Operand.eq_of_text {a b : Operand} (hkind : a.kind = b.kind) (h : a.text = b.text) :
    a = b := by
  cases a <;> cases b <;> cases hkind
  case int.int m n => rw [Int32.toInt_inj.1 (Int.repr_injective h)]
  case slot.slot s t =>
    obtain ⟨s⟩ := s
    obtain ⟨t⟩ := t
    have hindex : s.toNat = t.toNat := Nat.repr_injective ((String.append_right_inj "%").1 h)
    rw [UInt16.toNat_inj.1 hindex]
  case builtin.builtin m n =>
    have hindex := Nat.repr_injective ((String.append_right_inj "builtin#").1 h)
    rw [UInt16.toNat_inj.1 hindex]
  case count.count m n => rw [UInt16.toNat_inj.1 (Nat.repr_injective h)]
  case index.index m n =>
    have hindex := Nat.repr_injective
      ((String.append_right_inj "[").1 ((String.append_left_inj "]").1 h))
    rw [UInt16.toNat_inj.1 hindex]
  case entry.entry e f =>
    obtain ⟨e⟩ := e
    obtain ⟨f⟩ := f
    have hindex : e.toNat = f.toNat := Nat.repr_injective ((String.append_right_inj "@").1 h)
    rw [UInt16.toNat_inj.1 hindex]
  case target.target m n =>
    have haddress := Decimal.padded_injective 4 ((String.append_right_inj "-> ").1 h)
    rw [UInt32.toNat_inj.1 haddress]

namespace Instruction

instance (i : Instruction) : Decidable i.OperandFits :=
  decEq (i.operand.map Operand.kind) i.opcode.operandKind

theorem unbroken_text (i : Instruction) : Unbroken i.text := by
  unfold text
  split
  · exact i.opcode.unbroken_name
  · next operand _ =>
    exact (i.opcode.unbroken_name.append (t := " ") (by decide)).append operand.unbroken_text

/-- The name of the opcode ends at the first blank. -/
theorem takeWhile_text (i : Instruction) :
    i.text.toList.takeWhile (· != ' ') = i.opcode.name.toList := by
  have hname : ∀ c ∈ i.opcode.name.toList, (c != ' ') = true := by
    intro c hc
    rw [bne_iff_ne]
    rintro rfl
    exact i.opcode.blank_not_mem_name hc
  unfold text
  split
  · exact List.takeWhile_eq_self_iff.2 hname
  · next operand _ =>
    rw [String.toList_append, String.toList_append, List.append_assoc,
      List.takeWhile_append_of_pos hname]
    simp

/-- The text of an instruction determines it, if its operand is of the kind its opcode wants. -/
theorem eq_of_text {i j : Instruction} (hi : i.OperandFits) (hj : j.OperandFits)
    (h : i.text = j.text) : i = j := by
  have hname : i.opcode.name = j.opcode.name := by
    rw [← String.toList_inj, ← takeWhile_text, ← takeWhile_text, h]
  have hopcode := Opcode.name_injective hname
  obtain ⟨op, a⟩ := i
  obtain ⟨op', b⟩ := j
  obtain rfl : op = op' := hopcode
  -- both operands are of the kind that the opcode wants, so they are there or not together
  have hkinds : a.map Operand.kind = b.map Operand.kind := hi.trans hj.symm
  cases a with
  | none =>
    cases b with
    | none => rfl
    | some b => cases hkinds
  | some a =>
    cases b with
    | none => cases hkinds
    | some b =>
      have htext : a.text = b.text := (String.append_right_inj (op.name ++ " ")).1 h
      rw [Operand.eq_of_text (Option.some.inj hkinds) htext]

end Instruction

/-! ## Chunks -/

namespace Chunk

/-- The lines of a listing. -/
def lines (c : Chunk) : List String :=
  ("; locals: " ++ toString c.localCount) ::
    c.code.toList.mapIdx fun address i => Decimal.padded 4 address ++ "  " ++ i.text

theorem listing_eq_lines (c : Chunk) : c.listing = String.join (c.lines.map (· ++ "\n")) := by
  have hcode : c.code.toList.mapIdx listingLine =
      (c.code.toList.mapIdx fun address i => Decimal.padded 4 address ++ "  " ++ i.text).map
        (· ++ "\n") := by
    apply List.ext_getElem?
    intro k
    simp only [List.getElem?_map, List.getElem?_mapIdx, Option.map_map]
    rfl
  unfold listing lines
  rw [List.map_cons, String.join_cons, hcode]

theorem unbroken_of_mem_lines {c : Chunk} {line : String} (h : line ∈ c.lines) : Unbroken line := by
  rcases List.mem_cons.1 h with rfl | h
  · exact Unbroken.append (s := "; locals: ") (by decide) (unbroken_nat _)
  · obtain ⟨address, i, rfl⟩ := List.mem_mapIdx.1 h
    have hindex := (unbroken_padded 4 address).append (t := "  ") (by decide)
    exact hindex.append (Instruction.unbroken_text _)

/-- Instructions with equal lines are equal: the address on a line is its own. -/
theorem code_eq_of_lines {is js : List Instruction} (his : ∀ i ∈ is, i.OperandFits)
    (hjs : ∀ j ∈ js, j.OperandFits)
    (h : (is.mapIdx fun address i => Decimal.padded 4 address ++ "  " ++ i.text) =
      js.mapIdx fun address j => Decimal.padded 4 address ++ "  " ++ j.text) : is = js := by
  apply List.ext_getElem?
  intro k
  have hk := congrArg (·[k]?) h
  simp only [List.getElem?_mapIdx] at hk
  cases hi : is[k]? with
  | none =>
    rw [hi, Option.map_none, eq_comm, Option.map_eq_none_iff] at hk
    exact hk.symm
  | some i =>
    rw [hi, Option.map_some, eq_comm, Option.map_eq_some_iff] at hk
    obtain ⟨j, hj, hline⟩ := hk
    have htext : j.text = i.text := (String.append_right_inj _).1 hline
    rw [hj, Instruction.eq_of_text (hjs j (List.mem_of_getElem? hj))
      (his i (List.mem_of_getElem? hi)) htext]

/-- **A listing determines its chunk.** Two chunks of any size, whose instructions have operands of
the kinds that their opcodes want, have the same listing only if they have the same instructions and
the same number of local slots. -/
theorem listing_eq_iff {c d : Chunk} (hc : ∀ i ∈ c.code, i.OperandFits)
    (hd : ∀ i ∈ d.code, i.OperandFits) : c.listing = d.listing ↔ c = d := by
  refine ⟨fun h => ?_, fun h => h ▸ rfl⟩
  rw [listing_eq_lines, listing_eq_lines] at h
  have hlines : c.lines = d.lines :=
    lines_inj (fun _ => unbroken_of_mem_lines) (fun _ => unbroken_of_mem_lines) h
  obtain ⟨hlocals, hcode⟩ := List.cons.inj hlines
  have hcount : c.localCount = d.localCount :=
    Nat.repr_injective ((String.append_right_inj "; locals: ").1 hlocals)
  have hinstructions : c.code.toList = d.code.toList :=
    code_eq_of_lines (by simpa using hc) (by simpa using hd) hcode
  obtain ⟨is, m⟩ := c
  obtain ⟨js, n⟩ := d
  obtain rfl : m = n := hcount
  obtain rfl : is = js := Array.toList_inj.1 hinstructions
  rfl

/-- Jumps to an address of four digits and to one of five, behind opcodes of which one name begins
with the other. -/
theorem listing_eq_iff_jumps :
    let c : Chunk := ⟨#[.loadInt (-1), .jump 1000, .ret], 1⟩
    let d : Chunk := ⟨#[.loadInt (-1), .jumpIfFalse 10000, .ret], 1⟩
    (∀ i ∈ c.code, i.OperandFits) ∧ (∀ i ∈ d.code, i.OperandFits) ∧ c.listing ≠ d.listing := by
  intro c d
  have hc : ∀ i ∈ c.code, i.OperandFits := by decide
  have hd : ∀ i ∈ d.code, i.OperandFits := by decide
  exact ⟨hc, hd, fun h => absurd ((listing_eq_iff hc hd).1 h) (by decide)⟩

-- without the kinds, a count and an integer look alike
example : listing ⟨#[⟨.newArgs, some (.count 5)⟩], 0⟩ =
    listing ⟨#[⟨.newArgs, some (.int 5)⟩], 0⟩ := by decide

end Chunk

end StackScript
