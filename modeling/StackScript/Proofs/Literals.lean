import Mathlib.Data.Nat.Digits.Defs
import Mathlib.Tactic
import StackScript.Program.Literal
import StackScript.Proofs.Arithmetic

set_option autoImplicit false

/-!
# Literals are the decimal numerals of 32 bits

The number of a text of digits is that of positional notation (`Decimal.positional`). While a
literal is read, the integer so far is the number of the digits so far (`Literal.foldlM_push?`). It
never shrinks, so reading stops at a product or a sum that leaves the 32-bit range exactly if the
whole number is out of range. The main statement is `Literal.parse?_iff_numeral`.
-/

namespace StackScript

/-! ## Positional notation -/

namespace Decimal

/-- The ten digits, each at the place of its value. -/
def figures : List Char := ['0', '1', '2', '3', '4', '5', '6', '7', '8', '9']

/-- The number of a text of digits in positional notation, where the last digit counts ones. -/
def positional (text : List Char) : Nat := Nat.ofDigits 10 (text.reverse.map figures.idxOf)

theorem isDigit_of_mem_figures {c : Char} (h : c ∈ figures) : c.isDigit :=
  List.all_eq_true.1 (show figures.all Char.isDigit by decide) c h

theorem mem_figures_of_isDigit {c : Char} (h : c.isDigit) : c ∈ figures := by
  obtain ⟨hle, hge⟩ : 48 ≤ c.toNat ∧ c.toNat ≤ 57 := Char.isDigit_iff_toNat.1 h
  rw [← Char.ofNat_toNat c]
  generalize c.toNat = n at hle hge
  interval_cases n <;> decide

theorem idxOf_figures {c : Char} (h : c ∈ figures) : figures.idxOf c = digit c := by
  have hall : figures.all fun c => figures.idxOf c = digit c := by decide
  exact of_decide_eq_true (List.all_eq_true.1 hall c h)

theorem positional_concat (text : List Char) (c : Char) :
    positional (text ++ [c]) = 10 * positional text + figures.idxOf c := by
  simp [positional, Nat.ofDigits_cons, Nat.add_comm]

theorem positional_toDigits (n : Nat) : positional (Nat.toDigits 10 n) = n := by
  induction n using Nat.strongRecOn with
  | ind n ih =>
    by_cases hlt : n < 10
    · rw [Nat.toDigits_of_lt_base hlt]
      interval_cases n <;> rfl
    · have hlast : figures.idxOf (Nat.digitChar (n % 10)) = n % 10 := by
        have hmod := Nat.mod_lt n (show 0 < 10 by decide)
        interval_cases n % 10 <;> rfl
      rw [Nat.toDigits_of_base_le (by decide) (by omega), positional_concat, ih _ (by omega), hlast]
      omega

end Decimal

/-! ## Reading digit by digit -/

namespace Literal

/-- What is not negative and not above a 32-bit integer is one itself. -/
theorem exists_toInt_eq {n : Int} (m : Int32) (hpos : 0 ≤ n) (hle : n ≤ m.toInt) :
    ∃ k : Int32, k.toInt = n := by
  have hlt := m.toInt_lt
  exact ⟨Int32.ofInt n, Int32.toInt_ofInt_of_le (by omega) (by omega)⟩

/-- One more digit. Where the sum is in range, the product was. -/
theorem push?_eq_some_iff {n m : Int32} (hpos : 0 ≤ n.toInt) (c : Char) :
    push? n c = some m ↔ m.toInt = 10 * n.toInt + Decimal.digit c := by
  simp only [push?, bind, Option.bind_eq_some_iff, narrow?_eq_some_iff]
  constructor
  · rintro ⟨tens, htens, hm⟩
    omega
  · intro hm
    obtain ⟨tens, htens⟩ := exists_toInt_eq (n := n.toInt * 10) m (by omega) (by omega)
    exact ⟨tens, htens, by omega⟩

theorem foldlM_push?_concat (digits : List Char) (c : Char) (m : Int32) :
    (digits ++ [c]).foldlM push? 0 = some m ↔
      ∃ n, digits.foldlM push? 0 = some n ∧ push? n c = some m := by
  simp [List.foldlM_append, Option.bind_eq_some_iff]

/-- Digits are read to the number that they write, as long as it is in range. -/
theorem foldlM_push? {digits : List Char} (h : ∀ c ∈ digits, c ∈ Decimal.figures) (m : Int32) :
    digits.foldlM push? 0 = some m ↔ m.toInt = Decimal.positional digits := by
  -- by induction from the end of the text: the loop has read a part of it before the last digit
  induction digits using List.reverseRecOn generalizing m with
  | nil =>
    show some 0 = some m ↔ m.toInt = (0 : Int32).toInt
    rw [Option.some.injEq, Int32.toInt_inj, eq_comm]
  | append_singleton digits c ih =>
    have hread := ih fun c hc => h c (List.mem_append_left _ hc)
    have hlast : Decimal.figures.idxOf c = Decimal.digit c :=
      Decimal.idxOf_figures (h c (List.mem_append_right _ List.mem_cons_self))
    rw [foldlM_push?_concat, Decimal.positional_concat, hlast]
    constructor
    · rintro ⟨n, hn, hm⟩
      rw [hread] at hn
      rw [push?_eq_some_iff (by omega)] at hm
      omega
    · intro hm
      -- the number of a part of the text is not above that of the whole
      obtain ⟨n, hn⟩ := exists_toInt_eq (n := Decimal.positional digits) m (by omega) (by omega)
      exact ⟨n, (hread n).2 hn, (push?_eq_some_iff (by omega) c).2 (by omega)⟩

theorem parse?_eq_some_iff (literal : String) (n : Int32) :
    parse? literal = some n ↔ literal ≠ "" ∧ (∀ c ∈ literal.toList, c ∈ Decimal.figures) ∧
      n.toInt = Decimal.positional literal.toList := by
  simp only [parse?]
  split
  · next hrefused =>
    -- without digits, or with something else among them
    refine iff_of_false nofun ?_
    rintro ⟨hne, hdigits, -⟩
    have hall : literal.toList.all Char.isDigit :=
      List.all_eq_true.2 fun c hc => Decimal.isDigit_of_mem_figures (hdigits c hc)
    rw [hall, Bool.not_true, Bool.or_false, List.isEmpty_iff] at hrefused
    exact hne (String.toList_eq_nil_iff.1 hrefused)
  · next haccepted =>
    rw [Bool.not_eq_true, Bool.or_eq_false_iff, Bool.not_eq_false'] at haccepted
    have hne : literal ≠ "" := by
      rintro rfl
      exact absurd haccepted.1 (by decide)
    have hdigits : ∀ c ∈ literal.toList, c ∈ Decimal.figures :=
      fun c hc => Decimal.mem_figures_of_isDigit (List.all_eq_true.1 haccepted.2 c hc)
    rw [foldlM_push? hdigits]
    exact ⟨fun h => ⟨hne, hdigits, h⟩, fun h => h.2.2⟩

/-- The decimal text of a number in range is read as that number. -/
theorem parse?_toString {n : Nat} (h : n ≤ 2147483647) :
    ∃ m : Int32, m.toInt = n ∧ parse? (toString n) = some m := by
  have hn : (Int32.ofInt n).toInt = n := Int32.toInt_ofInt_of_le (by omega) (by omega)
  have htext : (toString n).toList = Nat.toDigits 10 n := by
    rw [Nat.toString_eq_repr, Nat.toList_repr]
  refine ⟨Int32.ofInt n, hn, (parse?_eq_some_iff _ _).2 ⟨?_, ?_, ?_⟩⟩
  · intro hempty
    rw [hempty] at htext
    exact Nat.toDigits_ne_nil htext.symm
  · intro c hc
    rw [htext] at hc
    exact Decimal.mem_figures_of_isDigit (Nat.isDigit_of_mem_toDigits (by decide) (by decide) hc)
  · rw [hn, htext, Decimal.positional_toDigits]

/-- Exactly the non-empty texts of digits that write a number in the 32-bit range are read, each as
its number. So no integer read is negative, and each number from zero to the greatest 32-bit integer
is read from its own decimal text. -/
theorem parse?_iff_numeral :
    (∀ (literal : String) (n : Int32), parse? literal = some n ↔
      literal ≠ "" ∧ (∀ c ∈ literal.toList, c ∈ Decimal.figures) ∧
        Decimal.positional literal.toList = n.toInt ∧
        Decimal.positional literal.toList ≤ 2147483647) ∧
    (∀ (literal : String) (n : Int32), parse? literal = some n → 0 ≤ n.toInt) ∧
    ∀ n : Nat, n ≤ 2147483647 → ∃ m : Int32, m.toInt = n ∧ parse? (toString n) = some m := by
  refine ⟨fun literal n => ?_, fun literal n h => ?_, fun n => parse?_toString⟩
  · have hlt := n.toInt_lt
    rw [parse?_eq_some_iff]
    constructor
    · rintro ⟨hne, hdigits, hn⟩
      exact ⟨hne, hdigits, hn.symm, by omega⟩
    · rintro ⟨hne, hdigits, hn, -⟩
      exact ⟨hne, hdigits, hn.symm⟩
  · obtain ⟨-, -, hn⟩ := (parse?_eq_some_iff literal n).1 h
    omega

/-- The greatest 32-bit integer after zeros, the number after it, and its own text. -/
theorem parse?_iff_numeral_greatest :
    parse? "0002147483647" = some 2147483647 ∧ (∀ n, parse? "2147483648" ≠ some n) ∧
      ∃ m : Int32, m.toInt = (2147483647 : Nat) ∧ parse? (toString 2147483647) = some m := by
  obtain ⟨hread, -, hown⟩ := parse?_iff_numeral
  have hdigits : ∀ c ∈ "0002147483647".toList, c ∈ Decimal.figures := by
    simp [Decimal.figures]
  refine ⟨(hread _ _).2 ⟨by decide, hdigits, by decide, by decide⟩, fun n h => ?_,
    hown 2147483647 (by decide)⟩
  obtain ⟨-, -, -, hle⟩ := (hread _ n).1 h
  exact absurd hle (by decide)

end Literal

end StackScript
