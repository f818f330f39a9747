import Mathlib.Tactic
import StackScript.Proofs.Runs

set_option autoImplicit false

/-!
# Arithmetic is exact or reported

The operations on two integers, against the integers themselves. A sum, a difference and a product
is exact if it fits 32 bits, and an overflow of the operation if not. Division rounds toward zero
(`DividesTo`); quotient and remainder fail on the same operands, which are those with a zero divisor
and the one pair whose quotient does not fit (`Operation.Divides`). Equality is the only operation
on values of all types, and it never fails. The main statement is
`Operation.apply_exact_or_reported`.
-/

namespace StackScript

/-! ## Integers of 32 bits -/

/-- The integers that 32 bits hold. -/
def InRange (n : Int) : Prop := -2 ^ 31 ≤ n ∧ n ≤ 2 ^ 31 - 1

theorem inRange_toInt (a : Int32) : InRange a.toInt := by
  have hle := a.le_toInt
  have hlt := a.toInt_lt
  exact ⟨hle, by omega⟩

theorem narrow?_of_inRange {n : Int} (h : InRange n) :
    ∃ c : Int32, c.toInt = n ∧ narrow? n = some c := by
  obtain ⟨hle, hge⟩ := h
  refine ⟨Int32.ofInt n, Int32.toInt_ofInt_of_le hle (by omega), ?_⟩
  exact if_pos ⟨hle, hge⟩

theorem narrow?_of_not_inRange {n : Int} (h : ¬InRange n) : narrow? n = none :=
  if_neg h

theorem narrow?_eq_some_iff {n : Int} {c : Int32} : narrow? n = some c ↔ c.toInt = n := by
  by_cases hn : InRange n
  · obtain ⟨c', hc', hnarrow⟩ := narrow?_of_inRange hn
    rw [hnarrow, Option.some.injEq, ← Int32.toInt_inj, hc', eq_comm]
  · rw [narrow?_of_not_inRange hn]
    refine iff_of_false nofun ?_
    rintro rfl
    exact hn (inRange_toInt c)

/-! ## Division toward zero -/

/-- `a` divided by `b` is `q`, and `r` remains: the remainder is smaller than the divisor, and it is
zero or has the sign of `a`. -/
structure DividesTo (a b q r : Int) : Prop where
  sum : a = q * b + r
  small : |r| < |b|
  sign : r = 0 ∨ r.sign = a.sign

theorem dividesTo_tdiv {a b : Int} (hb : b ≠ 0) : DividesTo a b (a.tdiv b) (a.tmod b) where
  sum := (Int.tdiv_mul_add_tmod a b).symm
  small := by
    have hlt : (a.tmod b).natAbs < b.natAbs := by
      rw [Int.natAbs_tmod]
      exact Nat.mod_lt _ (Int.natAbs_pos.2 hb)
    rw [Int.abs_eq_natAbs, Int.abs_eq_natAbs]
    exact_mod_cast hlt
  sign := by
    have hsign := Int.sign_tmod a b
    by_cases hdvd : b ∣ a
    · exact .inl (Int.tmod_eq_zero_of_dvd hdvd)
    · rw [if_neg hdvd] at hsign
      exact .inr hsign

/-- A quotient of 32-bit integers fits 32 bits, but for that of the least integer by minus one. -/
theorem inRange_tdiv_iff {a b : Int} (ha : InRange a) (hb : b ≠ 0) :
    InRange (a.tdiv b) ↔ ¬(a = -2 ^ 31 ∧ b = -1) := by
  unfold InRange at ha ⊢
  by_cases hneg : b = -1
  · subst hneg
    rw [Int.tdiv_neg, Int.tdiv_one]
    omega
  · refine iff_of_true ?_ fun h => hneg h.2
    by_cases hone : b = 1
    · rw [hone, Int.tdiv_one]
      exact ha
    · -- any other divisor at least halves the operand
      have hhalf : a.natAbs / b.natAbs ≤ a.natAbs / 2 := Nat.div_le_div_left (by omega) (by decide)
      have hquotient : (a.tdiv b).natAbs = a.natAbs / b.natAbs := Int.natAbs_tdiv a b
      omega

theorem inRange_tmod {a b : Int} (hb : InRange b) (hzero : b ≠ 0) : InRange (a.tmod b) := by
  have hsmall := (dividesTo_tdiv (a := a) hzero).small
  rw [abs_lt] at hsmall
  have hmax : |b| ≤ 2 ^ 31 := by
    rw [abs_le]
    exact ⟨hb.1, hb.2.trans (by omega)⟩
  exact ⟨by omega, by omega⟩

namespace Operation

/-! ## Exact results -/

theorem exactly_of_inRange (op : Operation) {n : Int} (h : InRange n) :
    ∃ c : Int32, c.toInt = n ∧ op.exactly n = .ok (.int c) := by
  obtain ⟨c, hc, hvalue⟩ := narrow?_of_inRange h
  exact ⟨c, hc, by rw [exactly, hvalue]⟩

theorem exactly_of_not_inRange (op : Operation) {n : Int} (h : ¬InRange n) :
    op.exactly n = .error (.overflow op.name) := by
  rw [exactly, narrow?_of_not_inRange h]

/-- On two integers an operation gives the result `n` if it fits 32 bits, and an overflow of its own
if not. -/
def GivesExactly (op : Operation) (a b : Int32) (n : Int) : Prop :=
  (InRange n → ∃ c : Int32, c.toInt = n ∧ op.apply (.int a) (.int b) = .ok (.int c)) ∧
    (¬InRange n → op.apply (.int a) (.int b) = .error (.overflow op.name))

theorem givesExactly_of_exactly {op : Operation} {a b : Int32} {n : Int}
    (h : op.apply (.int a) (.int b) = op.exactly n) : op.GivesExactly a b n := by
  unfold GivesExactly
  rw [h]
  exact ⟨op.exactly_of_inRange, op.exactly_of_not_inRange⟩

/-! ## Quotients and remainders -/

/-- On two integers a division gives the result `n`, but for a divisor of zero and for the one pair
whose quotient does not fit 32 bits. -/
structure Divides (op : Operation) (a b : Int32) (n : Int) : Prop where
  byZero : op.apply (.int a) (.int b) = .error .divisionByZero ↔ b.toInt = 0
  overflow : op.apply (.int a) (.int b) = .error (.overflow op.name) ↔
    a.toInt = -2 ^ 31 ∧ b.toInt = -1
  result : b.toInt ≠ 0 → ¬(a.toInt = -2 ^ 31 ∧ b.toInt = -1) →
    ∃ c : Int32, c.toInt = n ∧ op.apply (.int a) (.int b) = .ok (.int c)

theorem divide_of_overflow (op : Operation) {a b : Int} (hb : b ≠ 0) (h : ¬InRange (a.tdiv b))
    (result : Int) : op.divide a b result = .error (.overflow op.name) := by
  rw [divide, if_neg hb, if_pos (narrow?_of_not_inRange h)]

theorem divide_of_inRange (op : Operation) {a b : Int} (hb : b ≠ 0) (h : InRange (a.tdiv b))
    (result : Int) : op.divide a b result = op.exactly result := by
  obtain ⟨c, -, hquotient⟩ := narrow?_of_inRange h
  have hsome : narrow? (a.tdiv b) ≠ none := by
    rw [hquotient]
    exact Option.some_ne_none _
  rw [divide, if_neg hb, if_neg hsome]

/-- What quotient and remainder have in common: whether they fit or not, the quotient decides. -/
theorem divides_of_divide {op : Operation} {a b : Int32} {n : Int}
    (h : op.apply (.int a) (.int b) = op.divide a.toInt b.toInt n)
    (hn : b.toInt ≠ 0 → InRange (a.toInt.tdiv b.toInt) → InRange n) : op.Divides a b n := by
  by_cases hzero : b.toInt = 0
  · rw [divide, if_pos hzero] at h
    exact ⟨by simp [h, hzero], by simp [h, hzero], fun hne => absurd hzero hne⟩
  · have hfits := inRange_tdiv_iff (inRange_toInt a) hzero
    by_cases hpair : a.toInt = -2 ^ 31 ∧ b.toInt = -1
    · rw [divide_of_overflow op hzero fun hin => hfits.1 hin hpair] at h
      exact ⟨by simp [h, hzero], iff_of_true h hpair, fun _ hne => absurd hpair hne⟩
    · have hin := hfits.2 hpair
      obtain ⟨c, hc, hresult⟩ := op.exactly_of_inRange (hn hzero hin)
      rw [divide_of_inRange op hzero hin, hresult] at h
      exact ⟨by simp [h, hzero], iff_of_false (by simp [h]) hpair, fun _ _ => ⟨c, hc, h⟩⟩

theorem divides_div (a b : Int32) : div.Divides a b (a.toInt.tdiv b.toInt) :=
  divides_of_divide rfl fun _ => id

theorem divides_rem (a b : Int32) : rem.Divides a b (a.toInt.tmod b.toInt) :=
  divides_of_divide rfl fun hzero _ => inRange_tmod (inRange_toInt b) hzero

theorem Divides.fails_iff {op : Operation} {a b : Int32} {n : Int} (h : op.Divides a b n) :
    (∃ e, op.apply (.int a) (.int b) = .error e) ↔
      b.toInt = 0 ∨ a.toInt = -2 ^ 31 ∧ b.toInt = -1 := by
  constructor
  · rintro ⟨e, he⟩
    by_contra hnone
    obtain ⟨hzero, hpair⟩ := not_or.1 hnone
    obtain ⟨c, -, hresult⟩ := h.result hzero hpair
    rw [hresult] at he
    cases he
  · rintro (hzero | hpair)
    · exact ⟨_, h.byZero.2 hzero⟩
    · exact ⟨_, h.overflow.2 hpair⟩

/-! ## All values -/

/-- Only equality takes an operand that is not an integer. -/
theorem apply_of_not_int {op : Operation} {left right : Value} (hop : op ≠ eq)
    (h : left.int? = none ∨ right.int? = none) :
    op.apply left right = .error (.typeError
      ("cannot apply " ++ op.name ++ " to " ++ left.typeName ++ " and " ++ right.typeName)) := by
  unfold apply
  split
  · exact absurd rfl hop
  · rcases h with h | h <;> cases h
  · rfl

theorem error_of_exactly {op : Operation} {n : Int} {e : RunError}
    (h : op.exactly n = .error e) : e = .overflow op.name := by
  by_cases hn : InRange n
  · obtain ⟨c, -, hc⟩ := op.exactly_of_inRange hn
    rw [hc] at h
    cases h
  · rw [op.exactly_of_not_inRange hn] at h
    cases h
    rfl

theorem error_of_divide {op : Operation} {a b n : Int} {e : RunError}
    (h : op.divide a b n = .error e) : e = .overflow op.name ∨ e = .divisionByZero := by
  unfold divide at h
  split at h
  · cases h
    exact .inr rfl
  · split at h
    · cases h
      exact .inl rfl
    · exact .inl (error_of_exactly h)

/-- An operation on two values fails on their types, by an overflow or by a divisor of zero. -/
theorem error_of_apply {op : Operation} (hbinary : op.IsBinary) {left right : Value} {e : RunError}
    (h : op.apply left right = .error e) :
    (∃ detail, e = .typeError detail) ∨ e = .overflow op.name ∨ e = .divisionByZero := by
  unfold apply at h
  split at h
  · cases h
  · next hne =>
    cases op with
    | add | sub | mul => exact .inr (.inl (error_of_exactly h))
    | div | rem => exact .inr (error_of_divide h)
    | lt => cases h
    | eq => exact absurd rfl hne
    | toBool => exact absurd rfl hbinary.1
    | call => exact absurd rfl hbinary.2
  · cases h
    exact .inl ⟨_, rfl⟩

theorem apply_eq_true_iff {left right : Value} :
    eq.apply left right = .ok (.bool true) ↔ left = right := by
  rw [apply_eq]
  simp

/-- **Arithmetic is exact or reported.** On two integers: a sum, a difference and a product is exact
if it fits 32 bits and an overflow of the operation if not; quotient and remainder are those of the
division toward zero, fail on the same pairs, by zero exactly if the divisor is zero and with an
overflow exactly on the least integer and minus one; the order is that of the integers. On any two
values: an operand that is not an integer is a type error for every operation but equality, which
never fails and is an equivalence relation. -/
theorem apply_exact_or_reported :
    (∀ a b : Int32, add.GivesExactly a b (a.toInt + b.toInt) ∧
      sub.GivesExactly a b (a.toInt - b.toInt) ∧ mul.GivesExactly a b (a.toInt * b.toInt)) ∧
    (∀ a b : Int32,
      (∀ op : Operation, op = div ∨ op = rem →
        (op.apply (.int a) (.int b) = .error .divisionByZero ↔ b.toInt = 0) ∧
        (op.apply (.int a) (.int b) = .error (.overflow op.name) ↔
          a.toInt = -2 ^ 31 ∧ b.toInt = -1)) ∧
      (b.toInt ≠ 0 → ¬(a.toInt = -2 ^ 31 ∧ b.toInt = -1) →
        ∃ q r : Int32, div.apply (.int a) (.int b) = .ok (.int q) ∧
          rem.apply (.int a) (.int b) = .ok (.int r) ∧
          DividesTo a.toInt b.toInt q.toInt r.toInt) ∧
      ((∃ e, div.apply (.int a) (.int b) = .error e) ↔
        ∃ e, rem.apply (.int a) (.int b) = .error e)) ∧
    (∀ a b : Int32, lt.apply (.int a) (.int b) = .ok (.bool (a.toInt < b.toInt))) ∧
    (∀ (op : Operation) (left right : Value), op ≠ eq → left.int? = none ∨ right.int? = none →
      op.apply left right = .error (.typeError
        ("cannot apply " ++ op.name ++ " to " ++ left.typeName ++ " and " ++ right.typeName))) ∧
    (∀ left right, eq.apply left right = .ok (.bool (left = right))) ∧
    Equivalence fun left right => eq.apply left right = .ok (.bool true) := by
  refine ⟨fun a b => ?_, fun a b => ⟨?_, ?_, ?_⟩, fun a b => rfl, fun op left right => ?_, ?_, ?_⟩
  · exact ⟨givesExactly_of_exactly rfl, givesExactly_of_exactly rfl, givesExactly_of_exactly rfl⟩
  · rintro op (rfl | rfl)
    · exact ⟨(divides_div a b).byZero, (divides_div a b).overflow⟩
    · exact ⟨(divides_rem a b).byZero, (divides_rem a b).overflow⟩
  · intro hzero hpair
    obtain ⟨q, hq, hdiv⟩ := (divides_div a b).result hzero hpair
    obtain ⟨r, hr, hrem⟩ := (divides_rem a b).result hzero hpair
    refine ⟨q, r, hdiv, hrem, ?_⟩
    rw [hq, hr]
    exact dividesTo_tdiv hzero
  · rw [(divides_div a b).fails_iff, (divides_rem a b).fails_iff]
  · exact apply_of_not_int
  · exact apply_eq
  · simp only [apply_eq_true_iff]
    exact eq_equivalence

-- the remainder of the pair is zero, and would fit
example : rem.apply (.int (-2147483648)) (.int (-1)) = .error (.overflow "Rem") := by decide

end Operation

end StackScript
