import Mathlib.Data.Rat.Floor
import Mathlib.Tactic.FieldSimp
import Mathlib.Tactic.Linarith
import Stackwright.Arithmetic

/-!
# The law of division

The two divisions belong together. The quotient times the divisor, with the remainder added, makes
up the dividend (`Word.div_mul_add_mod`), and the remainder is smaller than the divisor and lies on
the side of the dividend. This leaves no choice for the quotient: it is the exact one, a rational
number, rounded toward zero (`truncate_div_eq`).

One quotient is no word, that of the least word by `-1`. It wraps around to the least word, which
is not the exact one. But products and sums wrap around as well, and so the dividend is made up
again even there. All in all, the divisions go by their law (`BinaryOp.IsDivision`) unless the
divisor is zero (`BinaryOp.divides_unless_zero`).
-/

namespace Stackwright

/-! ## Rounding toward zero -/

/-- A rational number rounded toward zero. -/
def truncate (x : ℚ) : ℤ := if 0 ≤ x then ⌊x⌋ else ⌈x⌉

theorem truncate_of_nonneg {x : ℚ} (nonneg : 0 ≤ x) : truncate x = ⌊x⌋ := if_pos nonneg

theorem truncate_of_neg {x : ℚ} (negative : x < 0) : truncate x = ⌈x⌉ :=
  if_neg (not_le.mpr negative)

section

variable {a b q r : ℤ}

/-- What has the sign of a dividend, if any, is on its side. -/
theorem side_of_sided (sided : r = 0 ∨ r.sign = a.sign) : (0 ≤ a → 0 ≤ r) ∧ (a ≤ 0 → r ≤ 0) := by
  rcases sided with rfl | same
  · exact ⟨fun _ => Int.le_refl 0, fun _ => Int.le_refl 0⟩
  · constructor <;> intro side
    · rwa [← Int.sign_nonneg_iff, same, Int.sign_nonneg_iff]
    · rwa [← Int.sign_nonpos_iff, same, Int.sign_nonpos_iff]

/-- What a remainder adds to the quotient is on the side of the exact quotient. -/
theorem side_of_div (sided : r = 0 ∨ r.sign = a.sign) :
    (0 ≤ (a : ℚ) / b → 0 ≤ (r : ℚ) / b) ∧ ((a : ℚ) / b ≤ 0 → (r : ℚ) / b ≤ 0) := by
  obtain ⟨above, below⟩ := side_of_sided sided
  simp only [div_nonneg_iff, div_nonpos_iff, Int.cast_nonneg_iff, Int.cast_nonpos]
  constructor
  · rintro (⟨dividend, divisor⟩ | ⟨dividend, divisor⟩)
    · exact .inl ⟨above dividend, divisor⟩
    · exact .inr ⟨below dividend, divisor⟩
  · rintro (⟨dividend, divisor⟩ | ⟨dividend, divisor⟩)
    · exact .inl ⟨above dividend, divisor⟩
    · exact .inr ⟨below dividend, divisor⟩

/-- If the remainder is smaller than the divisor, and on the side of the dividend, then the quotient
is the exact one rounded toward zero. -/
theorem truncate_div_eq (divisor : b ≠ 0) (whole : q * b + r = a) (small : |r| < |b|)
    (sided : r = 0 ∨ r.sign = a.sign) : truncate ((a : ℚ) / b) = q := by
  have divisor' : (b : ℚ) ≠ 0 := Int.cast_ne_zero.mpr divisor
  have parts : (a : ℚ) / b = q + r / b := by
    rw [← whole]
    push_cast
    field_simp
  have fraction : |(r : ℚ) / b| < 1 := by
    rw [abs_div, div_lt_one (abs_pos.mpr divisor')]
    exact_mod_cast small
  obtain ⟨lower, upper⟩ := abs_lt.mp fraction
  obtain ⟨above, below⟩ := side_of_div (b := b) sided
  rcases le_or_gt 0 ((a : ℚ) / b) with nonneg | negative
  · -- at or above zero: the fraction reaches up from the quotient
    have outward := above nonneg
    rw [truncate_of_nonneg nonneg, Int.floor_eq_iff]
    constructor <;> linarith
  · -- below zero: it reaches down
    have outward := below negative.le
    rw [truncate_of_neg negative, Int.ceil_eq_iff]
    constructor <;> linarith

theorem abs_tmod_lt (divisor : b ≠ 0) : |a.tmod b| < |b| := by
  rw [Int.abs_eq_natAbs, Int.abs_eq_natAbs, Int.natAbs_tmod, Int.ofNat_lt]
  exact Nat.mod_lt _ (Int.natAbs_pos.mpr divisor)

theorem tmod_sided : a.tmod b = 0 ∨ (a.tmod b).sign = a.sign := by
  rw [← Int.sign_eq_zero_iff_zero, Int.sign_tmod]
  by_cases multiple : b ∣ a
  · exact .inl (if_pos multiple)
  · exact .inr (if_neg multiple)

theorem truncate_div (divisor : b ≠ 0) : truncate ((a : ℚ) / b) = a.tdiv b :=
  truncate_div_eq divisor (Int.tdiv_mul_add_tmod a b) (abs_tmod_lt divisor) tmod_sided

end

/-! ## Words -/

namespace Word

/-- The dividend is made up again, also where the quotient has wrapped around. -/
theorem div_mul_add_mod (a b : Word) : a / b * b + a % b = a := by
  apply Int32.toInt.inj
  calc (a / b * b + a % b).toInt
      = (((a.toInt.tdiv b.toInt).bmod (2 ^ 32) * b.toInt).bmod (2 ^ 32) +
          a.toInt.tmod b.toInt).bmod (2 ^ 32) := by
        rw [Int32.toInt_add, Int32.toInt_mul, Int32.toInt_div, Int32.toInt_mod]
    _ = (a.toInt.tdiv b.toInt * b.toInt + a.toInt.tmod b.toInt).bmod (2 ^ 32) := by
        rw [Int.bmod_mul_bmod, Int.bmod_add_bmod]
    _ = a.toInt.bmod (2 ^ 32) := by rw [Int.tdiv_mul_add_tmod]
    _ = a.toInt := Int32.toInt_bmod a

/-- All quotients but a single one are words. -/
theorem toInt_div_of_fits {a b : Word} (fits : ¬(a = Int32.minValue ∧ b = -1)) :
    (a / b).toInt = a.toInt.tdiv b.toInt := by
  by_cases least : a = Int32.minValue
  · exact Int32.toInt_div_of_ne_right a b fun opposite => fits ⟨least, opposite⟩
  · exact Int32.toInt_div_of_ne_left a b least

theorem toInt_ne_zero {w : Word} (nonzero : w ≠ 0) : w.toInt ≠ 0 :=
  fun zero => nonzero (Int32.toInt.inj zero)

end Word

/-! ## Quotients and remainders -/

namespace BinaryOp

/-- The division of `a` by `b` gives the quotient `q` and leaves the remainder `r`. -/
structure IsDivision (a b q r : Word) : Prop where
  /-- the quotient times the divisor, with the remainder added, is the dividend -/
  makes_up : (mul.apply q b).bind (add.apply · r) = some a
  /-- the remainder is smaller than the divisor -/
  abs_remainder_lt : |r.toInt| < |b.toInt|
  /-- it is zero or has the sign of the dividend -/
  remainder_sided : r = 0 ∨ r.toInt.sign = a.toInt.sign
  /-- the quotient is the exact one rounded toward zero, with one exception -/
  quotient_eq : ¬(a = Int32.minValue ∧ b = -1) → q.toInt = truncate ((a.toInt : ℚ) / b.toInt)
  /-- the one that is no word wraps around, and nothing remains -/
  wraps : a = Int32.minValue ∧ b = -1 → q = Int32.minValue ∧ r = 0

variable {a b : Word}

/-- Only the two divisions can fail, and only by a zero divisor. -/
theorem apply_eq_none_iff {op : BinaryOp} :
    op.apply a b = none ↔ (op = div ∨ op = mod) ∧ b = 0 := by
  cases op <;> simp [apply]

/-- The law holds of the quotient and the remainder that the words themselves have. -/
theorem isDivision (divisor : b ≠ 0) : IsDivision a b (a / b) (a % b) where
  makes_up := congrArg some (Word.div_mul_add_mod a b)
  abs_remainder_lt := by
    rw [Int32.toInt_mod]
    exact abs_tmod_lt (Word.toInt_ne_zero divisor)
  remainder_sided := by
    rw [← Int32.toInt_inj, Int32.toInt_mod, Int32.toInt_zero]
    exact tmod_sided
  quotient_eq fits := by
    rw [Word.toInt_div_of_fits fits, truncate_div (Word.toInt_ne_zero divisor)]
  wraps := by
    rintro ⟨rfl, rfl⟩
    decide

/-- **The divisions go by their law unless the divisor is zero.** Quotient and remainder are missing
just for a zero divisor. Otherwise they make up the dividend, the remainder is smaller than the
divisor and on the side of the dividend, and the quotient is the exact one rounded toward zero,
apart from that of the least word by `-1`. -/
theorem divides_unless_zero (a b : Word) :
    (div.apply a b = none ↔ b = 0) ∧ (mod.apply a b = none ↔ b = 0) ∧
      (b ≠ 0 → ∃ q r, div.apply a b = some q ∧ mod.apply a b = some r ∧ IsDivision a b q r) := by
  refine ⟨by simp [apply_eq_none_iff], by simp [apply_eq_none_iff], fun divisor => ?_⟩
  exact ⟨a / b, a % b, if_neg divisor, if_neg divisor, isDivision divisor⟩

/-- The least word divided by `-1` is itself, with nothing left. A negative
quotient is rounded up, and leaves a negative remainder. -/
theorem divides_unless_zero_negative :
    ((-1 : Word) ≠ 0 ∧ div.apply Int32.minValue (-1) = some Int32.minValue ∧
        mod.apply Int32.minValue (-1) = some 0 ∧
        IsDivision Int32.minValue (-1) Int32.minValue 0) ∧
      ((2 : Word) ≠ 0 ∧ div.apply (-7) 2 = some (-3) ∧ mod.apply (-7) 2 = some (-1) ∧
        IsDivision (-7) 2 (-3) (-1)) := by
  constructor
  · have divisor : (-1 : Word) ≠ 0 := by decide
    obtain ⟨q, r, quotient, remainder, division⟩ :=
      (divides_unless_zero Int32.minValue (-1)).2.2 divisor
    obtain ⟨rfl, rfl⟩ := division.wraps ⟨rfl, rfl⟩
    exact ⟨divisor, quotient, remainder, division⟩
  · have divisor : (2 : Word) ≠ 0 := by decide
    obtain ⟨q, r, quotient, remainder, division⟩ := (divides_unless_zero (-7) 2).2.2 divisor
    obtain rfl : q = -3 := Option.some.inj (quotient.symm.trans (by decide))
    obtain rfl : r = -1 := Option.some.inj (remainder.symm.trans (by decide))
    exact ⟨divisor, quotient, remainder, division⟩

end BinaryOp

end Stackwright
