import Mathlib
import Lockstep.Proofs.Time
/-!
# The value of a time

A time stands for a number of seconds, `mantissa * 10 ^ exponent` (`Time.value`). Seen from an exponent that is not
coarser than its own, it is a whole number of units (`value_eq_mul_unit`), so that sums and comparisons of times come
down to natural numbers. The powers of ten that a mantissa is scaled with are cut off where they no longer fit 64 bits;
`mantissaAt?_eq_some_iff` says that nothing is lost by this: a time other than zero has a mantissa at an exponent exactly
if its value is that many units. Comparing two times is comparing their values (`cmp_eq_compare`).
-/

namespace Lockstep.Time

variable {t : Time} {e f : Int32} {m n : ℕ}

/-- What a mantissa of one is worth at an exponent, in seconds. -/
def unit (e : Int32) : ℚ := 10 ^ e.toInt

/-- The seconds that a time stands for. -/
def value (t : Time) : ℚ := t.mantissa.toNat * unit t.exponent

/-! ### Units -/

theorem unit_pos (e : Int32) : 0 < unit e := zpow_pos (by norm_num) _

theorem unit_eq (h : e.toInt ≤ f.toInt) : unit f = (10 ^ (f.toInt - e.toInt).toNat : ℕ) * unit e := by
  have hgap : f.toInt = ((f.toInt - e.toInt).toNat : ℤ) + e.toInt := by omega
  rw [unit, unit]
  conv => lhs; rw [hgap, zpow_add₀ (by norm_num), zpow_natCast]
  push_cast
  rfl

theorem mul_unit_inj : (m : ℚ) * unit e = n * unit e ↔ m = n := by
  rw [mul_left_inj' (unit_pos e).ne', Nat.cast_inj]

theorem mul_unit_le : (m : ℚ) * unit e ≤ n * unit e ↔ m ≤ n := by
  rw [mul_le_mul_iff_left₀ (unit_pos e), Nat.cast_le]

theorem mul_unit_lt : (m : ℚ) * unit e < n * unit e ↔ m < n := by
  rw [mul_lt_mul_iff_left₀ (unit_pos e), Nat.cast_lt]

theorem compare_mul_unit (m n : ℕ) (e : Int32) : compare ((m : ℚ) * unit e) (n * unit e) = compare m n := by
  rcases lt_trichotomy m n with h | rfl | h
  · rw [compare_lt_iff_lt.2 h, compare_lt_iff_lt.2 (mul_unit_lt.2 h)]
  · rw [compare_eq_iff_eq.2 rfl, compare_eq_iff_eq.2 rfl]
  · rw [compare_gt_iff_gt.2 h, compare_gt_iff_gt.2 (mul_unit_lt.2 h)]

theorem value_eq_mul_unit (h : e.toInt ≤ t.exponent.toInt) :
    t.value = (t.mantissa.toNat * 10 ^ (t.exponent.toInt - e.toInt).toNat : ℕ) * unit e := by
  rw [value, unit_eq h]
  push_cast
  ring

theorem value_eq_zero_iff : t.value = 0 ↔ t.mantissa = 0 := by
  rw [value, mul_eq_zero, or_iff_left (unit_pos _).ne', Nat.cast_eq_zero, ← UInt64.toNat_inj]
  rfl

theorem value_nonneg (t : Time) : 0 ≤ t.value := mul_nonneg (Nat.cast_nonneg _) (unit_pos _).le

theorem toNat_pos (h : t.mantissa ≠ 0) : 0 < t.mantissa.toNat :=
  Nat.pos_of_ne_zero fun h0 => h (UInt64.toNat_inj.1 h0)

theorem value_pos (h : t.mantissa ≠ 0) : 0 < t.value := mul_pos (Nat.cast_pos.2 (toNat_pos h)) (unit_pos _)

/-! ### Mantissas at another exponent -/

theorem mantissa?_eq_some_iff {m : UInt64} : mantissa? n = some m ↔ n = m.toNat := by
  constructor
  · exact fun h => (eq_of_mantissa?_eq_some h).symm
  · rintro rfl
    exact mantissa?_toNat m

theorem powerOfTen?_of_lt (h : n < 20) : powerOfTen? n = some (10 ^ n) := if_pos h

theorem powerOfTen?_eq_none (h : ¬ n < 20) : powerOfTen? n = none := if_neg h

/-- The powers of ten that are left out exceed every mantissa. -/
theorem lt_ten_pow (m : UInt64) (h : ¬ n < 20) : m.toNat < 10 ^ n := by
  have hpow : 10 ^ 20 ≤ 10 ^ n := Nat.pow_le_pow_right (by norm_num) (Nat.le_of_not_lt h)
  have hm := m.toNat_lt
  omega

theorem mantissaAt?_eq_some_iff (ht : t.mantissa ≠ 0) {m : UInt64} :
    t.mantissaAt? e = some m ↔ t.value = m.toNat * unit e := by
  have hpos := toNat_pos ht
  unfold mantissaAt?
  dsimp only
  split
  · next hfiner =>
    rw [value_eq_mul_unit (e := e) (by omega), mul_unit_inj]
    generalize (t.exponent.toInt - e.toInt).toNat = shift
    by_cases hshift : shift < 20
    · rw [powerOfTen?_of_lt hshift]
      exact mantissa?_eq_some_iff
    · -- such a multiple of the mantissa is larger than every mantissa
      have hlarge : m.toNat < t.mantissa.toNat * 10 ^ shift :=
        (lt_ten_pow m hshift).trans_le (Nat.le_mul_of_pos_left _ hpos)
      rw [powerOfTen?_eq_none hshift]
      simp only [Option.bind_none, reduceCtorEq, false_iff]
      omega
  · next hcoarser =>
    rw [value, unit_eq (e := t.exponent) (f := e) (by omega), ← mul_assoc, ← Nat.cast_mul, mul_unit_inj, neg_sub]
    generalize (e.toInt - t.exponent.toInt).toNat = shift
    by_cases hshift : shift < 20
    · rw [powerOfTen?_of_lt hshift, Option.bind_some]
      split
      · next hdvd =>
        rw [mantissa?_eq_some_iff, Nat.div_eq_iff_eq_mul_left (by positivity) (Nat.dvd_of_mod_eq_zero hdvd)]
      · next hdvd =>
        simp only [reduceCtorEq, false_iff]
        intro heq
        rw [heq, Nat.mul_mod_left] at hdvd
        exact hdvd rfl
    · -- only zero is a multiple of so large a power that is a mantissa
      have hlarge := lt_ten_pow t.mantissa hshift
      rw [powerOfTen?_eq_none hshift]
      simp only [Option.bind_none, reduceCtorEq, false_iff]
      intro heq
      rcases Nat.eq_zero_or_pos m.toNat with h0 | h0
      · rw [h0, Nat.zero_mul] at heq
        omega
      · have hmul : 10 ^ shift ≤ m.toNat * 10 ^ shift := Nat.le_mul_of_pos_left _ h0
        omega

/-! ### Comparison -/

theorem compareScaled_eq (coarse fine : UInt64) (shift : ℕ) :
    compareScaled coarse shift fine = compare (coarse.toNat * 10 ^ shift) fine.toNat := by
  unfold compareScaled
  split
  · next h0 =>
    rw [h0]
    simp
  · next h0 =>
    by_cases hshift : shift < 20
    · rw [powerOfTen?_of_lt hshift]
    · have hpos : 0 < coarse.toNat := Nat.pos_of_ne_zero fun h => h0 (UInt64.toNat_inj.1 h)
      rw [powerOfTen?_eq_none hshift]
      symm
      exact Nat.compare_eq_gt.2 ((lt_ten_pow fine hshift).trans_le (Nat.le_mul_of_pos_left _ hpos))

theorem cmp_eq_compare (a b : Time) : a.cmp b = compare a.value b.value := by
  unfold cmp
  dsimp only
  split
  · next hfiner =>
    rw [compareScaled_eq, value_eq_mul_unit (t := a) (e := b.exponent) (by omega), value, compare_mul_unit]
  · next hcoarser =>
    rw [compareScaled_eq, value_eq_mul_unit (t := b) (e := a.exponent) (by omega), value, compare_mul_unit, neg_sub,
      Nat.compare_swap]

end Lockstep.Time
