import Lockstep.Proofs.Time.Sum
/-!
# The order of times

Times are compared by value, for all mantissas and exponents (`Time.ordered_by_value`). So the laws of the order are those
of the rational numbers, up to times of one value. The comparison has to scale a mantissa by up to nineteen decades and to
subtract exponents of either sign; it does so within 128 and 64 bits.
-/

namespace Lockstep.Time

variable {a b c r s : Time}

/-! ### Order laws -/

theorem cmp_eq_eq_iff : a.cmp b = .eq ↔ a.value = b.value := by rw [cmp_eq_compare, compare_eq_iff_eq]

theorem cmp_ne_gt_iff : a.cmp b ≠ .gt ↔ a.value ≤ b.value := by rw [cmp_eq_compare, compare_le_iff_le]

theorem cmp_swap (a b : Time) : b.cmp a = (a.cmp b).swap := by
  rw [cmp_eq_compare, cmp_eq_compare]
  exact Std.OrientedOrd.eq_swap

theorem sameValue_iff : a.sameValue b = true ↔ a.value = b.value := by rw [sameValue, decide_eq_true_iff, cmp_eq_eq_iff]

/-! ### Machine words -/

/-- A power of ten that is formed has at most nineteen zeros, so 128 bits hold its product with a mantissa. -/
theorem mul_scale_lt {shift scale : ℕ} (h : powerOfTen? shift = some scale) (m : UInt64) : m.toNat * scale < 2 ^ 128 := by
  have hscale : scale ≤ 10 ^ 19 := by
    unfold powerOfTen? at h
    split at h
    · next hshift =>
      cases h
      exact Nat.pow_le_pow_right (by norm_num) (by omega)
    · cases h
  calc m.toNat * scale ≤ 2 ^ 64 * 10 ^ 19 := Nat.mul_le_mul m.toNat_lt.le hscale
    _ < 2 ^ 128 := by norm_num

/-- Exponents of 32 bits are subtracted within 64. -/
theorem toInt_gap (e f : Int32) : (e.toInt64 - f.toInt64).toInt = e.toInt - f.toInt := by
  have he := e.toInt_lt
  have he' := e.le_toInt
  have hf := f.toInt_lt
  have hf' := f.le_toInt
  rw [Int64.toInt_sub, Int32.toInt_toInt64, Int32.toInt_toInt64]
  exact Int.bmod_eq_of_le (by omega) (by omega)

/-! ### Sums -/

theorem cmp_eq_of_sub_eq (h : r.value - s.value = a.value - b.value) : r.cmp s = a.cmp b := by
  rw [cmp_eq_compare, cmp_eq_compare]
  rcases lt_trichotomy a.value b.value with hab | hab | hab
  · rw [compare_lt_iff_lt.2 hab, compare_lt_iff_lt.2 (by linarith)]
  · rw [compare_eq_iff_eq.2 hab, compare_eq_iff_eq.2 (by linarith)]
  · rw [compare_gt_iff_gt.2 hab, compare_gt_iff_gt.2 (by linarith)]

theorem cmp_add_right (hr : a.add c = .ok r) (hs : b.add c = .ok s) : r.cmp s = a.cmp b := by
  apply cmp_eq_of_sub_eq
  rw [value_add hr, value_add hs]
  ring

theorem cmp_add_left (hr : c.add a = .ok r) (hs : c.add b = .ok s) : r.cmp s = a.cmp b := by
  apply cmp_eq_of_sub_eq
  rw [value_add hr, value_add hs]
  ring

/-! ### The order -/

/-- What comparing times comes to. -/
structure OrderedByValue (a b c : Time) : Prop where
  /-- Times are in the order of the seconds that they stand for. -/
  order : a.cmp b = compare a.value b.value
  /-- The gap between two exponents is exact in 64 bits. -/
  gap : (a.exponent.toInt64 - b.exponent.toInt64).toInt = a.exponent.toInt - b.exponent.toInt
  /-- A mantissa times a power of ten that is formed fits 128 bits. -/
  product : ∀ shift scale, powerOfTen? shift = some scale →
    a.mantissa.toNat * scale < 2 ^ 128 ∧ b.mantissa.toNat * scale < 2 ^ 128
  refl : a.cmp a = .eq
  swap : b.cmp a = (a.cmp b).swap
  antisymm : a.cmp b ≠ .gt → b.cmp a ≠ .gt → a.value = b.value
  trans : a.cmp b ≠ .gt → b.cmp c ≠ .gt → a.cmp c ≠ .gt
  total : a.cmp b ≠ .gt ∨ b.cmp a ≠ .gt
  /-- Times are equal exactly if they compare as equal, and that is if they have one value. -/
  equal : (a.sameValue b = true ↔ a.cmp b = .eq) ∧ (a.cmp b = .eq ↔ a.value = b.value)
  /-- Where sums with a third time exist, on either side, they are in the order of what is added to it. -/
  monotone : ∀ r s, (a.add c = .ok r → b.add c = .ok s → r.cmp s = a.cmp b) ∧
    (c.add a = .ok r → c.add b = .ok s → r.cmp s = a.cmp b)

/-- **Order by value.** Comparing times is comparing their values, for all mantissas and exponents. -/
theorem ordered_by_value (a b c : Time) : OrderedByValue a b c where
  order := cmp_eq_compare a b
  gap := toInt_gap a.exponent b.exponent
  product _ _ h := ⟨mul_scale_lt h a.mantissa, mul_scale_lt h b.mantissa⟩
  refl := cmp_eq_eq_iff.2 rfl
  swap := cmp_swap a b
  antisymm hab hba := le_antisymm (cmp_ne_gt_iff.1 hab) (cmp_ne_gt_iff.1 hba)
  trans hab hbc := cmp_ne_gt_iff.2 ((cmp_ne_gt_iff.1 hab).trans (cmp_ne_gt_iff.1 hbc))
  total := by
    rw [cmp_ne_gt_iff, cmp_ne_gt_iff]
    exact le_total a.value b.value
  equal := ⟨by rw [sameValue_iff, cmp_eq_eq_iff], cmp_eq_eq_iff⟩
  monotone _ _ := ⟨cmp_add_right, cmp_add_left⟩

-- nineteen decades apart a mantissa can still make up for its units, twenty decades apart it cannot
example : cmp ⟨1, 19⟩ ⟨18446744073709551615, 0⟩ = .lt ∧ cmp ⟨1, 20⟩ ⟨18446744073709551615, 0⟩ = .gt := by decide

end Lockstep.Time
