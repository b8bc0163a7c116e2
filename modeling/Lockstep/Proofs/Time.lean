import Lockstep.Clock
/-!
# Times of a clock

A bus counts in picoseconds. At that exponent a sum is the sum of the mantissas, and comparing times is comparing
mantissas. A clock whose timing has no fault lets time pass on the way into every phase (`ClockTiming.span_pos`),
so each step of a bus is later than the one before.
-/

namespace Lockstep

namespace Time

theorem mantissa?_toNat (m : UInt64) : mantissa? m.toNat = some m := by
  rw [mantissa?, if_pos m.toNat_lt_size]
  simp

theorem mantissaAt?_self (t : Time) : t.mantissaAt? t.exponent = some t.mantissa := by
  simp [mantissaAt?, powerOfTen?, mantissa?_toNat]

theorem eq_of_mantissa?_eq_some {n : Nat} {m : UInt64} (h : mantissa? n = some m) : m.toNat = n := by
  unfold mantissa? at h
  split at h
  · next hn =>
    cases h
    exact Nat.mod_eq_of_lt hn
  · cases h

theorem sumAt?_self {a b : Time} (h : a.exponent = b.exponent) :
    sumAt? a b (finerExponent a b) = mantissa? (a.mantissa.toNat + b.mantissa.toNat) := by
  have hfiner : finerExponent a b = a.exponent := by simp [finerExponent, h]
  have hb : b.mantissaAt? a.exponent = some b.mantissa := by rw [h, mantissaAt?_self]
  simp [sumAt?, hfiner, mantissaAt?_self, hb]

theorem add_picoseconds {t u : Time} {n : UInt64} (ht : t.exponent = picosecondExponent) (hn : 0 < n.toNat)
    (h : t.add (ofPicoseconds n) = .ok u) :
    u.exponent = picosecondExponent ∧ u.mantissa.toNat = t.mantissa.toNat + n.toNat := by
  have hn0 : (ofPicoseconds n).mantissa ≠ 0 := by
    rintro h0
    rw [show n = 0 from h0] at hn
    cases hn
  unfold add at h
  rw [if_neg hn0] at h
  split at h
  · next hm =>
    cases h
    exact ⟨rfl, by simp [hm, ofPicoseconds]⟩
  · rw [sumAt?_self ht] at h
    split at h
    · next m hm =>
      cases h
      refine ⟨?_, eq_of_mantissa?_eq_some hm⟩
      simp [finerExponent, ht, ofPicoseconds]
    · cases h

theorem add_picoseconds_eq_error_iff {t : Time} {n : UInt64} (ht : t.exponent = picosecondExponent)
    (hn : 0 < n.toNat) {cause : Error} :
    t.add (ofPicoseconds n) = .error cause ↔
      UInt64.size ≤ t.mantissa.toNat + n.toNat ∧ cause = .overflow t (ofPicoseconds n) := by
  have hn0 : (ofPicoseconds n).mantissa ≠ 0 := by
    rintro h0
    rw [show n = 0 from h0] at hn
    cases hn
  unfold add
  rw [if_neg hn0]
  split
  · next hm =>
    have hsmall := n.toNat_lt_size
    have hzero : t.mantissa.toNat = 0 := by rw [hm]; rfl
    simp only [reduceCtorEq, false_iff, not_and]
    omega
  · rw [sumAt?_self ht, mantissa?]
    show _ ↔ UInt64.size ≤ t.mantissa.toNat + n.toNat ∧ _
    by_cases hfits : t.mantissa.toNat + n.toNat < UInt64.size
    · rw [if_pos (show t.mantissa.toNat + (ofPicoseconds n).mantissa.toNat < _ from hfits)]
      simp only [reduceCtorEq, false_iff, not_and]
      omega
    · rw [if_neg (show ¬ t.mantissa.toNat + (ofPicoseconds n).mantissa.toNat < _ from hfits)]
      simp only [Except.error.injEq, Nat.le_of_not_lt hfits, true_and]
      exact eq_comm

theorem cmp_of_exponent_eq {a b : Time} (h : a.exponent = b.exponent) :
    a.cmp b = compare a.mantissa.toNat b.mantissa.toNat := by
  simp only [cmp, h, Int.sub_self, Int.le_refl, if_true, Int.toNat_zero, compareScaled]
  split
  · next h0 => simp [h0]
  · simp [powerOfTen?]

theorem cmp_eq_lt_iff {a b : Time} (h : a.exponent = b.exponent) :
    a.cmp b = .lt ↔ a.mantissa.toNat < b.mantissa.toNat := by
  rw [cmp_of_exponent_eq h, Nat.compare_eq_lt]

end Time

namespace ClockTiming

theorem span_pos {t : ClockTiming} (h : t.fault? = none) (phase : Phase) : 0 < (t.span phase).toNat := by
  have hpos : ∀ {n : UInt64}, n ≠ 0 → 0 < n.toNat := fun {n} hn =>
    Nat.pos_of_ne_zero fun h0 => hn (UInt64.toNat_inj.1 h0)
  unfold fault? at h
  split at h
  · cases h
  · next hhold =>
    split at h
    · cases h
    · next hsetup =>
      rw [not_or, UInt64.not_le] at hhold hsetup
      cases phase with
      | rising => exact hpos hsetup.1
      | high => exact hpos hhold.1
      | falling =>
        have hlt := UInt64.lt_iff_toNat_lt.1 hhold.2
        rw [span, UInt64.toNat_sub_of_le _ _ (UInt64.le_of_lt hhold.2)]
        omega
      | setup =>
        have hlt := UInt64.lt_iff_toNat_lt.1 hsetup.2
        rw [span, UInt64.toNat_sub_of_le _ _ (UInt64.le_of_lt hsetup.2)]
        omega

end ClockTiming

namespace Clock

theorem elapsed_advance (c : Clock) : c.advance.elapsed = .ofPicoseconds (c.timing.span c.phase.next) := rfl

end Clock

end Lockstep
