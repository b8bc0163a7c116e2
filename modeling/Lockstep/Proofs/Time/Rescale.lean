import Lockstep.Proofs.Time.Sum
/-!
# Rescaling times

A time is rescaled exactly or not at all (`Time.rescales_exactly`): what comes out is the one time of the new exponent that
has the same value (`rescale_eq_ok_iff`). So rescaling can be undone, and it makes no difference whether it is done in one
step or in two. Whether there is such a time is decided by the value alone, however far apart the exponents are.
-/

namespace Lockstep.Time

variable {t r s : Time} {e f : Int32}

theorem rescale_eq_ok_iff : t.rescale e = .ok r ↔ r.exponent = e ∧ r.value = t.value := by
  unfold rescale
  split
  · next hzero =>
    rw [value_eq_zero_iff.2 hzero, value_eq_zero_iff]
    constructor
    · intro h
      cases h
      exact ⟨rfl, rfl⟩
    · rintro ⟨rfl, hr⟩
      rw [← hr]
  · next hmantissa =>
    have hat : ∀ m, t.mantissaAt? e = some m ↔ t.value = m.toNat * unit e := fun _ => mantissaAt?_eq_some_iff hmantissa
    constructor
    · intro h
      split at h
      · next m hm =>
        cases h
        exact ⟨rfl, ((hat m).1 hm).symm⟩
      · cases h
    · rintro ⟨rfl, hvalue⟩
      rw [(hat r.mantissa).2 hvalue.symm]

theorem rescale_eq_ok_mk_iff {m : UInt64} : t.rescale e = .ok ⟨m, e⟩ ↔ t.value = m.toNat * unit e := by
  rw [rescale_eq_ok_iff, value, and_iff_right rfl, eq_comm]

theorem exists_rescale_iff : (∃ r, t.rescale e = .ok r) ↔ ∃ k : ℕ, k < 2 ^ 64 ∧ t.value = k * unit e := by
  constructor
  · rintro ⟨r, h⟩
    obtain ⟨rfl, hvalue⟩ := rescale_eq_ok_iff.1 h
    exact ⟨r.mantissa.toNat, r.mantissa.toNat_lt, hvalue.symm⟩
  · rintro ⟨k, hk, hvalue⟩
    obtain ⟨m, rfl⟩ := exists_mantissa hk
    exact ⟨⟨m, e⟩, rescale_eq_ok_mk_iff.2 hvalue⟩

theorem rescale_back (h : t.rescale e = .ok r) : r.rescale t.exponent = .ok t :=
  rescale_eq_ok_iff.2 ⟨rfl, (rescale_eq_ok_iff.1 h).2.symm⟩

theorem rescale_trans (h : t.rescale f = .ok r) (h' : r.rescale e = .ok s) : t.rescale e = .ok s := by
  obtain ⟨-, hr⟩ := rescale_eq_ok_iff.1 h
  obtain ⟨hexponent, hs⟩ := rescale_eq_ok_iff.1 h'
  exact rescale_eq_ok_iff.2 ⟨hexponent, hs.trans hr⟩

theorem rescale_refusal {cause : Error} (h : t.rescale e = .error cause) : cause = .overflow t ⟨1, e⟩ := by
  unfold rescale at h
  split at h
  · cases h
  · split at h
    · cases h
    · cases h
      rfl

/-- What rescaling a time to an exponent comes to. -/
structure RescalesExactly (t : Time) (e : Int32) : Prop where
  /-- A time is rescaled if its value is a whole number of the new units, and not too many of them. -/
  fits : (∃ r, t.rescale e = .ok r) ↔ ∃ k : ℤ, 0 ≤ k ∧ k < 2 ^ 64 ∧ t.value = k * 10 ^ e.toInt
  /-- The new mantissa is that number. -/
  exact : ∀ m : UInt64, t.rescale e = .ok ⟨m, e⟩ ↔ t.value = m.toNat * 10 ^ e.toInt
  value : ∀ r, t.rescale e = .ok r → r.exponent = e ∧ r.value = t.value
  back : ∀ r, t.rescale e = .ok r → r.rescale t.exponent = .ok t
  /-- A detour through another exponent, where there is one, makes no difference. -/
  detour : ∀ f r s, t.rescale f = .ok r → r.rescale e = .ok s → t.rescale e = .ok s
  /-- Every refusal is an overflow. -/
  refused : ∀ cause, t.rescale e = .error cause → cause = .overflow t ⟨1, e⟩

/-- **Exact rescaling.** Rescaling is exact or refused, for all times and all exponents. -/
theorem rescales_exactly (t : Time) (e : Int32) : RescalesExactly t e := by
  refine ⟨?_, fun m => rescale_eq_ok_mk_iff, fun r => rescale_eq_ok_iff.1, fun r => rescale_back,
    fun f r s => rescale_trans, fun cause => rescale_refusal⟩
  rw [exists_rescale_iff]
  constructor
  · rintro ⟨k, hk, hvalue⟩
    exact ⟨k, k.cast_nonneg, by exact_mod_cast hk, by exact_mod_cast hvalue⟩
  · rintro ⟨k, hnonneg, hk, hvalue⟩
    lift k to ℕ using hnonneg
    exact ⟨k, by exact_mod_cast hk, by exact_mod_cast hvalue⟩

end Lockstep.Time
