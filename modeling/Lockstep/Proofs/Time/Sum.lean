import Lockstep.Proofs.Time.Value
/-!
# Sums of times

Adding times is exact or refused (`Time.adds_exactly`). A sum is refused only if it has no mantissa at the finer of the two
exponents, so that it is decided by its value: for times other than zero, `a.add b = .ok r` says no more and no less than
that `r` has the finer exponent and the value of the sum (`add_eq_ok_iff`).

Associativity is where the refusals matter. A partial sum is refused at the finer exponent of its two times, the whole at
the finest of all three, at which it counts even more units (`exists_add_of_le`). So whenever the whole has a mantissa, the
partial sums have one, in whichever order they are taken (`exists_add_add_iff`). Zero stands apart: it leaves the other
time as it is, also its exponent.
-/

namespace Lockstep.Time

variable {a b c r s : Time} {e : Int32}

theorem toInt_finerExponent (a b : Time) :
    (finerExponent a b).toInt = min a.exponent.toInt b.exponent.toInt := by
  unfold finerExponent
  split
  · next h =>
    rw [Int32.le_iff_toInt_le] at h
    omega
  · next h =>
    rw [Int32.le_iff_toInt_le] at h
    omega

/-! ### Two times -/

theorem add_of_right_eq_zero (h : b.mantissa = 0) : a.add b = .ok a := if_pos h

theorem add_of_left_eq_zero (ha : a.mantissa = 0) (hb : b.mantissa ≠ 0) : a.add b = .ok b := by
  unfold add
  rw [if_neg hb, if_pos ha]

theorem add_refusal {cause : Error} (h : a.add b = .error cause) : cause = .overflow a b := by
  unfold add at h
  split at h
  · cases h
  · split at h
    · cases h
    · split at h
      · cases h
      · cases h
        rfl

theorem exists_mantissa {k : ℕ} (h : k < 2 ^ 64) : ∃ m : UInt64, m.toNat = k :=
  ⟨UInt64.ofNat k, UInt64.toNat_ofNat_of_lt' h⟩

theorem sumAt?_eq_some_iff (ha : a.mantissa ≠ 0) (hb : b.mantissa ≠ 0) (hea : e.toInt ≤ a.exponent.toInt)
    (heb : e.toInt ≤ b.exponent.toInt) {k : UInt64} :
    sumAt? a b e = some k ↔ a.value + b.value = k.toNat * unit e := by
  constructor
  · intro h
    obtain ⟨m, hm, h⟩ := Option.bind_eq_some_iff.1 h
    obtain ⟨n, hn, h⟩ := Option.bind_eq_some_iff.1 h
    rw [mantissaAt?_eq_some_iff ha] at hm
    rw [mantissaAt?_eq_some_iff hb] at hn
    rw [hm, hn, ← mantissa?_eq_some_iff.1 h]
    push_cast
    ring
  · intro h
    -- each of the two counts no more units than the sum
    have hva := value_eq_mul_unit hea
    have hvb := value_eq_mul_unit heb
    generalize a.mantissa.toNat * 10 ^ (a.exponent.toInt - e.toInt).toNat = m at hva
    generalize b.mantissa.toNat * 10 ^ (b.exponent.toInt - e.toInt).toNat = n at hvb
    rw [hva, hvb, ← add_mul, ← Nat.cast_add, mul_unit_inj] at h
    have hk := k.toNat_lt
    obtain ⟨m, rfl⟩ := exists_mantissa (k := m) (by omega)
    obtain ⟨n, rfl⟩ := exists_mantissa (k := n) (by omega)
    rw [sumAt?, (mantissaAt?_eq_some_iff ha).2 hva, Option.bind_some, (mantissaAt?_eq_some_iff hb).2 hvb,
      Option.bind_some]
    exact mantissa?_eq_some_iff.2 h

theorem add_eq_ok_iff (ha : a.mantissa ≠ 0) (hb : b.mantissa ≠ 0) :
    a.add b = .ok r ↔ r.exponent = finerExponent a b ∧ r.value = a.value + b.value := by
  have hfiner := toInt_finerExponent a b
  have hsum : ∀ k, sumAt? a b (finerExponent a b) = some k ↔ a.value + b.value = k.toNat * unit (finerExponent a b) :=
    fun _ => sumAt?_eq_some_iff ha hb (by omega) (by omega)
  unfold add
  rw [if_neg hb, if_neg ha]
  constructor
  · intro h
    split at h
    · next k hk =>
      cases h
      exact ⟨rfl, ((hsum k).1 hk).symm⟩
    · cases h
  · rintro ⟨hexponent, hvalue⟩
    have hk := (hsum r.mantissa).2 (by rw [← hvalue, value, hexponent])
    rw [hk]
    cases r
    cases hexponent
    rfl

theorem exists_add_iff (ha : a.mantissa ≠ 0) (hb : b.mantissa ≠ 0) :
    (∃ r, a.add b = .ok r) ↔ ∃ k : ℕ, k < 2 ^ 64 ∧ a.value + b.value = k * unit (finerExponent a b) := by
  constructor
  · rintro ⟨r, hr⟩
    obtain ⟨hexponent, hvalue⟩ := (add_eq_ok_iff ha hb).1 hr
    refine ⟨r.mantissa.toNat, r.mantissa.toNat_lt, ?_⟩
    rw [← hvalue, value, hexponent]
  · rintro ⟨k, hk, hvalue⟩
    obtain ⟨m, rfl⟩ := exists_mantissa hk
    exact ⟨⟨m, finerExponent a b⟩, (add_eq_ok_iff ha hb).2 ⟨rfl, hvalue.symm⟩⟩

theorem value_add (h : a.add b = .ok r) : r.value = a.value + b.value := by
  by_cases hb : b.mantissa = 0
  · rw [add_of_right_eq_zero hb] at h
    cases h
    rw [value_eq_zero_iff.2 hb, add_zero]
  · by_cases ha : a.mantissa = 0
    · rw [add_of_left_eq_zero ha hb] at h
      cases h
      rw [value_eq_zero_iff.2 ha, zero_add]
    · exact ((add_eq_ok_iff ha hb).1 h).2

theorem add_ne_zero (h : a.add b = .ok r) (hb : b.mantissa ≠ 0) : r.mantissa ≠ 0 := by
  intro hr
  have hvalue := value_add h
  rw [value_eq_zero_iff.2 hr] at hvalue
  have ha := value_nonneg a
  have hpos := value_pos hb
  linarith

theorem finerExponent_comm (a b : Time) : finerExponent a b = finerExponent b a := by
  rw [← Int32.toInt_inj, toInt_finerExponent, toInt_finerExponent, min_comm]

theorem add_comm_iff (ha : a.mantissa ≠ 0) (hb : b.mantissa ≠ 0) : a.add b = .ok r ↔ b.add a = .ok r := by
  rw [add_eq_ok_iff ha hb, add_eq_ok_iff hb ha, finerExponent_comm, add_comm a.value]

theorem exists_add_comm (a b : Time) : (∃ r, a.add b = .ok r) ↔ ∃ r, b.add a = .ok r := by
  by_cases ha : a.mantissa = 0
  · by_cases hb : b.mantissa = 0
    · rw [add_of_right_eq_zero hb, add_of_right_eq_zero ha]
      simp
    · rw [add_of_left_eq_zero ha hb, add_of_right_eq_zero ha]
  · by_cases hb : b.mantissa = 0
    · rw [add_of_right_eq_zero hb, add_of_left_eq_zero hb ha]
    · simp only [add_comm_iff ha hb]

theorem exists_add_of_left_eq_zero (h : a.mantissa = 0) : ∃ r, a.add b = .ok r :=
  (exists_add_comm a b).2 ⟨b, add_of_right_eq_zero h⟩

/-! ### Three times -/

theorem exists_add_of_le (ha : a.mantissa ≠ 0) (hb : b.mantissa ≠ 0) (hexponent : r.exponent.toInt ≤ (finerExponent a b).toInt)
    (hle : a.value + b.value ≤ r.value) : ∃ s, a.add b = .ok s := by
  have hfiner := toInt_finerExponent a b
  refine (exists_add_iff ha hb).2 ?_
  rw [value_eq_mul_unit (t := a) (e := finerExponent a b) (by omega),
    value_eq_mul_unit (t := b) (e := finerExponent a b) (by omega), ← add_mul, ← Nat.cast_add] at hle ⊢
  refine ⟨_, ?_, rfl⟩
  generalize a.mantissa.toNat * _ + b.mantissa.toNat * _ = k at hle
  rw [unit_eq hexponent, ← mul_assoc, ← Nat.cast_mul, value, mul_unit_le] at hle
  have hk : k ≤ k * 10 ^ ((finerExponent a b).toInt - r.exponent.toInt).toNat :=
    Nat.le_mul_of_pos_right k (by positivity)
  have hr := r.mantissa.toNat_lt
  omega

theorem exists_add_add_iff (ha : a.mantissa ≠ 0) (hb : b.mantissa ≠ 0) (hc : c.mantissa ≠ 0) :
    (∃ s, a.add b = .ok s ∧ s.add c = .ok r) ↔
      r.exponent.toInt = min (min a.exponent.toInt b.exponent.toInt) c.exponent.toInt ∧
        r.value = a.value + b.value + c.value := by
  constructor
  · rintro ⟨s, hs, hr⟩
    obtain ⟨hexponent, hvalue⟩ := (add_eq_ok_iff ha hb).1 hs
    obtain ⟨hexponent', hvalue'⟩ := (add_eq_ok_iff (add_ne_zero hs hb) hc).1 hr
    rw [hexponent', toInt_finerExponent, hexponent, toInt_finerExponent, hvalue', hvalue]
    exact ⟨rfl, rfl⟩
  · rintro ⟨hexponent, hvalue⟩
    have hfiner := toInt_finerExponent a b
    have hpos := value_pos hc
    obtain ⟨s, hs⟩ := exists_add_of_le (r := r) ha hb (by omega) (by linarith)
    obtain ⟨hexponent', hvalue'⟩ := (add_eq_ok_iff ha hb).1 hs
    refine ⟨s, hs, (add_eq_ok_iff (add_ne_zero hs hb) hc).2 ⟨?_, by rw [hvalue, hvalue']⟩⟩
    rw [← Int32.toInt_inj, hexponent, toInt_finerExponent, hexponent', toInt_finerExponent]

theorem add_assoc_iff (a b c r : Time) :
    (∃ s, a.add b = .ok s ∧ s.add c = .ok r) ↔ ∃ s, b.add c = .ok s ∧ a.add s = .ok r := by
  by_cases hc : c.mantissa = 0
  · simp [add_of_right_eq_zero hc]
  · by_cases hb : b.mantissa = 0
    · simp [add_of_right_eq_zero hb, add_of_left_eq_zero hb hc]
    · by_cases ha : a.mantissa = 0
      · simp only [add_of_left_eq_zero ha hb, Except.ok.injEq, exists_eq_left']
        constructor
        · intro h
          exact ⟨r, h, add_of_left_eq_zero ha (add_ne_zero h hc)⟩
        · rintro ⟨s, hs, h⟩
          rw [add_of_left_eq_zero ha (add_ne_zero hs hc)] at h
          cases h
          exact hs
      · -- from the right, it is the sum of `b`, `c` and `a` from the left
        have hturn : (∃ s, b.add c = .ok s ∧ a.add s = .ok r) ↔ ∃ s, b.add c = .ok s ∧ s.add a = .ok r :=
          exists_congr fun s => and_congr_right fun hs => add_comm_iff ha (add_ne_zero hs hc)
        rw [hturn, exists_add_add_iff ha hb hc, exists_add_add_iff hb hc ha]
        refine and_congr ?_ ?_
        · omega
        · rw [add_comm (b.value + c.value), add_assoc]

/-! ### Exact sums -/

/-- What adding times comes to. -/
structure AddsExactly (a b c : Time) : Prop where
  /-- A sum is refused only if it has no mantissa at the finer of the two exponents. -/
  fits : (∃ r, a.add b = .ok r) ↔ a.mantissa = 0 ∨ b.mantissa = 0 ∨
    ∃ k : ℕ, k ≤ 2 ^ 64 - 1 ∧ a.value + b.value = k * 10 ^ min a.exponent.toInt b.exponent.toInt
  /-- What is not refused is exact. -/
  value : ∀ r, a.add b = .ok r → r.value = a.value + b.value
  /-- The order of two times makes no difference to the value. -/
  comm : ((∃ r, a.add b = .ok r) ↔ ∃ r, b.add a = .ok r) ∧
    ∀ r r', a.add b = .ok r → b.add a = .ok r' → r.value = r'.value
  /-- From the left and from the right, three times have the same sum, mantissa and exponent, or none. -/
  assoc : ∀ r, (∃ s, a.add b = .ok s ∧ s.add c = .ok r) ↔ ∃ s, b.add c = .ok s ∧ a.add s = .ok r
  /-- A sum is at no time before either of the two, and later than the first unless nothing is added. -/
  grows : ∀ r, a.add b = .ok r → a.cmp r ≠ .gt ∧ b.cmp r ≠ .gt ∧ (a.cmp r = .eq ↔ b.mantissa = 0)

/-- **Exact sums.** Adding times is exact or refused, for all mantissas and exponents. -/
theorem adds_exactly (a b c : Time) : AddsExactly a b c := by
  refine ⟨?_, fun r => value_add, ⟨exists_add_comm a b, fun r r' hr hr' => ?_⟩, add_assoc_iff a b c, fun r hr => ?_⟩
  · by_cases hb : b.mantissa = 0
    · simp [add_of_right_eq_zero hb, hb]
    · by_cases ha : a.mantissa = 0
      · simp [add_of_left_eq_zero ha hb, ha]
      · rw [exists_add_iff ha hb, unit, toInt_finerExponent, or_iff_right ha, or_iff_right hb]
        refine exists_congr fun k => and_congr_left fun _ => ?_
        omega
  · rw [value_add hr, value_add hr', add_comm]
  · have hvalue := value_add hr
    have ha := value_nonneg a
    have hb := value_nonneg b
    refine ⟨?_, ?_, ?_⟩
    · rw [cmp_eq_compare, Ne, compare_gt_iff_gt]
      linarith
    · rw [cmp_eq_compare, Ne, compare_gt_iff_gt]
      linarith
    · rw [cmp_eq_compare, compare_eq_iff_eq, ← value_eq_zero_iff, hvalue]
      constructor
      · intro h
        linarith
      · intro h
        linarith

end Lockstep.Time
