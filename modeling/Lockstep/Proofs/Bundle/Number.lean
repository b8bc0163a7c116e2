import Lockstep.Bundle
import Mathlib.Algebra.Order.Ring.GeomSum
/-!
# Numbers on wires

Numbers go over the wires digit by digit, the lowest digit on the first wire. A number that is read from as many wires as
it was put on is the same up to the digits for which there was no wire (`Bundle.toNat?_ofNat`).

The number on some wires is the sum of the powers of two of those that carry a one (`Bundle.ones`). It is read if all
levels are definite and the sum fits 64 bits, that is, if no wire from the 64th on carries a one
(`Bundle.toNat?_eq_some_iff`), and then it is the only number that fits the wires and puts these levels on them
(`Bundle.ofNat_of_toNat?`).
-/

namespace Lockstep

theorem Level.eq_zero_iff {l : Level} (h : l.isDefinite = true) : l = .zero ↔ l ≠ .one := by
  cases l with
  | zero | one => decide
  | unknown | released => cases h

namespace Bundle

/-! ### From a number to wires and back -/

theorem numberOf?_binaryDigits (width n : Nat) : numberOf? (binaryDigits width n) = some (n % 2 ^ width) := by
  induction width generalizing n with
  | zero => simp [binaryDigits, numberOf?, Nat.mod_one]
  | succ width ih =>
    have hdigit : ((Level.ofBool (n % 2 = 1)).toBool?.map Bool.toNat) = some (n % 2) := by
      rcases Nat.mod_two_eq_zero_or_one n with h | h <;> simp [h, Level.ofBool, Level.toBool?]
    obtain ⟨b, hb, hn⟩ := Option.map_eq_some_iff.1 hdigit
    show digit? _ (numberOf? (binaryDigits width (n / 2))) = _
    rw [ih, digit?, hb, Option.bind_some, Option.map_some, hn, Nat.pow_succ', Nat.mod_mul]

theorem toNat?_ofNat_of_lt {n width : Nat} (h : n % 2 ^ width < UInt64.size) :
    (ofNat n width).toNat? = some (n % 2 ^ width) := by
  rw [toNat?, ofNat, numberOf?_binaryDigits, Option.filter_some, if_pos (decide_eq_true h)]

theorem toNat?_ofNat (n : Nat) {width : Nat} (h : width ≤ 64) : (ofNat n width).toNat? = some (n % 2 ^ width) :=
  toNat?_ofNat_of_lt (Nat.lt_of_lt_of_le (Nat.mod_lt _ (Nat.two_pow_pos _)) (Nat.pow_le_pow_right (by decide) h))

/-- With 64 wires or more, there is one for each digit of a machine word. -/
theorem toNat?_ofNat_toNat (n : UInt64) (width : Nat) :
    (ofNat n.toNat width).toNat? = some (if width < 64 then n.toNat % 2 ^ width else n.toNat) := by
  split
  · next hwidth => exact toNat?_ofNat _ (Nat.le_of_lt hwidth)
  · next hwidth =>
    have hdigits : n.toNat < 2 ^ width :=
      Nat.lt_of_lt_of_le n.toNat_lt (Nat.pow_le_pow_right (by decide) (Nat.le_of_not_lt hwidth))
    have hmod : n.toNat % 2 ^ width = n.toNat := Nat.mod_eq_of_lt hdigits
    rw [toNat?_ofNat_of_lt (by rw [hmod]; exact n.toNat_lt), hmod]

theorem getElem?_binaryDigits {width : Nat} (n : Nat) {i : Nat} (h : i < width) :
    (binaryDigits width n)[i]? = some (.ofBool (n.testBit i)) := by
  induction width generalizing n i with
  | zero => cases h
  | succ width ih =>
    cases i with
    | zero => simp [binaryDigits, Nat.testBit_zero]
    | succ i =>
      rw [binaryDigits, List.getElem?_cons_succ, ih _ (Nat.lt_of_succ_lt_succ h), Nat.testBit_succ]

theorem getD_ofNat (n : Nat) {width i : Nat} (h : i < width) : (ofNat n width).getD i = .ofBool (n.testBit i) := by
  rw [getD, get?, ofNat, getElem?_binaryDigits n h]
  rfl

/-! ### From wires to a number and back -/

theorem numberOf?_cons_eq_some_iff {l : Level} {ls : List Level} {n : Nat} :
    numberOf? (l :: ls) = some n ↔ ∃ b, l.toBool? = some b ∧ ∃ m, numberOf? ls = some m ∧ b.toNat + 2 * m = n := by
  show digit? l (numberOf? ls) = some n ↔ _
  simp only [digit?, Option.bind_eq_some_iff, Option.map_eq_some_iff]

theorem binaryDigits_of_numberOf? {ls : List Level} {n : Nat} (h : numberOf? ls = some n) :
    binaryDigits ls.length n = ls := by
  induction ls generalizing n with
  | nil => rfl
  | cons l ls ih =>
    obtain ⟨b, hb, m, hm, rfl⟩ := numberOf?_cons_eq_some_iff.1 h
    have hlevel : Level.ofBool b = l := by
      cases l <;> cases hb <;> rfl
    have hlow : decide ((b.toNat + 2 * m) % 2 = 1) = b := by cases b <;> simp
    have hhigh : (b.toNat + 2 * m) / 2 = m := by
      have := b.toNat_lt
      omega
    rw [List.length_cons, binaryDigits, hlow, hhigh, hlevel, ih hm]

/-- The wires that carry a one. -/
def ones (v : Bundle) : Finset ℕ := (Finset.range v.width).filter fun i => v.getD i = .one

theorem sum_ones_cons (l : Level) (ls : List Level) :
    ∑ i ∈ ones ⟨l :: ls⟩, 2 ^ i = (if l = .one then 1 else 0) + 2 * ∑ i ∈ ones ⟨ls⟩, 2 ^ i := by
  have hrest : ∀ i, (if getD ⟨l :: ls⟩ (i + 1) = .one then 2 ^ (i + 1) else 0) =
      2 * if getD ⟨ls⟩ i = .one then 2 ^ i else 0 := by
    intro i
    rw [Nat.pow_succ', mul_ite, Nat.mul_zero]
    rfl
  rw [ones, ones, Finset.sum_filter, Finset.sum_filter]
  show ∑ i ∈ Finset.range (ls.length + 1), _ = _
  rw [Finset.sum_range_succ', Finset.sum_congr rfl fun i _ => hrest i, ← Finset.mul_sum, Nat.add_comm]
  rfl

theorem numberOf?_eq_some_iff {ls : List Level} {n : Nat} :
    numberOf? ls = some n ↔ (∀ l ∈ ls, l.isDefinite = true) ∧ n = ∑ i ∈ ones ⟨ls⟩, 2 ^ i := by
  induction ls generalizing n with
  | nil =>
    show some 0 = some n ↔ _ ∧ n = 0
    rw [Option.some.injEq, eq_comm, and_iff_right fun l hl => absurd hl List.not_mem_nil]
  | cons l ls ih =>
    have hdigit : ∀ {b : Bool}, l.toBool? = some b → b.toNat = if l = .one then 1 else 0 := by
      intro b hb
      cases l <;> cases hb <;> rfl
    rw [numberOf?_cons_eq_some_iff, sum_ones_cons, List.forall_mem_cons]
    constructor
    · rintro ⟨b, hb, m, hm, rfl⟩
      obtain ⟨hdefinite, rfl⟩ := ih.1 hm
      exact ⟨⟨Option.isSome_of_mem hb, hdefinite⟩, by rw [hdigit hb]⟩
    · rintro ⟨⟨hl, hdefinite⟩, rfl⟩
      obtain ⟨b, hb⟩ := Option.isSome_iff_exists.1 hl
      exact ⟨b, hb, _, ih.2 ⟨hdefinite, rfl⟩, by rw [hdigit hb]⟩

/-- A sum of different powers of two is bounded by what bounds the exponents. -/
theorem sum_ones_lt_iff {v : Bundle} {k : ℕ} : ∑ i ∈ v.ones, 2 ^ i < 2 ^ k ↔ ∀ i ∈ v.ones, i < k := by
  constructor
  · intro h i hi
    have hle : 2 ^ i ≤ ∑ i ∈ v.ones, 2 ^ i := Finset.single_le_sum (fun _ _ => Nat.zero_le _) hi
    exact (Nat.pow_lt_pow_iff_right (by decide)).1 (hle.trans_lt h)
  · intro h
    exact Nat.geomSum_lt (by decide) h

theorem isDefinite_iff {v : Bundle} : v.isDefinite = true ↔ ∀ l ∈ v.bits, l.isDefinite = true := List.all_eq_true

theorem mem_ones_iff {v : Bundle} {i : ℕ} : i ∈ v.ones ↔ i < v.width ∧ v.getD i = .one := by
  rw [ones, Finset.mem_filter, Finset.mem_range]

theorem getD_eq_zero_iff {v : Bundle} (h : v.isDefinite = true) {i : ℕ} (hi : i < v.width) :
    v.getD i = .zero ↔ i ∉ v.ones := by
  have hmem : v.getD i ∈ v.bits := by
    rw [getD, get?, List.getElem?_eq_getElem hi]
    exact List.getElem_mem hi
  rw [mem_ones_iff, and_iff_right hi, Level.eq_zero_iff (isDefinite_iff.1 h _ hmem)]

theorem sum_ones_lt_iff_of_isDefinite {v : Bundle} (h : v.isDefinite = true) {k : ℕ} :
    ∑ i ∈ v.ones, 2 ^ i < 2 ^ k ↔ ∀ i, k ≤ i → i < v.width → v.getD i = .zero := by
  rw [sum_ones_lt_iff]
  constructor
  · intro hlow i hki hi
    exact (getD_eq_zero_iff h hi).2 fun hone => Nat.not_lt.2 hki (hlow i hone)
  · intro hhigh i hone
    have hi := (mem_ones_iff.1 hone).1
    by_contra hki
    exact (getD_eq_zero_iff h hi).1 (hhigh i (Nat.le_of_not_lt hki) hi) hone

theorem toNat?_eq_some_iff {v : Bundle} {n : ℕ} : v.toNat? = some n ↔
    v.isDefinite = true ∧ (∀ i, 64 ≤ i → i < v.width → v.getD i = .zero) ∧ n = ∑ i ∈ v.ones, 2 ^ i := by
  rw [toNat?, Option.filter_eq_some_iff, numberOf?_eq_some_iff, ← isDefinite_iff, decide_eq_true_iff]
  constructor
  · rintro ⟨⟨hdefinite, rfl⟩, hlt⟩
    exact ⟨hdefinite, (sum_ones_lt_iff_of_isDefinite hdefinite).1 hlt, rfl⟩
  · rintro ⟨hdefinite, hhigh, rfl⟩
    exact ⟨⟨hdefinite, rfl⟩, (sum_ones_lt_iff_of_isDefinite hdefinite).2 hhigh⟩

/-- The 65th wire is one too many. -/
example : (⟨List.replicate 64 .zero ++ [.one]⟩ : Bundle).toNat? = none := by decide

theorem ofNat_of_toNat? {v : Bundle} {n : ℕ} (h : v.toNat? = some n) : ofNat n v.width = v :=
  congrArg Bundle.mk (binaryDigits_of_numberOf? (Option.filter_eq_some_iff.1 h).1)

end Bundle

end Lockstep
