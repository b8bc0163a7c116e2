import Lockstep.Proofs.Time
import Mathlib.Tactic.Ring
/-!
# The walk of a clock

A clock starts in the setup window and goes round its four phases. `ClockTiming.walk` says in closed form how many
picoseconds have passed after `n` steps: a whole period for every four steps, and a part of one for those that are left.
`walk_succ` is one step of this walk, with the durations that the clock itself computes by subtraction; `level_after`
and `walk_mod_lt_iff` say when the clock is high, by the number of steps and by the time.
-/

namespace Lockstep

namespace Phase

/-- The phase of a clock that has taken `n` steps. -/
def after : Nat → Phase
  | 0 => .setup
  | n + 1 => (after n).next

theorem after_add_four (n : Nat) : after (n + 4) = after n := by
  show (after n).next.next.next.next = after n
  cases after n <;> rfl

theorem after_mod (n : Nat) : after n = after (n % 4) := by
  have hperiods : ∀ q r, after (4 * q + r) = after r := by
    intro q r
    induction q with
    | zero => rw [Nat.mul_zero, Nat.zero_add]
    | succ q ih =>
      rw [show 4 * (q + 1) + r = 4 * q + r + 4 by omega, after_add_four, ih]
  conv => lhs; rw [← Nat.div_add_mod n 4]
  exact hperiods _ _

theorem level_after (n : Nat) : (after n).level = .ofBool (n % 4 = 1 ∨ n % 4 = 2) := by
  rw [after_mod]
  have hr : n % 4 < 4 := Nat.mod_lt n (by decide)
  generalize n % 4 = r at hr
  rcases (by omega : r = 0 ∨ r = 1 ∨ r = 2 ∨ r = 3) with rfl | rfl | rfl | rfl <;> rfl

end Phase

namespace ClockTiming

/-- The picoseconds from the end of a period to the steps of the next one. -/
def offset (t : ClockTiming) : Nat → Nat
  | 0 => 0
  | 1 => t.setup.toNat
  | 2 => t.setup.toNat + t.hold.toNat
  | _ => t.setup.toNat + t.high.toNat

/-- The picoseconds that have passed after `n` steps. -/
def walk (t : ClockTiming) (n : Nat) : Nat := n / 4 * t.period + t.offset (n % 4)

variable {t : ClockTiming}

theorem windows (h : t.fault? = none) :
    (0 < t.hold.toNat ∧ t.hold.toNat < t.high.toNat) ∧ 0 < t.setup.toNat ∧ t.setup.toNat < t.low.toNat := by
  have hhold := span_pos h .high
  have hrest := span_pos h .falling
  have hsetup := span_pos h .rising
  have hlow := span_pos h .setup
  unfold fault? at h
  split at h
  · cases h
  · next hnohold =>
    split at h
    · cases h
    · next hnosetup =>
      rw [not_or, UInt64.not_le] at hnohold hnosetup
      exact ⟨⟨hhold, UInt64.lt_iff_toNat_lt.1 hnohold.2⟩, hsetup, UInt64.lt_iff_toNat_lt.1 hnosetup.2⟩

theorem toNat_span (h : t.fault? = none) (phase : Phase) :
    (t.span phase).toNat = match phase with
      | .rising => t.setup.toNat
      | .high => t.hold.toNat
      | .falling => t.high.toNat - t.hold.toNat
      | .setup => t.low.toNat - t.setup.toNat := by
  obtain ⟨⟨-, hhold⟩, -, hsetup⟩ := windows h
  cases phase with
  | rising => rfl
  | high => rfl
  | falling => exact UInt64.toNat_sub_of_le _ _ (UInt64.le_iff_toNat_le.2 hhold.le)
  | setup => exact UInt64.toNat_sub_of_le _ _ (UInt64.le_iff_toNat_le.2 hsetup.le)

theorem walk_succ (h : t.fault? = none) (n : Nat) :
    t.walk (n + 1) = t.walk n + (t.span (.after (n + 1))).toNat := by
  obtain ⟨⟨-, hhold⟩, -, hsetup⟩ := windows h
  rw [toNat_span h, Phase.after_mod, walk, walk]
  rcases (by omega : n % 4 = 0 ∨ n % 4 = 1 ∨ n % 4 = 2 ∨ n % 4 = 3) with hr | hr | hr | hr
  · have hq : (n + 1) / 4 = n / 4 := by omega
    have hnext : (n + 1) % 4 = 1 := by omega
    rw [hr, hq, hnext]
    rfl
  · have hq : (n + 1) / 4 = n / 4 := by omega
    have hnext : (n + 1) % 4 = 2 := by omega
    rw [hr, hq, hnext]
    exact (Nat.add_assoc _ _ _).symm
  · have hq : (n + 1) / 4 = n / 4 := by omega
    have hnext : (n + 1) % 4 = 3 := by omega
    rw [hr, hq, hnext]
    show _ + (t.setup.toNat + t.high.toNat) = _ + (t.setup.toNat + t.hold.toNat) + (t.high.toNat - t.hold.toNat)
    omega
  · have hq : (n + 1) / 4 = n / 4 + 1 := by omega
    have hnext : (n + 1) % 4 = 0 := by omega
    rw [hr, hq, hnext]
    show (n / 4 + 1) * t.period + 0 = _ + (t.setup.toNat + t.high.toNat) + (t.low.toNat - t.setup.toNat)
    have hperiod : (n / 4 + 1) * t.period = n / 4 * t.period + (t.high.toNat + t.low.toNat) := by
      rw [Nat.add_mul, Nat.one_mul, period]
    omega

theorem walk_lt_succ (h : t.fault? = none) (n : Nat) : t.walk n < t.walk (n + 1) := by
  rw [walk_succ h]
  exact Nat.lt_add_of_pos_right (span_pos h _)

theorem walk_mod_lt_iff (h : t.fault? = none) (n : Nat) :
    ((t.walk n : Int) - t.setup.toNat) % t.period < t.high.toNat ↔ n % 4 = 1 ∨ n % 4 = 2 := by
  obtain ⟨⟨hholdPos, hhold⟩, hsetupPos, hsetup⟩ := windows h
  have hperiod : (t.period : Int) = t.high.toNat + t.low.toNat := by rw [period]; push_cast; rfl
  -- whole periods make no difference
  have hreduce : ((t.walk n : Int) - t.setup.toNat) % t.period =
      ((t.offset (n % 4) : Int) - t.setup.toNat) % t.period := by
    rw [walk]
    push_cast
    rw [show ((n : Int) / 4 * t.period + t.offset (n % 4) - t.setup.toNat) =
      (t.offset (n % 4) - t.setup.toNat) + (n : Int) / 4 * t.period by ring, Int.add_mul_emod_self_right]
  rw [hreduce]
  rcases (by omega : n % 4 = 0 ∨ n % 4 = 1 ∨ n % 4 = 2 ∨ n % 4 = 3) with hr | hr | hr | hr <;> rw [hr]
  · have hwrap : ((t.offset 0 : Int) - t.setup.toNat) % t.period = t.period - t.setup.toNat := by
      rw [offset, ← Int.add_emod_right, Int.emod_eq_of_lt] <;> omega
    rw [hwrap]
    omega
  · have hrising : ((t.offset 1 : Int) - t.setup.toNat) % t.period = 0 := by
      rw [offset, Int.sub_self, Int.zero_emod]
    rw [hrising]
    omega
  · have hhigh : ((t.offset 2 : Int) - t.setup.toNat) % t.period = t.hold.toNat := by
      rw [offset, Int.emod_eq_of_lt] <;> push_cast <;> omega
    rw [hhigh]
    omega
  · have hfalling : ((t.offset 3 : Int) - t.setup.toNat) % t.period = t.high.toNat := by
      show (((t.setup.toNat + t.high.toNat : Nat) : Int) - t.setup.toNat) % t.period = _
      rw [Int.emod_eq_of_lt] <;> push_cast <;> omega
    rw [hfalling]
    omega

end ClockTiming

end Lockstep
