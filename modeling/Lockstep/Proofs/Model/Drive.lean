import Lockstep.Model.Drive
import Lockstep.Proofs.Bundle.Number
import Lockstep.Proofs.Engine.Wires
import Lockstep.Proofs.SortedMap
/-!
# What a model drives

A model changes what it drives one signal after another. Two things follow from how it does that, whatever the model:
it never drives a signal that is not its own or at another width (`Signals.Redriven.within`), and a signal that it has
driven once it mentions for good (`Signals.Redriven.keeps`). The second is needed because the bus keeps the last value
of a signal that an offer leaves out.

A model reads numbers from some of the wires that carry one, which are the digits of a smaller number
(`Bundle.slice_ofNat`).
-/

namespace Lockstep

namespace Bundle

/-! ### Numbers on some of the wires -/

theorem getD_resize (v : Bundle) (width : Nat) {i : Nat} (h : i < width) :
    (v.resize width .released).getD i = v.getD i := by
  by_cases hi : i < v.width
  · have hin : i < (v.bits.take width).length := by
      rw [List.length_take]
      exact Nat.lt_min.2 ⟨h, hi⟩
    rw [getD, get?, resize, List.getElem?_append_left hin, List.getElem?_take_of_lt h]
    rfl
  · have hout : (v.bits.take width).length ≤ i := by
      rw [List.length_take]
      exact Nat.le_trans (Nat.min_le_right _ _) (Nat.le_of_not_lt hi)
    rw [getD_of_width_le (Nat.le_of_not_lt hi), getD, get?, resize, List.getElem?_append_right hout,
      List.getElem?_replicate]
    split <;> rfl

theorem getD_slice (v : Bundle) (low : Nat) {width i : Nat} (h : i < width) :
    (v.slice low width).getD i = v.getD (low + i) := by
  rw [slice, getD_resize _ _ h, getD, get?, List.getElem?_drop]
  rfl

theorem slice_ofNat (n : Nat) {bits width low count : Nat} (hbits : low + count ≤ bits) (hwidth : bits ≤ width) :
    ((ofNat n bits).resize width .released).slice low count = ofNat (n / 2 ^ low) count := by
  refine ext_getD (by rw [width_slice, width_ofNat]) fun i hi => ?_
  rw [width_slice] at hi
  rw [getD_slice _ _ hi, getD_resize _ _ (by omega), getD_ofNat _ (by omega), getD_ofNat _ hi,
    Nat.testBit_div_two_pow, Nat.add_comm]

end Bundle

namespace Signals

/-! ### Setting and releasing signals -/

theorem get?_set (s : Signals) (name : String) (v : Bundle) (k : String) :
    (s.set name v).get? k = if k = name then some v else s.get? k := SortedMap.get?_insert _ _ _ _

theorem get?_release (s : Signals) (name k : String) :
    (s.release name).get? k = if k = name then (s.get? k).map fun v => .released v.width else s.get? k :=
  SortedMap.get?_modify _ _ _ _

theorem bit_eq {s : Signals} {name : String} {v : Bundle} (h : s.get? name = some v) : s.bit name = v.getD 0 := by
  rw [bit, h]

theorem number_eq {s : Signals} {name : String} {n width : Nat} (h : s.get? name = some (.ofNat n width))
    (hwidth : width ≤ 64) : s.number name = .ok (n % 2 ^ width) := by
  rw [number, h]
  dsimp only
  rw [Bundle.toNat?_ofNat n hwidth]
  rfl

/-- The wires of a signal, released if the signal is not there. -/
def wires (s : Signals) (name : String) (width : Nat) : Bundle := (s.get? name).getD (.released width)

theorem wires_set (s : Signals) (name k : String) (v : Bundle) (width : Nat) :
    (s.set name v).wires k width = if k = name then v else s.wires k width := by
  rw [wires, get?_set]
  split <;> rfl

theorem wires_setBit (s : Signals) (name k : String) (level : Level) (width : Nat) :
    (s.setBit name level).wires k width = if k = name then .ofLevel level else s.wires k width := wires_set _ _ _ _ _

theorem wires_release_of_ne (s : Signals) {name k : String} (h : k ≠ name) (width : Nat) :
    (s.release name).wires k width = s.wires k width := by
  rw [wires, get?_release, if_neg h]
  rfl

theorem wires_release_self {s : Signals} {name : String} {width : Nat} (h : (s.wires name width).width = width) :
    (s.release name).wires name width = .released width := by
  unfold wires at h ⊢
  rw [get?_release, if_pos rfl]
  cases hv : s.get? name with
  | none => rfl
  | some v =>
    rw [hv] at h
    exact congrArg Bundle.released h

/-- All signals are of a list, each at its width. -/
def Within (s : Signals) (reach : List (String × Nat)) : Prop :=
  ∀ name v, s.get? name = some v → (name, v.width) ∈ reach

theorem Within.wires_eq {s : Signals} {reach : List (String × Nat)} (h : s.Within reach) {name : String}
    (hname : ∀ e ∈ reach, e.1 ≠ name) (width : Nat) : s.wires name width = .released width := by
  unfold wires
  cases hv : s.get? name with
  | none => rfl
  | some v => exact absurd rfl (hname _ (h name v hv))

theorem within_empty (reach : List (String × Nat)) : Within .empty reach := fun _ _ h => by cases h

/-- Signals that come from others by setting some of a list, each at its width, and by releasing some. -/
inductive Redriven (reach : List (String × Nat)) (s : Signals) : Signals → Prop where
  | same : Redriven reach s s
  | set {s' : Signals} {name : String} {v : Bundle} (h : Redriven reach s s') (own : (name, v.width) ∈ reach) :
      Redriven reach s (s'.set name v)
  | release {s' : Signals} (name : String) (h : Redriven reach s s') : Redriven reach s (s'.release name)

namespace Redriven

variable {reach : List (String × Nat)} {s s' s'' : Signals}

theorem trans (h : Redriven reach s s') (h' : Redriven reach s' s'') : Redriven reach s s'' := by
  induction h' with
  | same => exact h
  | set _ own ih => exact .set ih own
  | release name _ ih => exact .release name ih

theorem setBit {name : String} {level : Level} (h : Redriven reach s s') (own : (name, 1) ∈ reach) :
    Redriven reach s (s'.setBit name level) := .set h own

theorem setNat {name : String} {n width : Nat} (h : Redriven reach s s') (own : (name, width) ∈ reach) :
    Redriven reach s (s'.setNat name n width) := .set h (by rwa [Bundle.width_ofNat])

theorem within (h : Redriven reach s s') (hs : s.Within reach) : s'.Within reach := by
  induction h with
  | same => exact hs
  | @set s' name v _ own ih =>
    intro k w hk
    rw [get?_set] at hk
    split at hk
    · next hkey =>
      cases hk
      rwa [hkey]
    · exact ih k w hk
  | @release s' name _ ih =>
    intro k w hk
    rw [get?_release] at hk
    split at hk
    · obtain ⟨v, hv, rfl⟩ := Option.map_eq_some_iff.1 hk
      rw [Bundle.width_released]
      exact ih k v hv
    · exact ih k w hk

theorem keeps (h : Redriven reach s s') {name : String} (hname : s'.get? name = none) : s.get? name = none := by
  induction h with
  | same => exact hname
  | set _ _ ih =>
    rw [get?_set] at hname
    split at hname
    · cases hname
    · exact ih hname
  | release _ _ ih =>
    rw [get?_release] at hname
    split at hname
    · exact ih (Option.map_eq_none_iff.1 hname)
    · exact ih hname

end Redriven

end Signals

end Lockstep
