import Lockstep.Proofs.Model.Reach
/-!
# The cycles of PCI models

What a master has on its wires follows from where it is in its cycle, and what a target has on its wires from whether it
answers (`Pci.Lines`, `Pci.Replies`). Here it is said for each edge how it changes them, by what the model sees. An address
selects one device, and tells it the lowest six digits of the number of the register (`Pci.idsel_address`,
`Pci.register_address`).
-/

namespace Lockstep

namespace Pci

theorem width_lowPart (n bits width : Nat) : (lowPart n bits width).width = width := Bundle.width_resize _ _ _

/-! ### Masters -/

/-- What a master has on its wires. -/
structure Lines (drive : Signals) (req frame irdy : Level) (ad cbe : Bundle) : Prop where
  req : drive.wires "REQ#" 1 = .ofLevel req
  frame : drive.wires "FRAME#" 1 = .ofLevel frame
  irdy : drive.wires "IRDY#" 1 = .ofLevel irdy
  ad : drive.wires "AD" 64 = ad
  cbe : drive.wires "C/BE#" 8 = cbe

abbrev Lines.Free (drive : Signals) : Prop := Lines drive .released .released .released (.released 64) (.released 8)

namespace Lines

variable {drive : Signals} {req frame irdy : Level} {ad cbe : Bundle}

theorem free_empty : Free .empty := ⟨rfl, rfl, rfl, rfl, rfl⟩

theorem request (h : Free drive) :
    Lines (drive.setBit "REQ#" .zero) .zero .released .released (.released 64) (.released 8) := by
  obtain ⟨-, hframe, hirdy, had, hcbe⟩ := h
  constructor <;> simp [Signals.wires_setBit, hframe, hirdy, had, hcbe]

theorem addressPhase (h : Lines drive req frame irdy ad cbe) (q : Query) :
    Lines (Master.addressPhase q drive) .one .zero irdy (lowPart (Master.address q) 32 64) (lowPart configRead 4 8) := by
  obtain ⟨-, -, hirdy, -, -⟩ := h
  constructor <;> simp [Master.addressPhase, Signals.wires_setBit, Signals.wires_set, hirdy]

theorem dataPhase (h : Lines drive req frame irdy ad cbe) (hwidth : ad.width = 64) :
    Lines (Master.dataPhase drive) req .one .zero (.released 64) (lowPart 0 4 8) := by
  obtain ⟨hreq, -, -, had, -⟩ := h
  unfold Master.dataPhase
  constructor <;> rw [Signals.wires_set]
  · rw [if_neg (by decide), Signals.wires_release_of_ne _ (by decide)]
    simp [Signals.wires_setBit, hreq]
  · rw [if_neg (by decide), Signals.wires_release_of_ne _ (by decide)]
    simp [Signals.wires_setBit]
  · rw [if_neg (by decide), Signals.wires_release_of_ne _ (by decide)]
    simp [Signals.wires_setBit]
  · rw [if_neg (by decide), Signals.wires_release_self]
    simp [Signals.wires_setBit, had, hwidth]
  · rw [if_pos rfl]

theorem close (h : Lines drive req frame irdy ad cbe) : Lines (drive.setBit "IRDY#" .one) req frame .one ad cbe := by
  obtain ⟨hreq, hframe, -, had, hcbe⟩ := h
  constructor <;> simp [Signals.wires_setBit, hreq, hframe, had, hcbe]

theorem releaseAll (h : Lines drive req frame irdy ad cbe) (hwidth : ad.width = 64) (hwidth' : cbe.width = 8) :
    Free (Master.releaseAll drive) := by
  obtain ⟨hreq, hframe, hirdy, had, hcbe⟩ := h
  have hother : ∀ (s : Signals) (name k : String) (width : Nat), k ≠ name →
      (s.release name).wires k width = s.wires k width := fun s name k width hne => s.wires_release_of_ne hne width
  show Free (((((drive.release "FRAME#").release "IRDY#").release "AD").release "C/BE#").release "REQ#")
  refine ⟨Signals.wires_release_self ?_, ?_, ?_, ?_, ?_⟩
  · simp [hother, hreq]
  · rw [hother _ _ _ _ (by decide), hother _ _ _ _ (by decide), hother _ _ _ _ (by decide), hother _ _ _ _ (by decide)]
    exact Signals.wires_release_self (by simp [hframe])
  · rw [hother _ _ _ _ (by decide), hother _ _ _ _ (by decide), hother _ _ _ _ (by decide)]
    exact Signals.wires_release_self (by simp [hother, hirdy])
  · rw [hother _ _ _ _ (by decide), hother _ _ _ _ (by decide)]
    exact Signals.wires_release_self (by simp [hother, had, hwidth])
  · rw [hother _ _ _ _ (by decide)]
    exact Signals.wires_release_self (by simp [hother, hcbe, hwidth'])

end Lines

/-! ### Targets -/

/-- `DEVSEL#` and `TRDY#` of a target, by the answer that it gives. -/
def readyLevel : Option Nat → Level
  | none => .released
  | some _ => .zero

/-- The address wires of a target, by the answer that it gives. -/
def replyWires : Option Nat → Bundle
  | none => .released 64
  | some value => lowPart value 32 64

/-- What a target has on its wires. -/
structure Replies (drive : Signals) (value : Option Nat) : Prop where
  devsel : drive.wires "DEVSEL#" 1 = .ofLevel (readyLevel value)
  trdy : drive.wires "TRDY#" 1 = .ofLevel (readyLevel value)
  ad : drive.wires "AD" 64 = replyWires value

namespace Replies

variable {drive : Signals} {value : Option Nat}

theorem none_empty : Replies .empty none := ⟨rfl, rfl, rfl⟩

theorem claim (t : Target) (register : Nat) :
    Replies (t.claim register).drive (some (if register = 0 then t.id else 0)) := by
  constructor <;> simp [Target.claim, Signals.wires_setBit, Signals.wires_set, readyLevel, replyWires]

theorem complete {t : Target} (h : Replies t.drive value) : Replies t.complete.drive none := by
  obtain ⟨hdevsel, htrdy, had⟩ := h
  have hwidth : (replyWires value).width = 64 := by
    cases value with
    | none => rfl
    | some n => exact width_lowPart n 32 64
  have hother : ∀ (s : Signals) (name k : String) (width : Nat), k ≠ name →
      (s.release name).wires k width = s.wires k width := fun s name k width hne => s.wires_release_of_ne hne width
  show Replies (((t.drive.release "DEVSEL#").release "TRDY#").release "AD") none
  refine ⟨?_, ?_, Signals.wires_release_self ?_⟩
  · rw [hother _ _ _ _ (by decide), hother _ _ _ _ (by decide)]
    exact Signals.wires_release_self (by simp [hdevsel])
  · rw [hother _ _ _ _ (by decide)]
    exact Signals.wires_release_self (by simp [hother, htrdy])
  · simp [hother, had, hwidth]

end Replies

/-! ### Words on the wires -/

theorem dataWord_lowPart {value : Nat} (h : value < 2 ^ 32) : Master.dataWord (lowPart value 32 64) = some value := by
  have hslice : (lowPart value 32 64).slice 0 32 = .ofNat value 32 := by
    rw [lowPart, Bundle.slice_ofNat value (by decide) (by decide), Nat.pow_zero, Nat.div_one]
  have hword : value ≤ maxWord := Nat.le_sub_one_of_lt h
  rw [Master.dataWord, hslice, Bundle.toNat?_ofNat _ (by decide), Nat.mod_eq_of_lt h, Option.filter_some,
    if_pos (decide_eq_true hword)]

theorem command_lowPart {n : Nat} (h : n < 16) : ((lowPart n 4 8).slice 0 4).toNat? = some n := by
  rw [lowPart, Bundle.slice_ofNat n (by decide) (by decide), Nat.pow_zero, Nat.div_one, Bundle.toNat?_ofNat _ (by decide),
    Nat.mod_eq_of_lt (show n < 2 ^ 4 from h)]

/-- A query that a master can be asked for: there are sixteen devices with 256 registers each. -/
structure Query.Valid (q : Query) : Prop where
  target : q.target ≤ 15
  register : q.register < 256

instance (q : Query) : Decidable q.Valid :=
  decidable_of_iff (q.target ≤ 15 ∧ q.register < 256) ⟨fun ⟨ht, hr⟩ => ⟨ht, hr⟩, fun ⟨ht, hr⟩ => ⟨ht, hr⟩⟩

theorem idsel_address {q : Query} (h : q.Valid) {n : Nat} (hn : n < arbiterSlots) :
    (lowPart (Master.address q) 32 64).getD (idselBase + n) = .ofBool (q.target = n) := by
  obtain ⟨htarget, hregister⟩ := h
  have hn : n < 16 := hn
  -- the number of the register does not reach the wires that select a device
  have hlow : ∀ k, 4 * q.register < 2 ^ (idselBase + k) := fun k =>
    Nat.lt_of_lt_of_le (show 4 * q.register < 2 ^ 16 by omega) (Nat.pow_le_pow_right (by decide) (Nat.le_add_right _ _))
  have hbit : (Master.address q).testBit (idselBase + n) = decide (q.target = n) := by
    have hor : Master.address q = 2 ^ (idselBase + q.target) ||| 4 * q.register := by
      rw [Master.address, Nat.one_shiftLeft]
      simpa using Nat.two_pow_add_eq_or_of_lt (hlow q.target) 1
    rw [hor, Nat.testBit_or, Nat.testBit_two_pow, Nat.testBit_lt_two_pow (hlow n), Bool.or_false]
    exact decide_eq_decide.2 Nat.add_left_cancel_iff
  have hwire : idselBase + n < 32 := show 16 + n < 32 by omega
  rw [lowPart, Bundle.getD_resize _ _ (Nat.lt_trans hwire (by decide)), Bundle.getD_ofNat _ hwire, hbit]

/-- The target is told the number of the register up to a multiple of 64. -/
theorem register_address (q : Query) :
    Target.register (lowPart (Master.address q) 32 64) = q.register % 64 := by
  have hquotient : Master.address q / 2 ^ 2 % 2 ^ 6 = q.register % 64 := by
    have hpow : 2 ^ (idselBase + q.target) = 4 * (64 * 2 ^ (8 + q.target)) := by
      rw [idselBase, show 16 + q.target = 2 + (6 + (8 + q.target)) by omega, Nat.pow_add 2 2, Nat.pow_add 2 6]
    rw [Master.address, Nat.one_shiftLeft, hpow]
    omega
  rw [Target.register, lowPart, Bundle.slice_ofNat _ (by decide) (by decide), Bundle.toNat?_ofNat _ (by decide), hquotient]
  rfl

end Pci

end Lockstep
