import Lockstep.Proofs.Bus.Run
/-!
# What participants drive fits what was agreed

The handshake fixes which signals a participant may drive and how wide they are, and every offer is checked against
that before it counts. So at any time the signals that a slot keeps have exactly the agreed names, each at its agreed
width (`Slot.Fits`, `Bus.Course.fitted`). It follows that retiring a participant releases all the wires it was entitled
to, whatever it has offered before (`Slot.Fits.driven_park`).

An offer may leave signals out, and `Signals.over` then keeps the old values; the check looks at the signals that are
mentioned only. That is why the invariant speaks of the names as well as of the widths.
-/

namespace Lockstep

theorem Widths.fault?_eq_none_iff {widths : Widths} {signals : Signals} :
    widths.fault? signals = none ↔ ∀ name v, signals.get? name = some v → widths.get? name = some v.width := by
  have hsignal : ∀ name (v : Bundle), widths.signalFault? name v = none ↔ widths.get? name = some v.width := by
    intro name v
    unfold signalFault?
    cases widths.get? name with
    | none => simp
    | some expected =>
      by_cases hw : v.width = expected
      · simp [hw]
      · simp [hw, Ne.symm hw]
  rw [fault?, List.findSome?_eq_none_iff]
  constructor
  · intro h name v hv
    exact (hsignal name v).1 (h (name, v) (SortedMap.mem_entries_iff.2 hv))
  · intro h e he
    exact (hsignal e.1 e.2).2 (h e.1 e.2 (SortedMap.mem_entries_iff.1 he))

theorem Signals.get?_over (signals base : Signals) (name : String) :
    (signals.over base).get? name = (signals.get? name).or (base.get? name) :=
  SortedMap.get?_insertMany_entries _ _ _

namespace Slot

/-- The signals that are kept have exactly the agreed names, at the agreed widths. -/
def Fits (s : Slot) : Prop := ∀ name, (s.driven.get? name).map Bundle.width = s.widths.get? name

theorem fits_vacant (d : Device) : (vacant d).Fits := fun _ => rfl

theorem fits_claim (s : Slot) (k : ConnectionKey) (options : Options) (widths : Widths) :
    (s.claim k options widths).Fits := by
  intro name
  show ((widths.filled .released).get? name).map Bundle.width = widths.get? name
  rw [Widths.filled, SortedMap.get?_mapValues, Option.map_map]
  cases widths.get? name with
  | none => rfl
  | some w => simp

theorem Fits.offer {s : Slot} (h : s.Fits) {signals : Signals} (hvalid : s.widths.fault? signals = none)
    (time : Time) : (s.offer time signals).Fits := by
  intro name
  show ((signals.over s.driven).get? name).map Bundle.width = s.widths.get? name
  rw [Signals.get?_over]
  cases hv : signals.get? name with
  | none => exact h name
  | some v => exact (Widths.fault?_eq_none_iff.1 hvalid name v hv).symm

theorem Fits.park {s : Slot} (h : s.Fits) : s.park.Fits := by
  intro name
  show ((s.driven.mapValues fun _ v => Bundle.released v.width).get? name).map Bundle.width = s.widths.get? name
  rw [SortedMap.get?_mapValues, Option.map_map, ← h name]
  cases s.driven.get? name <;> simp

theorem Fits.rearm {s : Slot} (h : s.Fits) : s.rearm.Fits := by
  unfold Slot.rearm
  split
  · exact h
  · exact h

theorem Fits.of_muted_eq {s s' : Slot} (hs : s.Fits) (h : s'.muted = s.muted) : s'.Fits := by
  rw [eq_of_muted_eq h]
  exact hs

theorem Fits.width_drives {s : Slot} (h : s.Fits) {name : String} {width : Nat}
    (hwidth : s.widths.get? name = some width) : (s.drives name).width = width := by
  have hdriven := h name
  rw [hwidth] at hdriven
  obtain ⟨v, hv, hvwidth⟩ := Option.map_eq_some_iff.1 hdriven
  rw [drives, hv]
  exact hvwidth

theorem Fits.driven_park {s : Slot} (h : s.Fits) : s.park.driven = s.widths.filled .released := by
  refine SortedMap.ext_get? fun name => ?_
  show (s.driven.mapValues fun _ v => Bundle.released v.width).get? name = _
  rw [SortedMap.get?_mapValues, Widths.filled, SortedMap.get?_mapValues, ← h name, Option.map_map]
  rfl

end Slot

namespace Bus

/-- What each participant drives fits what was agreed with it. -/
def Fitted (b : Bus) : Prop := ∀ i slot, b.participants.get? i = some slot → slot.Fits

theorem fitted_ofConfig {c : BusConfig} {b : Bus} (h : ofConfig c = .ok b) : b.Fitted := by
  intro i slot hs
  obtain ⟨-, engine, -, rfl⟩ := ofConfig_spec h
  obtain ⟨d, -, rfl, -⟩ := vacant_of_ofDevices hs
  exact Slot.fits_vacant d

theorem Fitted.modifySlot {b : Bus} (hb : b.Fitted) {i : Ident} {f : Slot → Slot}
    (hf : ∀ s, b.participants.get? i = some s → s.Fits → (f s).Fits) : (b.modifySlot i f).Fitted := by
  intro j slot hj
  rw [get?_modifySlot] at hj
  split at hj
  · next hji =>
    subst hji
    obtain ⟨s, hs, rfl⟩ := Option.map_eq_some_iff.1 hj
    exact hf s hs (hb j s hs)
  · exact hb j slot hj

theorem Fitted.retire {b : Bus} (hb : b.Fitted) (i : Ident) : (b.retire i).Fitted :=
  hb.modifySlot fun _ _ h => h.park

theorem Fitted.of_muted_eq {b b' : Bus} (hb : b.Fitted) (h : b'.participants.muted = b.participants.muted) :
    b'.Fitted := by
  intro i slot' hs'
  obtain ⟨slot, hs, hm⟩ := Participants.exists_of_muted_eq h hs'
  exact (hb i slot hs).of_muted_eq hm

theorem Fitted.each {b : Bus} (hb : b.Fitted) {f : Slot → Slot} (hf : ∀ s : Slot, s.Fits → (f s).Fits) :
    Fitted { b with participants := b.participants.each f } := by
  intro i slot' hs'
  rw [Participants.get?_each] at hs'
  obtain ⟨slot, hs, rfl⟩ := Option.map_eq_some_iff.1 hs'
  exact hf slot (hb i slot hs)

theorem Fitted.advanced {b b' : Bus} {outcome : Advance} (hb : b.Fitted) (h : b.Advanced outcome b') :
    b'.Fitted := by
  cases h with
  | waiting => exact hb
  | failed cause engine ps clock assembled live ready shown timing => exact hb.of_muted_eq shown
  | stepped engine ps time live ready shown sum =>
    have hshown : Fitted { b with participants := ps } := hb.of_muted_eq shown
    exact hshown.each fun _ h => h.rearm

theorem Fitted.tearDown {b : Bus} (hb : b.Fitted) : b.tearDown.2.1.Fitted := by
  unfold Bus.tearDown
  split
  · exact hb
  · exact hb.each fun _ h => h

theorem Fitted.disconnect {b : Bus} (hb : b.Fitted) (i : Ident) : (b.disconnect i).2.Fitted := by
  unfold Bus.disconnect
  split
  · exact hb
  · split
    · exact hb.modifySlot fun _ _ h => h
    · exact hb.retire i

theorem fault?_of_decode {b : Bus} {i : Ident} {slot : Slot} (hs : b.participants.get? i = some slot)
    {text : String} {time : Time} {signals : Signals} (h : b.decode i text = .ok (.ready time signals)) :
    Message.decode text = .ok (.ready time signals) ∧ slot.widths.fault? signals = none := by
  change (Message.decode text).bind (b.checkOffer i) = _ at h
  cases hm : Message.decode text with
  | error cause =>
    rw [hm] at h
    cases h
  | ok m =>
    rw [hm] at h
    change b.checkOffer i m = _ at h
    cases m with
    | ready time' signals' =>
      simp only [checkOffer, hs] at h
      split at h
      · cases h
      · next hfault =>
        cases h
        exact ⟨rfl, hfault⟩
    | hello | youAre | nak | deliver | finish => cases h

theorem Fitted.hear {b : Bus} (hb : b.Fitted) (i : Ident) (text : String) : (b.hear i text).2.Fitted := by
  cases hs : b.participants.get? i with
  | none =>
    -- nobody has this number, so whatever the line says changes nothing
    unfold Bus.hear
    cases b.decode i text with
    | error cause => exact hb
    | ok m =>
      have hsame : (b.receive i m).2.1 = b := by rw [receive, hs]
      show (b.receive i m).2.1.Fitted
      rw [hsame]
      exact hb
  | some slot =>
    rcases hear_spec hs text with ⟨cause, -, heq⟩ | ⟨m, outcome, b', hdecode, heq, hreceipt⟩
    · rw [heq]
      exact hb
    · rw [heq]
      cases hreceipt with
      | offered time signals =>
        refine hb.modifySlot fun s hs' hfits => hfits.offer ?_ time
        rw [hs] at hs'
        cases hs'
        exact (fault?_of_decode hs hdecode).2
      | left => exact hb.retire i
      | violated => exact hb.retire i

theorem Fitted.perform {b : Bus} (hb : b.Fitted) (op : Operation) : (b.perform op).Fitted := by
  cases op with
  | handshake k name options =>
    rcases b.handshake_spec k name options with ⟨_, _, h⟩ | ⟨slot, widths, _, h⟩
    · rw [Bus.perform, h]
      exact hb
    · rw [Bus.perform, h]
      exact hb.modifySlot fun s _ _ => s.fits_claim k options widths
  | line i text => exact hb.hear i text
  | disconnect i => exact hb.disconnect i
  | advance => exact hb.advanced b.advance_spec
  | tearDown => exact hb.tearDown

theorem Course.fitted {start b : Bus} {trace : Trace} (hstart : start.Fitted) (h : Course start trace b) :
    b.Fitted := by
  induction h with
  | nil => exact hstart
  | snoc _ op ih => exact ih.perform op

theorem Run.fitted {start b : Bus} {trace : Trace} (hstart : start.Fitted) (h : Run start trace b) : b.Fitted :=
  h.course.1.fitted hstart

end Bus

end Lockstep
