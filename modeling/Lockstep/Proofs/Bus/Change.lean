import Lockstep.Proofs.Bus.Attempt
import Lockstep.Proofs.Bus.Fit
import Lockstep.Proofs.Bus.Roster
/-!
# What an operation does to one participant

`change_perform` is the one place where the operations are told apart for a single participant: an operation admits it,
takes an offer of it, retires it, or leaves all that matters to the engine as it was (`Slot.Kept`). What holds of a
participant along a course is proved from these four cases.
-/

namespace Lockstep

/-- The slot is the same in all that matters to an engine: who has it, what was agreed and what is driven. -/
structure Slot.Kept (s s' : Slot) : Prop where
  device : s'.device = s.device
  options : s'.options = s.options
  widths : s'.widths = s.widths
  driven : s'.driven = s.driven
  finished : s'.finished = s.finished
  claimed : s'.claimed = s.claimed

namespace Slot

theorem Kept.refl (s : Slot) : s.Kept s := ⟨rfl, rfl, rfl, rfl, rfl, rfl⟩

theorem Kept.trans {s s' s'' : Slot} (h : s.Kept s') (h' : s'.Kept s'') : s.Kept s'' :=
  ⟨h'.device.trans h.device, h'.options.trans h.options, h'.widths.trans h.widths, h'.driven.trans h.driven,
    h'.finished.trans h.finished, h'.claimed.trans h.claimed⟩

theorem kept_unbind (s : Slot) : s.Kept s.unbind := ⟨rfl, rfl, rfl, rfl, rfl, rfl⟩

theorem kept_rearm (s : Slot) : s.Kept s.rearm := by
  unfold rearm
  split
  · exact .refl s
  · exact ⟨rfl, rfl, rfl, rfl, rfl, rfl⟩

theorem kept_of_muted_eq {s s' : Slot} (h : s'.muted = s.muted) : s.Kept s' := by
  rw [eq_of_muted_eq h]
  exact ⟨rfl, rfl, rfl, rfl, rfl, rfl⟩

theorem Kept.drives {s s' : Slot} (h : s.Kept s') (name : String) : s'.drives name = s.drives name := by
  rw [Slot.drives, h.driven, h.widths, Slot.drives]

end Slot

namespace Bus

variable {b : Bus}

/-! ### What an operation means to a participant -/

/-- The signals of the READY that an operation makes the bus accept from participant `i`. -/
def offer? (i : Ident) : Bus × Operation → Option Signals
  | (b, .line j text) =>
    if j = i then
      match b.decode j text, (b.hear j text).1 with
      | .ok (.ready _ signals), .ok (.ok .ready) => some signals
      | _, _ => none
    else none
  | _ => none

/-- The operation retires participant `i`: it finishes, violates the protocol or loses its connection. -/
def retires (i : Ident) : Bus × Operation → Bool
  | (b, .line j text) =>
    j = i && match (b.hear j text).1 with
      | .ok (.ok .finished) | .ok (.error _) => true
      | _ => false
  | (_, .disconnect j) => j = i
  | _ => false

/-- What an operation does to participant `i`, whose slot it finds as `slot`. -/
inductive Change (b : Bus) (i : Ident) (slot : Slot) (op : Operation) : Slot → Prop where
  | admitted {k : ConnectionKey} {name : String} {options : Options} {widths : Widths}
      (greeting : op = .handshake k name options) (admits : b.admits name options = .ok (slot, widths)) :
      Change b i slot op (slot.claim k options widths)
  | offered (time : Time) (signals : Signals) (accepted : offer? i (b, op) = some signals)
      (fits : slot.widths.fault? signals = none) (stays : retires i (b, op) = false)
      (unfinished : slot.finished = false) : Change b i slot op (slot.offer time signals)
  | left (retired : retires i (b, op) = true) : Change b i slot op slot.park.unbind
  | kept {slot' : Slot} (silent : offer? i (b, op) = none)
      (stays : retires i (b, op) = true → slot.finished = true) (same : slot.Kept slot') : Change b i slot op slot'

/-! ### The slots after an operation -/

section Slots

variable {i : Ident} {slot : Slot}

theorem change_elsewhere {j : Ident} {f : Slot → Slot} {op : Operation} (hs : b.participants.get? i = some slot)
    (hj : i ≠ j) (silent : offer? i (b, op) = none) (stays : retires i (b, op) = false) :
    ∃ slot', (b.modifySlot j f).participants.get? i = some slot' ∧ b.Change i slot op slot' := by
  refine ⟨slot, ?_, .kept silent (fun h => ?_) (.refl slot)⟩
  · rw [get?_modifySlot, if_neg hj, hs]
  · rw [stays] at h
    cases h

theorem get?_modifySlot_self (hs : b.participants.get? i = some slot) (f : Slot → Slot) :
    (b.modifySlot i f).participants.get? i = some (f slot) := by
  rw [get?_modifySlot, if_pos rfl, hs]
  rfl

theorem change_handshake (hb : b.Sound) (hs : b.participants.get? i = some slot) (k : ConnectionKey) (name : String)
    (options : Options) : ∃ slot', (b.perform (.handshake k name options)).participants.get? i = some slot' ∧
      b.Change i slot (.handshake k name options) slot' := by
  rcases b.handshake_spec k name options with ⟨_, _, heq⟩ | ⟨claimed, widths, hadmits, heq⟩
  · rw [perform, heq]
    exact ⟨slot, hs, .kept rfl (fun h => by cases h) (.refl slot)⟩
  · rw [perform, heq]
    obtain ⟨-, hclaimed, -⟩ := admits_spec hb hadmits
    by_cases hi : i = claimed.ident
    · subst hi
      rw [hclaimed] at hs
      cases hs
      exact ⟨_, get?_modifySlot_self hclaimed _, .admitted rfl hadmits⟩
    · exact change_elsewhere hs hi rfl rfl

theorem change_line {j : Ident} {speaker : Slot} (hj : b.participants.get? j = some speaker)
    (hs : b.participants.get? i = some slot) (text : String) :
    ∃ slot', (b.perform (.line j text)).participants.get? i = some slot' ∧
      b.Change i slot (.line j text) slot' := by
  by_cases hij : i = j
  · subst hij
    rw [hj] at hs
    cases hs
    show ∃ slot', (b.hear i text).2.participants.get? i = some slot' ∧ _
    rcases hear_spec hj text with ⟨cause, hdecode, heq⟩ | ⟨m, outcome, b', hdecode, heq, hreceipt⟩
    · rw [heq]
      refine ⟨slot, hj, .kept ?_ (fun h => ?_) (.refl slot)⟩
      · simp [offer?, hdecode]
      · simp [retires, heq] at h
    · rw [heq]
      cases hreceipt with
      | offered time signals unfinished unready =>
        have hfits := (fault?_of_decode hj hdecode).2
        refine ⟨_, get?_modifySlot_self hj _, .offered time signals ?_ hfits ?_ unfinished⟩
        · simp [offer?, hdecode, heq]
        · simp [retires, heq]
      | left =>
        refine ⟨_, get?_modifySlot_self hj _, .left ?_⟩
        simp [retires, heq]
      | violated =>
        refine ⟨_, get?_modifySlot_self hj _, .left ?_⟩
        simp [retires, heq]
  · have hother : offer? i (b, .line j text) = none := by simp [offer?, Ne.symm hij]
    have hstays : retires i (b, .line j text) = false := by simp [retires, Ne.symm hij]
    show ∃ slot', (b.hear j text).2.participants.get? i = some slot' ∧ _
    rcases hear_spec hj text with ⟨_, -, heq⟩ | ⟨_, _, _, -, heq, hreceipt⟩
    · rw [heq]
      exact ⟨slot, hs, .kept hother (fun h => by rw [hstays] at h; cases h) (.refl slot)⟩
    · rw [heq]
      cases hreceipt with
      | offered => exact change_elsewhere hs hij hother hstays
      | left => exact change_elsewhere hs hij hother hstays
      | violated => exact change_elsewhere hs hij hother hstays

theorem change_disconnect {j : Ident} {leaver : Slot} (hj : b.participants.get? j = some leaver)
    (hs : b.participants.get? i = some slot) :
    ∃ slot', (b.perform (.disconnect j)).participants.get? i = some slot' ∧
      b.Change i slot (.disconnect j) slot' := by
  show ∃ slot', (b.disconnect j).2.participants.get? i = some slot' ∧ _
  by_cases hij : i = j
  · subst hij
    rw [hj] at hs
    cases hs
    cases hf : slot.finished with
    | false =>
      rw [disconnect_of_live hj hf]
      exact ⟨_, get?_modifySlot_self hj _, .left (by simp [retires])⟩
    | true =>
      rw [disconnect_of_finished hj hf]
      exact ⟨_, get?_modifySlot_self hj _, .kept rfl (fun _ => hf) slot.kept_unbind⟩
  · have hstays : retires i (b, .disconnect j) = false := by simp [retires, Ne.symm hij]
    cases hf : leaver.finished with
    | false =>
      rw [disconnect_of_live hj hf]
      exact change_elsewhere hs hij rfl hstays
    | true =>
      rw [disconnect_of_finished hj hf]
      exact change_elsewhere hs hij rfl hstays

theorem change_advance (hs : b.participants.get? i = some slot) :
    ∃ slot', (b.perform .advance).participants.get? i = some slot' ∧ b.Change i slot .advance slot' := by
  have hkept : ∀ {slot' : Slot}, slot.Kept slot' → b.Change i slot .advance slot' :=
    fun h => .kept rfl (fun h => by cases h) h
  have hmuted : ∀ {ps : Participants}, ps.muted = b.participants.muted →
      ∃ slot', ps.get? i = some slot' ∧ slot.Kept slot' := by
    intro ps hps
    obtain ⟨slot', hs', hm⟩ := Participants.exists_of_muted_eq hps.symm hs
    exact ⟨slot', hs', Slot.kept_of_muted_eq hm.symm⟩
  have hspec := b.advance_spec
  show ∃ slot', b.advance.2.1.participants.get? i = some slot' ∧ _
  generalize b.advance.2.1 = b' at hspec
  generalize b.advance.1 = outcome at hspec
  cases hspec with
  | waiting => exact ⟨slot, hs, hkept (.refl slot)⟩
  | failed cause engine ps clock assembled live ready shown timing =>
    obtain ⟨slot', hs', hsame⟩ := hmuted shown
    exact ⟨slot', hs', hkept hsame⟩
  | stepped engine ps time live ready shown sum =>
    obtain ⟨slot', hs', hsame⟩ := hmuted shown
    refine ⟨slot'.rearm, ?_, hkept (hsame.trans slot'.kept_rearm)⟩
    rw [Participants.get?_each, hs']
    rfl

theorem change_tearDown (hs : b.participants.get? i = some slot) :
    ∃ slot', (b.perform .tearDown).participants.get? i = some slot' ∧ b.Change i slot .tearDown slot' := by
  show ∃ slot', b.tearDown.2.1.participants.get? i = some slot' ∧ _
  unfold Bus.tearDown
  split
  · exact ⟨slot, hs, .kept rfl (fun h => by cases h) (.refl slot)⟩
  · refine ⟨slot.unbind, ?_, .kept rfl (fun h => by cases h) slot.kept_unbind⟩
    rw [Participants.get?_each, hs]
    rfl

/-- **One operation, one participant.** The slot of a participant after an operation. -/
theorem change_perform (hb : b.Sound) {op : Operation} (huses : b.Uses op)
    (hs : b.participants.get? i = some slot) :
    ∃ slot', (b.perform op).participants.get? i = some slot' ∧ b.Change i slot op slot' := by
  cases op with
  | handshake k name options => exact change_handshake hb hs k name options
  | line j text =>
    obtain ⟨speaker, hj, -⟩ := huses
    exact change_line hj hs text
  | disconnect j =>
    obtain ⟨leaver, hj, -⟩ := huses
    exact change_disconnect hj hs
  | advance => exact change_advance hs
  | tearDown => exact change_tearDown hs

theorem exists_change (hb : b.Sound) {op : Operation} (huses : b.Uses op) {slot' : Slot}
    (hs' : (b.perform op).participants.get? i = some slot') :
    ∃ slot, b.participants.get? i = some slot ∧ b.Change i slot op slot' := by
  have hroster := congrArg (fun r => r.get? i) (roster_perform b op)
  simp only [Participants.get?_roster, hs'] at hroster
  obtain ⟨slot, hs, -⟩ := Option.map_eq_some_iff.1 hroster.symm
  obtain ⟨slot'', hs'', hchange⟩ := change_perform hb huses hs
  rw [hs'] at hs''
  cases hs''
  exact ⟨slot, hs, hchange⟩

end Slots

end Bus

end Lockstep
