import Lockstep.Proofs.Bus.Anonymous
import Lockstep.Proofs.Bus.Run
import Lockstep.Proofs.Bus.Delivery
/-!
# Renaming the connections of a bus

The numbers of its connections mean nothing to a bus. If they are exchanged for others (`Bus.rekeyed`), handshakes,
lines and steps have the same results, the bus becomes the renamed one, and the same messages go out under the new
numbers (`admits_rekeyed`, `hear_rekeyed`, `advance_rekeyed`).

Handshakes and lines touch one slot, so there the renaming is simply carried along. A step goes through the engine of
the protocol; for it we use that the bus without its connections steps in the same way (`Bus.advance_anonymous`) and
that a step changes nobody's connection, because these two determine the bus (`Bus.eq_of_anonymous_eq`).
-/

namespace Lockstep

variable (ρ : ConnectionKey → ConnectionKey)

def Slot.rekeyed (s : Slot) : Slot := { s with connection := s.connection.map ρ }

namespace Participants

def rekeyed (ps : Participants) : Participants := ps.each (·.rekeyed ρ)

variable (ps : Participants)

theorem get?_rekeyed (i : Ident) : (ps.rekeyed ρ).get? i = (ps.get? i).map (·.rekeyed ρ) := get?_each _ _ _

theorem modify_rekeyed {f g : Slot → Slot} (h : ∀ s, (f s).rekeyed ρ = g (s.rekeyed ρ)) (i : Ident) :
    rekeyed ρ (ps.modify i f) = SortedMap.modify (ps.rekeyed ρ) i g := Participants.each_modify h ps i

theorem allFinished_rekeyed : (ps.rekeyed ρ).allFinished = ps.allFinished :=
  Participants.allFinished_each (f := Slot.rekeyed ρ) (fun _ => rfl) ps

theorem anonymous_rekeyed : (ps.rekeyed ρ).anonymous = ps.anonymous := each_each _ _ _

theorem attached_rekeyed : (ps.rekeyed ρ).attached = ps.attached.map fun a => (a.1, ρ a.2) := by
  unfold attached
  rw [List.map_filterMap]
  show (ps.entries.map fun e => (e.1, e.2.rekeyed ρ)).filterMap _ = _
  rw [List.filterMap_map]
  refine List.filterMap_congr fun e _ => ?_
  show (if e.2.finished then none else (e.2.connection.map ρ).map fun k => (e.1, k)) = _
  split
  · rfl
  · cases e.2.connection <;> rfl

theorem shown_rekeyed (i : Ident) : (ps.rekeyed ρ).shown i = ps.shown i := by
  have houtgoing : ∀ s : Slot, (s.rekeyed ρ).outgoing = s.outgoing := fun _ => rfl
  exact shown_each houtgoing ps i

end Participants

def Delivery.rekeyed (d : Delivery) : Delivery := (ρ d.1, d.2)

def Advance.rekeyed : Advance → Advance
  | .stepped ds => .stepped (ds.map (Delivery.rekeyed ρ))
  | outcome => outcome

namespace Bus

def rekeyed (b : Bus) : Bus := { b with participants := b.participants.rekeyed ρ }

variable (b : Bus)

theorem get?_rekeyed (i : Ident) :
    (b.rekeyed ρ).participants.get? i = (b.participants.get? i).map (·.rekeyed ρ) :=
  b.participants.get?_rekeyed ρ i

theorem holds_rekeyed {i : Ident} {j : ConnectionKey} :
    (b.rekeyed ρ).Holds i j ↔ ∃ k, b.Holds i k ∧ ρ k = j := by
  unfold Holds
  rw [get?_rekeyed]
  constructor
  · rintro ⟨slot', hslot', hj⟩
    obtain ⟨slot, hslot, rfl⟩ := Option.map_eq_some_iff.1 hslot'
    obtain ⟨k, hk, hρ⟩ := Option.map_eq_some_iff.1 hj
    exact ⟨k, ⟨slot, hslot, hk⟩, hρ⟩
  · rintro ⟨k, ⟨slot, hslot, hk⟩, rfl⟩
    refine ⟨slot.rekeyed ρ, by rw [hslot, Option.map_some], ?_⟩
    rw [Slot.rekeyed, hk, Option.map_some]

theorem modifySlot_rekeyed {f g : Slot → Slot} (h : ∀ s, (f s).rekeyed ρ = g (s.rekeyed ρ)) (i : Ident) :
    (b.modifySlot i f).rekeyed ρ = (b.rekeyed ρ).modifySlot i g := by
  show { b with participants := Participants.rekeyed ρ (b.participants.modify i f) } = _
  rw [Participants.modify_rekeyed ρ _ h]
  rfl

theorem eq_of_anonymous_eq {b b' : Bus} (h : b.anonymous = b'.anonymous)
    (hholds : ∀ i k, b.Holds i k ↔ b'.Holds i k) : b = b' := by
  have hparticipants : b.participants.anonymous = b'.participants.anonymous := congrArg Bus.participants h
  have hsame : b.participants = b'.participants := by
    refine SortedMap.ext_get? fun i => ?_
    have hget := congrArg (fun ps => SortedMap.get? ps i) hparticipants
    simp only [Participants.get?_anonymous] at hget
    have hi := hholds i
    unfold Holds at hi
    cases hs : b.participants.get? i with
    | none =>
      rw [hs] at hget
      exact (Option.map_eq_none_iff.1 hget.symm).symm
    | some s =>
      rw [hs] at hget
      obtain ⟨s', hs', heq⟩ := Option.map_eq_some_iff.1 hget.symm
      rw [hs, hs'] at hi
      have hconnection : s.connection = s'.connection := Option.ext fun k => by simpa using hi k
      rw [hs']
      congr 1
      cases s
      cases s'
      simp_all [Slot.unbind]
  cases b
  cases b'
  simp only [anonymous, Bus.mk.injEq] at h hsame ⊢
  exact ⟨h.1, hsame, h.2.2⟩

/-! ### Handshakes and lines -/

theorem admits_rekeyed (name : String) (options : Options) :
    (b.rekeyed ρ).admits name options = (b.admits name options).map fun found => (found.1.rekeyed ρ, found.2) :=
  admits_each (f := Slot.rekeyed ρ) (fun _ => rfl) (fun _ => rfl) b name options

theorem retire_rekeyed (i : Ident) : (b.retire i).rekeyed ρ = (b.rekeyed ρ).retire i := by
  have hslot : ∀ s : Slot, s.park.unbind.rekeyed ρ = (s.rekeyed ρ).park.unbind := fun _ => rfl
  exact b.modifySlot_rekeyed ρ hslot i

theorem decode_rekeyed (i : Ident) (text : String) : (b.rekeyed ρ).decode i text = b.decode i text :=
  decode_each (f := Slot.rekeyed ρ) (fun _ => rfl) b i text

theorem receive_rekeyed (i : Ident) (m : Message) :
    ((b.rekeyed ρ).receive i m).1 = (b.receive i m).1 ∧
      ((b.rekeyed ρ).receive i m).2.1 = (b.receive i m).2.1.rekeyed ρ := by
  unfold receive
  rw [get?_rekeyed]
  cases b.participants.get? i with
  | none => exact ⟨rfl, rfl⟩
  | some slot =>
    have hjudge : judge (slot.rekeyed ρ) m = judge slot m := by cases m <;> rfl
    simp only [Option.map_some, hjudge]
    cases judge slot m with
    | error reason => exact ⟨rfl, (b.retire_rekeyed ρ i).symm⟩
    | ok received =>
      cases received with
      | finished => exact ⟨rfl, (b.retire_rekeyed ρ i).symm⟩
      | ready =>
        cases m with
        | ready time signals =>
          have hslot : ∀ s : Slot, (s.offer time signals).rekeyed ρ = (s.rekeyed ρ).offer time signals := fun _ => rfl
          exact ⟨rfl, (b.modifySlot_rekeyed ρ hslot i).symm⟩
        | hello | youAre | nak | deliver | finish => exact ⟨rfl, (b.retire_rekeyed ρ i).symm⟩

theorem hear_rekeyed (i : Ident) (text : String) :
    (b.rekeyed ρ).hear i text = ((b.hear i text).1, (b.hear i text).2.rekeyed ρ) := by
  unfold hear
  rw [decode_rekeyed]
  cases b.decode i text with
  | error cause => rfl
  | ok m =>
    obtain ⟨houtcome, hbus⟩ := b.receive_rekeyed ρ i m
    simp only [houtcome, hbus]

/-! ### Steps -/

theorem anonymous_rekeyed : (b.rekeyed ρ).anonymous = b.anonymous := by
  show { b with participants := (b.participants.rekeyed ρ).anonymous } = b.anonymous
  rw [Participants.anonymous_rekeyed]
  rfl

theorem advanced_rekeyed : (b.rekeyed ρ).advance.2.1 = b.advance.2.1.rekeyed ρ := by
  refine eq_of_anonymous_eq ?_ fun i j => ?_
  · rw [← (b.rekeyed ρ).advance_anonymous.2, anonymous_rekeyed, b.advance_anonymous.2, anonymous_rekeyed]
  · rw [(b.rekeyed ρ).advance_spec.holds_iff, holds_rekeyed, holds_rekeyed]
    simp only [b.advance_spec.holds_iff]

theorem advance_rekeyed : (b.rekeyed ρ).advance.1 = b.advance.1.rekeyed ρ := by
  have hsame : (b.rekeyed ρ).advance.1.anonymous = b.advance.1.anonymous := by
    rw [← (b.rekeyed ρ).advance_anonymous.1, anonymous_rekeyed, b.advance_anonymous.1]
  have hbus := b.advanced_rekeyed ρ
  cases h : b.advance.1 with
  | waiting =>
    rw [h] at hsame
    cases h' : (b.rekeyed ρ).advance.1 with
    | waiting => rfl
    | stepped | failed =>
      rw [h'] at hsame
      cases hsame
  | failed cause =>
    rw [h] at hsame
    cases h' : (b.rekeyed ρ).advance.1 with
    | failed cause' =>
      rw [h'] at hsame
      exact hsame
    | waiting | stepped =>
      rw [h'] at hsame
      cases hsame
  | stepped ds =>
    rw [h] at hsame
    cases h' : (b.rekeyed ρ).advance.1 with
    | waiting | failed =>
      rw [h'] at hsame
      cases hsame
    | stepped ds' =>
      have houtgoing := (stepsFrom_of_stepped h').outgoing
      rw [hbus] at houtgoing
      have hattached : (b.rekeyed ρ).participants.attached = b.participants.attached.map fun a => (a.1, ρ a.2) :=
        b.participants.attached_rekeyed ρ
      have hshown : ∀ i, (b.advance.2.1.rekeyed ρ).participants.shown i = b.advance.2.1.participants.shown i :=
        b.advance.2.1.participants.shown_rekeyed ρ
      simp only [Advance.rekeyed, houtgoing, (stepsFrom_of_stepped h).outgoing, hattached, List.map_map]
      congr 1
      refine List.map_congr_left fun a _ => ?_
      simp only [Function.comp_apply, Delivery.rekeyed, hshown]
      rfl

theorem tearDown_rekeyed : (b.rekeyed ρ).tearDown.2.1 = b.tearDown.2.1.rekeyed ρ := by
  have hunbind : (b.participants.rekeyed ρ).each (·.unbind) =
      (Participants.each b.participants (·.unbind)).rekeyed ρ := by
    rw [Participants.rekeyed, Participants.each_each, Participants.rekeyed, Participants.each_each]
    rfl
  unfold tearDown
  rw [show (b.rekeyed ρ).finished = b.finished from rfl]
  split
  · rfl
  · show { b with finished := true, participants := (b.participants.rekeyed ρ).each (·.unbind) } = _
    rw [hunbind]
    rfl

end Bus

end Lockstep
