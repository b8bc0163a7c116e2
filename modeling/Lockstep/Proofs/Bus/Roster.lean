import Lockstep.Proofs.Bus.Anonymous
import Lockstep.Proofs.Bus.Run
/-!
# The roster of a bus

The devices of a configuration that is not at fault differ in their names and in their numbers. Each of them has its
slot from the start, and nothing that happens to a bus gives a slot to another device (`Participants.roster`), so
at any time the slot that goes by the name of a device is the one that goes by its number (`named?_eq`).
-/

namespace Lockstep

/-- Devices that cannot be taken for each other. -/
def Device.Distinct (d e : Device) : Prop := d.name ≠ e.name ∧ d.ident ≠ e.ident

namespace BusConfig

theorem distinct_of_clash? {bus : String} {d e : Device} (h : clash? bus d e = none) : e.Distinct d := by
  unfold clash? at h
  split at h
  · cases h
  · next hname =>
    split at h
    · cases h
    · next hident => exact ⟨hname, hident⟩

theorem distinct_of_devicesFault? {bus : String} {earlier ds : List Device}
    (h : devicesFault? bus earlier ds = none) :
    (∀ e ∈ earlier, ∀ d ∈ ds, e.Distinct d) ∧ ds.Pairwise Device.Distinct := by
  induction ds generalizing earlier with
  | nil => exact ⟨fun _ _ _ hd => absurd hd List.not_mem_nil, .nil⟩
  | cons d ds ih =>
    unfold devicesFault? at h
    split at h
    · cases h
    · split at h
      · cases h
      · next hnone =>
        obtain ⟨hearlier, hpairwise⟩ := ih h
        refine ⟨fun e he d' hd' => ?_, List.pairwise_cons.2 ⟨fun d' hd' => ?_, hpairwise⟩⟩
        · rcases List.mem_cons.1 hd' with rfl | hd'
          · exact distinct_of_clash? (List.findSome?_eq_none_iff.1 hnone e he)
          · exact hearlier e (by simp [he]) d' hd'
        · exact hearlier d (by simp) d' hd'

theorem distinct_of_fault? {c : BusConfig} (h : c.fault? = none) : c.devices.Pairwise Device.Distinct := by
  unfold fault? at h
  split at h
  · cases h
  · split at h
    · cases h
    · split at h
      · cases h
      · split at h
        · cases h
        · next hdevices => exact (distinct_of_devicesFault? hdevices).2

end BusConfig

namespace Participants

def roster (ps : Participants) : SortedMap Ident Device := ps.mapValues fun _ s => s.device

theorem get?_roster (ps : Participants) (i : Ident) : ps.roster.get? i = (ps.get? i).map (·.device) :=
  SortedMap.get?_mapValues _ _ _

theorem roster_each {f : Slot → Slot} (h : ∀ s, (f s).device = s.device) (ps : Participants) :
    roster (ps.each f) = ps.roster := by
  refine SortedMap.ext_get? fun i => ?_
  rw [get?_roster, get?_each, get?_roster]
  cases ps.get? i <;> simp [h]

theorem roster_anonymous (ps : Participants) : roster ps.anonymous = ps.roster := by
  have hdevice : ∀ s : Slot, s.unbind.device = s.device := fun _ => rfl
  exact roster_each hdevice ps

theorem roster_modify {ps : Participants} {i : Ident} {f : Slot → Slot}
    (h : ∀ s, ps.get? i = some s → (f s).device = s.device) : roster (ps.modify i f) = ps.roster := by
  refine SortedMap.ext_get? fun j => ?_
  rw [get?_roster, SortedMap.get?_modify, get?_roster]
  split
  · next hj =>
    subst hj
    cases hs : ps.get? j with
    | none => rfl
    | some s => simp [h s hs]
  · rfl

theorem roster_of_muted_eq {ps ps' : Participants} (h : ps'.muted = ps.muted) : ps'.roster = ps.roster := by
  have hmuted : ∀ qs : Participants, roster qs.muted = qs.roster := by
    intro qs
    have hdevice : ∀ s : Slot, s.muted.device = s.device := fun _ => rfl
    exact roster_each hdevice qs
  rw [← hmuted ps', h, hmuted]

/-- The devices of a list have their slots, and nobody else has. -/
def Staffed (devices : List Device) (ps : Participants) : Prop :=
  devices.Pairwise Device.Distinct ∧ (∀ d ∈ devices, ps.roster.get? d.ident = some d) ∧
    ∀ i d, ps.roster.get? i = some d → d ∈ devices ∧ d.ident = i

variable {devices : List Device} {ps : Participants}

theorem Staffed.of_roster_eq (h : Staffed devices ps) {ps' : Participants} (heq : ps'.roster = ps.roster) :
    Staffed devices ps' := by
  rw [Staffed, heq]
  exact h

theorem Staffed.slot (h : Staffed devices ps) {d : Device} (hd : d ∈ devices) :
    ∃ slot, ps.get? d.ident = some slot ∧ slot.device = d := by
  have hget := h.2.1 d hd
  rw [get?_roster] at hget
  obtain ⟨slot, hslot, heq⟩ := Option.map_eq_some_iff.1 hget
  exact ⟨slot, hslot, heq⟩

theorem Staffed.device (h : Staffed devices ps) {i : Ident} {slot : Slot} (hslot : ps.get? i = some slot) :
    slot.device ∈ devices ∧ slot.ident = i :=
  h.2.2 i slot.device (by rw [get?_roster, hslot]; rfl)

theorem Staffed.eq_of_ident_eq (h : Staffed devices ps) {d e : Device} (hd : d ∈ devices) (he : e ∈ devices)
    (heq : d.ident = e.ident) : d = e := by
  have hd' := h.2.1 d hd
  rw [heq, h.2.1 e he] at hd'
  exact (Option.some.inj hd').symm

theorem Staffed.eq_of_name_eq (h : Staffed devices ps) {d e : Device} (hd : d ∈ devices) (he : e ∈ devices)
    (heq : d.name = e.name) : d = e := by
  have hforward : devices.Pairwise fun x y => x.name = y.name → x = y :=
    h.1.imp fun hne heq => absurd heq hne.1
  have hbackward : devices.Pairwise fun x y => y.name = x.name → y = x :=
    h.1.imp fun hne heq => absurd heq.symm hne.1
  exact hforward.forall_of_forall_of_flip (fun _ _ _ => rfl) hbackward hd he heq

theorem Staffed.named?_eq (h : Staffed devices ps) {d : Device} (hd : d ∈ devices) :
    ps.named? d.name = ps.get? d.ident := by
  obtain ⟨slot, hslot, hdevice⟩ := h.slot hd
  rw [hslot]
  cases hfind : ps.named? d.name with
  | none =>
    have hmem : slot ∈ ps.values := SortedMap.mem_values_iff.2 ⟨_, hslot⟩
    have hname := List.find?_eq_none.1 hfind slot hmem
    rw [Slot.name, hdevice] at hname
    simp at hname
  | some s =>
    obtain ⟨i, hi⟩ := SortedMap.mem_values_iff.1 (List.mem_of_find?_eq_some hfind)
    have hfound := List.find?_some hfind
    have hname : s.device.name = d.name := of_decide_eq_true hfound
    obtain ⟨hmem, hident⟩ := h.device hi
    have hsame := h.eq_of_name_eq hmem hd hname
    rw [← hident, Slot.ident, hsame, hslot] at hi
    rw [hi]

theorem Staffed.devices_perm (h : Staffed devices ps) : (ps.values.map (·.device)).Perm devices := by
  have hroster : ps.values.map (·.device) = ps.roster.values := by
    rw [roster, SortedMap.values_mapValues, SortedMap.values, List.map_map]
    rfl
  have hidents : ps.roster.values.map (·.ident) = ps.roster.keys := by
    simp only [SortedMap.values, SortedMap.keys, List.map_map]
    exact List.map_congr_left fun e he => (h.2.2 e.1 e.2 (SortedMap.mem_entries_iff.1 he)).2
  have hslots : ps.roster.values.Nodup := by
    -- the numbers are in order
    apply List.Nodup.of_map (·.ident)
    rw [hidents]
    exact List.pairwise_map.2 (ps.roster.sorted.imp fun hlt => UInt32.ne_of_lt hlt)
  have hdevices : devices.Nodup := h.1.imp fun hne heq => hne.1 (congrArg _ heq)
  rw [hroster]
  refine (List.perm_ext_iff_of_nodup hslots hdevices).2 fun d => ?_
  rw [SortedMap.mem_values_iff]
  constructor
  · rintro ⟨i, hi⟩
    exact (h.2.2 i d hi).1
  · intro hd
    exact ⟨d.ident, h.2.1 d hd⟩

theorem Staffed.size_eq (h : Staffed devices ps) : ps.size = devices.length := by
  simpa [SortedMap.size, SortedMap.values] using h.devices_perm.length_eq

theorem Staffed.exists_slot_iff (h : Staffed devices ps) {P : Slot → Prop} {Q : Device → Prop}
    (hsame : ∀ i slot, ps.get? i = some slot → (P slot ↔ Q slot.device)) :
    (∃ slot ∈ ps.values, P slot) ↔ ∃ d ∈ devices, Q d := by
  constructor
  · rintro ⟨slot, hslot, hP⟩
    obtain ⟨i, hi⟩ := SortedMap.mem_values_iff.1 hslot
    exact ⟨slot.device, (h.device hi).1, (hsame i slot hi).1 hP⟩
  · rintro ⟨d, hd, hQ⟩
    obtain ⟨slot, hslot, rfl⟩ := h.slot hd
    exact ⟨slot, SortedMap.mem_values_iff.2 ⟨_, hslot⟩, (hsame _ slot hslot).2 hQ⟩

theorem Staffed.map_perm {α : Type} (h : Staffed devices ps) (q : Device → Bool) {f : Slot → α} {g : Device → α}
    (hsame : ∀ i slot, ps.get? i = some slot → q slot.device = true → f slot = g slot.device) :
    ((ps.values.filter fun s => q s.device).map f).Perm ((devices.filter q).map g) := by
  have hslots : (ps.values.filter fun s => q s.device).map f = ((ps.values.map (·.device)).filter q).map g := by
    rw [List.filter_map, List.map_map]
    refine List.map_congr_left fun slot hslot => ?_
    obtain ⟨hmem, hq⟩ := List.mem_filter.1 hslot
    obtain ⟨i, hi⟩ := SortedMap.mem_values_iff.1 hmem
    exact hsame i slot hi hq
  rw [hslots]
  exact (h.devices_perm.filter q).map g

theorem staffed_ofDevices (h : devices.Pairwise Device.Distinct) : Staffed devices (ofDevices devices) := by
  refine ⟨h, fun d hd => ?_, fun i d hroster => ?_⟩
  · have hentries : (devices.map fun d => (d.ident, Slot.vacant d)).Pairwise fun a b => a.1 ≠ b.1 :=
      List.pairwise_map.2 (h.imp And.right)
    have hslot := SortedMap.get?_ofList_of_mem hentries (List.mem_map.2 ⟨d, hd, rfl⟩)
    rw [get?_roster, ofDevices, hslot]
    rfl
  · rw [get?_roster] at hroster
    obtain ⟨slot, hslot, rfl⟩ := Option.map_eq_some_iff.1 hroster
    obtain ⟨d, hd, rfl, hident⟩ := Bus.vacant_of_ofDevices hslot
    exact ⟨hd, hident⟩

end Participants

namespace Bus

open Participants

variable {b : Bus}

theorem roster_receive (b : Bus) (i : Ident) (m : Message) :
    (b.receive i m).2.1.participants.roster = b.participants.roster := by
  have hsame : ∀ {f : Slot → Slot}, (∀ s, (f s).device = s.device) →
      roster (b.modifySlot i f).participants = b.participants.roster := fun h => roster_modify fun s _ => h s
  cases hs : b.participants.get? i with
  | none => simp [receive, hs]
  | some slot =>
    have hreceipt := receive_spec hs m
    generalize (b.receive i m).2.1 = b' at hreceipt
    generalize (b.receive i m).1 = outcome at hreceipt
    cases hreceipt with
    | offered | left | violated => exact hsame fun _ => rfl

theorem roster_hear (b : Bus) (i : Ident) (text : String) :
    (b.hear i text).2.participants.roster = b.participants.roster := by
  unfold hear
  cases b.decode i text with
  | error cause => rfl
  | ok m => exact b.roster_receive i m

theorem roster_perform (b : Bus) (op : Operation) :
    (b.perform op).participants.roster = b.participants.roster := by
  cases op with
  | handshake k name options =>
    rcases b.handshake_spec k name options with ⟨_, _, heq⟩ | ⟨slot, widths, _, heq⟩
    · rw [perform, heq]
    · rw [perform, heq]
      exact roster_modify fun _ _ => rfl
  | line i text => exact b.roster_hear i text
  | disconnect i =>
    show roster (b.disconnect i).2.participants = _
    unfold Bus.disconnect
    split
    · rfl
    · split
      · exact roster_modify fun _ _ => rfl
      · exact roster_modify fun _ _ => rfl
  | advance =>
    have hspec := b.advance_spec
    show roster b.advance.2.1.participants = _
    generalize b.advance.2.1 = b' at hspec
    generalize b.advance.1 = outcome at hspec
    cases hspec with
    | waiting => rfl
    | failed cause engine ps clock assembled live ready shown => exact roster_of_muted_eq shown
    | stepped engine ps time live ready shown =>
      exact (roster_each Slot.device_rearm ps).trans (roster_of_muted_eq shown)
  | tearDown =>
    have hdevice : ∀ s : Slot, s.unbind.device = s.device := fun _ => rfl
    show roster b.tearDown.2.1.participants = _
    unfold Bus.tearDown
    split
    · rfl
    · exact roster_each hdevice b.participants

theorem Course.roster_eq {start : Bus} {trace : Trace} (h : Course start trace b) :
    b.participants.roster = start.participants.roster := by
  induction h with
  | nil => rfl
  | snoc _ op ih => exact (roster_perform _ op).trans ih

theorem Course.staffed {c : BusConfig} {start : Bus} {trace : Trace} (hstart : ofConfig c = .ok start)
    (h : Course start trace b) : Staffed c.devices b.participants := by
  refine Staffed.of_roster_eq ?_ h.roster_eq
  obtain ⟨hfault, engine, -, rfl⟩ := ofConfig_spec hstart
  exact staffed_ofDevices (BusConfig.distinct_of_fault? hfault)

theorem Run.staffed {c : BusConfig} {start : Bus} {trace : Trace} (hstart : ofConfig c = .ok start)
    (h : Run start trace b) : Staffed c.devices b.participants := h.course.1.staffed hstart

end Bus

end Lockstep
