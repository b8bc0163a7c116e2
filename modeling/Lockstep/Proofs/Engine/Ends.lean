import Lockstep.Proofs.Bus.Roster
import Lockstep.Proofs.Engine.Display
/-!
# The two ends of a link

A paired configuration has one host and one other device (`BusConfig.exists_pairs`). So the slots that an engine links
do not depend on the run: the first host and the first other device are the only ones (`Pairs.find_link`). What an
engine displays to either end is the half of its table that goes there, and the clock last (`Pairs.display_eq`).
-/

namespace Lockstep

/-- The host drives the signals of this direction. -/
def Direction.fromHost : Direction → Bool
  | .hostToDevice => true
  | .deviceToHost => false

theorem Direction.fromHost_inj {dir dir' : Direction} (h : dir.fromHost = dir'.fromHost) : dir = dir' := by
  cases dir <;> cases dir' <;> first | rfl | cases h

/-- The name under which participants are shown the clock. -/
def Protocol.clockName : Protocol → String
  | .pointToPoint => PointToPoint.clockName
  | .axi4 => Axi4.clockName
  | .pcieTlp => PcieTlp.clockName
  | .pci => Pci.clockName

theorem Protocol.eq_pci {p : Protocol} (h : p.isPaired = false) : p = .pci := by
  simpa [isPaired] using h

/-- The signals of a table that go to one end, in the order of the table. -/
def RelayTable.toward (t : RelayTable) (host : Bool) : List RelaySignal :=
  t.signals.filter fun r => r.direction.fromHost = !host

namespace BusConfig

/-- The devices of a configuration are a host and a card. -/
structure Pairs (c : BusConfig) (host card : Device) : Prop where
  host_mem : host ∈ c.devices
  card_mem : card ∈ c.devices
  isHost : host.host = true
  isCard : card.host = false
  only : ∀ d ∈ c.devices, d = host ∨ d = card

theorem protocolFault?_eq_none {c : BusConfig} (h : c.fault? = none) :
    (if c.protocol.isPaired then c.pairFault? else c.sharedFault?) = none := by
  unfold fault? at h
  split at h
  · cases h
  · split at h
    · cases h
    · split at h
      · cases h
      · split at h
        · cases h
        · exact h

theorem pairFault?_eq_none {c : BusConfig} (h : c.fault? = none) (hpaired : c.protocol.isPaired = true) :
    c.pairFault? = none := by
  have hfault := protocolFault?_eq_none h
  rwa [if_pos hpaired] at hfault

theorem ident_le {c : BusConfig} (h : c.fault? = none) (hpci : c.protocol = .pci) {d : Device} (hd : d ∈ c.devices) :
    d.ident ≤ pciMaxIdent := by
  have hfault := protocolFault?_eq_none h
  rw [hpci, if_neg (by decide), sharedFault?, Option.map_eq_none_iff, List.find?_eq_none] at hfault
  simpa using hfault d hd

theorem exists_pairs {c : BusConfig} (h : c.fault? = none) (hpaired : c.protocol.isPaired = true) :
    ∃ host card, c.Pairs host card := by
  have hpair := pairFault?_eq_none h hpaired
  unfold pairFault? at hpair
  dsimp only at hpair
  split at hpair
  · cases hpair
  · next hlength =>
    split at hpair
    · cases hpair
    · next hcount =>
      obtain ⟨a, b, hdevices⟩ := List.length_eq_two.1 (not_not.1 hlength)
      rw [hdevices] at hcount
      cases ha : a.host <;> cases hb : b.host <;> simp [ha, hb] at hcount
      · exact ⟨b, a, by simp [hdevices], by simp [hdevices], hb, ha, by simp [hdevices, or_comm]⟩
      · exact ⟨a, b, by simp [hdevices], by simp [hdevices], ha, hb, by simp [hdevices]⟩

end BusConfig

namespace Participants

theorem Staffed.find_ident {devices : List Device} {ps : Participants} (h : Staffed devices ps) {d : Device}
    (hd : d ∈ devices) {q : Device → Bool} (hq : q d = true) (honly : ∀ e ∈ devices, q e = true → e = d) :
    (ps.find? fun s => q s.device).map (·.ident) = some d.ident := by
  obtain ⟨slot, hslot, hdevice⟩ := h.slot hd
  have hmem : slot ∈ ps.values := SortedMap.mem_values_iff.2 ⟨_, hslot⟩
  cases hfind : ps.find? fun s => q s.device with
  | none =>
    have hnone := List.find?_eq_none.1 hfind slot hmem
    rw [hdevice] at hnone
    exact absurd hq hnone
  | some s =>
    obtain ⟨i, hi⟩ := SortedMap.mem_values_iff.1 (List.mem_of_find?_eq_some hfind)
    have hflag : q s.device = true := List.find?_some (p := fun s : Slot => q s.device) hfind
    have hsame := honly s.device (h.device hi).1 hflag
    rw [Option.map_some, Slot.ident, hsame]

end Participants

namespace BusConfig

variable {c : BusConfig} {host card : Device} {ps : Participants}

namespace Pairs

theorem eq_host (h : c.Pairs host card) {d : Device} (hd : d ∈ c.devices) (hflag : d.host = true) : d = host :=
  (h.only d hd).resolve_right fun heq => by
    rw [heq, h.isCard] at hflag
    cases hflag

theorem eq_card (h : c.Pairs host card) {d : Device} (hd : d ∈ c.devices) (hflag : d.host = false) : d = card :=
  (h.only d hd).resolve_left fun heq => by
    rw [heq, h.isHost] at hflag
    cases hflag

theorem exists_of_flag (h : c.Pairs host card) (flag : Bool) : ∃ d ∈ c.devices, d.host = flag := by
  cases flag with
  | true => exact ⟨host, h.host_mem, h.isHost⟩
  | false => exact ⟨card, h.card_mem, h.isCard⟩

theorem ident_ne (h : c.Pairs host card) (hstaffed : Participants.Staffed c.devices ps) : host.ident ≠ card.ident := by
  intro heq
  have hsame := hstaffed.eq_of_ident_eq h.host_mem h.card_mem heq
  have hflag := h.isHost
  rw [hsame, h.isCard] at hflag
  cases hflag

theorem find_link (h : c.Pairs host card) (hstaffed : Participants.Staffed c.devices ps) :
    Link.find ps = .ok ⟨host.ident, card.ident⟩ := by
  have hhost : ps.host? = some host.ident :=
    hstaffed.find_ident h.host_mem (q := fun d => d.host) h.isHost fun e he => h.eq_host he
  have hcard : ps.device? = some card.ident := by
    refine hstaffed.find_ident h.card_mem (q := fun d => !d.host) (by simp [h.isCard]) fun e he hflag => ?_
    exact h.eq_card he (by simpa using hflag)
  rw [Link.find, hhost, hcard]

variable {d : Device}

theorem driver_iff (h : c.Pairs host card) (hne : host.ident ≠ card.ident) (hd : d ∈ c.devices) (dir : Direction) :
    (Link.mk host.ident card.ident).driver dir = d.ident ↔ dir.fromHost = d.host := by
  rcases h.only d hd with rfl | rfl
  · cases dir <;> simp [Link.driver, Direction.fromHost, h.isHost, Ne.symm hne]
  · cases dir <;> simp [Link.driver, Direction.fromHost, h.isCard, hne]

theorem receiver_iff (h : c.Pairs host card) (hne : host.ident ≠ card.ident) (hd : d ∈ c.devices)
    (dir : Direction) :
    (Link.mk host.ident card.ident).receiver dir = d.ident ↔ dir.fromHost = !d.host := by
  rcases h.only d hd with rfl | rfl
  · cases dir <;> simp [Link.receiver, Direction.fromHost, h.isHost, Ne.symm hne]
  · cases dir <;> simp [Link.receiver, Direction.fromHost, h.isCard, hne]

theorem addressed_eq (h : c.Pairs host card) (hne : host.ident ≠ card.ident) (hd : d ∈ c.devices) (t : RelayTable)
    (ps : Participants) :
    t.addressed ⟨host.ident, card.ident⟩ ps d.ident =
      (t.toward d.host).map fun r => (r.target, r.value ⟨host.ident, card.ident⟩ ps) := by
  rw [RelayTable.addressed, RelayTable.toward]
  congr 1
  exact List.filter_congr fun r _ => by rw [decide_eq_decide, h.receiver_iff hne hd]

/-- What an end of a link is sent: what the table has for it, and the clock after that. Only the device at the other
end of a point-to-point link may see another level than that of the clock. -/
theorem display_eq (h : c.Pairs host card) (hne : host.ident ≠ card.ident) (hd : d ∈ c.devices) {e : Engine}
    {t : RelayTable} (hw : e.wiring? = some ⟨⟨host.ident, card.ident⟩, t⟩) (level : Level) (ps : Participants)
    (s : Slot) :
    ∃ shown : Level, ((e.protocol = .pointToPoint → d.host = true) → shown = level) ∧
      e.display level ps d.ident s =
        ((t.toward d.host).map fun r => (r.target, r.value ⟨host.ident, card.ident⟩ ps)) ++
          [(e.protocol.clockName, .ofLevel shown)] := by
  cases e with
  | pointToPoint bus wiring =>
    obtain rfl : wiring = _ := hw
    simp only [Engine.display, h.addressed_eq hne hd]
    rcases h.only d hd with rfl | rfl
    · refine ⟨level, fun _ => rfl, ?_⟩
      simp only [PointToPoint.clocked, if_pos, if_neg hne, List.append_nil]
      rfl
    · refine ⟨(PointToPoint.clockMode host.ident ps).apply level, fun hhost => ?_, ?_⟩
      · have hflag := hhost rfl
        rw [h.isCard] at hflag
        cases hflag
      · simp only [PointToPoint.clocked, if_pos, if_neg (Ne.symm hne), List.nil_append]
        rfl
  | axi4 bus wiring | pcieTlp bus wiring =>
    obtain rfl : wiring = _ := hw
    simp only [Engine.display, h.addressed_eq hne hd]
    exact ⟨level, fun _ => rfl, rfl⟩
  | pci p => cases hw

end Pairs

end BusConfig

end Lockstep
