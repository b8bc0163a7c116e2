import Lockstep.Proofs.Bus.Interface
import Lockstep.Proofs.Bus.Offers
/-!
# The wires of a PCI bus

Each step of a PCI bus resolves every shared signal wire by wire from what all participants offered last, whatever the
order in which they are asked, and shows each participant the wires less its own drive. The participant has its own
drive, so it can put the wires together again (`Bus.shared_wires`).
-/

namespace Lockstep

namespace Pci

theorem get?_deliveries {ps : Participants} {granted : Option Nat} {level : Level} {s : Slot} {name : String}
    {width : Nat} (hwire : (name, width) ∈ sharedWires) (signals : Signals) :
    (signals.insertMany (deliveries ps granted level s)).get? name =
      some (seen (resolve ps name width) (s.drives name)) := by
  refine get?_insertMany_deliveries ?_ signals
  simp only [deliveries, List.append_assoc]
  exact List.mem_append_left _ (List.mem_map.2 ⟨(name, width), hwire, rfl⟩)

end Pci

namespace Bus

variable {c : BusConfig} {start b : Bus} {trace : Trace}

/-- What the next step makes of a shared signal, and what participants get to know of it. -/
structure ResolvesTo (c : BusConfig) (trace : Trace) (b : Bus) (name : String) (width : Nat) (wires : Bundle) :
    Prop where
  width_eq : wires.width = width
  /-- Each wire is resolved from what all participants drive there, by their history. -/
  wire : ∀ n < width, Level.Resolves (c.devices.map fun d => (drive d.ident name width trace).getD n) (wires.getD n)
  /-- The participants may be asked in any order. -/
  order : ∀ slots : List Slot, slots.Perm b.participants.values →
    .blendAll width (slots.map (·.drives name)) = wires
  /-- Each participant is shown the wires on which they differ from its own drive, which tells it all of them. -/
  shown : ∀ i time signals, b.Answers i time signals → ∃ v, signals.get? name = some v ∧ v.width = width ∧
    (∀ n < width, v.getD n =
      if wires.getD n = (drive i name width trace).getD n then .released else wires.getD n) ∧
    (drive i name width trace).blend v = .ok wires

theorem Answers.exists_deliveries (hstart : ofConfig c = .ok start) (hpci : c.protocol = .pci)
    (h : Course start trace b) {i : Ident} {time : Time} {signals : Signals} (hanswers : b.Answers i time signals) :
    b.allReady = true ∧ ∃ (ps : Participants) (s : Slot) (earlier : Signals) (granted : Option Nat) (level : Level),
      ps.muted = b.participants.muted ∧ ps.get? i = some s ∧
      signals = earlier.insertMany (Pci.deliveries ps granted level s) := by
  obtain ⟨engine, ps, s, hprepared, hready, -, hs, rfl⟩ := hanswers.display
  have hentering : (engine.entering b.clock.phase.next ps).protocol = .pci := by
    rw [(Engine.kin_entering _ _ _).protocol_eq, hprepared.kin.protocol_eq, h.protocol_eq hstart, hpci]
  obtain ⟨p, hp⟩ := Engine.exists_pci hentering
  rw [hp]
  exact ⟨hready, ps, s, s.outgoing, p.arbiter.granted, b.clock.phase.next.level, hprepared.muted_eq, hs, rfl⟩

theorem drives_of_allReady (hstart : ofConfig c = .ok start) (hpci : c.protocol = .pci) (h : Course start trace b)
    (horderly : Orderly trace) (hready : b.allReady = true) {i : Ident} {slot : Slot}
    (hs : b.participants.get? i = some slot) {name : String} {width : Nat} (hwire : (name, width) ∈ Pci.sharedWires) :
    slot.drives name = drive i name width trace :=
  (h.recalls hstart horderly i slot hs).drives (get?_widths_of_allReady hstart hpci h horderly hready hs hwire)

theorem mem_drives_iff (hstart : ofConfig c = .ok start) (hpci : c.protocol = .pci) (h : Course start trace b)
    (horderly : Orderly trace) (hready : b.allReady = true) {name : String} {width : Nat}
    (hwire : (name, width) ∈ Pci.sharedWires) (v : Bundle) :
    v ∈ b.participants.values.map (·.drives name) ↔ v ∈ c.devices.map fun d => drive d.ident name width trace := by
  have hstaffed := h.staffed hstart
  have hdrives : ∀ {i slot}, b.participants.get? i = some slot → slot.drives name = drive i name width trace :=
    fun hs => drives_of_allReady hstart hpci h horderly hready hs hwire
  rw [List.mem_map, List.mem_map]
  constructor
  · rintro ⟨slot, hslot, rfl⟩
    obtain ⟨i, hs⟩ := SortedMap.mem_values_iff.1 hslot
    obtain ⟨hmem, rfl⟩ := hstaffed.device hs
    exact ⟨slot.device, hmem, (hdrives hs).symm⟩
  · rintro ⟨d, hd, rfl⟩
    obtain ⟨slot, hs, -⟩ := hstaffed.slot hd
    exact ⟨slot, SortedMap.mem_values_iff.2 ⟨_, hs⟩, hdrives hs⟩

theorem resolves_of_allReady (hstart : ofConfig c = .ok start) (hpci : c.protocol = .pci) (h : Course start trace b)
    (horderly : Orderly trace) (hready : b.allReady = true) {name : String} {width : Nat}
    (hwire : (name, width) ∈ Pci.sharedWires) (n : Nat) :
    Level.Resolves (c.devices.map fun d => (drive d.ident name width trace).getD n)
      ((Pci.resolve b.participants name width).getD n) := by
  have hmatched : Pci.Matched b.participants := matched_of_allReady hstart hpci h horderly hready rfl
  have hdrivers : (c.devices.map fun d => (drive d.ident name width trace).getD n) =
      (c.devices.map fun d => drive d.ident name width trace).map (·.getD n) := by
    rw [List.map_map]
    rfl
  rw [hdrivers]
  refine (hmatched.resolves hwire n).congr fun l => ?_
  rw [List.mem_map, List.mem_map]
  exact exists_congr fun v =>
    and_congr_left' (mem_drives_iff hstart hpci h horderly hready hwire v).symm

/-- **Shared wires.** Every step of a PCI bus resolves each shared signal from the last offers of all participants. -/
theorem shared_wires (hstart : ofConfig c = .ok start) (hpci : c.protocol = .pci) (h : Course start trace b)
    (horderly : Orderly trace) {ds : List Delivery} (hds : b.advance.1 = .stepped ds) {name : String} {width : Nat}
    (hwire : (name, width) ∈ Pci.sharedWires) :
    ResolvesTo c trace b name width (Pci.resolve b.participants name width) := by
  have hready : b.allReady = true := (ready_of_advance (by rw [hds]; simp)).2
  have hmatched : Pci.Matched b.participants := matched_of_allReady hstart hpci h horderly hready rfl
  refine ⟨Pci.width_resolve _ _ _, fun n _ => resolves_of_allReady hstart hpci h horderly hready hwire n,
    fun slots => hmatched.blendAll_eq hwire, ?_⟩
  intro i time signals hanswers
  obtain ⟨-, ps, s, earlier, granted, level, hmuted, hs, rfl⟩ := hanswers.exists_deliveries hstart hpci h
  obtain ⟨slot, hslot, hsame⟩ := Participants.exists_of_muted_eq hmuted hs
  have hmem : slot ∈ b.participants.values := SortedMap.mem_values_iff.2 ⟨_, hslot⟩
  rw [← drives_of_allReady hstart hpci h horderly hready hslot hwire]
  refine ⟨Pci.seen (Pci.resolve b.participants name width) (slot.drives name), ?_, ?_, ?_, ?_⟩
  · rw [← Pci.resolve_of_muted_eq hmuted, ← (Slot.kept_of_muted_eq hsame).drives]
    exact Pci.get?_deliveries hwire _
  · rw [Pci.width_seen, Pci.width_resolve]
  · exact fun n _ => Bundle.getD_of_seenBy_eq_ok (hmatched.seenBy_eq hwire hmem) n
  · exact hmatched.blend_seen hwire hmem

/-- The host asserts `FRAME#`, and the card drives nothing. -/
def oneFrame : List Operation :=
  [.handshake 7 "host" .empty, .handshake 8 "card" .empty, .line 0 "READY 0e-12 FRAME#=0", .line 1 "READY 0e-12"]

/-- Everybody gets to know that `FRAME#` is low. -/
theorem frame_is_low : ∃ ds, (oneFrame.foldl perform idleBus).advance.1 = .stepped ds ∧
    ResolvesTo hostAndCard (idleBus.traced oneFrame) (oneFrame.foldl perform idleBus) "FRAME#" 1 (.ofLevel .zero) := by
  have horderly : Orderly (idleBus.traced oneFrame) := orderly_of_all (by cbv)
  have hlow : Pci.resolve (oneFrame.foldl perform idleBus).participants "FRAME#" 1 = .ofLevel .zero := by cbv
  obtain ⟨ds, hds⟩ := exists_of_stepped (b := oneFrame.foldl perform idleBus) (by cbv)
  have hresolves := shared_wires ofConfig_hostAndCard rfl (course_traced idleBus oneFrame) horderly hds
    (show ("FRAME#", 1) ∈ Pci.sharedWires by decide)
  rw [hlow] at hresolves
  exact ⟨ds, hds, hresolves⟩

end Bus

end Lockstep
