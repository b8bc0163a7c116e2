import Lockstep.Proofs.Bus.SharedWires
/-!
# The sideband of a PCI bus

Beside the wires that everybody shares, a step of a PCI bus routes some signals by who the participants are. An
interrupt goes from a card to every host, on the wire that has the number of the card. The reset is what the hosts drive
together, and it is pulled up if they drive nothing. What selects a participant is one wire of `AD` as it is resolved,
which makes no difference between the participant that drives it and the others (`Bus.sideband`).

All of this is what the participants offered last (`Bus.drive`), so whoever has left interrupts and resets nobody.
-/

namespace Lockstep

/-- A wire that is high if nobody drives it. -/
def Level.pulledUp (l : Level) : Level := if l = .released then .one else l

theorem Bundle.getD_set {v : Bundle} {i n : Nat} (hn : n < v.width) (level : Level) :
    (v.set i level).getD n = if i = n then level else v.getD n := by
  have hn : n < v.bits.length := hn
  by_cases hi : i = n
  · subst hi
    simp [getD, get?, set, hn]
  · simp [getD, get?, set, hi]

/-! ### What the engine routes -/

namespace Pci

variable {ps : Participants}

theorem getD_foldl_interrupts (name : String) {n : Nat} (hn : n < arbiterSlots) (slots : List Slot) (lines : Bundle)
    (hlines : lines.width = arbiterSlots) :
    (slots.foldl (fun lines s => if s.drivesBit name = .zero then lines.set s.ident.toNat .zero else lines) lines).getD n =
      if ∃ s ∈ slots, s.ident.toNat = n ∧ s.drivesBit name = .zero then .zero else lines.getD n := by
  induction slots generalizing lines with
  | nil => simp
  | cons s slots ih =>
    have hwidth : (if s.drivesBit name = .zero then lines.set s.ident.toNat .zero else lines).width = arbiterSlots := by
      split
      · rw [Bundle.width_set, hlines]
      · exact hlines
    have hhead : (if s.drivesBit name = .zero then lines.set s.ident.toNat .zero else lines).getD n =
        if s.ident.toNat = n ∧ s.drivesBit name = .zero then .zero else lines.getD n := by
      split
      · next hasserts =>
        rw [Bundle.getD_set (by rwa [hlines])]
        simp [hasserts]
      · next hsilent => simp [hsilent]
    rw [List.foldl_cons, ih _ hwidth, hhead]
    by_cases htail : ∃ t ∈ slots, t.ident.toNat = n ∧ t.drivesBit name = .zero
    · rw [if_pos htail, if_pos]
      obtain ⟨t, ht, hasserts⟩ := htail
      exact ⟨t, List.mem_cons_of_mem _ ht, hasserts⟩
    · rw [if_neg htail]
      simp only [List.mem_cons, exists_eq_or_imp, htail, or_false]

theorem getD_interrupts (name : String) {n : Nat} (hn : n < arbiterSlots) :
    (interrupts ps name).getD n =
      if ∃ s ∈ ps.values, s.isHost = false ∧ s.ident.toNat = n ∧ s.drivesBit name = .zero then .zero else .one := by
  have hhigh : (Bundle.filled arbiterSlots .one).getD n = .one := by
    simp [Bundle.getD, Bundle.get?, Bundle.filled, hn]
  rw [interrupts, getD_foldl_interrupts name hn _ _ (Bundle.width_filled _ _), hhigh]
  simp only [List.mem_filter, Bool.not_eq_true', and_assoc]

theorem reset_eq (ps : Participants) : reset ps =
    (((ps.values.filter (·.isHost)).map (·.drivesBit "RESET#")).foldl Level.blend .released).pulledUp := by
  rw [reset, List.foldl_map]
  rfl

theorem get?_shownTo_card {device : Device} (hcard : device.host = false) {name : String} (h : name ∈ interruptNames) :
    (shownTo device).get? name = none := by
  have hnone : ∀ name ∈ interruptNames, (SortedMap.ofList (sharedWires ++ [("RESET#", 1), ("IDSEL", 1), ("GNT#", 1)] ++
      [] ++ [(clockName, 1)])).get? name = none := by
    decide
  rw [shownTo, hcard]
  exact hnone name h

end Pci

namespace Bus

variable {c : BusConfig} {start b : Bus} {trace : Trace}

theorem Recalls.of_kept {i : Ident} {s s' : Slot} (h : Recalls trace i s) (hkept : s.Kept s') : Recalls trace i s' := by
  refine ⟨?_, fun name => ?_, fun hfree => h.silent (hkept.claimed ▸ hfree)⟩
  · rw [hkept.finished, h.finished]
  · rw [hkept.driven, hkept.widths, h.driven]

theorem Recalls.drivesBit {i : Ident} {s : Slot} (h : Recalls trace i s) {name : String} {width : Nat}
    (hwidth : s.widths.get? name = some width) : s.drivesBit name = (drive i name width trace).getD 0 := by
  rw [Slot.drivesBit, Signals.bit, h.driven, hwidth]
  rfl

/-- What the next step routes to device `d`, which is sent `signals`. -/
structure Sideband (c : BusConfig) (trace : Trace) (b : Bus) (d : Device) (signals : Signals) : Prop where
  /-- A wire of an interrupt is low at the hosts exactly if the card of its number drives it low. -/
  interrupts : d.host = true → ∀ name ∈ Pci.interruptNames, ∃ lines, signals.get? name = some lines ∧
    lines.width = arbiterSlots ∧ ∀ n < arbiterSlots, lines.getD n =
      if ∃ e ∈ c.devices, e.host = false ∧ e.ident.toNat = n ∧ (drive e.ident name 1 trace).getD 0 = .zero
      then .zero else .one
  uninterrupted : d.host = false → ∀ name ∈ Pci.interruptNames, signals.get? name = none
  /-- The hosts drive the reset together, and may be asked in any order. -/
  reset : ∃ wire : Level, signals.get? "RESET#" = some (.ofLevel wire.pulledUp) ∧
    Level.Resolves ((c.devices.filter (·.host)).map fun e => (drive e.ident "RESET#" 1 trace).getD 0) wire ∧
    ∀ hosts : List Device, hosts.Perm (c.devices.filter (·.host)) →
      (hosts.map fun e => (drive e.ident "RESET#" 1 trace).getD 0).foldl Level.blend .released = wire
  /-- What selects a device is a wire of `AD` as all of them drive it, whether it drives the wire itself or not. -/
  select : ∃ wire : Level, signals.get? "IDSEL" = some (.ofLevel wire) ∧
    wire = (Pci.resolve b.participants "AD" 64).getD (Pci.idselBase + d.ident.toNat) ∧
    Level.Resolves (c.devices.map fun e => (drive e.ident "AD" 64 trace).getD (Pci.idselBase + d.ident.toNat)) wire

section Step

variable {ps : Participants}

theorem drivesBit_of_allReady (hstart : ofConfig c = .ok start) (hpci : c.protocol = .pci) (h : Course start trace b)
    (horderly : Orderly trace) (hready : b.allReady = true) (hmuted : ps.muted = b.participants.muted) {i : Ident}
    {s : Slot} (hs : ps.get? i = some s) {name : String}
    (hname : (name, 1) ∈ if s.device.host then [("RESET#", 1)] else Pci.interruptNames.map fun name => (name, 1)) :
    s.drivesBit name = (drive s.device.ident name 1 trace).getD 0 := by
  obtain ⟨slot, hslot, hsame⟩ := Participants.exists_of_muted_eq hmuted hs
  have hkept := Slot.kept_of_muted_eq hsame
  have hident : s.device.ident = i := by
    rw [hkept.device]
    exact ((h.staffed hstart).device hslot).2
  have hclaimed := claimed_of_allReady (h.sound hstart horderly) hready hslot
  have hterms := h.terms hstart horderly i slot hslot hclaimed
  obtain ⟨p, hp⟩ := Engine.exists_pci ((protocol_ofConfig hstart).trans hpci)
  rw [hp] at hterms
  have hwidth : s.widths.get? name = some 1 := by
    rw [hkept.widths, ← Except.ok.inj hterms, ← hkept.device]
    exact Pci.get?_driven_of_mem (List.mem_append_right _ hname)
  rw [hident]
  exact ((h.recalls hstart horderly i slot hslot).of_kept hkept).drivesBit hwidth

end Step

/-- **The sideband.** Every step of a PCI bus routes interrupts, reset and selection by what the participants offered
last and by who they are. -/
theorem sideband (hstart : ofConfig c = .ok start) (hpci : c.protocol = .pci) (h : Course start trace b)
    (horderly : Orderly trace) {d : Device} (hd : d ∈ c.devices) {time : Time} {signals : Signals}
    (hanswers : b.Answers d.ident time signals) : Sideband c trace b d signals := by
  obtain ⟨hready, ps, s, earlier, granted, level, hmuted, hs, hsignals⟩ := hanswers.exists_deliveries hstart hpci h
  have hstaffed := (h.staffed hstart).of_roster_eq (Participants.roster_of_muted_eq hmuted)
  have hdevice : s.device = d := hstaffed.eq_of_ident_eq (hstaffed.device hs).1 hd (hstaffed.device hs).2
  have hshown : ∀ {name v}, (name, v) ∈ Pci.deliveries ps granted level s → signals.get? name = some v := by
    intro name v hmem
    rw [hsignals]
    exact Pci.get?_insertMany_deliveries hmem _
  have hrole : ∀ i slot, ps.get? i = some slot → ∀ name,
      ((name, 1) ∈ if slot.device.host then [("RESET#", 1)] else Pci.interruptNames.map fun name => (name, 1)) →
      slot.drivesBit name = (drive slot.device.ident name 1 trace).getD 0 :=
    fun _ _ hslot _ => drivesBit_of_allReady hstart hpci h horderly hready hmuted hslot
  refine ⟨fun hhost name hname => ⟨Pci.interrupts ps name, hshown ?_, Pci.width_interrupts ps name, fun n hn => ?_⟩,
    fun hcard name hname => ?_, ?_, ?_⟩
  · have hhost : s.isHost = true := by rw [Slot.isHost, hdevice, hhost]
    simp [Pci.deliveries, hhost, hname]
  · rw [Pci.getD_interrupts name hn]
    refine if_congr (hstaffed.exists_slot_iff fun i slot hslot => ?_) rfl rfl
    refine and_congr_right fun hcard => and_congr_right fun _ => ?_
    have hcard : slot.device.host = false := hcard
    rw [hrole i slot hslot name (by simpa [hcard] using hname)]
  · obtain ⟨slot, hslot, hsame⟩ := (h.staffed hstart).slot hd
    obtain ⟨-, shown, hinterface, hconforms⟩ := hanswers.conforms hstart h horderly hslot
    obtain ⟨p, hp⟩ := Engine.exists_pci ((protocol_ofConfig hstart).trans hpci)
    rw [hp, hsame] at hinterface
    rw [← Option.map_eq_none_iff, hconforms name, ← Except.ok.inj hinterface]
    exact Pci.get?_shownTo_card hcard hname
  · have hhosts : ((ps.values.filter (·.isHost)).map (·.drivesBit "RESET#")).Perm
        ((c.devices.filter (·.host)).map fun e => (drive e.ident "RESET#" 1 trace).getD 0) :=
      hstaffed.map_perm (·.host) fun i slot hslot hhost => hrole i slot hslot "RESET#" (by simp [hhost])
    refine ⟨_, ?_, Level.resolves_foldl _, fun hosts hperm => ?_⟩
    · rw [← Level.foldl_blend_perm hhosts, ← Pci.reset_eq]
      exact hshown (by simp [Pci.deliveries])
    · exact Level.foldl_blend_perm (hperm.map _) _
  · refine ⟨_, ?_, rfl, resolves_of_allReady hstart hpci h horderly hready (by decide) _⟩
    rw [← hdevice, ← Pci.resolve_of_muted_eq hmuted]
    exact hshown (by simp [Pci.deliveries, Pci.idsel, Slot.ident])

/-- The host resets the bus, and the card interrupts it and drives the wire of `AD` that selects itself. -/
def oneInterrupt : List Operation :=
  [.handshake 7 "host" .empty, .handshake 8 "card" .empty, .line 0 "READY 0e-12 RESET#=0",
    .line 1 ("READY 0e-12 INTB#=0 AD=" ++ String.ofList (List.replicate 46 'z' ++ '1' :: List.replicate 17 'z'))]

/-- The host is interrupted, and the card is selected although it drives the wire itself. -/
theorem card_selects_itself : ∃ time toHost toCard,
    (oneInterrupt.foldl perform idleBus).Answers 0 time toHost ∧
    Sideband hostAndCard (idleBus.traced oneInterrupt) (oneInterrupt.foldl perform idleBus) ⟨"host", 0, true⟩ toHost ∧
    (toHost.get? "INTB#").map (·.getD 1) = some .zero ∧
    (oneInterrupt.foldl perform idleBus).Answers 1 time toCard ∧
    Sideband hostAndCard (idleBus.traced oneInterrupt) (oneInterrupt.foldl perform idleBus) ⟨"card", 1, false⟩ toCard ∧
    toCard.get? "IDSEL" = some (.ofLevel .one) := by
  have horderly : Orderly (idleBus.traced oneInterrupt) := orderly_of_all (by cbv)
  have hcourse := course_traced idleBus oneInterrupt
  obtain ⟨ds, hds⟩ := exists_of_stepped (b := oneInterrupt.foldl perform idleBus) (by cbv)
  have hattached : (oneInterrupt.foldl perform idleBus).participants.attached = [(0, 7), (1, 8)] := by cbv
  have hhost := answers_of_attached hds (i := 0) (k := 7) (by rw [hattached]; decide)
  have hcard := answers_of_attached hds (i := 1) (k := 8) (by rw [hattached]; decide)
  exact ⟨_, _, _, hhost, sideband ofConfig_hostAndCard rfl hcourse horderly (.head _) hhost, by cbv, hcard,
    sideband ofConfig_hostAndCard rfl hcourse horderly (.tail _ (.head _)) hcard, by cbv⟩

end Bus

end Lockstep
