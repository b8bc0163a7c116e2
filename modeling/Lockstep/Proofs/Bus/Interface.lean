import Lockstep.Proofs.Bus.Terms
import Lockstep.Proofs.Engine.Wires
/-!
# The interface of a participant

The signals that a participant may drive, and those that it is shown, are settled by its handshake: their names and
their widths follow from the protocol, from the role of the participant and from the options. They are the same in every
step (`Bus.fixed_interface`). So a participant can be built against a fixed interface, and a PCI bus never has to make
do with drives of the wrong width.

An engine sends what it has to say with every step anew, under the same names, so what a participant was shown before
never shows through (`Signals.Conforms.sent`).
-/

namespace Lockstep

/-- The signals have exactly the names of the widths, and each of them is as wide as it should be. -/
def Signals.Conforms (signals : Signals) (widths : Widths) : Prop :=
  ∀ name, (signals.get? name).map Bundle.width = widths.get? name

namespace Signals

theorem conforms_empty : Conforms .empty .empty := fun _ => rfl

theorem Conforms.insert {signals : Signals} {widths : Widths} (h : signals.Conforms widths) (name : String)
    (v : Bundle) : Conforms (signals.insert name v) (widths.insert name v.width) := by
  intro name'
  rw [SortedMap.get?_insert, SortedMap.get?_insert]
  split
  · rfl
  · exact h name'

theorem Conforms.insertMany {signals : Signals} {widths : Widths} (h : signals.Conforms widths)
    (vs : List (String × Bundle)) :
    Conforms (signals.insertMany vs) (widths.insertMany (vs.map fun v => (v.1, v.2.width))) := by
  induction vs generalizing signals widths with
  | nil => exact h
  | cons v vs ih => exact ih (h.insert v.1 v.2)

theorem Conforms.sent {signals : Signals} {vs : List (String × Bundle)} {widths : Widths}
    (hwidths : widths = .ofList (vs.map fun v => (v.1, v.2.width)))
    (h : signals = .empty ∨ signals.Conforms widths) : Conforms (signals.insertMany vs) widths := by
  rcases h with rfl | h
  · rw [hwidths]
    exact conforms_empty.insertMany vs
  · have hagain := h.insertMany vs
    rwa [hwidths, SortedMap.insertMany_ofList, ← hwidths] at hagain

end Signals

/-! ### What is displayed -/

namespace Pci

theorem widths_deliveries (ps : Participants) (granted : Option Nat) (level : Level) (s : Slot) :
    .ofList ((deliveries ps granted level s).map fun v => (v.1, v.2.width)) = shownTo s.device := by
  have hshared : (sharedWires.map fun w => (w.1, seen (resolve ps w.1 w.2) (s.drives w.1))).map
      (fun v => (v.1, v.2.width)) = sharedWires := by
    rw [List.map_map]
    refine (List.map_congr_left fun w _ => ?_).trans (List.map_id _)
    exact Prod.ext rfl (by rw [Function.comp_apply, width_seen, width_resolve]; rfl)
  have hinterrupts : (if s.isHost then interruptNames.map fun name => (name, interrupts ps name) else []).map
      (fun v => (v.1, v.2.width)) =
      if s.device.host then interruptNames.map fun name => (name, arbiterSlots) else [] := by
    show (if s.device.host then _ else _ : List _).map _ = _
    split
    · rw [List.map_map]
      exact List.map_congr_left fun name _ => Prod.ext rfl (width_interrupts ps name)
    · rfl
  rw [deliveries, List.map_append, List.map_append, List.map_append, hshared, hinterrupts, shownTo]
  rfl

theorem get?_driven_of_mem {device : Device} {name : String} {width : Nat}
    (h : (name, width) ∈ ("REQ#", 1) :: sharedWires ++
      if device.host then [("RESET#", 1)] else interruptNames.map fun name => (name, 1)) :
    (driven device).get? name = some width := by
  have hdistinct : ∀ host : Bool, (("REQ#", 1) :: sharedWires ++
      if host then [("RESET#", 1)] else interruptNames.map fun name => (name, 1)).Pairwise
        fun (a b : String × Nat) => a.1 ≠ b.1 := by
    decide
  exact SortedMap.get?_ofList_of_mem (hdistinct device.host) h

theorem get?_driven {name : String} {width : Nat} (h : (name, width) ∈ sharedWires) (device : Device) :
    (driven device).get? name = some width :=
  get?_driven_of_mem (List.mem_append_left _ (List.mem_cons_of_mem _ h))

end Pci

theorem Engine.exists_interface {e : Engine} {device : Device} {announced : Options} {widths : Widths}
    (h : e.driven device announced = .ok widths) : ∃ shown, e.interface device announced = .ok shown := by
  cases e with
  | pointToPoint bus w =>
    obtain ⟨agreed, hagreed, -⟩ := exists_of_bind_eq_ok h
    exact ⟨_, by rw [interface, hagreed]; rfl⟩
  | axi4 bus w | pcieTlp bus w =>
    obtain ⟨agreed, hagreed, -⟩ := exists_of_map_eq_ok h
    exact ⟨_, by rw [interface, hagreed]; rfl⟩
  | pci p => exact ⟨_, rfl⟩

namespace Bus

variable {c : BusConfig} {start b : Bus} {trace : Trace}

theorem Prepared.width_value {engine : Engine} {ps : Participants} (hprepared : b.Prepared engine ps)
    (hstart : ofConfig c = .ok start) (h : Course start trace b) (horderly : Orderly trace) (hready : b.allReady = true)
    {host card : Device} (hpairs : c.Pairs host card) {t : RelayTable}
    (hw : engine.wiring? = some ⟨⟨host.ident, card.ident⟩, t⟩) {qs : Participants}
    (hmuted : qs.muted = b.participants.muted) {r : RelaySignal} (hr : r ∈ t.signals) :
    (r.value ⟨host.ident, card.ident⟩ qs).width = r.width := by
  have hstaffed := h.staffed hstart
  obtain ⟨sender, hsender, hdrives⟩ := hpairs.exists_of_flag r.direction.fromHost
  obtain ⟨slot, hs, hdevice⟩ := hstaffed.slot hsender
  have hwidth := hprepared.get?_widths hstart h horderly hready hw hr hs (by rw [Slot.isHost, hdevice, hdrives])
  obtain ⟨slot', hs', hslot⟩ := Participants.exists_of_muted_eq hmuted.symm hs
  rw [RelaySignal.value, (hpairs.driver_iff (hpairs.ident_ne hstaffed) hsender _).2 hdrives.symm, hs']
  dsimp only
  split
  · exact Bundle.width_released _
  · rw [(Slot.kept_of_muted_eq hslot.symm).drives]
    exact (h.fitted (fitted_ofConfig hstart) _ slot hs).width_drives hwidth

theorem Prepared.interface_eq {engine : Engine} {ps : Participants} (hprepared : b.Prepared engine ps)
    (hstart : ofConfig c = .ok start) (h : Course start trace b) (horderly : Orderly trace) (hready : b.allReady = true)
    {e : Engine} (hkin : engine.Kin e) (hwiring : e.wiring? = engine.wiring?) {qs : Participants}
    (hmuted : qs.muted = b.participants.muted) {i : Ident} {s : Slot} (hs : qs.get? i = some s) (level : Level) :
    start.engine.interface s.device s.options =
      .ok (.ofList ((e.display level qs i s).map fun v => (v.1, v.2.width))) := by
  obtain ⟨slot, hslot, hsame⟩ := Participants.exists_of_muted_eq hmuted hs
  have hkept := Slot.kept_of_muted_eq hsame
  have hstaffed := h.staffed hstart
  have hprotocol : e.protocol = c.protocol := by
    rw [hkin.protocol_eq, hprepared.kin.protocol_eq, h.protocol_eq hstart]
  obtain ⟨hmem, rfl⟩ := hstaffed.device hslot
  cases hpaired : c.protocol.isPaired with
  | true =>
    obtain ⟨host, card, hpairs⟩ := BusConfig.exists_pairs (ofConfig_spec hstart).1 hpaired
    obtain ⟨t, hw, -⟩ := hprepared.wired hstart h hpairs hpaired
    have hsuited := hprepared.suited hstart h (h.sound hstart horderly) hready (h.suited hstart horderly) hslot
    obtain ⟨shown, -, hdisplay⟩ := hpairs.display_eq (hpairs.ident_ne hstaffed) hmem (hwiring.trans hw) level qs s
    have hvalues : ((t.toward slot.device.host).map fun r => (r.target, r.value ⟨host.ident, card.ident⟩ qs)).map
        (fun v => (v.1, v.2.width)) = (t.toward slot.device.host).map fun r => (r.target, r.width) := by
      rw [List.map_map]
      refine List.map_congr_left fun r hr => Prod.ext rfl ?_
      exact hprepared.width_value hstart h horderly hready hpairs hw hmuted (List.mem_filter.1 hr).1
    rw [hkept.device, hkept.options, (hsuited.2 _ hw).sees, Slot.ident, hdisplay, List.map_append, hvalues,
      RelayTable.receivedBy, hprotocol, protocol_ofConfig hstart]
    rfl
  | false =>
    have hpci := Protocol.eq_pci hpaired
    obtain ⟨p, rfl⟩ := Engine.exists_pci (hprotocol.trans hpci)
    obtain ⟨p', hp'⟩ := Engine.exists_pci ((protocol_ofConfig hstart).trans hpci)
    rw [hp']
    exact congrArg Except.ok (Pci.widths_deliveries qs p.arbiter.granted level s).symm

/-- What a participant is shown conforms to its interface. -/
def Displays (start : Bus) (s : Slot) : Prop :=
  ∃ shown, start.engine.interface s.device s.options = .ok shown ∧ s.outgoing.Conforms shown

theorem Displays.of_same {s s' : Slot} (h : Displays start s) (hdevice : s'.device = s.device)
    (hoptions : s'.options = s.options) (houtgoing : s'.outgoing = s.outgoing) : Displays start s' := by
  rw [Displays, hdevice, hoptions, houtgoing]
  exact h

theorem Prepared.displays_deliver {engine : Engine} {ps : Participants} (hprepared : b.Prepared engine ps)
    (hstart : ofConfig c = .ok start) (h : Course start trace b) (horderly : Orderly trace) (hready : b.allReady = true)
    {e : Engine} (hkin : engine.Kin e) (hwiring : e.wiring? = engine.wiring?) {qs : Participants}
    (hmuted : qs.muted = b.participants.muted)
    (hshown : ∀ i s, qs.get? i = some s → s.outgoing = .empty ∨ Displays start s) (level : Level) :
    ∀ i s, (e.deliver level qs).get? i = some s → Displays start s := by
  intro i s' hs'
  rw [Engine.get?_deliver] at hs'
  obtain ⟨s, hs, rfl⟩ := Option.map_eq_some_iff.1 hs'
  have hinterface := hprepared.interface_eq hstart h horderly hready hkin hwiring hmuted hs level
  have hkept := Slot.kept_of_muted_eq (s := s) (Slot.muted_foldl (fun s v => s.muted_send v.1 v.2)
    (e.display level qs i s) s)
  refine ⟨_, (congrArg₂ _ hkept.device hkept.options).trans hinterface, ?_⟩
  show Signals.Conforms (s.sendAll _).outgoing _
  rw [Slot.outgoing_sendAll]
  refine Signals.Conforms.sent rfl ((hshown i s hs).imp_right ?_)
  rintro ⟨shown, hshown, hconforms⟩
  rw [hinterface] at hshown
  cases hshown
  exact hconforms

/-- Before a bus is assembled nobody has been shown anything, and from then on what everybody has been shown conforms to
its interface. -/
def Presents (start b : Bus) : Prop :=
  ∀ i slot, b.participants.get? i = some slot →
    (b.assembled = false → slot.outgoing = .empty) ∧ (b.assembled = true → Displays start slot)

theorem Prepared.displays {engine : Engine} {ps : Participants} (hprepared : b.Prepared engine ps)
    (hstart : ofConfig c = .ok start) (h : Course start trace b) (horderly : Orderly trace) (hready : b.allReady = true)
    (hpresents : Presents start b) : ∀ i s, ps.get? i = some s → Displays start s := by
  have hgoes := hprepared
  cases hprepared with
  | running assembled => exact fun i s hs => (hpresents i s hs).2 assembled
  | fresh unassembled agreed =>
    exact hgoes.displays_deliver hstart h horderly hready (.refl engine) rfl rfl
      (fun i s hs => .inl ((hpresents i s hs).1 unassembled)) _

theorem Course.presents (hstart : ofConfig c = .ok start) (h : Course start trace b) (horderly : Orderly trace) :
    Presents start b := by
  induction h with
  | nil =>
    obtain ⟨-, engine, -, rfl⟩ := ofConfig_spec hstart
    intro i slot hs
    obtain ⟨d, -, rfl, -⟩ := vacant_of_ofDevices hs
    exact ⟨fun _ => rfl, fun h => by cases h⟩
  | @snoc trace b h op ih =>
    obtain ⟨hbefore, huses⟩ := orderly_snoc.1 horderly
    have hpresents := ih hbefore
    by_cases hop : op = .advance
    · subst hop
      have hattempt := b.attempt_spec
      show Presents start b.advance.2.1
      generalize b.advance.2.1 = b' at hattempt
      generalize b.advance.1 = outcome at hattempt
      cases hattempt with
      | waiting => exact hpresents
      | refused => exact hpresents
      | late cause engine ps live ready prepared =>
        intro i slot hs
        exact ⟨Bool.noConfusion, fun _ => prepared.displays hstart h hbefore ready hpresents i slot hs⟩
      | stepped engine ps time live ready prepared =>
        intro i slot hs
        refine ⟨Bool.noConfusion, fun _ => ?_⟩
        rw [Participants.get?_each] at hs
        obtain ⟨s, hs', rfl⟩ := Option.map_eq_some_iff.1 hs
        have hdisplays := prepared.displays_deliver hstart h hbefore ready (Engine.kin_entering engine _ ps)
          (Engine.wiring?_entering engine _ ps) prepared.muted_eq
          (fun i s hs => .inr (prepared.displays hstart h hbefore ready hpresents i s hs)) _ i s hs'
        exact hdisplays.of_same s.kept_rearm.device s.kept_rearm.options s.outgoing_rearm
    · have hstill := b.still_perform hop
      have hsound := h.sound hstart hbefore
      intro i slot' hs'
      obtain ⟨slot, hs, hchange⟩ := exists_change hsound huses hs'
      have hshown : slot'.outgoing = slot.outgoing := by
        have hsame := hstill.shown i
        rwa [Participants.shown, hs', Participants.shown, hs] at hsame
      rw [hstill.assembled, hshown]
      refine ⟨(hpresents i slot hs).1, fun hassembled => ?_⟩
      obtain ⟨hdevice, hoptions, -⟩ := hchange.announced_eq hsound (h.suited hstart hbefore hassembled i slot hs).1
      exact ((hpresents i slot hs).2 hassembled).of_same hdevice hoptions hshown

theorem Answers.conforms {i : Ident} {time : Time} {signals : Signals} (hanswers : b.Answers i time signals)
    (hstart : ofConfig c = .ok start) (h : Course start trace b) (horderly : Orderly trace) {slot : Slot}
    (hs : b.participants.get? i = some slot) : slot.claimed = true ∧
      ∃ shown, start.engine.interface slot.device slot.options = .ok shown ∧ signals.Conforms shown := by
  obtain ⟨engine, ps, s, hprepared, hready, -, hs', rfl⟩ := hanswers.display
  obtain ⟨slot', hs'', hmuted⟩ := Participants.exists_of_muted_eq hprepared.muted_eq hs'
  rw [hs] at hs''
  cases hs''
  have hkept := Slot.kept_of_muted_eq hmuted
  refine ⟨claimed_of_allReady (h.sound hstart horderly) hready hs, ?_⟩
  have hinterface := hprepared.interface_eq hstart h horderly hready (Engine.kin_entering engine b.clock.phase.next ps)
    (Engine.wiring?_entering engine _ ps) hprepared.muted_eq hs' b.clock.phase.next.level
  obtain ⟨shown, hshown, hconforms⟩ :=
    hprepared.displays hstart h horderly hready (h.presents hstart horderly) i s hs'
  rw [hinterface] at hshown
  cases hshown
  rw [← hkept.device, ← hkept.options]
  exact ⟨_, hinterface, .sent rfl (.inr hconforms)⟩

/-! ### The whole course -/

theorem Course.untils_conform (hstart : ofConfig c = .ok start) (h : Course start trace b) (horderly : Orderly trace)
    {i : Ident} {slot : Slot} (hs : b.participants.get? i = some slot) {b' : Bus} (hmem : (b', .advance) ∈ trace)
    {time : Time} {signals : Signals} (hanswers : b'.Answers i time signals) : slot.claimed = true ∧
      ∃ shown, start.engine.interface slot.device slot.options = .ok shown ∧ signals.Conforms shown := by
  induction h generalizing slot with
  | nil => exact absurd hmem List.not_mem_nil
  | @snoc trace b h op ih =>
    obtain ⟨hbefore, huses⟩ := orderly_snoc.1 horderly
    have hsound := h.sound hstart hbefore
    obtain ⟨before, hs', hchange⟩ := exists_change hsound huses hs
    -- it was so before the last operation, and that has not changed what the participant announced
    obtain ⟨hclaimed, hconforms⟩ : before.claimed = true ∧ ∃ shown,
        start.engine.interface before.device before.options = .ok shown ∧ signals.Conforms shown := by
      rcases List.mem_append.1 hmem with hmem | hmem
      · exact ih hbefore hs' hmem
      · cases List.mem_singleton.1 hmem
        exact hanswers.conforms hstart h hbefore hs'
    obtain ⟨hdevice, hoptions, -⟩ := hchange.announced_eq hsound hclaimed
    rw [hdevice, hoptions]
    exact ⟨hchange.claimed_eq hclaimed, hconforms⟩

theorem get?_widths_of_allReady (hstart : ofConfig c = .ok start) (hpci : c.protocol = .pci) (h : Course start trace b)
    (horderly : Orderly trace) (hready : b.allReady = true) {i : Ident} {slot : Slot}
    (hs : b.participants.get? i = some slot) {name : String} {width : Nat} (hwire : (name, width) ∈ Pci.sharedWires) :
    slot.widths.get? name = some width := by
  have hclaimed := claimed_of_allReady (h.sound hstart horderly) hready hs
  have hterms := h.terms hstart horderly i slot hs hclaimed
  obtain ⟨p, hp⟩ := Engine.exists_pci ((protocol_ofConfig hstart).trans hpci)
  rw [hp] at hterms
  rw [← Except.ok.inj hterms]
  exact Pci.get?_driven hwire slot.device

theorem matched_of_allReady (hstart : ofConfig c = .ok start) (hpci : c.protocol = .pci) (h : Course start trace b)
    (horderly : Orderly trace) (hready : b.allReady = true) {ps : Participants}
    (hmuted : ps.muted = b.participants.muted) : Pci.Matched ps := by
  intro name width hwire slot' hslot'
  obtain ⟨i, hs'⟩ := SortedMap.mem_values_iff.1 hslot'
  obtain ⟨slot, hs, hsame⟩ := Participants.exists_of_muted_eq hmuted hs'
  rw [(Slot.kept_of_muted_eq hsame).drives]
  exact (h.fitted (fitted_ofConfig hstart) i slot hs).width_drives
    (get?_widths_of_allReady hstart hpci h horderly hready hs hwire)

/-- What is settled for participant `i`, which has slot `s`, by its handshake. -/
structure Settles (start : Bus) (trace : Trace) (i : Ident) (s : Slot) (shown : Widths) : Prop where
  driven : start.engine.driven s.device s.options = .ok s.widths
  interface : start.engine.interface s.device s.options = .ok shown
  wired : ∀ name width, shown.get? name = some width → 0 < width
  /-- Every UNTIL that it is sent carries the signals of its interface. -/
  untils : ∀ b time signals, (b, .advance) ∈ trace → b.Answers i time signals → signals.Conforms shown

/-- **Interfaces are fixed.** At any time every participant drives exactly the signals that were agreed, each at its
width, and is shown exactly the signals of one interface throughout. On a PCI bus that waits for nobody, no drive of a
shared wire has another width than the wire, so the engine never has to make up a value. -/
theorem fixed_interface (hstart : ofConfig c = .ok start) (h : Course start trace b) (horderly : Orderly trace) :
    (∀ i slot, b.participants.get? i = some slot → slot.Fits ∧
      (slot.claimed = true → ∃ shown, Settles start trace i slot shown)) ∧
    (c.protocol = .pci → b.allReady = true → ∀ ps : Participants, ps.muted = b.participants.muted →
      ∀ name width, (name, width) ∈ Pci.sharedWires →
        (ps.values.map (·.drives name)).foldlM Bundle.blend (.released width) = .ok (Pci.resolve ps name width) ∧
        ∀ slot ∈ ps.values, (Pci.resolve ps name width).seenBy (slot.drives name) =
          .ok (Pci.seen (Pci.resolve ps name width) (slot.drives name))) := by
  refine ⟨fun i slot hs => ⟨h.fitted (fitted_ofConfig hstart) i slot hs, fun hclaimed => ?_⟩, ?_⟩
  · have hdriven := h.terms hstart horderly i slot hs hclaimed
    obtain ⟨shown, hshown⟩ := Engine.exists_interface hdriven
    refine ⟨shown, hdriven, hshown, fun name width => Engine.interface_pos hshown, ?_⟩
    intro b' time signals hmem hanswers
    obtain ⟨-, shown', hshown', hconforms⟩ := h.untils_conform hstart horderly hs hmem hanswers
    rw [hshown] at hshown'
    cases hshown'
    exact hconforms
  · intro hpci hready ps hmuted name width hwire
    have hmatched := matched_of_allReady hstart hpci h horderly hready hmuted
    exact ⟨hmatched.foldlM_eq hwire, fun slot hslot => hmatched.seenBy_eq hwire hslot⟩

/-- A link that takes one step after its host has offered a value. -/
def oneStep : List Operation :=
  linkGreetings ++ [.line 0 "READY 0e-12 DATA_O=1", .line 1 "READY 0e-12", .advance]

/-- Both ends of a PCI bus connect and leave. -/
def comeAndGo : List Operation :=
  [.handshake 7 "host" .empty, .handshake 8 "card" .empty, .line 0 "FINISH", .line 1 "FINISH"]

/-- The card of the link has one interface, and the wires of the PCI bus are resolved without mismatch. -/
theorem interfaces_of_two_buses :
    (∃ slot shown, (oneStep.foldl perform idleLink).participants.get? 1 = some slot ∧ slot.Fits ∧
      Settles idleLink (idleLink.traced oneStep) 1 slot shown) ∧
    ∃ ps, ps = (comeAndGo.foldl perform idleBus).participants ∧
      (ps.values.map (·.drives "AD")).foldlM Bundle.blend (.released 64) = .ok (Pci.resolve ps "AD" 64) := by
  constructor
  · have horderly : Orderly (idleLink.traced oneStep) := orderly_of_all (by cbv)
    have hslots := (fixed_interface ofConfig_oneWire (course_traced idleLink oneStep) horderly).1
    have hclaimed : ((oneStep.foldl perform idleLink).participants.get? 1).any (·.claimed) = true := by cbv
    obtain ⟨slot, hs, hclaimed⟩ := (Option.any_eq_true _ _).1 hclaimed
    obtain ⟨hfits, hsettles⟩ := hslots 1 slot hs
    obtain ⟨shown, hshown⟩ := hsettles hclaimed
    exact ⟨slot, shown, hs, hfits, hshown⟩
  · have horderly : Orderly (idleBus.traced comeAndGo) := orderly_of_all (by cbv)
    have hready : (comeAndGo.foldl perform idleBus).allReady = true := by cbv
    have hpci := (fixed_interface ofConfig_hostAndCard (course_traced idleBus comeAndGo) horderly).2 rfl hready
    exact ⟨_, rfl, (hpci _ rfl "AD" 64 (by decide)).1⟩

end Bus

end Lockstep
