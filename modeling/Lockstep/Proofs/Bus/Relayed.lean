import Lockstep.Proofs.Bus.Offers
/-!
# What a link relays

On a paired bus every step copies each signal of the table from the end that drives it to the end that receives it.
Here this is said in terms of the history: what the receiving end is shown is what the driving end offered last, or
released wires (`Bus.relays_last_offer`). The table is as wide as both ends expect, so it does not matter that the
engine takes released wires from the table in one case and from the slot in the other.
-/

namespace Lockstep.Bus

variable {c : BusConfig} {start b : Bus} {trace : Trace}

theorem Prepared.value_eq {engine : Engine} {ps : Participants} (hprepared : b.Prepared engine ps)
    (hstart : ofConfig c = .ok start) (h : Course start trace b) (horderly : Orderly trace) (hready : b.allReady = true)
    {host card : Device} (hpairs : c.Pairs host card) {t : RelayTable}
    (hw : engine.wiring? = some ⟨⟨host.ident, card.ident⟩, t⟩) {r : RelaySignal} (hr : r ∈ t.signals) {sender : Device}
    (hsender : sender ∈ c.devices) (hdrives : r.direction.fromHost = sender.host) :
    r.value ⟨host.ident, card.ident⟩ ps = drive sender.ident r.source r.width trace := by
  have hstaffed := h.staffed hstart
  obtain ⟨slot, hs, hdevice⟩ := hstaffed.slot hsender
  have hrecalls := h.recalls hstart horderly sender.ident slot hs
  have hwidth := hprepared.get?_widths hstart h horderly hready hw hr hs (by rw [Slot.isHost, hdevice, hdrives])
  -- what has been shown to the participants meanwhile makes no difference to what they drive
  obtain ⟨slot', hs', hmuted⟩ := Participants.exists_of_muted_eq hprepared.muted_eq.symm hs
  have hkept := Slot.kept_of_muted_eq hmuted.symm
  rw [RelaySignal.value, (hpairs.driver_iff (hpairs.ident_ne hstaffed) hsender _).2 hdrives, hs']
  dsimp only
  rw [hkept.finished, hkept.drives, hrecalls.finished, hrecalls.drives hwidth]
  split
  · next hretired => rw [drive_of_retired hretired]
  · rfl

/-- **Links deliver the last offer.** On every step of a paired bus, and for every signal of its table, the receiving
end is shown under its own name what the driving end offered last under its own: released wires if it never did, and
released wires if it has gone. -/
theorem relays_last_offer (hstart : ofConfig c = .ok start) (hpaired : c.protocol.isPaired = true)
    (h : Course start trace b) (horderly : Orderly trace) {ds : List Delivery} (hds : b.advance.1 = .stepped ds) :
    ∃ w, b.advance.2.1.engine.wiring? = some w ∧ ∀ r ∈ w.table.signals, ∀ sender ∈ c.devices, ∀ receiver ∈ c.devices,
      sender.host = r.direction.fromHost → receiver.host = (!r.direction.fromHost) →
      ∀ time signals, b.Answers receiver.ident time signals →
        signals.get? r.target = some (drive sender.ident r.source r.width trace) := by
  obtain ⟨host, card, hpairs⟩ := BusConfig.exists_pairs (ofConfig_spec hstart).1 hpaired
  have hstaffed := h.staffed hstart
  have hne := hpairs.ident_ne hstaffed
  have hattempt := b.attempt_spec
  rw [hds] at hattempt
  generalize b.advance.2.1 = b' at hattempt
  cases hattempt with
  | stepped engine ps time live ready prepared sum =>
    have hprotocol := h.protocol_eq hstart
    obtain ⟨t, hw, hproper⟩ := prepared.wired hstart h hpairs hpaired
    refine ⟨⟨⟨host.ident, card.ident⟩, t⟩, by rw [Engine.wiring?_entering, hw], ?_⟩
    intro r hr sender hsender receiver hreceiver hdrives hreceives time signals hanswers
    obtain ⟨engine', ps', s, hprepared', -, -, -, rfl⟩ := hanswers.display
    obtain ⟨rfl, rfl⟩ := prepared.unique hprepared'
    -- the value is in the list that the receiving end is sent, and nothing else there has its name
    have hentering := (Engine.kin_entering engine' b.clock.phase.next ps').protocol_eq
    obtain ⟨shown, -, hdisplay⟩ := hpairs.display_eq hne hreceiver
      (e := engine'.entering b.clock.phase.next ps') (by rw [Engine.wiring?_entering, hw]) b.clock.phase.next.level
      ps' s
    have htoward : r ∈ t.toward receiver.host := by
      rw [RelayTable.toward, List.mem_filter, hreceives]
      simp [hr]
    have hvalue := prepared.value_eq hstart h horderly ready hpairs hw hr hsender hdrives.symm
    rw [hdisplay, hentering]
    refine SortedMap.get?_insertMany_of_mem (hproper.pairwise_toward receiver.host _ _) ?_ _
    rw [← hvalue]
    exact List.mem_append_left _ (List.mem_map.2 ⟨r, htoward, rfl⟩)

/-- The host offers a value, and the card is ready without one. -/
def oneOffer : List Operation :=
  linkGreetings ++ [.line 0 "READY 0e-12 DATA_O=1", .line 1 "READY 0e-12"]

/-- The card is shown what the host offered, and the host released wires. -/
theorem card_sees_offer : ∃ ds, (oneOffer.foldl perform idleLink).advance.1 = .stepped ds ∧
    (∀ time signals, (oneOffer.foldl perform idleLink).Answers 1 time signals →
      signals.get? "DATA_I" = some (.ofLevel .one)) ∧
    ∀ time signals, (oneOffer.foldl perform idleLink).Answers 0 time signals →
      signals.get? "DATA_I" = some (.released 1) := by
  have hcourse := course_traced idleLink oneOffer
  have horderly : Orderly (idleLink.traced oneOffer) := orderly_of_all (by cbv)
  have hwiring : (oneOffer.foldl perform idleLink).advance.2.1.engine.wiring? =
      some ⟨⟨0, 1⟩, PointToPoint.table 1 1⟩ := by cbv
  obtain ⟨ds, hds⟩ := exists_of_stepped (b := oneOffer.foldl perform idleLink) (by cbv)
  obtain ⟨w, hw, hrelays⟩ := relays_last_offer ofConfig_oneWire rfl hcourse horderly hds
  rw [hwiring] at hw
  cases hw
  have hoffered : drive 0 "DATA_O" 1 (idleLink.traced oneOffer) = .ofLevel .one := by
    rw [drive_of_not_retired (by cbv)]
    cbv
  have hsilent : drive 1 "DATA_O" 1 (idleLink.traced oneOffer) = .released 1 := by
    rw [drive_of_not_retired (by cbv)]
    cbv
  refine ⟨ds, hds, fun time signals hanswers => ?_, fun time signals hanswers => ?_⟩
  · rw [← hoffered]
    exact hrelays (.crossed "DATA_O" "DATA_I" 1 .hostToDevice) (by decide) ⟨"host", 0, true⟩ (by decide)
      ⟨"card", 1, false⟩ (by decide) rfl rfl time signals hanswers
  · rw [← hsilent]
    exact hrelays (.crossed "DATA_O" "DATA_I" 1 .deviceToHost) (by decide) ⟨"card", 1, false⟩ (by decide)
      ⟨"host", 0, true⟩ (by decide) rfl rfl time signals hanswers

end Lockstep.Bus
