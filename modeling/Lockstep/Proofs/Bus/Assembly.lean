import Lockstep.Proofs.Bus.Failure
import Lockstep.Proofs.Engine.Options
/-!
# The assembly of a paired bus

The first step of a paired bus goes through exactly if its two ends have come to the same widths, and says on which
option they differ if not (`Bus.assembles_on_agreement`). There is nothing else that could go wrong with it: both ends
have been admitted, so their options have been found to make sense (`Course.terms`), the two ends of the link are there
from the start (`BusConfig.Pairs.find_link`), and no time has passed (`Commenced`). It makes no difference whether an end
has left again.
-/

namespace Lockstep.Bus

variable {c : BusConfig} {start b : Bus} {trace : Trace}

theorem Course.commenced (hstart : ofConfig c = .ok start) (h : Course start trace b) : b.Commenced := by
  induction h with
  | nil => exact commenced_ofConfig hstart
  | snoc _ op ih => exact ih.call (.operate op)

theorem Course.options_eq (hstart : ofConfig c = .ok start) (h : Course start trace b)
    (hpaired : c.protocol.isPaired = true) : b.engine.options = c.options := by
  rw [h.kin.options_eq]
  obtain ⟨-, engine, hengine, rfl⟩ := ofConfig_spec hstart
  exact Engine.options_ofConfig hengine hpaired

theorem Commenced.assembling (h : b.Commenced) (hunassembled : b.assembled = false) (hgoes : b.advance.1 ≠ .waiting) :
    (∃ cause, b.engine.wrapUp b.participants = .error cause ∧ b.advance.1 = .failed (.engine cause)) ∨
      ∃ r ds, b.engine.wrapUp b.participants = .ok r ∧ b.advance.1 = .stepped ds := by
  have hattempt := b.attempt_spec
  generalize b.advance.2.1 = b' at hattempt
  generalize b.advance.1 = outcome at hattempt hgoes ⊢
  cases hattempt with
  | waiting => exact absurd rfl hgoes
  | refused cause _ _ _ refusal => exact .inl ⟨cause, refusal, rfl⟩
  | late _ _ _ _ _ _ overflow =>
    rw [h.assembled_of_overflow overflow] at hunassembled
    cases hunassembled
  | stepped engine ps time live ready prepared sum =>
    cases prepared with
    | running assembled =>
      rw [assembled] at hunassembled
      cases hunassembled
    | fresh _ agreed => exact .inr ⟨_, _, agreed, rfl⟩

/-- What is due of the attempt that assembles a bus between a host and a card. -/
structure AssemblesOnAgreement (c : BusConfig) (b : Bus) (host card : Slot) : Prop where
  admitted : host.claimed = true ∧ card.claimed = true
  valued : ∀ q ∈ c.protocol.comparisons, q.Valued host card c.options
  stepped : (∃ ds, b.advance.1 = .stepped ds) ↔ ∀ q ∈ c.protocol.comparisons, q.Agrees host card c.options
  failed : ∀ cause, b.advance.1 = .failed cause ↔
    ∃ e, FirstDiscord host card c.options c.protocol.comparisons e ∧ cause = .engine e
  unannounced : (∀ q ∈ c.protocol.comparisons, host.options.get? q.host.key = none ∧ card.options.get? q.card.key = none) →
    ∃ ds, b.advance.1 = .stepped ds
  /-- Each wire of the link is as wide as its driving end has been told to drive it. -/
  wired : ∀ ds, b.advance.1 = .stepped ds → ∃ w, b.advance.2.1.engine.wiring? = some w ∧ ∀ r ∈ w.table.signals,
    ∃ slot, b.participants.get? (w.link.driver r.direction) = some slot ∧ slot.widths.get? r.source = some r.width

/-- The ends of a paired bus that waits for nobody have been admitted, and the engine compares their options. -/
theorem Course.compares (hstart : ofConfig c = .ok start) (hpaired : c.protocol.isPaired = true)
    (h : Course start trace b) (horderly : Orderly trace) (hready : b.allReady = true) {host card : Slot}
    (hhost : b.participants.get? host.ident = some host) (hcard : b.participants.get? card.ident = some card)
    (hhostFlag : host.isHost = true) (hcardFlag : card.isHost = false) : (host.claimed = true ∧ card.claimed = true) ∧
      Compares host card c.options c.protocol.comparisons (b.engine.wrapUp b.participants) := by
  have hsound := h.sound hstart horderly
  have hstaffed := h.staffed hstart
  have hclaimed : ∀ {i slot}, b.participants.get? i = some slot → slot.claimed = true :=
    fun hs => claimed_of_allReady hsound hready hs
  have hdriven : ∀ {i slot}, b.participants.get? i = some slot →
      b.engine.driven slot.device slot.options = .ok slot.widths := by
    intro i slot hs
    rw [h.kin.driven_eq]
    exact h.terms hstart horderly i slot hs (hclaimed hs)
  -- there is one host and one card only, so these two are the ends of the link
  obtain ⟨hostDevice, cardDevice, hpairs⟩ := BusConfig.exists_pairs (ofConfig_spec hstart).1 hpaired
  obtain rfl := hpairs.eq_host (hstaffed.device hhost).1 hhostFlag
  obtain rfl := hpairs.eq_card (hstaffed.device hcard).1 hcardFlag
  have hprotocol := h.protocol_eq hstart
  refine ⟨⟨hclaimed hhost, hclaimed hcard⟩, ?_⟩
  rw [← h.options_eq hstart hpaired, ← hprotocol]
  exact Engine.compares_wrapUp (by rw [hprotocol, hpaired]) (hpairs.find_link hstaffed) hhost hcard hhostFlag hcardFlag
    (hdriven hhost) (hdriven hcard)

theorem Course.wired_as_driven (hstart : ofConfig c = .ok start) (hpaired : c.protocol.isPaired = true)
    (h : Course start trace b) (horderly : Orderly trace) {ds : List Delivery} (hds : b.advance.1 = .stepped ds) :
    ∃ w, b.advance.2.1.engine.wiring? = some w ∧ ∀ r ∈ w.table.signals,
      ∃ slot, b.participants.get? (w.link.driver r.direction) = some slot ∧ slot.widths.get? r.source = some r.width := by
  obtain ⟨host, card, hpairs⟩ := BusConfig.exists_pairs (ofConfig_spec hstart).1 hpaired
  have hstaffed := h.staffed hstart
  have hattempt := b.attempt_spec
  rw [hds] at hattempt
  generalize b.advance.2.1 = b' at hattempt
  cases hattempt with
  | stepped engine ps time live ready prepared sum =>
    obtain ⟨t, hw, -⟩ := prepared.wired hstart h hpairs hpaired
    refine ⟨_, by rw [Engine.wiring?_entering, hw], fun r hr => ?_⟩
    obtain ⟨d, hd, hflag⟩ := hpairs.exists_of_flag r.direction.fromHost
    obtain ⟨slot, hs, rfl⟩ := hstaffed.slot hd
    have hdriver := (hpairs.driver_iff (hpairs.ident_ne hstaffed) hd r.direction).2 hflag.symm
    refine ⟨slot, by rw [hdriver, hs], ?_⟩
    exact prepared.get?_widths hstart h horderly ready hw hr hs hflag.symm

/-- **Assembly.** A paired bus starts exactly if its host and its card have come to the same widths, whatever options
they announced. -/
theorem assembles_on_agreement (hstart : ofConfig c = .ok start) (hpaired : c.protocol.isPaired = true)
    (h : Course start trace b) (horderly : Orderly trace) (hunassembled : b.assembled = false)
    (hgoes : b.advance.1 ≠ .waiting) {host card : Slot} (hhost : b.participants.get? host.ident = some host)
    (hcard : b.participants.get? card.ident = some card) (hhostFlag : host.isHost = true)
    (hcardFlag : card.isHost = false) : AssemblesOnAgreement c b host card := by
  have hready : b.allReady = true := (ready_of_advance hgoes).2
  obtain ⟨hadmitted, hcompares⟩ := h.compares hstart hpaired horderly hready hhost hcard hhostFlag hcardFlag
  have hassembling := (h.commenced hstart).assembling hunassembled hgoes
  have hstepped : (∃ ds, b.advance.1 = .stepped ds) ↔ ∀ q ∈ c.protocol.comparisons, q.Agrees host card c.options := by
    rw [← hcompares.exists_ok_iff]
    rcases hassembling with ⟨cause, herror, hfailed⟩ | ⟨r, ds, hok, hds⟩
    · simp [herror, hfailed]
    · exact iff_of_true ⟨ds, hds⟩ ⟨r, hok⟩
  have hfailed : ∀ cause, b.advance.1 = .failed cause ↔
      ∃ e, FirstDiscord host card c.options c.protocol.comparisons e ∧ cause = .engine e := by
    intro cause
    simp only [← hcompares.error_iff]
    rcases hassembling with ⟨e, herror, hfailed⟩ | ⟨r, ds, hok, hds⟩
    · simp [herror, hfailed, eq_comm]
    · simp [hok, hds]
  refine ⟨hadmitted, hcompares.valued, hstepped, hfailed, fun hunannounced => ?_, fun ds hds => ?_⟩
  · exact hstepped.2 fun q hq =>
      Protocol.agrees_of_unannounced hq (hunannounced q hq).1 (hunannounced q hq).2 c.options
  · exact h.wired_as_driven hstart hpaired horderly hds

/-- The host is ready, and the card has left before the link starts. Neither has announced anything. -/
def cardLeaves : List Operation := linkGreetings ++ [.line 0 "READY 0e-12", .line 1 "FINISH"]

/-- The card that has left does not stand in the way of the link. -/
theorem link_starts_without_card : ∃ host card,
    AssemblesOnAgreement oneWire (cardLeaves.foldl perform idleLink) host card ∧ card.finished = true ∧
    ∃ ds, (cardLeaves.foldl perform idleLink).advance.1 = .stepped ds := by
  have horderly : Orderly (idleLink.traced cardLeaves) := orderly_of_all (by cbv)
  have hgoes : (cardLeaves.foldl perform idleLink).advance.1 ≠ .waiting := by cbv; simp
  have hends : (oneWire.devices.all fun d => ((cardLeaves.foldl perform idleLink).participants.get? d.ident).any fun s =>
      s.device = d && s.options = .empty && s.finished = !d.host) = true := by cbv
  have hend : ∀ d ∈ oneWire.devices, ∃ s, (cardLeaves.foldl perform idleLink).participants.get? d.ident = some s ∧
      s.device = d ∧ s.options = .empty ∧ s.finished = !d.host := by
    intro d hd
    obtain ⟨s, hs, hsame⟩ := (Option.any_eq_true _ _).1 (List.all_eq_true.1 hends d hd)
    exact ⟨s, hs, by simpa [and_assoc] using hsame⟩
  obtain ⟨host, hhost, hhostDevice, hhostOptions, -⟩ := hend ⟨"host", 0, true⟩ (by decide)
  obtain ⟨card, hcard, hcardDevice, hcardOptions, hleft⟩ := hend ⟨"card", 1, false⟩ (by decide)
  have hassembles : AssemblesOnAgreement oneWire (cardLeaves.foldl perform idleLink) host card :=
    assembles_on_agreement ofConfig_oneWire rfl (course_traced idleLink cardLeaves) horderly (by cbv) hgoes
      (by rw [Slot.ident, hhostDevice, hhost]) (by rw [Slot.ident, hcardDevice, hcard])
      (by rw [Slot.isHost, hhostDevice]) (by rw [Slot.isHost, hcardDevice])
  refine ⟨host, card, hassembles, hleft, hassembles.unannounced fun q _ => ?_⟩
  rw [hhostOptions, hcardOptions]
  exact ⟨SortedMap.get?_empty _, SortedMap.get?_empty _⟩

end Lockstep.Bus
