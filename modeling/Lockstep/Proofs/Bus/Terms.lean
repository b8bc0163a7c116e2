import Lockstep.Proofs.Bus.Change
import Lockstep.Proofs.Engine.Tables
/-!
# The terms of a bus

What a bus agrees on with its participants, and when. A handshake settles which signals a participant may drive; that
never changes again (`Course.terms`). The first step wires the engine of a paired bus between its two ends, for good
(`Course.wired`), and by then everybody has been admitted, so the wires suit all participants as they are
(`Course.suited`). Only attempts to step move the engine, the clock and what participants are shown (`still_perform`).

That a link is there once the bus is assembled does not depend on what its participants did; that it suits them does.
-/

namespace Lockstep

def Engine.Wired (e : Engine) (link : Link) : Prop :=
  ∃ t, e.wiring? = some ⟨link, t⟩ ∧ t.Proper e.protocol.clockName

theorem Engine.Wired.entering {e : Engine} {link : Link} (h : e.Wired link) (phase : Phase) (ps : Participants) :
    (e.entering phase ps).Wired link := by
  rw [Wired, Engine.wiring?_entering, (Engine.kin_entering e phase ps).protocol_eq]
  exact h

namespace Bus

variable {c : BusConfig} {start b : Bus} {trace : Trace}

theorem protocol_ofConfig (h : ofConfig c = .ok start) : start.engine.protocol = c.protocol := by
  obtain ⟨-, engine, hengine, rfl⟩ := ofConfig_spec h
  show engine.protocol = c.protocol
  unfold Engine.ofConfig at hengine
  split at hengine <;>
    · next hprotocol =>
      obtain ⟨_, -, rfl⟩ := exists_of_map_eq_ok hengine
      exact hprotocol.symm

/-! ### Between steps -/

/-- Two buses that agree in all that a step moves. -/
structure Still (b b' : Bus) : Prop where
  engine : b'.engine = b.engine
  clock : b'.clock = b.clock
  time : b'.time = b.time
  assembled : b'.assembled = b.assembled
  steps : b'.steps = b.steps
  shown : ∀ i, b'.participants.shown i = b.participants.shown i

theorem Still.refl (b : Bus) : b.Still b := ⟨rfl, rfl, rfl, rfl, rfl, fun _ => rfl⟩

theorem still_modifySlot (b : Bus) (i : Ident) {f : Slot → Slot} (h : ∀ s, (f s).outgoing = s.outgoing) :
    b.Still (b.modifySlot i f) := by
  refine ⟨rfl, rfl, rfl, rfl, rfl, fun j => ?_⟩
  rw [Participants.shown, get?_modifySlot, Participants.shown]
  split
  · cases b.participants.get? j <;> simp [h]
  · rfl

theorem still_receive (b : Bus) (i : Ident) (m : Message) : b.Still (b.receive i m).2.1 := by
  cases hs : b.participants.get? i with
  | none =>
    rw [receive, hs]
    exact .refl b
  | some slot =>
    have hreceipt := receive_spec hs m
    generalize (b.receive i m).2.1 = b' at hreceipt ⊢
    generalize (b.receive i m).1 = outcome at hreceipt
    cases hreceipt with
    | offered | left | violated => exact still_modifySlot b i fun _ => rfl

theorem still_hear (b : Bus) (i : Ident) (text : String) : b.Still (b.hear i text).2 := by
  unfold hear
  cases b.decode i text with
  | error cause => exact .refl b
  | ok m => exact still_receive b i m

/-- Only an attempt to step moves the engine, the clock and what participants are shown. -/
theorem still_perform (b : Bus) {op : Operation} (h : op ≠ .advance) : b.Still (b.perform op) := by
  cases op with
  | handshake k name options =>
    rcases b.handshake_spec k name options with ⟨_, -, heq⟩ | ⟨slot, widths, -, heq⟩
    · rw [perform, heq]
      exact .refl b
    · rw [perform, heq]
      exact still_modifySlot b _ fun _ => rfl
  | line i text => exact still_hear b i text
  | disconnect i =>
    show b.Still (b.disconnect i).2
    unfold Bus.disconnect
    split
    · exact .refl b
    · split
      · exact still_modifySlot b i fun _ => rfl
      · exact still_modifySlot b i fun _ => rfl
  | advance => exact absurd rfl h
  | tearDown =>
    show b.Still b.tearDown.2.1
    unfold Bus.tearDown
    split
    · exact .refl b
    · refine ⟨rfl, rfl, rfl, rfl, rfl, fun i => ?_⟩
      exact Participants.shown_each (f := (·.unbind)) (fun _ => rfl) _ i

/-! ### The engine -/

theorem Prepared.kin {engine : Engine} {ps : Participants} (h : b.Prepared engine ps) : b.engine.Kin engine := by
  cases h with
  | running => exact .refl _
  | fresh _ agreed => exact Engine.kin_wrapUp agreed

/-- A PCI engine goes into a step with the state that it has, since there is nothing to agree on. -/
theorem Prepared.eq_pci {engine : Engine} {ps : Participants} {pci : Pci} (h : b.Prepared engine ps)
    (hengine : b.engine = .pci pci) : engine = .pci pci := by
  cases h with
  | running => exact hengine
  | fresh _ agreed =>
    rw [hengine] at agreed
    cases agreed
    rfl

theorem kin_perform (b : Bus) (op : Operation) : b.engine.Kin (b.perform op).engine := by
  by_cases hop : op = .advance
  · subst hop
    have hattempt := b.attempt_spec
    show b.engine.Kin b.advance.2.1.engine
    generalize b.advance.2.1 = b' at hattempt
    generalize b.advance.1 = outcome at hattempt
    cases hattempt with
    | waiting => exact .refl _
    | refused => exact .refl _
    | late cause engine ps live ready prepared => exact prepared.kin
    | stepped engine ps time live ready prepared => exact prepared.kin.trans (Engine.kin_entering _ _ _)
  · rw [(b.still_perform hop).engine]
    exact .refl _

theorem Course.kin (h : Course start trace b) : start.engine.Kin b.engine := by
  induction h with
  | nil => exact .refl _
  | snoc _ op ih => exact ih.trans (kin_perform _ op)

theorem Course.protocol_eq (hstart : ofConfig c = .ok start) (h : Course start trace b) :
    b.engine.protocol = c.protocol := h.kin.protocol_eq.trans (protocol_ofConfig hstart)

/-! ### The link of a paired bus -/

section Link

variable {host card : Device}

theorem Prepared.wired_of {engine : Engine} {ps : Participants} (h : b.Prepared engine ps)
    (hpairs : c.Pairs host card) (hstaffed : Participants.Staffed c.devices b.participants)
    (hpaired : b.engine.protocol.isPaired = true)
    (hwired : b.assembled = true → b.engine.Wired ⟨host.ident, card.ident⟩) :
    engine.Wired ⟨host.ident, card.ident⟩ := by
  cases h with
  | running assembled => exact hwired assembled
  | fresh unassembled agreed =>
    obtain ⟨hostSlot, hhost, rfl⟩ := hstaffed.slot hpairs.host_mem
    obtain ⟨cardSlot, hcard, rfl⟩ := hstaffed.slot hpairs.card_mem
    obtain ⟨t, hw, hproper, -⟩ := Engine.agreed_of_wrapUp agreed hpaired (hpairs.find_link hstaffed) hhost hcard
      hpairs.isHost hpairs.isCard
    refine ⟨t, hw, ?_⟩
    rwa [(Engine.kin_wrapUp agreed).protocol_eq]

theorem Course.wired (hstart : ofConfig c = .ok start) (h : Course start trace b) (hpairs : c.Pairs host card)
    (hpaired : c.protocol.isPaired = true) :
    b.assembled = true → b.engine.Wired ⟨host.ident, card.ident⟩ := by
  induction h with
  | nil =>
    obtain ⟨-, engine, -, rfl⟩ := ofConfig_spec hstart
    exact fun h => by cases h
  | @snoc trace b h op ih =>
    intro hassembled
    by_cases hop : op = .advance
    · subst hop
      have hprepared : ∀ {engine : Engine} {ps : Participants}, b.Prepared engine ps →
          engine.Wired ⟨host.ident, card.ident⟩ := by
        intro engine ps hprepared
        refine hprepared.wired_of hpairs (h.staffed hstart) ?_ ih
        rw [h.protocol_eq hstart]
        exact hpaired
      have hattempt := b.attempt_spec
      change b.advance.2.1.assembled = true at hassembled
      show b.advance.2.1.engine.Wired _
      generalize b.advance.2.1 = b' at hattempt hassembled ⊢
      generalize b.advance.1 = outcome at hattempt
      cases hattempt with
      | waiting => exact ih hassembled
      | refused => exact ih hassembled
      | late cause engine ps live ready prepared => exact hprepared prepared
      | stepped engine ps time live ready prepared => exact (hprepared prepared).entering _ _
    · have hstill := b.still_perform hop
      rw [hstill.engine]
      exact ih (hstill.assembled ▸ hassembled)

theorem Prepared.wired {engine : Engine} {ps : Participants} (hprepared : b.Prepared engine ps)
    (hstart : ofConfig c = .ok start) (h : Course start trace b) (hpairs : c.Pairs host card)
    (hpaired : c.protocol.isPaired = true) : engine.Wired ⟨host.ident, card.ident⟩ :=
  hprepared.wired_of hpairs (h.staffed hstart) (by rw [h.protocol_eq hstart, hpaired])
    (h.wired hstart hpairs hpaired)

end Link

/-! ### What participants have agreed to -/

theorem Change.claimed_eq {i : Ident} {slot slot' : Slot} {op : Operation} (h : b.Change i slot op slot')
    (hclaimed : slot.claimed = true) : slot'.claimed = true := by
  cases h with
  | admitted => rfl
  | offered => exact hclaimed
  | left => exact hclaimed
  | kept _ _ same => exact same.claimed.trans hclaimed

theorem Change.announced_eq {i : Ident} {slot slot' : Slot} {op : Operation} (hb : b.Sound)
    (h : b.Change i slot op slot') (hclaimed : slot.claimed = true) :
    slot'.device = slot.device ∧ slot'.options = slot.options ∧ slot'.widths = slot.widths := by
  cases h with
  | admitted greeting admits =>
    obtain ⟨-, -, -, hfree, -⟩ := admits_spec hb admits
    rw [hclaimed] at hfree
    cases hfree
  | offered => exact ⟨rfl, rfl, rfl⟩
  | left => exact ⟨rfl, rfl, rfl⟩
  | kept _ _ same => exact ⟨same.device, same.options, same.widths⟩

/-- What an admitted participant may drive is what the engine that was configured says. -/
def Terms (start : Bus) (s : Slot) : Prop :=
  s.claimed = true → start.engine.driven s.device s.options = .ok s.widths

theorem Course.terms (hstart : ofConfig c = .ok start) (h : Course start trace b) (horderly : Orderly trace) :
    ∀ i slot, b.participants.get? i = some slot → Terms start slot := by
  induction h with
  | nil =>
    obtain ⟨-, engine, -, rfl⟩ := ofConfig_spec hstart
    intro i slot hs
    obtain ⟨d, -, rfl, -⟩ := vacant_of_ofDevices hs
    exact fun h => by cases h
  | @snoc trace b h op ih =>
    obtain ⟨horderly, huses⟩ := orderly_snoc.1 horderly
    have hsound := h.sound hstart horderly
    intro i slot' hs' hclaimed'
    obtain ⟨slot, hs, hchange⟩ := exists_change hsound huses hs'
    cases hclaimed : slot.claimed with
    | true =>
      obtain ⟨hdevice, hoptions, hwidths⟩ := hchange.announced_eq hsound hclaimed
      rw [hdevice, hoptions, hwidths]
      exact ih horderly i slot hs hclaimed
    | false =>
      cases hchange with
      | admitted greeting admits =>
        obtain ⟨-, -, -, -, hdriven⟩ := admits_spec hsound admits
        rw [h.kin.driven_eq] at hdriven
        exact hdriven
      | offered | left =>
        rw [show slot.claimed = true from hclaimed'] at hclaimed
        cases hclaimed
      | kept _ _ same =>
        rw [same.claimed, hclaimed] at hclaimed'
        cases hclaimed'

/-- A participant has been admitted, and the wires of an engine suit it. -/
def Suited (start : Bus) (e : Engine) (s : Slot) : Prop :=
  s.claimed = true ∧ ∀ w, e.wiring? = some w → start.engine.Suits w.table s

theorem Suited.of_announced_eq {e : Engine} {s s' : Slot} (h : Suited start e s) (hclaimed : s'.claimed = true)
    (hdevice : s'.device = s.device) (hoptions : s'.options = s.options) : Suited start e s' := by
  refine ⟨hclaimed, fun w hw => ?_⟩
  obtain ⟨hdrives, hsees⟩ := h.2 w hw
  rw [← hdevice, ← hoptions] at hdrives hsees
  have hhost : s'.isHost = s.isHost := by rw [Slot.isHost, hdevice, Slot.isHost]
  rw [← hhost] at hdrives hsees
  exact ⟨hdrives, hsees⟩

theorem Suited.of_kept {e : Engine} {s s' : Slot} (h : Suited start e s) (hkept : s.Kept s') : Suited start e s' :=
  h.of_announced_eq (hkept.claimed.trans h.1) hkept.device hkept.options

theorem claimed_of_allReady (hb : b.Sound) (hready : b.allReady = true) {i : Ident} {slot : Slot}
    (hs : b.participants.get? i = some slot) : slot.claimed = true := by
  cases hclaimed : slot.claimed with
  | true => rfl
  | false =>
    obtain ⟨hunready, hunfinished, -⟩ := (hb.slots hs).vacant hclaimed
    have hisReady := Participants.allReady_iff.1 hready i slot hs
    rw [Slot.isReady, hunready, hunfinished] at hisReady
    cases hisReady

theorem Prepared.suited {engine : Engine} {ps : Participants} (hprepared : b.Prepared engine ps)
    (hstart : ofConfig c = .ok start) (h : Course start trace b) (hsound : b.Sound) (hready : b.allReady = true)
    (hsuited : b.assembled = true → ∀ i slot, b.participants.get? i = some slot → Suited start b.engine slot)
    {i : Ident} {slot : Slot} (hs : b.participants.get? i = some slot) : Suited start engine slot := by
  cases hprepared with
  | running assembled => exact hsuited assembled i slot hs
  | fresh unassembled agreed =>
    refine ⟨claimed_of_allReady hsound hready hs, fun w hw => ?_⟩
    have hprotocol := h.protocol_eq hstart
    cases hpaired : c.protocol.isPaired with
    | false =>
      rw [Engine.wiring?_eq_none] at hw
      · cases hw
      · rw [(Engine.kin_wrapUp agreed).protocol_eq, hprotocol, hpaired]
    | true =>
      have hstaffed := h.staffed hstart
      obtain ⟨host, card, hpairs⟩ := BusConfig.exists_pairs (ofConfig_spec hstart).1 hpaired
      obtain ⟨hostSlot, hhost, hhostDevice⟩ := hstaffed.slot hpairs.host_mem
      obtain ⟨cardSlot, hcard, hcardDevice⟩ := hstaffed.slot hpairs.card_mem
      obtain ⟨t, hw', -, hsuitsHost, hsuitsCard⟩ := Engine.agreed_of_wrapUp agreed (by rw [hprotocol, hpaired])
        (hpairs.find_link hstaffed) hhost hcard (by rw [Slot.isHost, hhostDevice, hpairs.isHost])
        (by rw [Slot.isHost, hcardDevice, hpairs.isCard])
      rw [hw] at hw'
      cases hw'
      -- a paired bus has no other participants than the two ends
      obtain ⟨hmem, hident⟩ := hstaffed.device hs
      rw [← h.kin.suits_iff]
      rcases hpairs.only _ hmem with hdevice | hdevice
      · rw [← hident, Slot.ident, hdevice, hhost] at hs
        cases hs
        exact hsuitsHost
      · rw [← hident, Slot.ident, hdevice, hcard] at hs
        cases hs
        exact hsuitsCard

theorem Course.suited (hstart : ofConfig c = .ok start) (h : Course start trace b) (horderly : Orderly trace) :
    b.assembled = true → ∀ i slot, b.participants.get? i = some slot → Suited start b.engine slot := by
  induction h with
  | nil =>
    obtain ⟨-, engine, -, rfl⟩ := ofConfig_spec hstart
    exact fun h => by cases h
  | @snoc trace b h op ih =>
    obtain ⟨hbefore, huses⟩ := orderly_snoc.1 horderly
    have hsound := h.sound hstart hbefore
    intro hassembled i slot' hs'
    obtain ⟨slot, hs, hchange⟩ := exists_change hsound huses hs'
    by_cases hop : op = .advance
    · subst hop
      have hkept : slot.Kept slot' := by
        cases hchange with
        | kept _ _ same => exact same
        | admitted greeting => cases greeting
        | offered _ _ accepted => cases accepted
        | left retired => cases retired
      suffices hsuited : Suited start b.advance.2.1.engine slot from hsuited.of_kept hkept
      have hattempt := b.attempt_spec
      change b.advance.2.1.assembled = true at hassembled
      generalize b.advance.2.1 = b' at hattempt hassembled ⊢
      generalize b.advance.1 = outcome at hattempt
      have hprepared : ∀ {engine : Engine} {ps : Participants}, b.allReady = true → b.Prepared engine ps →
          Suited start engine slot := fun hready hprepared =>
        hprepared.suited hstart h hsound hready (ih hbefore) hs
      cases hattempt with
      | waiting => exact ih hbefore hassembled i slot hs
      | refused => exact ih hbefore hassembled i slot hs
      | late cause engine ps live ready prepared => exact hprepared ready prepared
      | stepped engine ps time live ready prepared =>
        obtain ⟨hclaimed, hwires⟩ := hprepared ready prepared
        exact ⟨hclaimed, fun w hw => hwires w (by rwa [Engine.wiring?_entering] at hw)⟩
    · have hstill := b.still_perform hop
      rw [hstill.engine]
      have hsuited := ih hbefore (hstill.assembled ▸ hassembled) i slot hs
      obtain ⟨hdevice, hoptions, -⟩ := hchange.announced_eq hsound hsuited.1
      exact hsuited.of_announced_eq (hchange.claimed_eq hsuited.1) hdevice hoptions

theorem Prepared.get?_widths {engine : Engine} {ps : Participants} (hprepared : b.Prepared engine ps)
    (hstart : ofConfig c = .ok start) (h : Course start trace b) (horderly : Orderly trace) (hready : b.allReady = true)
    {w : Wiring} (hw : engine.wiring? = some w) {r : RelaySignal} (hr : r ∈ w.table.signals) {i : Ident} {slot : Slot}
    (hs : b.participants.get? i = some slot) (hdrives : r.direction.fromHost = slot.isHost) :
    slot.widths.get? r.source = some r.width := by
  have hsuited := hprepared.suited hstart h (h.sound hstart horderly) hready (h.suited hstart horderly) hs
  have hterms := h.terms hstart horderly i slot hs hsuited.1
  exact (hsuited.2 w hw).drives hterms r hr hdrives

end Bus

end Lockstep
