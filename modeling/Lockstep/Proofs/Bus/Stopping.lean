import Lockstep.Proofs.Bus.Schedule
import Lockstep.Proofs.Bus.Steering
/-!
# Stopping the clock of a link

The host of a point-to-point link is shown the clock of the bus. The device at the other end is shown what the host
makes of it: the host may offer a mode that stops the clock undriven, low or high, and the mode stays until it offers
another one (`Steered`, `Bus.Answers.steered`).
-/

namespace Lockstep

/-! ### Modes -/

/-- The level that the device is shown when the clock of the bus is at `level`, by whether the host has left and by the
mode that it offered last. -/
inductive Steered (level : Level) : Bool → Option Bundle → Level → Prop where
  | gone (mode : Option Bundle) : Steered level true mode level
  | unasked : Steered level false none level
  | run {v : Bundle} (h : v.text = "00") : Steered level false (some v) level
  | unclear {v : Bundle} (h : .unknown ∈ v.bits ∨ .released ∈ v.bits) : Steered level false (some v) level
  | released {v : Bundle} (h : v.text = "01") : Steered level false (some v) .released
  | low {v : Bundle} (h : v.text = "10") : Steered level false (some v) .zero
  | high {v : Bundle} (h : v.text = "11") : Steered level false (some v) .one

theorem Steered.eq_level {level shown : Level} {gone : Bool} {v : Bundle} (h : Steered level gone (some v) shown)
    (hv : v.text = "00") : shown = level := by
  cases h with
  | gone | run | unclear => rfl
  | released hother | low hother | high hother =>
    rw [hv] at hother
    exact absurd hother (by decide)

namespace ClockMode

theorem steered_ofBundle {v : Bundle} (hwidth : v.width = 2) (level : Level) :
    Steered level false (some v) ((ofBundle v).apply level) := by
  obtain ⟨bits⟩ := v
  obtain ⟨a, b, rfl⟩ := List.length_eq_two.1 hwidth
  by_cases hunclear : Level.unknown ∈ [a, b] ∨ Level.released ∈ [a, b]
  · have hrun : ofBundle ⟨[a, b]⟩ = .run := by
      cases a <;> cases b <;> first | rfl | simp at hunclear
    rw [hrun]
    exact .unclear hunclear
  · cases a <;> cases b <;> simp at hunclear
    · exact .run rfl
    · exact .low rfl
    · exact .released rfl
    · exact .high rfl

end ClockMode

namespace PointToPoint

theorem get?_driven_clockMode {e : Engine} {device : Device} {announced : Options} {widths : Lockstep.Widths}
    (hp2p : e.protocol = .pointToPoint) (hhost : device.host = true) (h : e.driven device announced = .ok widths) :
    widths.get? "CLOCK_MODE" = some 2 := by
  cases e with
  | pointToPoint bus wiring =>
    obtain ⟨w, -, hwidths⟩ := exists_of_bind_eq_ok (show driven device announced bus = .ok widths from h)
    obtain rfl := Except.ok.inj hwidths
    rw [if_pos hhost, SortedMap.get?_insert, if_pos rfl]
  | axi4 | pcieTlp | pci => cases hp2p

end PointToPoint

/-! ### What the device at the other end is shown -/

theorem Engine.display_device {e : Engine} {host device : Ident} (hne : host ≠ device) {t : RelayTable}
    (hp2p : e.protocol = .pointToPoint) (hw : e.wiring? = some ⟨⟨host, device⟩, t⟩) (level : Level) (ps : Participants)
    (s : Slot) : e.display level ps device s = t.addressed ⟨host, device⟩ ps device ++
      [(PointToPoint.clockName, .ofLevel ((PointToPoint.clockMode host ps).apply level))] := by
  cases e with
  | pointToPoint bus wiring =>
    obtain rfl : wiring = _ := hw
    simp only [display, PointToPoint.clocked, if_pos, if_neg hne.symm, List.nil_append]
  | axi4 | pcieTlp | pci => cases hp2p

namespace Bus

variable {c : BusConfig} {start b : Bus} {trace : Trace} {host card : Device}

theorem Prepared.steered {engine : Engine} {ps : Participants} (hprepared : b.Prepared engine ps)
    (hstart : ofConfig c = .ok start) (hp2p : c.protocol = .pointToPoint) (h : Course start trace b)
    (horderly : Orderly trace) (hready : b.allReady = true) (hpairs : c.Pairs host card) (level : Level) :
    Steered level (retired host.ident trace) (lastOffer? host.ident "CLOCK_MODE" trace)
      ((PointToPoint.clockMode host.ident ps).apply level) := by
  obtain ⟨slot, hs, hdevice⟩ := (h.staffed hstart).slot hpairs.host_mem
  have hrecalls := h.recalls hstart horderly host.ident slot hs
  -- All are ready, so the host is attached, and has been told how wide the mode is.
  have hwidth : slot.widths.get? "CLOCK_MODE" = some 2 := by
    have hclaimed := claimed_of_allReady (h.sound hstart horderly) hready hs
    have hterms := h.terms hstart horderly host.ident slot hs hclaimed
    rw [hdevice] at hterms
    exact PointToPoint.get?_driven_clockMode ((protocol_ofConfig hstart).trans hp2p) hpairs.isHost hterms
  obtain ⟨slot', hs', hmuted⟩ := Participants.exists_of_muted_eq hprepared.muted_eq.symm hs
  have hkept := Slot.kept_of_muted_eq hmuted.symm
  rw [PointToPoint.clockMode, hs']
  dsimp only
  rw [hkept.finished, hkept.drives, hrecalls.finished]
  cases hretired : retired host.ident trace with
  | true => exact .gone _
  | false =>
    rw [if_neg Bool.false_ne_true]
    have hfits : (slot.drives "CLOCK_MODE").width = 2 :=
      (h.fitted (fitted_ofConfig hstart) host.ident slot hs).width_drives hwidth
    rw [hrecalls.drives hwidth, drive_of_not_retired hretired] at hfits ⊢
    cases hoffer : lastOffer? host.ident "CLOCK_MODE" trace with
    | none => exact .unasked
    | some v =>
      rw [hoffer] at hfits
      exact ClockMode.steered_ofBundle hfits level

theorem Answers.steered (hstart : ofConfig c = .ok start) (hp2p : c.protocol = .pointToPoint) (h : Course start trace b)
    (horderly : Orderly trace) (hpairs : c.Pairs host card) {time : Time} {signals : Signals}
    (hanswers : b.Answers card.ident time signals) : ∃ shown,
      signals.get? PointToPoint.clockName = some (.ofLevel shown) ∧
      Steered b.clock.phase.next.level (retired host.ident trace) (lastOffer? host.ident "CLOCK_MODE" trace) shown := by
  obtain ⟨engine, ps, s, hprepared, hready, -, -, rfl⟩ := hanswers.display
  have hpaired : c.protocol.isPaired = true := by rw [hp2p]; rfl
  obtain ⟨t, hw, -⟩ := (hprepared.wired hstart h hpairs hpaired).entering b.clock.phase.next ps
  have hprotocol : (engine.entering b.clock.phase.next ps).protocol = .pointToPoint := by
    rw [(Engine.kin_entering _ _ _).protocol_eq, hprepared.kin.protocol_eq, h.protocol_eq hstart, hp2p]
  refine ⟨_, ?_, hprepared.steered hstart hp2p h horderly hready hpairs _⟩
  rw [Engine.display_device (hpairs.ident_ne (h.staffed hstart)) hprotocol hw]
  exact SortedMap.get?_insertMany_concat _ _ _ _

/-! ### What follows the mode -/

/-- The next step of a link shows the clock to both of its ends, to the card as the host wants it. -/
structure FollowsMode (start : Bus) (host card : Device) (trace : Trace) (b : Bus) : Prop where
  toHost : ∀ time signals, b.Answers host.ident time signals →
    signals.get? PointToPoint.clockName = some (.ofLevel b.clock.phase.next.level)
  toCard : ∀ time signals, b.Answers card.ident time signals → ∃ shown,
    signals.get? PointToPoint.clockName = some (.ofLevel shown) ∧
    Steered b.clock.phase.next.level (retired host.ident trace) (lastOffer? host.ident "CLOCK_MODE" trace) shown
  /-- A mode stays as long as the host offers no other one. -/
  persists : ∀ earlier later, trace = earlier ++ later →
    (∀ e ∈ later, (offer? host.ident e).bind (·.get? "CLOCK_MODE") = none) →
    lastOffer? host.ident "CLOCK_MODE" trace = lastOffer? host.ident "CLOCK_MODE" earlier
  /-- Once the host has offered to let the clock run, and nothing else since, the card is shown the clock of the host. -/
  resumes : ∀ earlier later v, trace = earlier ++ later → lastOffer? host.ident "CLOCK_MODE" earlier = some v →
    v.text = "00" →
    (∀ e ∈ later, ∀ w, (offer? host.ident e).bind (·.get? "CLOCK_MODE") = some w → w.text = "00") →
    ∀ time signals signals', b.Answers host.ident time signals → b.Answers card.ident time signals' →
      signals'.get? PointToPoint.clockName = signals.get? PointToPoint.clockName
  /-- Other modes would have made no difference to anything but the clock of the card. -/
  unaffected : ∀ trace' b', Course start trace' b' → List.Forall₂ (Steers host.ident) trace trace' →
    b'.time = b.time ∧ b'.clock = b.clock ∧ b'.steps = b.steps ∧ b'.advance.1.anonymous = b.advance.1.anonymous ∧
    ∀ i time signals, b.Answers i time signals → ∃ signals', b'.Answers i time signals' ∧
      ∀ name, name ≠ PointToPoint.clockName ∨ i = host.ident → signals'.get? name = signals.get? name

/-- **Stopping the clock.** The clock of the card of a point-to-point link follows the mode that its host offered last,
and nothing else does. -/
theorem follows_mode (hstart : ofConfig c = .ok start) (hp2p : c.protocol = .pointToPoint) (h : Course start trace b)
    (horderly : Orderly trace) (hpairs : c.Pairs host card) : FollowsMode start host card trace b := by
  have hclock : ∀ {trace' b'}, Course start trace' b' → ∀ {time signals}, b'.Answers host.ident time signals →
      signals.get? PointToPoint.clockName = some (.ofLevel b'.clock.phase.next.level) := by
    intro trace' b' h' time signals hanswers
    obtain ⟨slot, hslot, hdevice⟩ := (h'.staffed hstart).slot hpairs.host_mem
    have hshown := hanswers.get?_clockName hstart h' hslot fun _ => by rw [Slot.isHost, hdevice, hpairs.isHost]
    rwa [hp2p] at hshown
  refine ⟨fun time signals => hclock h, fun time signals => Answers.steered hstart hp2p h horderly hpairs, ?_, ?_, ?_⟩
  · rintro earlier later rfl hsilent
    have hnone : lastOffer? host.ident "CLOCK_MODE" later = none := by
      rw [lastOffer?, List.filterMap_eq_nil_iff.2 hsilent, List.getLast?_nil]
    rw [lastOffer?_append, hnone, Option.none_or]
  · rintro earlier later v rfl hv hrun hlater time signals signals' htoHost htoCard
    obtain ⟨w, hw, hruns⟩ : ∃ w, lastOffer? host.ident "CLOCK_MODE" (earlier ++ later) = some w ∧ w.text = "00" := by
      rw [lastOffer?_append]
      cases hlast : lastOffer? host.ident "CLOCK_MODE" later with
      | none => exact ⟨v, by rw [Option.none_or, hv], hrun⟩
      | some w =>
        obtain ⟨e, he, hoffers⟩ := List.mem_filterMap.1 (List.mem_of_getLast? hlast)
        exact ⟨w, Option.some_or, hlater e he w hoffers⟩
    obtain ⟨shown, hshown, hsteered⟩ := htoCard.steered hstart hp2p h horderly hpairs
    rw [hw] at hsteered
    rw [hclock h htoHost, hshown, hsteered.eq_level hruns]
  · intro trace' b' h' hsteers
    have hsame := h.unclocked_eq hstart hp2p h' hsteers
    have hrelays := h.relaysData hstart hp2p
    have hclocks : b'.clock = b.clock := by rw [kept_of_unclocked_eq hsame]
    refine ⟨by rw [kept_of_unclocked_eq hsame], hclocks, by rw [kept_of_unclocked_eq hsame],
      (unclocked_advance hrelays hsame).1, fun i time signals hanswers => ?_⟩
    obtain ⟨signals', hanswers', hshown⟩ := hanswers.unclocked hrelays hsame
    refine ⟨signals', hanswers', fun name hname => ?_⟩
    by_cases hother : name = PointToPoint.clockName
    · subst hother
      obtain rfl := hname.resolve_left (not_not.2 rfl)
      rw [hclock h hanswers, hclock h' hanswers', hclocks]
    · exact hshown name hother

/-- The host stops the clock of the card at 0, and both ends are ready. -/
def oneStop : List Operation :=
  linkGreetings ++ [.line 0 "READY 0e-12 CLOCK_MODE=10", .line 1 "READY 0e-12"]

/-- The host lets the clock run instead. -/
def noStop : List Operation :=
  linkGreetings ++ [.line 0 "READY 0e-12 CLOCK_MODE=00", .line 1 "READY 0e-12"]

/-- On the first rising edge the card is shown a low clock. It would have been shown a high one if the host had let the
clock run. -/
theorem card_clock_held :
    FollowsMode idleLink ⟨"host", 0, true⟩ ⟨"card", 1, false⟩ (idleLink.traced oneStop) (oneStop.foldl perform idleLink) ∧
    (∃ time signals, (oneStop.foldl perform idleLink).Answers 1 time signals ∧
      signals.get? "CLOCK" = some (.ofLevel .zero)) ∧
    List.Forall₂ (Steers 0) (idleLink.traced oneStop) (idleLink.traced noStop) ∧
    ∃ time signals, (noStop.foldl perform idleLink).Answers 1 time signals ∧
      signals.get? "CLOCK" = some (.ofLevel .one) := by
  have hpairs : oneWire.Pairs ⟨"host", 0, true⟩ ⟨"card", 1, false⟩ := ⟨by decide, by decide, rfl, rfl, by decide⟩
  have hfollows := follows_mode ofConfig_oneWire rfl (course_traced idleLink oneStop) (orderly_of_all (by cbv)) hpairs
  obtain ⟨ds, hds⟩ := exists_of_stepped (b := oneStop.foldl perform idleLink) (by cbv)
  have hattached : (oneStop.foldl perform idleLink).participants.attached = [(0, 7), (1, 8)] := by cbv
  have hcard := answers_of_attached hds (i := 1) (k := 8) (by rw [hattached]; decide)
  obtain ⟨ds', hds'⟩ := exists_of_stepped (b := noStop.foldl perform idleLink) (by cbv)
  have hattached' : (noStop.foldl perform idleLink).participants.attached = [(0, 7), (1, 8)] := by cbv
  have hcard' := answers_of_attached hds' (i := 1) (k := 8) (by rw [hattached']; decide)
  have hstop : (linkGreetings.foldl perform idleLink).decode 0 "READY 0e-12 CLOCK_MODE=10" =
      .ok (.ready .zero (.ofList [("CLOCK_MODE", ⟨[.zero, .one]⟩)])) := by cbv
  have hrun : (linkGreetings.foldl perform idleLink).decode 0 "READY 0e-12 CLOCK_MODE=00" =
      .ok (.ready .zero (.ofList [("CLOCK_MODE", ⟨[.zero, .zero]⟩)])) := by cbv
  have hagree : ∀ name, name ≠ "CLOCK_MODE" → ∀ v : Bundle, (SortedMap.ofList [("CLOCK_MODE", v)]).get? name = none :=
    fun name hname v => SortedMap.get?_insertMany_of_ne fun e he => by
      rw [List.mem_singleton.1 he]
      exact hname.symm
  refine ⟨hfollows, ⟨_, _, hcard, by cbv⟩, ?_, _, _, hcard', by cbv⟩
  refine .cons (.same _ _ _) (.cons (.same _ _ _) (.cons ?_ (.cons (.same _ _ _) .nil)))
  exact .offers hstop hrun fun name hname => by rw [hagree name hname, hagree name hname]

end Bus

end Lockstep
