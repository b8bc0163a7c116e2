import Lockstep.Proofs.Bus.Grant
import Lockstep.Proofs.Bus.Vocabulary
import Lockstep.Proofs.Clock
import Lockstep.Proofs.Engine.Linger
/-!
# Nothing is computed out of range

What a bus computes with machine words is what it would compute with numbers (`Bus.within_range`), though it does not
check this where it computes. For the clock and for the wires of a PCI bus the configuration has been checked beforehand.
For the counters it takes an invariant of all courses. The arbiter draws a new number before its count of idle clocks gets
too high (`Bus.Course.inRange`). Each step takes a picosecond at least, so the steps are never more than the picoseconds
(`Bus.Course.timed`), and it is the time that runs out first.
-/

namespace Lockstep

/-! ### Numbers of participants -/

/-- There is room for the number of a participant wherever a PCI bus uses it. -/
structure Pci.HasRoom (ps : Participants) (i : Ident) : Prop where
  /-- The bit of its request is one of the mask. -/
  request : i.toNat < 16 ∧ ((1 : UInt16) <<< i.toUInt16).toNat = 2 ^ i.toNat
  /-- The wire that selects it is one of `AD`. -/
  idsel : idselBase + i.toNat < (resolve ps "AD" 64).width
  /-- It has a wire of each interrupt. -/
  interrupt : ∀ name, i.toNat < (interrupts ps name).width

theorem Pci.hasRoom_of_le {i : Ident} (h : i ≤ pciMaxIdent) (ps : Participants) : HasRoom ps i := by
  have hsmall : i.toNat ≤ 15 := h
  refine ⟨⟨by omega, toNat_bit h⟩, ?_, fun name => ?_⟩
  · rw [width_resolve, idselBase]
    omega
  · rw [width_interrupts, arbiterSlots]
    omega

namespace Bus

variable {c : BusConfig} {start b : Bus} {trace : Trace} {p : Pci}

/-! ### Time and steps -/

/-- The clock, the time and the steps of a bus, whatever has become of its attempts to step. -/
structure Timed (t : ClockTiming) (b : Bus) : Prop where
  timing : b.clock.timing = t
  exponent : b.time.exponent = Time.picosecondExponent
  /-- Each step has taken a picosecond at least. -/
  steps : b.steps ≤ b.time.mantissa.toNat
  /-- No time passes before the first step. -/
  unassembled : b.assembled = false → b.time.mantissa.toNat = 0

namespace Timed

variable {t : ClockTiming}

theorem time_eq (h : Timed t b) (ht : t.fault? = none) {time : Time} (hsum : b.time.add b.clock.advance.elapsed = .ok time) :
    time.exponent = Time.picosecondExponent ∧
      time.mantissa.toNat = b.time.mantissa.toNat + (t.span b.clock.phase.next).toNat := by
  rw [Clock.elapsed_advance, h.timing] at hsum
  exact Time.add_picoseconds h.exponent (ClockTiming.span_pos ht _) hsum

theorem perform (h : Timed t b) (ht : t.fault? = none) (op : Operation) : Timed t (b.perform op) := by
  by_cases hop : op = .advance
  · subst hop
    have hattempt := b.attempt_spec
    show Timed t b.advance.2.1
    generalize b.advance.2.1 = b' at hattempt
    generalize b.advance.1 = outcome at hattempt
    cases hattempt with
    | waiting => exact h
    | refused => exact h
    | late => exact ⟨h.timing, h.exponent, h.steps, fun h => by cases h⟩
    | stepped engine ps time live ready prepared sum =>
      obtain ⟨hexponent, hmantissa⟩ := h.time_eq ht sum
      refine ⟨h.timing, hexponent, ?_, fun h => by cases h⟩
      have hspan := ClockTiming.span_pos ht b.clock.phase.next
      have hsteps := h.steps
      show b.steps + 1 ≤ time.mantissa.toNat
      omega
  · have hstill := b.still_perform hop
    refine ⟨?_, ?_, ?_, fun hunassembled => ?_⟩
    · rw [hstill.clock, h.timing]
    · rw [hstill.time, h.exponent]
    · rw [hstill.time, hstill.steps]
      exact h.steps
    · rw [hstill.time]
      exact h.unassembled (hstill.assembled ▸ hunassembled)

end Timed

theorem Course.timed (hstart : ofConfig c = .ok start) (h : Course start trace b) : Timed c.clock b := by
  obtain ⟨hfault, engine, -, rfl⟩ := ofConfig_spec hstart
  induction h with
  | nil => exact ⟨rfl, rfl, Nat.zero_le _, fun _ => rfl⟩
  | snoc _ op ih => exact ih.perform (fault?_eq_none hfault) op

/-! ### The arbiter -/

/-- The numbers of the arbiter, if there is one, are in range. -/
def ArbiterInRange (e : Engine) : Prop := ∀ p, e = .pci p → p.arbiter.InRange

theorem arbiterInRange_perform (h : ArbiterInRange b.engine) (op : Operation) : ArbiterInRange (b.perform op).engine := by
  have hprepared : ∀ {engine : Engine} {ps : Participants}, b.Prepared engine ps → ArbiterInRange engine := by
    intro engine ps hprepared p hp
    subst hp
    have hkin := hprepared.kin
    generalize hengine : b.engine = e at hkin
    cases hkin with
    | pci q =>
      cases hprepared.eq_pci hengine
      exact h p hengine
  by_cases hop : op = .advance
  · subst hop
    have hattempt := b.attempt_spec
    show ArbiterInRange b.advance.2.1.engine
    generalize b.advance.2.1 = b' at hattempt
    generalize b.advance.1 = outcome at hattempt
    cases hattempt with
    | waiting => exact h
    | refused => exact h
    | late cause engine ps live ready prepared => exact hprepared prepared
    | stepped engine ps time live ready prepared =>
      intro p hp
      cases engine with
      | pci q =>
        have hq : q.arbiter.InRange := hprepared prepared q rfl
        rw [Engine.entering_pci] at hp
        cases hp
        split
        · exact Pci.inRange_risingEdge hq ps
        · exact hq
      | pointToPoint | axi4 | pcieTlp => cases hp
  · rw [(b.still_perform hop).engine]
    exact h

theorem Course.inRange (hstart : ofConfig c = .ok start) (h : Course start trace b) : ArbiterInRange b.engine := by
  induction h with
  | nil =>
    obtain ⟨-, engine, hengine, rfl⟩ := ofConfig_spec hstart
    intro p hp
    obtain rfl : engine = .pci p := hp
    unfold Engine.ofConfig at hengine
    split at hengine
    · obtain ⟨_, -, heq⟩ := exists_of_map_eq_ok hengine
      cases heq
    · obtain ⟨_, -, heq⟩ := exists_of_map_eq_ok hengine
      cases heq
    · obtain ⟨_, -, heq⟩ := exists_of_map_eq_ok hengine
      cases heq
    · obtain ⟨q, hq, heq⟩ := exists_of_map_eq_ok hengine
      cases heq
      obtain ⟨parking, linger, seed, rfl⟩ := Pci.exists_of_start hq
      exact Arbiter.inRange_start parking linger seed
  | snoc _ op ih => exact arbiterInRange_perform ih op

/-! ### Everything else -/

/-- What a bus computes is in range. -/
structure WithinRange (c : BusConfig) (b : Bus) : Prop where
  /-- The clock is the one that was configured, and no window is longer than the half of the period that holds it. -/
  clock : b.clock.timing = c.clock ∧
    (c.clock.hold ≤ c.clock.high ∧ (c.clock.span .falling).toNat = c.clock.high.toNat - c.clock.hold.toNat) ∧
    c.clock.setup ≤ c.clock.low ∧ (c.clock.span .setup).toNat = c.clock.low.toNat - c.clock.setup.toNat
  /-- A PCI bus has wires and bits for all its participants. -/
  room : ∀ p, b.engine = .pci p → ∀ i slot, b.participants.get? i = some slot →
    slot.ident = i ∧ Pci.HasRoom b.participants i
  /-- The grantee has a bit of the mask, and neither the number behind it nor another idle clock is too much for 32 bits. -/
  arbiter : ∀ p, b.engine = .pci p → (∀ n, p.arbiter.granted = some n → n < 16 ∧ n + 1 < UInt32.size) ∧
    p.arbiter.idle < p.arbiter.recallAfter ∧ p.arbiter.idle + 1 < UInt32.size
  /-- The time is in picoseconds, and there are at most as many steps. -/
  steps : b.time.exponent = -12 ∧ b.steps ≤ b.time.mantissa.toNat
  /-- There is a number for each step that succeeds. -/
  succeeds : ∀ deliveries, b.advance.1 = .stepped deliveries → b.steps + 1 < UInt64.size
  /-- The time does not fit any more before the number of steps does not. -/
  runsOut : b.finished = false → b.allReady = true →
    ((∃ left right, b.advance.1 = .failed (.time (.overflow left right))) ↔
      UInt64.size ≤ b.time.mantissa.toNat + (c.clock.span b.clock.phase.next).toNat) ∧
    (UInt64.size ≤ b.steps + 1 → ∃ left right, b.advance.1 = .failed (.time (.overflow left right)))
  /-- Each device has a slot of its own, which goes by its name. -/
  slots : b.participants.size = c.devices.length ∧ ∀ d ∈ c.devices, ∃ slot,
    b.participants.get? d.ident = some slot ∧ slot.device = d ∧ b.participants.named? d.name = some slot

theorem Timed.succeeds (h : Timed c.clock b) (ht : c.clock.fault? = none) {ds : List Delivery}
    (hds : b.advance.1 = .stepped ds) : b.steps + 1 < UInt64.size := by
  have hnext := h.perform ht .advance
  have hsteps : b.advance.2.1.steps = b.steps + 1 := by
    have hattempt := b.attempt_spec
    rw [hds] at hattempt
    generalize b.advance.2.1 = b' at hattempt
    cases hattempt with
    | stepped => rfl
  calc b.steps + 1 = b.advance.2.1.steps := hsteps.symm
    _ ≤ b.advance.2.1.time.mantissa.toNat := hnext.steps
    _ < UInt64.size := UInt64.toNat_lt_size _

theorem Timed.runsOut (h : Timed c.clock b) (ht : c.clock.fault? = none) (hlive : b.finished = false)
    (hready : b.allReady = true) :
    ((∃ left right, b.advance.1 = .failed (.time (.overflow left right))) ↔
      UInt64.size ≤ b.time.mantissa.toNat + (c.clock.span b.clock.phase.next).toNat) ∧
    (UInt64.size ≤ b.steps + 1 → ∃ left right, b.advance.1 = .failed (.time (.overflow left right))) := by
  have hiff := late_iff (h.timing ▸ ht) h.exponent h.unassembled hlive hready
  rw [h.timing] at hiff
  refine ⟨hiff, fun hfull => hiff.2 ?_⟩
  have hspan := ClockTiming.span_pos ht b.clock.phase.next
  have hsteps := h.steps
  omega

/-- **Range.** A bus that has been accepted computes within range at all times, whatever happens to it. -/
theorem within_range (hstart : ofConfig c = .ok start) (h : Course start trace b) : WithinRange c b := by
  have hfault := (ofConfig_spec hstart).1
  have hclock := fault?_eq_none hfault
  have htimed := h.timed hstart
  have hstaffed := h.staffed hstart
  obtain ⟨⟨-, hhold⟩, -, hsetup⟩ := ClockTiming.windows hclock
  refine ⟨⟨htimed.timing, ⟨?_, ClockTiming.toNat_span hclock .falling⟩, ?_, ClockTiming.toNat_span hclock .setup⟩,
    ?_, ?_, ⟨htimed.exponent, htimed.steps⟩, fun _ hds => htimed.succeeds hclock hds, htimed.runsOut hclock,
    hstaffed.size_eq, ?_⟩
  · exact UInt64.le_iff_toNat_le.2 hhold.le
  · exact UInt64.le_iff_toNat_le.2 hsetup.le
  · intro p hp i slot hs
    have hpci : c.protocol = .pci := by rw [← h.protocol_eq hstart, hp, Engine.protocol]
    obtain ⟨hd, rfl⟩ := hstaffed.device hs
    exact ⟨rfl, Pci.hasRoom_of_le (BusConfig.ident_le hfault hpci hd) _⟩
  · intro p hp
    have hrange := h.inRange hstart p hp
    refine ⟨fun n hn => ?_, hrange.idle, hrange.idle_succ_lt⟩
    have hsmall : n < 16 := hrange.granted n hn
    have hsize : UInt32.size = 4294967296 := rfl
    exact ⟨hsmall, by omega⟩
  · intro d hd
    obtain ⟨slot, hs, hdevice⟩ := hstaffed.slot hd
    exact ⟨slot, hs, hdevice, (hstaffed.named?_eq hd).trans hs⟩

/-- After one period of the standard clock there are four steps to ten thousand picoseconds. -/
theorem rivals_within_range : WithinRange hostAndCard (rivals.foldl perform idleBus) ∧
    (rivals.foldl perform idleBus).steps = 4 ∧ (rivals.foldl perform idleBus).time.mantissa = 10000 :=
  ⟨within_range ofConfig_hostAndCard (course_traced idleBus rivals), by cbv, by cbv⟩

end Bus

end Lockstep
