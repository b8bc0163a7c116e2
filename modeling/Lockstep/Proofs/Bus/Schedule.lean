import Lockstep.Proofs.Bus.Terms
import Lockstep.Proofs.Clock
/-!
# The schedule of a bus

As long as no attempt to step fails, the time of a bus is a function of the number of steps it has taken, whatever its
participants do, and so is the level of the clock that they are shown (`Bus.on_schedule`). The time runs out exactly if
the schedule says so.

What participants do makes no difference here, so the operations need not make sense. A bus that has been torn down
waits and does not look at the time any more (`Bus.torn_down_waits`).
-/

namespace Lockstep.Bus

variable {c : BusConfig} {start b : Bus} {trace : Trace}

/-! ### Counting steps -/

def stepCount (trace : Trace) : Nat := trace.countP stepped

def failing : Bus × Operation → Bool
  | (b, .advance) =>
    match b.advance.1 with
    | .failed _ => true
    | _ => false
  | _ => false

def Unfailing (trace : Trace) : Prop := ∀ e ∈ trace, failing e = false

theorem unfailing_of_all {trace : Trace} (h : (trace.all fun e => !failing e) = true) : Unfailing trace := by
  intro e he
  simpa using List.all_eq_true.1 h e he

theorem stepCount_snoc (trace : Trace) (e : Bus × Operation) :
    stepCount (trace ++ [e]) = stepCount trace + (stepped e).toNat := by
  cases h : stepped e <;> simp [stepCount, List.countP_append, h]

theorem stepped_eq_false {op : Operation} (h : op ≠ .advance) : stepped (b, op) = false := by
  cases op with
  | advance => exact absurd rfl h
  | handshake | line | disconnect | tearDown => rfl

/-! ### Time and clock -/

/-- The clock and the time of a bus after `n` steps. -/
structure Walked (t : ClockTiming) (n : Nat) (b : Bus) : Prop where
  clock : b.clock = ⟨t, .after n⟩
  exponent : b.time.exponent = Time.picosecondExponent
  mantissa : b.time.mantissa.toNat = t.walk n
  steps : b.steps = n
  /-- The first step assembles the bus. -/
  unassembled : b.assembled = false → n = 0

namespace Walked

variable {t : ClockTiming} {n : Nat}

theorem elapsed (h : Walked t n b) : b.clock.advance.elapsed = .ofPicoseconds (t.span (.after (n + 1))) := by
  rw [h.clock]
  rfl

theorem time_eq (h : Walked t n b) (ht : t.fault? = none) {time : Time}
    (hsum : b.time.add b.clock.advance.elapsed = .ok time) :
    time.exponent = Time.picosecondExponent ∧ time.mantissa.toNat = t.walk (n + 1) := by
  rw [h.elapsed] at hsum
  obtain ⟨hexponent, hmantissa⟩ := Time.add_picoseconds h.exponent (ClockTiming.span_pos ht _) hsum
  refine ⟨hexponent, ?_⟩
  rw [hmantissa, h.mantissa, ClockTiming.walk_succ ht]

theorem overflow_iff (h : Walked t n b) (ht : t.fault? = none) {cause : Time.Error} :
    b.time.add b.clock.advance.elapsed = .error cause ↔
      UInt64.size ≤ t.walk (n + 1) ∧ cause = .overflow b.time b.clock.advance.elapsed := by
  rw [h.elapsed, Time.add_picoseconds_eq_error_iff h.exponent (ClockTiming.span_pos ht _), h.mantissa,
    ← ClockTiming.walk_succ ht]

theorem perform (h : Walked t n b) (ht : t.fault? = none) (op : Operation) (hok : failing (b, op) = false) :
    Walked t (n + (stepped (b, op)).toNat) (b.perform op) := by
  by_cases hop : op = .advance
  · subst hop
    have hattempt := b.attempt_spec
    show Walked t (n + (stepped (b, .advance)).toNat) b.advance.2.1
    simp only [stepped]
    simp only [failing] at hok
    generalize b.advance.2.1 = b' at hattempt
    generalize b.advance.1 = outcome at hattempt hok
    cases hattempt with
    | waiting => exact h
    | refused => cases hok
    | late => cases hok
    | stepped engine ps time live ready prepared sum =>
      obtain ⟨hexponent, hmantissa⟩ := h.time_eq ht sum
      refine ⟨?_, hexponent, hmantissa, congrArg (· + 1) h.steps, fun h => by cases h⟩
      show b.clock.advance = _
      rw [h.clock]
      rfl
  · have hstill := b.still_perform hop
    rw [stepped_eq_false hop]
    refine ⟨hstill.clock.trans h.clock, ?_, ?_, hstill.steps.trans h.steps, fun ha => ?_⟩
    · rw [hstill.time, h.exponent]
    · rw [hstill.time, h.mantissa]
      rfl
    · rw [hstill.assembled] at ha
      exact h.unassembled ha

theorem advance (h : Walked t n b) (ht : t.fault? = none) {ds : List Delivery} (hds : b.advance.1 = .stepped ds) :
    Walked t (n + 1) b.advance.2.1 := by
  have hstepped : stepped (b, .advance) = true := by simp [stepped, hds]
  have hnext := h.perform ht .advance (by simp [failing, hds])
  rwa [hstepped] at hnext

theorem level_next (h : Walked t n b) :
    b.clock.phase.next.level = .ofBool ((n + 1) % 4 = 1 ∨ (n + 1) % 4 = 2) := by
  rw [h.clock]
  exact Phase.level_after (n + 1)

theorem late_iff (h : Walked t n b) (ht : t.fault? = none) (hlive : b.finished = false) (hready : b.allReady = true) :
    (∃ left right, b.advance.1 = .failed (.time (.overflow left right))) ↔ UInt64.size ≤ t.walk (n + 1) := by
  have htiming : b.clock.timing = t := by rw [h.clock]
  have hnext : b.clock.phase.next = .after (n + 1) := by rw [h.clock]; rfl
  have hfirst : b.assembled = false → b.time.mantissa.toNat = 0 := by
    intro hunassembled
    rw [h.mantissa, h.unassembled hunassembled]
    simp [ClockTiming.walk, ClockTiming.offset]
  rw [Bus.late_iff (htiming ▸ ht) h.exponent hfirst hlive hready, htiming, hnext, h.mantissa, ← ClockTiming.walk_succ ht]

end Walked

theorem Course.walked (hstart : ofConfig c = .ok start) (h : Course start trace b) (hok : Unfailing trace) :
    Walked c.clock (stepCount trace) b := by
  obtain ⟨hfault, engine, -, rfl⟩ := ofConfig_spec hstart
  have ht := fault?_eq_none hfault
  induction h with
  | nil =>
    refine ⟨rfl, rfl, ?_, rfl, fun _ => rfl⟩
    simp [ClockTiming.walk, ClockTiming.offset, stepCount, Time.zero, Time.ofPicoseconds]
  | @snoc trace b h op ih =>
    have hbefore : Unfailing trace := fun e he => hok e (List.mem_append_left _ he)
    rw [stepCount_snoc]
    exact (ih hbefore).perform ht op (hok _ (by simp))

/-! ### The clock that participants are shown -/

/-- Every participant is shown the level of the clock; only the device of a point-to-point link may be shown another
one, because its host may stop the clock. -/
theorem Answers.get?_clockName (hstart : ofConfig c = .ok start) (h : Course start trace b) {i : Ident} {time : Time}
    {signals : Signals} (hanswers : b.Answers i time signals) {slot : Slot}
    (hslot : b.participants.get? i = some slot) (hhost : c.protocol = .pointToPoint → slot.isHost = true) :
    signals.get? c.protocol.clockName = some (.ofLevel b.clock.phase.next.level) := by
  obtain ⟨engine, ps, s, hprepared, -, -, hs, rfl⟩ := hanswers.display
  have hstaffed := h.staffed hstart
  obtain ⟨hmem, rfl⟩ := hstaffed.device hslot
  have hprotocol : (engine.entering b.clock.phase.next ps).protocol = c.protocol := by
    rw [(Engine.kin_entering _ _ _).protocol_eq, hprepared.kin.protocol_eq, h.protocol_eq hstart]
  cases hpaired : c.protocol.isPaired with
  | true =>
    obtain ⟨host, card, hpairs⟩ := BusConfig.exists_pairs (ofConfig_spec hstart).1 hpaired
    have hwired := (hprepared.wired hstart h hpairs hpaired).entering b.clock.phase.next ps
    obtain ⟨t, hw, -⟩ := hwired
    obtain ⟨shown, hshown, hdisplay⟩ := hpairs.display_eq (hpairs.ident_ne hstaffed) hmem hw
      b.clock.phase.next.level ps s
    rw [hprotocol] at hshown hdisplay
    rw [Slot.ident, hdisplay, SortedMap.get?_insertMany_concat, hshown hhost]
  | false =>
    have hpci := Protocol.eq_pci hpaired
    rw [hpci] at hprotocol ⊢
    cases hentering : engine.entering b.clock.phase.next ps with
    | pci p => exact SortedMap.get?_insertMany_concat _ _ _ _
    | pointToPoint | axi4 | pcieTlp =>
      rw [hentering] at hprotocol
      cases hprotocol

/-! ### The schedule -/

/-- What is due of a bus that has taken `n` steps. -/
structure OnSchedule (c : BusConfig) (n : Nat) (b : Bus) : Prop where
  steps : b.steps = n
  exponent : b.time.exponent = Time.picosecondExponent
  mantissa : b.time.mantissa.toNat = c.clock.walk n
  /-- The next step is later, it is on schedule, and so is every UNTIL of it. -/
  step : ∀ ds, b.advance.1 = .stepped ds →
    b.time.cmp b.advance.2.1.time = .lt ∧ b.advance.2.1.steps = n + 1 ∧
    b.advance.2.1.time.exponent = Time.picosecondExponent ∧
    b.advance.2.1.time.mantissa.toNat = c.clock.walk (n + 1) ∧
    ∀ d ∈ ds, ∃ i signals, b.Answers i b.advance.2.1.time signals ∧ d.2 = .deliver b.advance.2.1.time signals
  /-- The next step shows everybody the clock, but for the device of a point-to-point link. -/
  clock : ∀ i time signals slot, b.Answers i time signals → b.participants.get? i = some slot →
    (c.protocol = .pointToPoint → slot.isHost = true) →
    signals.get? c.protocol.clockName = some (.ofLevel (.ofBool ((n + 1) % 4 = 1 ∨ (n + 1) % 4 = 2))) ∧
    ((n + 1) % 4 = 1 ∨ (n + 1) % 4 = 2 ↔
      ((time.mantissa.toNat : Int) - c.clock.setup.toNat) % c.clock.period < c.clock.high.toNat)
  /-- If the bus has not been torn down and waits for nobody, the time overflows exactly if the schedule runs out. -/
  overflow : b.finished = false → b.allReady = true →
    ((∃ left right, b.advance.1 = .failed (.time (.overflow left right))) ↔ UInt64.size ≤ c.clock.walk (n + 1))

/-- **The schedule.** After `n` steps the time of a bus is `c.clock.walk n`. -/
theorem on_schedule (hstart : ofConfig c = .ok start) (h : Course start trace b) (hok : Unfailing trace) :
    OnSchedule c (stepCount trace) b := by
  have ht := fault?_eq_none (ofConfig_spec hstart).1
  have hwalked := h.walked hstart hok
  refine ⟨hwalked.steps, hwalked.exponent, hwalked.mantissa, ?_, ?_, hwalked.late_iff ht⟩
  · intro ds hds
    have hnext := hwalked.advance ht hds
    refine ⟨?_, hnext.steps, hnext.exponent, hnext.mantissa, fun d hd => exists_answers hds hd⟩
    rw [Time.cmp_eq_lt_iff (hwalked.exponent.trans hnext.exponent.symm), hwalked.mantissa, hnext.mantissa]
    exact ClockTiming.walk_lt_succ ht _
  · intro i time signals slot hanswers hslot hhost
    obtain ⟨-, -, -, -, -, hsum, -⟩ := hanswers.display
    rw [hanswers.get?_clockName hstart h hslot hhost, hwalked.level_next, (hwalked.time_eq ht hsum).2,
      ClockTiming.walk_mod_lt_iff ht]
    exact ⟨rfl, Iff.rfl⟩

/-! ### The end of time -/

/-- Both ends of the link connect and leave, and the bus goes through one period. -/
def onePeriod : List Operation :=
  linkGreetings ++ [.line 0 "FINISH", .line 1 "FINISH", .advance, .advance, .advance, .advance]

/-- After one period of the slowest clock there is no time left for another step. -/
theorem one_wire_runs_out : Unfailing (idleLink.traced onePeriod) ∧
    (onePeriod.foldl perform idleLink).time = ⟨18446744073709551614, -12⟩ ∧
    ∃ left right, (onePeriod.foldl perform idleLink).advance.1 = .failed (.time (.overflow left right)) := by
  have hok : Unfailing (idleLink.traced onePeriod) := unfailing_of_all (by cbv)
  have hcount : stepCount (idleLink.traced onePeriod) = 4 := by cbv
  have hschedule := on_schedule ofConfig_oneWire (course_traced idleLink onePeriod) hok
  refine ⟨hok, by cbv, (hschedule.overflow (by cbv) (by cbv)).2 ?_⟩
  rw [hcount]
  decide

/-- A bus that has been torn down does not notice that the time has run out. -/
theorem torn_down_waits : ¬ ∀ (c : BusConfig) (start b : Bus) (trace : Trace),
    ofConfig c = .ok start → Course start trace b → Unfailing trace → b.allReady = true →
      ((∃ left right, b.advance.1 = .failed (.time (.overflow left right))) ↔
        UInt64.size ≤ c.clock.walk (stepCount trace + 1)) := by
  intro h
  let ops : List Operation := onePeriod ++ [.tearDown]
  have hok : Unfailing (idleLink.traced ops) := unfailing_of_all (by cbv)
  have hcount : stepCount (idleLink.traced ops) = 4 := by cbv
  have hwaiting : (ops.foldl perform idleLink).advance.1 = .waiting := by cbv
  have hready : (ops.foldl perform idleLink).allReady = true := by cbv
  have hiff := h oneWire idleLink _ _ ofConfig_oneWire (course_traced idleLink ops) hok hready
  rw [hcount, hwaiting] at hiff
  obtain ⟨left, right, heq⟩ := hiff.2 (by decide)
  cases heq

end Lockstep.Bus
