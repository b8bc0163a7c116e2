import Lockstep.Proofs.Bus.Delivery
/-!
# Attempts to step in full

`Bus.advance_spec` says what an attempt to step leaves alone. Here is what it does: with which engine and which
participants the bus goes into the step (`Bus.Prepared`), and which bus comes out of it, whether it waits, fails or
steps (`Bus.attempt_spec`). What a step sends to each participant is then read off from what the engine delivers
(`Bus.Answers`, `Bus.Answers.spec`).

A bus whose time does not fit any more is assembled all the same, and its clock has moved on. So the failed attempt
is not one that leaves the bus as it was.
-/

namespace Lockstep

/-- What an engine is when it delivers in a phase. -/
def Engine.entering (e : Engine) (phase : Phase) (ps : Participants) : Engine := (e.atPhase phase ps).1

namespace Bus

/-- The engine and the participants with which a bus goes into a step: those it has, or, if it has not been assembled
yet, those that assembling it gives. -/
inductive Prepared (b : Bus) : Engine → Participants → Prop where
  | running (assembled : b.assembled = true) : Prepared b b.engine b.participants
  | fresh {engine : Engine} {notice : BusNotice} (unassembled : b.assembled = false)
      (agreed : b.engine.wrapUp b.participants = .ok (engine, notice)) :
      Prepared b engine (engine.deliver b.clock.phase.level b.participants)

theorem Prepared.muted_eq {b : Bus} {engine : Engine} {ps : Participants} (h : b.Prepared engine ps) :
    ps.muted = b.participants.muted := by
  cases h with
  | running => rfl
  | fresh => exact Engine.muted_deliver _ _ _

/-- What an attempt to step can come to, and which bus comes out of it. -/
inductive Attempt (b : Bus) : Advance → Bus → Prop where
  | waiting (h : b.finished = true ∨ b.allReady = false) : Attempt b .waiting b
  /-- The participants do not agree. -/
  | refused (cause : EngineError) (live : b.finished = false) (ready : b.allReady = true)
      (unassembled : b.assembled = false) (refusal : b.engine.wrapUp b.participants = .error cause) :
      Attempt b (.failed (.engine cause)) b
  /-- The time does not fit. -/
  | late (cause : Time.Error) (engine : Engine) (ps : Participants) (live : b.finished = false)
      (ready : b.allReady = true) (prepared : b.Prepared engine ps)
      (overflow : b.time.add b.clock.advance.elapsed = .error cause) :
      Attempt b (.failed (.time cause))
        { b with engine, participants := ps, clock := b.clock.advance, assembled := true }
  | stepped (engine : Engine) (ps : Participants) (time : Time) (live : b.finished = false)
      (ready : b.allReady = true) (prepared : b.Prepared engine ps)
      (sum : b.time.add b.clock.advance.elapsed = .ok time) :
      Attempt b
        (.stepped (deliveries time
          ((engine.entering b.clock.phase.next ps).deliver b.clock.phase.next.level ps)))
        { b with
          engine := engine.entering b.clock.phase.next ps
          participants :=
            ((engine.entering b.clock.phase.next ps).deliver b.clock.phase.next.level ps).each (·.rearm)
          clock := b.clock.advance
          time
          assembled := true
          steps := b.steps + 1 }

theorem assemble_eq_ok {b b' : Bus} {records : List Record} (h : b.assemble = .ok (b', records)) :
    ∃ engine ps, b.Prepared engine ps ∧ b' = { b with engine, participants := ps, assembled := true } := by
  unfold assemble at h
  split at h
  · next ha =>
    cases h
    refine ⟨_, _, .running ha, ?_⟩
    rw [← ha]
  · next ha =>
    split at h
    · cases h
    · next engine notice hwrapped =>
      cases h
      exact ⟨_, _, .fresh (by simpa using ha) hwrapped, rfl⟩

theorem assemble_eq_error {b : Bus} {cause : EngineError} (h : b.assemble = .error cause) :
    b.assembled = false ∧ b.engine.wrapUp b.participants = .error cause := by
  unfold assemble at h
  split at h
  · cases h
  · next ha =>
    split at h
    · next hwrapped =>
      cases h
      exact ⟨by simpa using ha, hwrapped⟩
    · cases h

theorem attempt_spec (b : Bus) : b.Attempt b.advance.1 b.advance.2.1 := by
  unfold advance
  split
  · next h => exact .waiting (by simpa using h)
  · next h =>
    obtain ⟨hlive, hready⟩ : b.finished = false ∧ b.allReady = true := by simpa using h
    split
    · next cause herror =>
      obtain ⟨hunassembled, hrefusal⟩ := assemble_eq_error herror
      exact .refused cause hlive hready hunassembled hrefusal
    · next b₁ records hb₁ =>
      obtain ⟨engine, ps, hprepared, rfl⟩ := assemble_eq_ok hb₁
      unfold step
      dsimp only
      split
      · next cause hoverflow => exact .late cause engine ps hlive hready hprepared hoverflow
      · next time hsum => exact .stepped engine ps time hlive hready hprepared hsum

section Unique

variable {b : Bus}

theorem Prepared.unique {engine engine' : Engine} {ps ps' : Participants} (h : b.Prepared engine ps)
    (h' : b.Prepared engine' ps') : engine' = engine ∧ ps' = ps := by
  cases h with
  | running assembled =>
    cases h' with
    | running => exact ⟨rfl, rfl⟩
    | fresh unassembled =>
      rw [assembled] at unassembled
      cases unassembled
  | fresh unassembled agreed =>
    cases h' with
    | running assembled =>
      rw [unassembled] at assembled
      cases assembled
    | fresh _ agreed' =>
      rw [agreed] at agreed'
      cases agreed'
      exact ⟨rfl, rfl⟩

theorem Prepared.wrapUp_ne_error {engine : Engine} {ps : Participants} (h : b.Prepared engine ps)
    (hunassembled : b.assembled = false) (cause : EngineError) : b.engine.wrapUp b.participants ≠ .error cause := by
  cases h with
  | running assembled =>
    rw [assembled] at hunassembled
    cases hunassembled
  | fresh _ agreed =>
    rw [agreed]
    exact nofun

theorem Attempt.unique {outcome outcome' : Advance} {c c' : Bus} (h : b.Attempt outcome c)
    (h' : b.Attempt outcome' c') : outcome' = outcome ∧ c' = c := by
  have hgoes : b.finished = true ∨ b.allReady = false → b.finished = false → b.allReady = true → False := by
    rintro (hwaits | hwaits) hlive hready
    · cases hwaits.symm.trans hlive
    · cases hwaits.symm.trans hready
  cases h with
  | waiting waits =>
    cases h' with
    | waiting => exact ⟨rfl, rfl⟩
    | refused _ live ready | late _ _ _ live ready | stepped _ _ _ live ready => exact (hgoes waits live ready).elim
  | refused cause live ready unassembled refusal =>
    cases h' with
    | waiting waits => exact (hgoes waits live ready).elim
    | refused _ _ _ _ refusal' =>
      cases refusal.symm.trans refusal'
      exact ⟨rfl, rfl⟩
    | late _ _ _ _ _ prepared | stepped _ _ _ _ _ prepared =>
      exact absurd refusal (prepared.wrapUp_ne_error unassembled _)
  | late cause engine ps live ready prepared overflow =>
    cases h' with
    | waiting waits => exact (hgoes waits live ready).elim
    | refused _ _ _ unassembled refusal => exact absurd refusal (prepared.wrapUp_ne_error unassembled _)
    | late _ _ _ _ _ prepared' overflow' =>
      obtain ⟨rfl, rfl⟩ := prepared.unique prepared'
      cases overflow.symm.trans overflow'
      exact ⟨rfl, rfl⟩
    | stepped _ _ _ _ _ _ sum => cases overflow.symm.trans sum
  | stepped engine ps time live ready prepared sum =>
    cases h' with
    | waiting waits => exact (hgoes waits live ready).elim
    | refused _ _ _ unassembled refusal => exact absurd refusal (prepared.wrapUp_ne_error unassembled _)
    | late _ _ _ _ _ _ overflow => cases overflow.symm.trans sum
    | stepped _ _ _ _ _ prepared' sum' =>
      obtain ⟨rfl, rfl⟩ := prepared.unique prepared'
      cases sum.symm.trans sum'
      exact ⟨rfl, rfl⟩

end Unique

/-- A bus that has not been torn down and waits for nobody fails for want of time exactly if the time does not fit. No time
has passed before the first step, so there it fits. -/
theorem late_iff {b : Bus} (ht : b.clock.timing.fault? = none) (hexponent : b.time.exponent = Time.picosecondExponent)
    (hfirst : b.assembled = false → b.time.mantissa.toNat = 0) (hlive : b.finished = false) (hready : b.allReady = true) :
    (∃ left right, b.advance.1 = .failed (.time (.overflow left right))) ↔
      UInt64.size ≤ b.time.mantissa.toNat + (b.clock.timing.span b.clock.phase.next).toNat := by
  have hfits : ∀ {cause}, b.time.add b.clock.advance.elapsed = .error cause ↔ _ :=
    Time.add_picoseconds_eq_error_iff hexponent (ClockTiming.span_pos ht b.clock.phase.next)
  have hattempt := b.attempt_spec
  generalize b.advance.2.1 = b' at hattempt
  constructor
  · rintro ⟨left, right, hfailed⟩
    rw [hfailed] at hattempt
    cases hattempt with
    | late _ _ _ _ _ _ overflow => exact (hfits.1 overflow).1
  · intro hlate
    have hoverflow := hfits.2 ⟨hlate, rfl⟩
    generalize b.advance.1 = outcome at hattempt ⊢
    cases hattempt with
    | waiting hwaits =>
      rw [hlive, hready] at hwaits
      rcases hwaits with hwaits | hwaits <;> cases hwaits
    | refused _ _ _ unassembled =>
      -- the engine refuses before the first step only
      have hsmall := (b.clock.timing.span b.clock.phase.next).toNat_lt_size
      rw [hfirst unassembled] at hlate
      omega
    | late _ _ _ _ _ _ overflow =>
      rw [hoverflow] at overflow
      cases overflow
      exact ⟨_, _, rfl⟩
    | stepped _ _ _ _ _ _ sum =>
      rw [hoverflow] at sum
      cases sum

theorem assembled_of_stepped {b : Bus} {ds : List Delivery} (h : b.advance.1 = .stepped ds) :
    b.advance.2.1.assembled = true := by
  have hattempt := b.attempt_spec
  rw [h] at hattempt
  generalize b.advance.2.1 = b' at hattempt
  cases hattempt with
  | stepped => rfl

/-! ### What a step sends -/

/-- The next step of the bus sends participant `i` an UNTIL of `time` with `signals`: the deliveries answer the
attached participants in order. -/
def Answers (b : Bus) (i : Ident) (time : Time) (signals : Signals) : Prop :=
  ∃ ds k, b.advance.1 = .stepped ds ∧ ((i, k), (k, Message.deliver time signals)) ∈ b.participants.attached.zip ds

theorem mem_zip_map {α β : Type} {f : α → β} {l : List α} {a : α} {x : β} :
    (a, x) ∈ l.zip (l.map f) ↔ a ∈ l ∧ x = f a := by
  rw [List.zip_map_right, List.zip_eq_zipWith, List.zipWith_self, List.map_map, List.mem_map]
  constructor
  · rintro ⟨a', ha, heq⟩
    cases heq
    exact ⟨ha, rfl⟩
  · rintro ⟨ha, rfl⟩
    exact ⟨a, ha, rfl⟩

theorem answers_of_attached {b : Bus} {ds : List Delivery} (h : b.advance.1 = .stepped ds) {i : Ident}
    {k : ConnectionKey} (hattached : (i, k) ∈ b.participants.attached) :
    b.Answers i b.advance.2.1.time (b.advance.2.1.participants.shown i) := by
  refine ⟨ds, k, h, ?_⟩
  rw [(stepsFrom_of_stepped h).outgoing]
  exact mem_zip_map.2 ⟨hattached, rfl⟩

theorem exists_answers {b : Bus} {ds : List Delivery} (h : b.advance.1 = .stepped ds) {d : Delivery} (hd : d ∈ ds) :
    ∃ i signals, b.Answers i b.advance.2.1.time signals ∧ d.2 = .deliver b.advance.2.1.time signals := by
  rw [(stepsFrom_of_stepped h).outgoing] at hd
  obtain ⟨a, ha, rfl⟩ := List.mem_map.1 hd
  exact ⟨a.1, _, answers_of_attached h ha, rfl⟩

theorem Answers.eq_shown {b : Bus} {i : Ident} {time : Time} {signals : Signals} (h : b.Answers i time signals) :
    (∃ ds, b.advance.1 = .stepped ds) ∧ (∃ slot, b.participants.get? i = some slot) ∧
      signals = b.advance.2.1.participants.shown i := by
  obtain ⟨ds, k, hds, hmem⟩ := h
  rw [(stepsFrom_of_stepped hds).outgoing] at hmem
  obtain ⟨hattached, heq⟩ := mem_zip_map.1 hmem
  obtain ⟨slot, hs, -⟩ := Participants.mem_attached.1 hattached
  cases heq
  exact ⟨⟨ds, hds⟩, ⟨slot, hs⟩, rfl⟩

theorem Answers.spec {b : Bus} {i : Ident} {time : Time} {signals : Signals} (h : b.Answers i time signals) :
    ∃ engine ps slot, b.Prepared engine ps ∧ b.allReady = true ∧
      b.time.add b.clock.advance.elapsed = .ok time ∧ b.participants.get? i = some slot ∧
      signals = ((engine.entering b.clock.phase.next ps).deliver b.clock.phase.next.level ps).shown i := by
  obtain ⟨ds, k, hds, hmem⟩ := h
  have hattempt := b.attempt_spec
  rw [hds] at hattempt
  generalize b.advance.2.1 = b' at hattempt
  cases hattempt with
  | stepped engine ps time' live ready prepared sum =>
    have hmuted := (Engine.muted_deliver (engine.entering b.clock.phase.next ps) b.clock.phase.next.level ps).trans
      prepared.muted_eq
    rw [Participants.deliveries_eq, Participants.attached_of_muted_eq hmuted] at hmem
    obtain ⟨hattached, heq⟩ := mem_zip_map.1 hmem
    cases heq
    obtain ⟨slot, hslot, -⟩ := Participants.mem_attached.1 hattached
    exact ⟨engine, ps, slot, prepared, ready, sum, hslot, rfl⟩

end Bus

end Lockstep
