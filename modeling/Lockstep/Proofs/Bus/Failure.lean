import Lockstep.Proofs.Bus.Barrier
import Lockstep.Proofs.Bus.Schedule
import Lockstep.Proofs.Time.Sum
/-!
# Failed attempts to step

An attempt to step that fails leaves the simulation as it was (`Bus.fails_cleanly`). Participants who do not agree are
refused before anything else happens, so the whole bus stays as it is. If the time does not fit, only the clock has moved
on. That this cannot happen to a bus as it is being assembled takes an invariant: as long as a bus has not been assembled
no time has passed, and the step that assembles it succeeds (`Bus.Commenced`).

Here a message may also reach a bus without its line, so that nobody has compared it with the widths.
-/

namespace Lockstep.Bus

variable {c : BusConfig} {start b b' : Bus}

/-- What can be done to a bus at all: an operation, or a message that need not fit the widths. -/
inductive Call where
  | operate (op : Operation)
  | receive (ident : Ident) (m : Message)

def call (b : Bus) : Call → Bus
  | .operate op => b.perform op
  | .receive ident m => (b.receive ident m).2.1

/-! ### Before and after the first step -/

/-- A bus is assembled by its first step, and no time passes before it. -/
structure Commenced (b : Bus) : Prop where
  assembled : b.assembled = true → 0 < b.steps
  unassembled : b.assembled = false → b.time.mantissa = 0

theorem commenced_ofConfig (h : ofConfig c = .ok start) : start.Commenced := by
  obtain ⟨-, engine, -, rfl⟩ := ofConfig_spec h
  exact ⟨fun h => absurd h Bool.false_ne_true, fun _ => rfl⟩

namespace Commenced

theorem of_still (h : b.Commenced) (hstill : b.Still b') : b'.Commenced := by
  refine ⟨fun hassembled => ?_, fun hunassembled => ?_⟩
  · rw [hstill.steps]
    exact h.assembled (hstill.assembled ▸ hassembled)
  · rw [hstill.time]
    exact h.unassembled (hstill.assembled ▸ hunassembled)

/-- Before the first step every time fits. -/
theorem assembled_of_overflow (h : b.Commenced) {elapsed : Time} {cause : Time.Error}
    (hoverflow : b.time.add elapsed = .error cause) : b.assembled = true := by
  cases hassembled : b.assembled with
  | true => rfl
  | false =>
    obtain ⟨time, hfits⟩ := Time.exists_add_of_left_eq_zero (b := elapsed) (h.unassembled hassembled)
    rw [hfits] at hoverflow
    cases hoverflow

theorem advance (h : b.Commenced) : b.advance.2.1.Commenced := by
  have hattempt := b.attempt_spec
  generalize b.advance.2.1 = b' at hattempt
  generalize b.advance.1 = outcome at hattempt
  cases hattempt with
  | waiting => exact h
  | refused => exact h
  | late cause engine ps live ready prepared overflow =>
    exact ⟨fun _ => h.assembled (h.assembled_of_overflow overflow), fun h => by cases h⟩
  | stepped => exact ⟨fun _ => Nat.succ_pos _, fun h => by cases h⟩

theorem call (h : b.Commenced) (x : Call) : (b.call x).Commenced := by
  cases x with
  | operate op =>
    by_cases hop : op = .advance
    · subst hop
      exact h.advance
    · exact h.of_still (b.still_perform hop)
  | receive i m => exact h.of_still (b.still_receive i m)

theorem calls (h : b.Commenced) (calls : List Call) : (calls.foldl Bus.call b).Commenced := by
  induction calls generalizing b with
  | nil => exact h
  | cons x calls ih => exact ih (h.call x)

end Commenced

/-! ### What a failure leaves behind -/

theorem advance_eq_of_refused {cause : EngineError} (h : b.advance.1 = .failed (.engine cause)) :
    b.assembled = false ∧ b.advance = (.failed (.engine cause), b, []) := by
  unfold advance at h ⊢
  split at h
  · cases h
  · next hgo =>
    rw [if_neg hgo]
    split at h
    · next herror =>
      cases h
      exact ⟨(assemble_eq_error herror).1, rfl⟩
    · next assembly _ =>
      -- with an assembled bus only the time is left to fail
      unfold step at h
      dsimp only at h
      split at h <;> cases h

theorem advance_eq_of_late {cause : Time.Error} (hb : b.Commenced) (h : b.advance.1 = .failed (.time cause)) :
    b.assembled = true ∧ cause = .overflow b.time b.clock.advance.elapsed ∧
      b.advance = (.failed (.time cause), { b with clock := b.clock.advance }, []) := by
  have hattempt := b.attempt_spec
  rw [h] at hattempt
  obtain ⟨hoverflow, hgo⟩ : b.time.add b.clock.advance.elapsed = .error cause ∧ ¬ (b.finished || !b.allReady) = true := by
    generalize b.advance.2.1 = b' at hattempt
    cases hattempt with
    | late _ _ _ live ready _ overflow => exact ⟨overflow, by simp [live, ready]⟩
  have hassembled := hb.assembled_of_overflow hoverflow
  refine ⟨hassembled, Time.add_refusal hoverflow, ?_⟩
  rw [advance, if_neg hgo, assemble, if_pos hassembled]
  dsimp only
  rw [step, hoverflow]
  rfl

/-- What is left of a bus after an attempt to step that failed. -/
structure FailsCleanly (b : Bus) (cause : AdvanceError) : Prop where
  time : b.advance.2.1.time = b.time
  steps : b.advance.2.1.steps = b.steps
  assembled : b.advance.2.1.assembled = b.assembled
  finished : b.advance.2.1.finished = b.finished
  participants : b.advance.2.1.participants = b.participants
  engine : b.advance.2.1.engine = b.engine
  silent : sends (b, .advance) = [] ∧ b.advance.2.2 = []
  /-- A bus whose participants do not agree has not been assembled, and it will always say the same. -/
  refused : ∀ e, cause = .engine e →
    b.assembled = false ∧ b.advance.2.1 = b ∧ b.advance.2.1.advance.1 = .failed cause
  /-- A bus for which there is no time left has taken a step before. -/
  late : ∀ e, cause = .time e →
    e = .overflow b.time b.clock.advance.elapsed ∧ b.assembled = true ∧ 0 < b.steps ∧
      b.advance.2.1 = { b with clock := b.clock.advance }

/-- **Clean failures.** Whatever has been done to a bus, an attempt to step that fails moves nothing but the clock. -/
theorem fails_cleanly (hstart : ofConfig c = .ok start) (calls : List Call) {cause : AdvanceError}
    (hfailed : (calls.foldl call start).advance.1 = .failed cause) :
    FailsCleanly (calls.foldl call start) cause := by
  have hcommenced := (commenced_ofConfig hstart).calls calls
  generalize calls.foldl call start = b at hfailed hcommenced
  have hsends : sends (b, .advance) = [] := by
    rw [sends, hfailed]
  cases cause with
  | engine e =>
    obtain ⟨hunassembled, hadvance⟩ := advance_eq_of_refused hfailed
    have hsame : b.advance.2.1 = b := by rw [hadvance]
    constructor
    case refused => exact fun _ _ => ⟨hunassembled, hsame, by rw [hsame, hfailed]⟩
    case late => exact fun _ h => by cases h
    case silent => exact ⟨hsends, by rw [hadvance]⟩
    all_goals rw [hsame]
  | time e =>
    obtain ⟨hassembled, hcause, hadvance⟩ := advance_eq_of_late hcommenced hfailed
    have hmoved : b.advance.2.1 = { b with clock := b.clock.advance } := by rw [hadvance]
    constructor
    case refused => exact fun _ h => by cases h
    case late =>
      intro _ h
      cases h
      exact ⟨hcause, hassembled, hcommenced.assembled hassembled, hmoved⟩
    case silent => exact ⟨hsends, by rw [hadvance]⟩
    all_goals rw [hmoved]

/-! ### Both failures -/

/-- The ends of the link do not agree on how wide it is. -/
def discord : List Operation :=
  [.handshake 7 "host" (.ofList [("WIDTH_O", "2")]), .handshake 8 "card" .empty,
    .line 0 "READY 0e-12", .line 1 "READY 0e-12"]

/-- A link whose ends do not agree is refused, and one that has been through a period of the slowest clock runs out of
time. -/
theorem link_fails_cleanly :
    FailsCleanly ((discord.map Call.operate).foldl call idleLink)
      (.engine (.optionMismatch "WIDTH_O" ("host", 2) ("card", 1))) ∧
    FailsCleanly ((onePeriod.map Call.operate).foldl call idleLink)
      (.time (.overflow ⟨18446744073709551614, -12⟩ ⟨2, -12⟩)) :=
  ⟨fails_cleanly ofConfig_oneWire _ (by cbv), fails_cleanly ofConfig_oneWire _ (by cbv)⟩

end Lockstep.Bus
