import Mathlib
import Lockstep.Proofs.Bus.Sound
/-!
# Runs of a bus

A run is a sequence of operations on a bus as it was configured: handshakes, lines, disconnections, attempts to
step and tearing down, in any order. Messages and disconnections come from participants only, so they concern
slots that somebody has claimed (`Bus.Permits`).

A course is any sequence of operations at all, whether they make sense or not. In an orderly course slots are used
after their handshake only; that a participant is still connected is not asked for, so a READY after FINISH is part of
an orderly course, and a run is one (`Run.course`). `Bus.Course.sound` carries soundness along an orderly course.
-/

namespace Lockstep.Bus

inductive Operation where
  | handshake (connection : ConnectionKey) (name : String) (options : Options)
  | line (ident : Ident) (text : String)
  | disconnect (ident : Ident)
  | advance
  | tearDown

/-- Reads and applies a line of a participant. A line that cannot be read changes nothing. -/
def hear (b : Bus) (ident : Ident) (text : String) :
    Except LineError (Except ParticipantError Received) × Bus :=
  match b.decode ident text with
  | .error cause => (.error cause, b)
  | .ok m => (.ok (b.receive ident m).1, (b.receive ident m).2.1)

def perform (b : Bus) : Operation → Bus
  | .handshake connection name options => (b.handshake connection name options).2.1
  | .line ident text => (b.hear ident text).2
  | .disconnect ident => (b.disconnect ident).2
  | .advance => b.advance.2.1
  | .tearDown => b.tearDown.2.1

/-- Lines come from participants that are connected, and only a participant can be disconnected. -/
def Permits (b : Bus) : Operation → Prop
  | .line ident _ => ∃ slot k, b.participants.get? ident = some slot ∧ slot.claimed = true ∧
      slot.connection = some k
  | .disconnect ident => ∃ slot, b.participants.get? ident = some slot ∧ slot.claimed = true
  | _ => True

/-- A line or a disconnection concerns a slot that somebody has claimed. -/
def Uses (b : Bus) : Operation → Prop
  | .line ident _ | .disconnect ident => ∃ slot, b.participants.get? ident = some slot ∧ slot.claimed = true
  | _ => True

theorem Permits.uses {b : Bus} {op : Operation} (h : b.Permits op) : b.Uses op := by
  cases op with
  | line i text =>
    obtain ⟨slot, _, hs, hc, -⟩ := h
    exact ⟨slot, hs, hc⟩
  | handshake | disconnect | advance | tearDown => exact h

/-- The operations of a run, each with the bus that it met. -/
abbrev Trace := List (Bus × Operation)

/-- The bus `b` is reached from `start` by the operations of a trace. -/
inductive Run (start : Bus) : Trace → Bus → Prop where
  | nil : Run start [] start
  | snoc {trace : Trace} {b : Bus} (h : Run start trace b) (op : Operation) (permitted : b.Permits op) :
      Run start (trace ++ [(b, op)]) (b.perform op)

/-- The bus `b` is reached from `start` by the operations of a trace, whatever they are. -/
inductive Course (start : Bus) : Trace → Bus → Prop where
  | nil : Course start [] start
  | snoc {trace : Trace} {b : Bus} (h : Course start trace b) (op : Operation) :
      Course start (trace ++ [(b, op)]) (b.perform op)

section Inversion

variable {start b : Bus} {trace : Trace}

theorem Course.eq_of_nil (h : Course start [] b) : b = start := by
  generalize htrace : ([] : Trace) = trace at h
  cases h with
  | nil => rfl
  | snoc => simp at htrace

theorem Course.of_snoc {e : Bus × Operation} (h : Course start (trace ++ [e]) b) :
    Course start trace e.1 ∧ b = e.1.perform e.2 := by
  generalize htrace : trace ++ [e] = whole at h
  cases h with
  | nil => simp at htrace
  | snoc h op =>
    obtain ⟨rfl, rfl⟩ := List.append_singleton_inj.1 htrace
    exact ⟨h, rfl⟩

end Inversion

/-- Slots are used after their handshake only. -/
def Orderly (trace : Trace) : Prop := ∀ e ∈ trace, e.1.Uses e.2

theorem orderly_snoc {trace : Trace} {b : Bus} {op : Operation} :
    Orderly (trace ++ [(b, op)]) ↔ Orderly trace ∧ b.Uses op := by
  simp [Orderly, or_imp, forall_and]

theorem Run.course {start b : Bus} {trace : Trace} (h : Run start trace b) :
    Course start trace b ∧ Orderly trace := by
  induction h with
  | nil => exact ⟨.nil, fun e he => absurd he List.not_mem_nil⟩
  | snoc _ op permitted ih => exact ⟨ih.1.snoc op, orderly_snoc.2 ⟨ih.2, permitted.uses⟩⟩

def stepped : Bus × Operation → Bool
  | (b, .advance) =>
    match b.advance.1 with
    | .stepped _ => true
    | _ => false
  | _ => false

theorem exists_of_stepped {b : Bus} (h : stepped (b, .advance) = true) : ∃ ds, b.advance.1 = .stepped ds := by
  simp only [stepped] at h
  split at h
  · next ds hds => exact ⟨ds, hds⟩
  · cases h

/-- The course that some operations take a bus through. -/
def traced (b : Bus) : List Operation → Trace
  | [] => []
  | op :: ops => (b, op) :: (b.perform op).traced ops

theorem course_traced (start : Bus) (ops : List Operation) :
    Course start (start.traced ops) (ops.foldl perform start) := by
  have hsnoc : ∀ (ops : List Operation) (op : Operation) (b : Bus),
      b.traced (ops ++ [op]) = b.traced ops ++ [(ops.foldl perform b, op)] := by
    intro ops op
    induction ops with
    | nil => exact fun b => rfl
    | cons op' ops ih => exact fun b => congrArg ((b, op') :: ·) (ih _)
  induction ops using List.reverseRecOn with
  | nil => exact .nil
  | append_singleton ops op ih =>
    rw [hsnoc, List.foldl_append]
    exact ih.snoc op

/-- The slot that an operation uses is there, and claimed. -/
def usesClaimed (b : Bus) : Operation → Bool
  | .line ident _ | .disconnect ident => (b.participants.get? ident).any (·.claimed)
  | _ => true

theorem orderly_of_all {trace : Trace} (h : (trace.all fun e => e.1.usesClaimed e.2) = true) : Orderly trace := by
  intro e he
  have huses := List.all_eq_true.1 h e he
  obtain ⟨b, op⟩ := e
  cases op with
  | line | disconnect => exact (Option.any_eq_true _ _).1 huses
  | handshake | advance | tearDown => trivial

theorem handshake_spec (b : Bus) (k : ConnectionKey) (name : String) (options : Options) :
    (∃ reason, b.admits name options = .error reason ∧
      b.handshake k name options = (.error (.rejected b.name name reason), b, [])) ∨
    ∃ slot widths, b.admits name options = .ok (slot, widths) ∧
      b.handshake k name options = (.ok slot.ident, b.modifySlot slot.ident (·.claim k options widths),
        [.noticed (.connected name slot.ident)]) := by
  unfold handshake
  cases h : b.admits name options with
  | error reason => exact .inl ⟨reason, rfl, rfl⟩
  | ok found => exact .inr ⟨found.1, found.2, rfl, rfl⟩

theorem hear_spec {b : Bus} {i : Ident} {slot : Slot} (hs : b.participants.get? i = some slot) (text : String) :
    (∃ cause, b.decode i text = .error cause ∧ b.hear i text = (.error cause, b)) ∨
    ∃ m outcome b', b.decode i text = .ok m ∧ b.hear i text = (.ok outcome, b') ∧
      b.Receipt i slot m outcome b' := by
  unfold hear
  cases h : b.decode i text with
  | error cause => exact .inl ⟨cause, rfl, rfl⟩
  | ok m => exact .inr ⟨m, _, _, rfl, rfl, receive_spec hs m⟩

theorem Sound.receipt {b b' : Bus} {i : Ident} {slot : Slot} {m : Message}
    {outcome : Except ParticipantError Received} (hb : b.Sound) (hs : b.participants.get? i = some slot)
    (hc : slot.claimed = true) (h : b.Receipt i slot m outcome b') : b'.Sound := by
  cases h with
  | offered time signals => exact hb.offer hs hc time signals
  | left => exact hb.retire hs hc
  | violated => exact hb.retire hs hc

theorem Sound.perform {b : Bus} (hb : b.Sound) {op : Operation} (hp : b.Uses op) : (b.perform op).Sound := by
  cases op with
  | handshake k name options =>
    rcases b.handshake_spec k name options with ⟨_, _, h⟩ | ⟨slot, widths, hadmits, h⟩
    · rw [Bus.perform, h]
      exact hb
    · rw [Bus.perform, h]
      exact hb.claim hadmits k
  | line i text =>
    obtain ⟨slot, hs, hc⟩ := hp
    rcases hear_spec hs text with ⟨_, _, h⟩ | ⟨_, _, _, _, h, hreceipt⟩
    · rw [Bus.perform, h]
      exact hb
    · rw [Bus.perform, h]
      exact hb.receipt hs hc hreceipt
  | disconnect i =>
    obtain ⟨slot, hs, hc⟩ := hp
    exact hb.disconnect hs hc
  | advance => exact hb.advanced b.advance_spec
  | tearDown => exact hb.tearDown

theorem Course.sound {c : BusConfig} {start b : Bus} {trace : Trace} (hstart : ofConfig c = .ok start)
    (h : Course start trace b) (horderly : Orderly trace) : b.Sound := by
  induction h with
  | nil => exact sound_ofConfig hstart
  | snoc _ op ih =>
    obtain ⟨horderly, huses⟩ := orderly_snoc.1 horderly
    exact (ih horderly).perform huses

theorem Run.sound {c : BusConfig} {start b : Bus} {trace : Trace} (hstart : ofConfig c = .ok start)
    (h : Run start trace b) : b.Sound := by
  obtain ⟨hcourse, horderly⟩ := h.course
  exact hcourse.sound hstart horderly

/-! ### Two buses of two -/

def hostAndCard : BusConfig where
  name := "pci"
  address := .tcp "localhost" 0
  protocol := .pci
  clock := .standard
  devices := [⟨"host", 0, true⟩, ⟨"card", 1, false⟩]
  options := .empty

/-- The bus of a host and a card before anybody has connected. -/
def idleBus : Bus where
  config := hostAndCard
  participants := .ofDevices hostAndCard.devices
  engine := .pci ⟨.start .none 4 0, none⟩
  clock := .start .standard
  time := .zero
  assembled := false
  finished := false
  steps := 0

theorem ofConfig_hostAndCard : ofConfig hostAndCard = .ok idleBus := by cbv

/-- A link of a host and a card with one wire each way, and with a clock that has as long a period as there is room
for. -/
def oneWire : BusConfig where
  name := "link"
  address := .tcp "localhost" 0
  protocol := .pointToPoint
  clock := ⟨9223372036854775807, 9223372036854775807, 1, 2⟩
  devices := [⟨"host", 0, true⟩, ⟨"card", 1, false⟩]
  options := .ofList [(PointToPoint.inputKey, "1"), (PointToPoint.outputKey, "1")]

def idleLink : Bus where
  config := oneWire
  participants := .ofDevices oneWire.devices
  engine := .pointToPoint oneWire.options none
  clock := .start oneWire.clock
  time := .zero
  assembled := false
  finished := false
  steps := 0

theorem ofConfig_oneWire : ofConfig oneWire = .ok idleLink := by cbv

def linkGreetings : List Operation := [.handshake 7 "host" .empty, .handshake 8 "card" .empty]

end Lockstep.Bus
