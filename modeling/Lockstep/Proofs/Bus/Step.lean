import Lockstep.Bus
import Lockstep.Proofs.SortedMap
/-!
# What a step of a bus can do

An engine decides what participants are shown and nothing else about them (`Engine.muted_deliver`), whatever its
protocol. With this, `Bus.advance_spec` lists the three things an attempt to step can come to, and all that it
changes in each case; later proofs take their facts about steps from there.
-/

namespace Lockstep

/-- A slot apart from what its participant is shown. -/
def Slot.muted (s : Slot) : Slot := { s with outgoing := .empty }

theorem Slot.eq_of_muted_eq {s s' : Slot} (h : s'.muted = s.muted) :
    s' = { s with outgoing := s'.outgoing } := by
  cases s
  cases s'
  cases h
  rfl

@[simp] theorem Slot.muted_send (s : Slot) (name : String) (value : Bundle) :
    (s.send name value).muted = s.muted := rfl

@[simp] theorem Slot.muted_sendBit (s : Slot) (name : String) (level : Level) :
    (s.sendBit name level).muted = s.muted := rfl

theorem Slot.muted_foldl {α : Type} {f : Slot → α → Slot} (h : ∀ s a, (f s a).muted = s.muted) (as : List α)
    (s : Slot) : (as.foldl f s).muted = s.muted := by
  induction as generalizing s with
  | nil => rfl
  | cons a as ih => rw [List.foldl_cons, ih, h]

namespace Participants

/-- The slots apart from what participants are shown. -/
def muted (ps : Participants) : Participants := ps.each Slot.muted

theorem get?_each (ps : Participants) (f : Slot → Slot) (i : Ident) :
    (ps.each f).get? i = (ps.get? i).map f :=
  SortedMap.get?_mapValues _ _ _

theorem values_each (ps : Participants) (f : Slot → Slot) : (ps.each f).values = ps.values.map f := by
  simp [each, SortedMap.values, SortedMap.mapValues]

theorem each_each (ps : Participants) (f g : Slot → Slot) :
    (ps.each f).each g = ps.each fun s => g (f s) :=
  SortedMap.mapValues_mapValues _ _ _

theorem muted_each {f : Slot → Slot} (h : ∀ s, (f s).muted = s.muted) (ps : Participants) :
    (ps.each f).muted = ps.muted := by
  rw [muted, each_each, muted]
  congr 1
  funext s
  exact h s

theorem muted_modify {f : Slot → Slot} (h : ∀ s, (f s).muted = s.muted) (ps : Participants) (i : Ident) :
    muted (ps.modify i f) = ps.muted := by
  refine SortedMap.ext_get? fun j => ?_
  simp only [muted, get?_each, SortedMap.get?_modify]
  split
  · cases ps.get? j <;> simp [h]
  · rfl

theorem exists_of_muted_eq {ps ps' : Participants} (h : ps'.muted = ps.muted) {i : Ident} {slot' : Slot}
    (hslot : ps'.get? i = some slot') : ∃ slot, ps.get? i = some slot ∧ slot'.muted = slot.muted := by
  have hget : (ps'.muted).get? i = (ps.muted).get? i := by rw [h]
  rw [muted, get?_each, hslot, muted, get?_each] at hget
  cases hs : ps.get? i with
  | none => rw [hs] at hget; cases hget
  | some slot =>
    rw [hs] at hget
    exact ⟨slot, rfl, Option.some.inj hget⟩

theorem allReady_muted (ps : Participants) : ps.muted.allReady = ps.allReady := by
  simp only [allReady, muted, values_each, List.all_map]
  rfl

theorem allReady_iff {ps : Participants} :
    ps.allReady = true ↔ ∀ i slot, ps.get? i = some slot → slot.isReady = true := by
  simp only [allReady, List.all_eq_true, SortedMap.mem_values_iff, forall_exists_index]
  exact forall_comm

theorem allFinished_iff {ps : Participants} :
    ps.allFinished = true ↔ ∀ i slot, ps.get? i = some slot → slot.finished = true := by
  simp only [allFinished, List.all_eq_true, SortedMap.mem_values_iff, forall_exists_index]
  exact forall_comm

theorem allReady_of_allFinished {ps : Participants} (h : ps.allFinished = true) : ps.allReady = true := by
  refine allReady_iff.2 fun i slot hslot => ?_
  rw [Slot.isReady, allFinished_iff.1 h i slot hslot, Bool.or_true]

end Participants

/-! ### Engines -/

theorem RelayTable.muted_relay (t : RelayTable) (link : Link) (ps : Participants) :
    (t.relay link ps).muted = ps.muted := by
  unfold RelayTable.relay
  -- the accumulator changes, the participants whose values are relayed do not
  suffices h : ∀ (rs : List RelaySignal) (acc : Participants), (rs.foldl (fun acc r =>
      acc.modify (link.receiver r.direction) fun slot => slot.send r.target (r.value link ps)) acc).muted
      = acc.muted from h t.signals ps
  intro rs
  induction rs with
  | nil => intro acc; rfl
  | cons r rs ih =>
    intro acc
    rw [List.foldl_cons, ih]
    exact Participants.muted_modify (fun s => s.muted_send r.target _) _ _

theorem Pci.muted_deliver (p : Pci) (clock : Level) (ps : Participants) :
    (p.deliver clock ps).muted = ps.muted := by
  refine Participants.muted_each (fun slot => Slot.muted_foldl (fun s v => ?_) _ slot) ps
  exact s.muted_send v.1 v.2

namespace Engine

theorem muted_broadcast (name : String) (level : Level) (ps : Participants) :
    (broadcast name level ps).muted = ps.muted :=
  Participants.muted_each (fun s => s.muted_sendBit name level) ps

theorem muted_relayWithClock (name : String) (w : Wiring) (level : Level) (ps : Participants) :
    (relayWithClock name w level ps).muted = ps.muted := by
  rw [relayWithClock, muted_broadcast, RelayTable.muted_relay]

theorem muted_showClock (link : Link) (level : Level) (ps : Participants) :
    (PointToPoint.showClock link level ps).muted = ps.muted := by
  rw [PointToPoint.showClock, Participants.muted_modify fun s => s.muted_sendBit _ _,
    Participants.muted_modify fun s => s.muted_sendBit _ _]

/-- Whatever the protocol, delivering changes what participants are shown and nothing else about them. -/
theorem muted_deliver (e : Engine) (level : Level) (ps : Participants) :
    (e.deliver level ps).muted = ps.muted := by
  unfold deliver
  split
  · rw [muted_showClock, RelayTable.muted_relay]
  · exact muted_relayWithClock _ _ _ _
  · exact muted_relayWithClock _ _ _ _
  · exact Pci.muted_deliver _ _ _
  · rfl

theorem muted_init (e : Engine) (phase : Phase) (ps : Participants) :
    (e.init phase ps).1.muted = ps.muted := muted_deliver _ _ _

theorem muted_step (e : Engine) (phase : Phase) (ps : Participants) :
    (e.step phase ps).2.1.muted = ps.muted := by
  simp only [step]
  exact muted_deliver _ _ _

end Engine

/-! ### Attempts to step -/

namespace Bus

/-- What an attempt to step can come to. -/
inductive Advanced (b : Bus) : Advance → Bus → Prop where
  /-- A participant is not ready, or the bus has been torn down. -/
  | waiting (h : b.finished = true ∨ b.allReady = false) : Advanced b .waiting b
  /-- The engine refuses the options of the participants, or the time does not fit. -/
  | failed (cause : AdvanceError) (engine : Engine) (ps : Participants) (clock : Clock) (assembled : Bool)
      (live : b.finished = false) (ready : b.allReady = true) (shown : ps.muted = b.participants.muted)
      (timing : clock.timing = b.clock.timing) :
      Advanced b (.failed cause) { b with engine, participants := ps, clock, assembled }
  /-- The clock moves on, and every unfinished participant has to offer again. -/
  | stepped (engine : Engine) (ps : Participants) (time : Time)
      (live : b.finished = false) (ready : b.allReady = true) (shown : ps.muted = b.participants.muted)
      (sum : b.time.add b.clock.advance.elapsed = .ok time) :
      Advanced b (.stepped (deliveries time ps))
        { b with
          engine, time
          participants := ps.each (·.rearm)
          clock := b.clock.advance
          assembled := true
          steps := b.steps + 1 }

theorem assemble_spec {b b' : Bus} {records : List Record} (h : b.assemble = .ok (b', records)) :
    ∃ engine ps, ps.muted = b.participants.muted ∧
      b' = { b with engine, participants := ps, assembled := true } := by
  unfold assemble at h
  split at h
  · next ha =>
    cases h
    exact ⟨b.engine, b.participants, rfl, by rw [← ha]⟩
  · split at h
    · cases h
    · next engine notice hw =>
      cases h
      exact ⟨engine, _, engine.muted_init _ _, rfl⟩

theorem advance_spec (b : Bus) : b.Advanced b.advance.1 b.advance.2.1 := by
  unfold advance
  split
  · next h => exact .waiting (by simpa using h)
  · next h =>
    obtain ⟨hlive, hready⟩ : b.finished = false ∧ b.allReady = true := by simpa using h
    split
    · exact .failed _ b.engine b.participants b.clock b.assembled hlive hready rfl rfl
    · next b₁ records hb₁ =>
      obtain ⟨engine, ps, hshown, rfl⟩ := assemble_spec hb₁
      unfold step
      dsimp only
      split
      · exact .failed _ engine ps b.clock.advance true hlive hready hshown rfl
      · next time htime =>
        exact .stepped _ _ time hlive hready ((engine.muted_step _ _).trans hshown) htime

theorem ready_of_advance {b : Bus} (h : b.advance.1 ≠ .waiting) : b.finished = false ∧ b.allReady = true := by
  have hspec := b.advance_spec
  generalize b.advance.1 = outcome at h hspec
  generalize b.advance.2.1 = b' at hspec
  cases hspec with
  | waiting => exact absurd rfl h
  | failed _ _ _ _ _ live ready => exact ⟨live, ready⟩
  | stepped _ _ _ live ready => exact ⟨live, ready⟩

end Bus

end Lockstep
