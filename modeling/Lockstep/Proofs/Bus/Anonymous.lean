import Lockstep.Proofs.Bus.Each
import Lockstep.Proofs.Bus.Sound
/-!
# A bus without its connections

What a bus does never depends on the numbers of its connections: they only say where its deliveries go. So the bus
that has forgotten them all (`Bus.anonymous`) steps in the same way (`Bus.advance_anonymous`), whatever its
protocol, and two runs in which the connections are numbered differently can be compared through it.
-/

namespace Lockstep

namespace Participants

def anonymous (ps : Participants) : Participants := ps.each (·.unbind)

theorem get?_anonymous (ps : Participants) (i : Ident) : ps.anonymous.get? i = (ps.get? i).map (·.unbind) :=
  get?_each _ _ _

theorem values_anonymous (ps : Participants) : ps.anonymous.values = ps.values.map (·.unbind) :=
  values_each _ _

theorem each_anonymous (ps : Participants) {f : Slot → Slot} (h : ∀ s, f s.unbind = (f s).unbind) :
    ps.anonymous.each f = anonymous (ps.each f) := ps.each_each_comm h

theorem modify_anonymous {f : Slot → Slot} (h : ∀ s, f s.unbind = (f s).unbind) (ps : Participants) (i : Ident) :
    SortedMap.modify ps.anonymous i f = anonymous (ps.modify i f) := (ps.each_modify (fun s => (h s).symm) i).symm

theorem allReady_anonymous (ps : Participants) : ps.anonymous.allReady = ps.allReady :=
  allReady_each (f := Slot.unbind) (fun _ => rfl) ps

theorem allFinished_anonymous (ps : Participants) : ps.anonymous.allFinished = ps.allFinished :=
  allFinished_each (f := Slot.unbind) (fun _ => rfl) ps

end Participants

/-! ### Relays -/

theorem RelaySignal.value_anonymous (r : RelaySignal) (link : Link) (ps : Participants) :
    r.value link ps.anonymous = r.value link ps := by
  unfold RelaySignal.value
  rw [ps.get?_anonymous]
  cases ps.get? (link.driver r.direction) <;> rfl

theorem RelayTable.relay_anonymous (t : RelayTable) (link : Link) (ps : Participants) :
    t.relay link ps.anonymous = (t.relay link ps).anonymous := by
  unfold RelayTable.relay
  -- the values relayed come from the participants as they were
  suffices h : ∀ (rs : List RelaySignal) (acc : Participants), rs.foldl (fun acc r =>
      acc.modify (link.receiver r.direction) fun slot => slot.send r.target (r.value link ps.anonymous)) acc.anonymous
      = Participants.anonymous (rs.foldl (fun acc r =>
        acc.modify (link.receiver r.direction) fun slot => slot.send r.target (r.value link ps)) acc) from
    h t.signals ps
  intro rs
  induction rs with
  | nil => intro acc; rfl
  | cons r rs ih =>
    intro acc
    rw [List.foldl_cons, List.foldl_cons, RelaySignal.value_anonymous, Participants.modify_anonymous, ih]
    exact fun _ => rfl

theorem PointToPoint.showClock_anonymous (link : Link) (level : Level) (ps : Participants) :
    showClock link level ps.anonymous = (showClock link level ps).anonymous := by
  have hmode : clockMode link.host ps.anonymous = clockMode link.host ps := by
    unfold clockMode
    rw [ps.get?_anonymous]
    cases ps.get? link.host <;> rfl
  have hsend : ∀ (l : Level) (s : Slot), s.unbind.sendBit clockName l = (s.sendBit clockName l).unbind :=
    fun _ _ => rfl
  rw [showClock, hmode, Participants.modify_anonymous (hsend _), Participants.modify_anonymous (hsend _)]
  rfl

/-! ### PCI -/

namespace Pci

theorem resolve_anonymous (ps : Participants) (name : String) (width : Nat) :
    resolve ps.anonymous name width = resolve ps name width := by
  rw [resolve, ps.values_anonymous, List.foldl_map]
  rfl

theorem reset_anonymous (ps : Participants) : reset ps.anonymous = reset ps := by
  rw [reset, ps.values_anonymous, List.filter_map, List.foldl_map]
  rfl

theorem interrupts_anonymous (ps : Participants) (name : String) :
    interrupts ps.anonymous name = interrupts ps name := by
  rw [interrupts, ps.values_anonymous, List.filter_map, List.foldl_map]
  rfl

theorem requestMask_anonymous (ps : Participants) : requestMask ps.anonymous = requestMask ps := by
  rw [requestMask, ps.values_anonymous, List.filter_map, List.foldl_map]
  rfl

theorem frameDriver?_anonymous (ps : Participants) : frameDriver? ps.anonymous = frameDriver? ps := by
  rw [frameDriver?, Participants.anonymous, Participants.find?_each (f := Slot.unbind) fun _ => rfl, Option.map_map]
  rfl

theorem deliveries_anonymous (ps : Participants) (granted : Option Nat) (clock : Level) (slot : Slot) :
    deliveries ps.anonymous granted clock slot.unbind = deliveries ps granted clock slot := by
  simp only [deliveries, resolve_anonymous, reset_anonymous, interrupts_anonymous, idsel]
  rfl

theorem deliver_anonymous (p : Pci) (clock : Level) (ps : Participants) :
    p.deliver clock ps.anonymous = (p.deliver clock ps).anonymous := by
  refine SortedMap.ext_get? fun i => ?_
  rw [deliver, Participants.get?_each, Participants.get?_anonymous, Participants.get?_anonymous, deliver,
    Participants.get?_each]
  cases ps.get? i with
  | none => rfl
  | some slot =>
    simp only [Option.map_some]
    rw [deliveries_anonymous]
    refine congrArg some (List.foldl_hom Slot.unbind ?_)
    exact fun _ _ => rfl

theorem trackOwner_anonymous (p : Pci) (ps : Participants) : p.trackOwner ps.anonymous = p.trackOwner ps := by
  unfold trackOwner
  rw [resolve_anonymous, resolve_anonymous, frameDriver?_anonymous]

theorem risingEdge_anonymous (p : Pci) (ps : Participants) : p.risingEdge ps.anonymous = p.risingEdge ps := by
  rw [risingEdge, trackOwner_anonymous, requestMask_anonymous, risingEdge]

end Pci

namespace Engine

theorem broadcast_anonymous (name : String) (level : Level) (ps : Participants) :
    broadcast name level ps.anonymous = (broadcast name level ps).anonymous := by
  have hsend : ∀ s : Slot, s.unbind.sendBit name level = (s.sendBit name level).unbind := fun _ => rfl
  exact ps.each_anonymous hsend

theorem deliver_anonymous (e : Engine) (level : Level) (ps : Participants) :
    e.deliver level ps.anonymous = (e.deliver level ps).anonymous := by
  unfold deliver
  split
  · rw [RelayTable.relay_anonymous, PointToPoint.showClock_anonymous]
  · rw [relayWithClock, RelayTable.relay_anonymous, broadcast_anonymous]
    rfl
  · rw [relayWithClock, RelayTable.relay_anonymous, broadcast_anonymous]
    rfl
  · exact Pci.deliver_anonymous _ _ _
  · rfl

theorem atPhase_anonymous (e : Engine) (phase : Phase) (ps : Participants) :
    e.atPhase phase ps.anonymous = e.atPhase phase ps := by
  unfold atPhase
  split
  · rw [Pci.risingEdge_anonymous]
  · rfl

theorem wrapUp_anonymous (e : Engine) (ps : Participants) : e.wrapUp ps.anonymous = e.wrapUp ps :=
  wrapUp_each (f := Slot.unbind) (fun _ => rfl) (fun _ => rfl) e ps

theorem step_anonymous (e : Engine) (phase : Phase) (ps : Participants) :
    (e.step phase ps.anonymous).1 = (e.step phase ps).1 ∧
      (e.step phase ps.anonymous).2.1 = (e.step phase ps).2.1.anonymous := by
  simp only [step]
  rw [atPhase_anonymous]
  exact ⟨rfl, deliver_anonymous _ _ _⟩

end Engine

/-- What an attempt to step comes to, apart from who is told of it. -/
def Advance.anonymous : Advance → Advance
  | .stepped _ => .stepped []
  | outcome => outcome

namespace Bus

def anonymous (b : Bus) : Bus := { b with participants := b.participants.anonymous }

theorem get?_anonymous (b : Bus) (i : Ident) :
    b.anonymous.participants.get? i = (b.participants.get? i).map (·.unbind) :=
  b.participants.get?_anonymous i

theorem anonymous_modifySlot {b : Bus} {i : Ident} {f g : Slot → Slot}
    (h : ∀ s, b.participants.get? i = some s → g s.unbind = (f s).unbind) :
    (b.modifySlot i f).anonymous = b.anonymous.modifySlot i g := by
  rw [anonymous, anonymous, modifySlot, modifySlot]
  congr 1
  refine SortedMap.ext_get? fun j => ?_
  simp only [Participants.get?_anonymous, SortedMap.get?_modify]
  split
  · next hj =>
    subst hj
    cases hs : b.participants.get? j with
    | none => rfl
    | some s => simp [h s hs]
  · rfl

theorem deliveries_anonymous (time : Time) (ps : Participants) : deliveries time ps.anonymous = [] := by
  rw [deliveries, ps.values_anonymous, List.filterMap_map]
  refine List.filterMap_eq_nil_iff.2 fun s _ => ?_
  show (if s.unbind.finished then none else s.unbind.connection.map _) = none
  split <;> rfl

theorem assemble_anonymous (b : Bus) :
    (b.anonymous.assemble).map (·.1) = (b.assemble).map fun r => r.1.anonymous := by
  have hwrap : b.anonymous.engine.wrapUp b.anonymous.participants = b.engine.wrapUp b.participants :=
    Engine.wrapUp_anonymous _ _
  unfold assemble
  rw [hwrap]
  cases ha : b.assembled with
  | true =>
    have ha' : b.anonymous.assembled = true := ha
    rw [if_pos ha', if_pos rfl]
    rfl
  | false =>
    have ha' : ¬ b.anonymous.assembled = true := by
      rw [show b.anonymous.assembled = b.assembled from rfl, ha]
      exact Bool.false_ne_true
    rw [if_neg ha', if_neg Bool.false_ne_true]
    cases b.engine.wrapUp b.participants with
    | error e => rfl
    | ok r =>
      obtain ⟨engine, notice⟩ := r
      have hinit := engine.deliver_anonymous b.clock.phase.level b.participants
      simp only [Except.map, Engine.init, anonymous]
      rw [hinit]

theorem step_anonymous (b : Bus) :
    b.anonymous.step.1 = b.step.1.anonymous ∧ b.anonymous.step.2.1 = b.step.2.1.anonymous := by
  have hrearm : ∀ s : Slot, s.unbind.rearm = s.rearm.unbind := by
    intro s
    unfold Slot.rearm
    cases hf : s.finished <;> simp [Slot.unbind, hf]
  have htime : b.anonymous.time.add b.anonymous.clock.advance.elapsed = b.time.add b.clock.advance.elapsed := rfl
  have hengine := b.engine.step_anonymous b.clock.advance.phase b.participants
  unfold step
  dsimp only
  rw [htime]
  cases b.time.add b.clock.advance.elapsed with
  | error e => exact ⟨rfl, rfl⟩
  | ok time =>
    change (b.anonymous.engine.step b.anonymous.clock.advance.phase b.anonymous.participants).1 = _ ∧
      (b.anonymous.engine.step b.anonymous.clock.advance.phase b.anonymous.participants).2.1 = _ at hengine
    dsimp only
    generalize b.anonymous.engine.step b.anonymous.clock.advance.phase b.anonymous.participants = r' at hengine
    generalize b.engine.step b.clock.advance.phase b.participants = r at hengine
    obtain ⟨engine, ps, records⟩ := r
    obtain ⟨engine', ps', records'⟩ := r'
    obtain ⟨rfl, rfl⟩ : engine' = engine ∧ ps' = ps.anonymous := hengine
    refine ⟨?_, ?_⟩
    · show Advance.stepped (deliveries time ps.anonymous) = Advance.stepped []
      rw [deliveries_anonymous]
    · dsimp only
      rw [Participants.each_anonymous _ hrearm]
      rfl

theorem advance_anonymous (b : Bus) :
    b.anonymous.advance.1 = b.advance.1.anonymous ∧ b.anonymous.advance.2.1 = b.advance.2.1.anonymous := by
  have hready : b.anonymous.allReady = b.allReady := b.participants.allReady_anonymous
  have hassemble := b.assemble_anonymous
  unfold advance
  rw [hready, show b.anonymous.finished = b.finished from rfl]
  split
  · exact ⟨rfl, rfl⟩
  · cases ha : b.assemble with
    | error e =>
      rw [ha] at hassemble
      cases ha' : b.anonymous.assemble with
      | error e' =>
        rw [ha'] at hassemble
        cases hassemble
        exact ⟨rfl, rfl⟩
      | ok r' => rw [ha'] at hassemble; cases hassemble
    | ok r =>
      obtain ⟨b₁, records⟩ := r
      rw [ha] at hassemble
      cases ha' : b.anonymous.assemble with
      | error e' => rw [ha'] at hassemble; cases hassemble
      | ok r' =>
        obtain ⟨b₂, records'⟩ := r'
        rw [ha'] at hassemble
        cases hassemble
        exact b₁.step_anonymous

theorem tearDown_anonymous (b : Bus) : b.anonymous.tearDown.2.1 = b.tearDown.2.1.anonymous := by
  unfold tearDown
  rw [show b.anonymous.finished = b.finished from rfl]
  split
  · rfl
  · have hunbind : ∀ s : Slot, s.unbind.unbind = s.unbind.unbind := fun _ => rfl
    have heach := b.participants.each_anonymous hunbind
    simp only [anonymous]
    rw [heach]

end Bus

end Lockstep
