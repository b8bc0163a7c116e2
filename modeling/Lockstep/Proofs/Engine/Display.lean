import Lockstep.Proofs.Bus.Attempt
/-!
# What an engine displays

An engine delivers by changing the slots of all participants at once, some of them several times. Slot by slot this is
much simpler: each participant is sent one list of named values (`Engine.display`), and that is all the delivery does to
its slot (`Engine.deliver_eq`). The values depend on what participants drive and not on what they have been shown, so a
list can be computed before anything is sent.

A name may be sent more than once, and then the last value counts. That no engine does so is a property of its tables
and is not needed here.
-/

namespace Lockstep

namespace Slot

def sendAll (s : Slot) (vs : List (String × Bundle)) : Slot := vs.foldl (fun s v => s.send v.1 v.2) s

@[simp] theorem sendAll_nil (s : Slot) : s.sendAll [] = s := rfl

theorem sendAll_cons (s : Slot) (v : String × Bundle) (vs : List (String × Bundle)) :
    s.sendAll (v :: vs) = (s.send v.1 v.2).sendAll vs := rfl

theorem sendAll_append (s : Slot) (vs ws : List (String × Bundle)) :
    s.sendAll (vs ++ ws) = (s.sendAll vs).sendAll ws := List.foldl_append

theorem outgoing_sendAll (s : Slot) (vs : List (String × Bundle)) :
    (s.sendAll vs).outgoing = s.outgoing.insertMany vs := by
  induction vs generalizing s with
  | nil => rfl
  | cons v vs ih =>
    rw [sendAll_cons, ih]
    rfl

end Slot

namespace Participants

theorem modify_eq_mapValues (ps : Participants) (i : Ident) (f : Slot → Slot) :
    SortedMap.modify ps i f = ps.mapValues fun j s => if j = i then f s else s := rfl

end Participants

namespace RelayTable

/-- The values that a table relays to one participant, under the names that it has for them. -/
def addressed (t : RelayTable) (link : Link) (ps : Participants) (i : Ident) : List (String × Bundle) :=
  (t.signals.filter fun r => link.receiver r.direction = i).map fun r => (r.target, r.value link ps)

theorem relay_eq (t : RelayTable) (link : Link) (ps : Participants) :
    t.relay link ps = ps.mapValues fun i s => s.sendAll (t.addressed link ps i) := by
  unfold relay addressed
  -- the values are those of the participants as they were, whatever has been sent already
  suffices h : ∀ (rs : List RelaySignal) (acc : Participants),
      rs.foldl (fun acc r => acc.modify (link.receiver r.direction) fun s => s.send r.target (r.value link ps)) acc =
        acc.mapValues fun i s => s.sendAll
          ((rs.filter fun r => link.receiver r.direction = i).map fun r => (r.target, r.value link ps)) from
    h t.signals ps
  intro rs
  induction rs with
  | nil =>
    intro acc
    exact (SortedMap.ext_get? fun i => by rw [SortedMap.get?_mapValues]; simp).symm
  | cons r rs ih =>
    intro acc
    rw [List.foldl_cons, ih, Participants.modify_eq_mapValues, SortedMap.mapValues_mapValues]
    congr 1
    funext i s
    by_cases hi : link.receiver r.direction = i
    · rw [if_pos hi.symm, List.filter_cons_of_pos (by simpa using hi)]
      rfl
    · rw [if_neg (Ne.symm hi), List.filter_cons_of_neg (by simpa using hi)]

end RelayTable

namespace PointToPoint

/-- The clock as each end of a link is shown it. -/
def clocked (link : Link) (level : Level) (ps : Participants) (i : Ident) : List (String × Bundle) :=
  (if i = link.host then [(clockName, .ofLevel level)] else []) ++
    if i = link.device then [(clockName, .ofLevel ((clockMode link.host ps).apply level))] else []

theorem showClock_eq (link : Link) (level : Level) (ps : Participants) :
    showClock link level ps = ps.mapValues fun i s => s.sendAll (clocked link level ps i) := by
  unfold showClock clocked
  dsimp only
  rw [Participants.modify_eq_mapValues, Participants.modify_eq_mapValues, SortedMap.mapValues_mapValues]
  congr 1
  funext i s
  rw [Slot.sendAll_append]
  split <;> split <;> rfl

theorem clockMode_of_muted_eq {ps ps' : Participants} (h : ps'.muted = ps.muted) (host : Ident) :
    clockMode host ps' = clockMode host ps := by
  unfold clockMode
  cases hs' : ps'.get? host with
  | none =>
    cases hs : ps.get? host with
    | none => rfl
    | some slot =>
      obtain ⟨_, hs'', -⟩ := Participants.exists_of_muted_eq h.symm hs
      rw [hs'] at hs''
      cases hs''
  | some slot' =>
    obtain ⟨slot, hs, hm⟩ := Participants.exists_of_muted_eq h hs'
    rw [hs, Slot.eq_of_muted_eq hm]
    rfl

theorem clocked_of_muted_eq {ps ps' : Participants} (h : ps'.muted = ps.muted) (link : Link) (level : Level)
    (i : Ident) : clocked link level ps' i = clocked link level ps i := by
  rw [clocked, clockMode_of_muted_eq h, clocked]

end PointToPoint

namespace Pci

section Muted

variable (ps : Participants)

theorem resolve_muted (name : String) (width : Nat) : resolve ps.muted name width = resolve ps name width := by
  rw [resolve, Participants.muted, Participants.values_each, List.foldl_map]
  rfl

theorem requestMask_muted : requestMask ps.muted = requestMask ps := by
  rw [requestMask, Participants.muted, Participants.values_each, List.filter_map, List.foldl_map]
  rfl

theorem frameDriver?_muted : frameDriver? ps.muted = frameDriver? ps := by
  rw [frameDriver?, Participants.find?, Participants.muted, Participants.values_each, List.find?_map, Option.map_map]
  rfl

theorem risingEdge_muted (p : Pci) : p.risingEdge ps.muted = p.risingEdge ps := by
  rw [risingEdge, trackOwner, resolve_muted, resolve_muted, frameDriver?_muted, requestMask_muted, risingEdge, trackOwner]

end Muted

theorem resolve_of_muted_eq {ps ps' : Participants} (h : ps'.muted = ps.muted) (name : String) (width : Nat) :
    resolve ps' name width = resolve ps name width := by
  rw [← resolve_muted ps', h, resolve_muted]

theorem risingEdge_of_muted_eq {ps ps' : Participants} (h : ps'.muted = ps.muted) (p : Pci) :
    p.risingEdge ps' = p.risingEdge ps := by
  rw [← risingEdge_muted ps', h, risingEdge_muted]

theorem get?_insertMany_deliveries {ps : Participants} {granted : Option Nat} {level : Level} {s : Slot} {name : String}
    {v : Bundle} (h : (name, v) ∈ deliveries ps granted level s) (signals : Signals) :
    (signals.insertMany (deliveries ps granted level s)).get? name = some v := by
  have hdistinct : ∀ host : Bool, (sharedWires.map (·.1) ++ ["RESET#", "IDSEL", "GNT#"] ++
      (if host then interruptNames else []) ++ [clockName]).Pairwise (· ≠ ·) := by decide
  have hnames : (deliveries ps granted level s).map (·.1) = sharedWires.map (·.1) ++ ["RESET#", "IDSEL", "GNT#"] ++
      (if s.isHost then interruptNames else []) ++ [clockName] := by
    unfold deliveries
    cases s.isHost <;> rfl
  exact SortedMap.get?_insertMany_of_mem (List.pairwise_map.1 (hnames ▸ hdistinct s.isHost)) h signals

end Pci

namespace Engine

/-- The wires of a paired bus, once its ends have agreed. -/
def wiring? : Engine → Option Wiring
  | .pointToPoint _ w | .axi4 _ w | .pcieTlp _ w => w
  | .pci _ => none

/-- What participant `i`, which has slot `s`, is sent when an engine delivers. -/
def display (e : Engine) (level : Level) (ps : Participants) (i : Ident) (s : Slot) : List (String × Bundle) :=
  match e with
  | .pointToPoint _ (some w) => w.table.addressed w.link ps i ++ PointToPoint.clocked w.link level ps i
  | .axi4 _ (some w) => w.table.addressed w.link ps i ++ [(Axi4.clockName, .ofLevel level)]
  | .pcieTlp _ (some w) => w.table.addressed w.link ps i ++ [(PcieTlp.clockName, .ofLevel level)]
  | .pci p => Pci.deliveries ps p.arbiter.granted level s
  | _ => []

theorem relayWithClock_eq (name : String) (w : Wiring) (level : Level) (ps : Participants) :
    relayWithClock name w level ps =
      ps.mapValues fun i s => s.sendAll (w.table.addressed w.link ps i ++ [(name, .ofLevel level)]) := by
  rw [relayWithClock, broadcast, RelayTable.relay_eq, Participants.each, SortedMap.mapValues_mapValues]
  congr 1
  funext i s
  rw [Slot.sendAll_append]
  rfl

/-- **A delivery slot by slot.** Each participant is sent what is displayed to it, and nothing else happens to it. -/
theorem deliver_eq (e : Engine) (level : Level) (ps : Participants) :
    e.deliver level ps = ps.mapValues fun i s => s.sendAll (e.display level ps i s) := by
  have hnothing : ps = ps.mapValues fun _ s => s.sendAll [] :=
    SortedMap.ext_get? fun i => by rw [SortedMap.get?_mapValues]; simp
  cases e with
  | pointToPoint _ wiring =>
    cases wiring with
    | none => exact hnothing
    | some w =>
      show PointToPoint.showClock w.link level (w.table.relay w.link ps) = _
      rw [PointToPoint.showClock_eq, RelayTable.relay_eq, SortedMap.mapValues_mapValues]
      congr 1
      funext i s
      rw [PointToPoint.clocked_of_muted_eq, ← Slot.sendAll_append]
      · rfl
      · rw [← RelayTable.relay_eq, RelayTable.muted_relay]
  | axi4 _ wiring =>
    cases wiring with
    | none => exact hnothing
    | some w => exact relayWithClock_eq _ _ _ _
  | pcieTlp _ wiring =>
    cases wiring with
    | none => exact hnothing
    | some w => exact relayWithClock_eq _ _ _ _
  | pci p => rfl

theorem get?_deliver (e : Engine) (level : Level) (ps : Participants) (i : Ident) :
    (e.deliver level ps).get? i = (ps.get? i).map fun s => s.sendAll (e.display level ps i s) := by
  rw [deliver_eq, SortedMap.get?_mapValues]

theorem shown_deliver (e : Engine) (level : Level) {ps : Participants} {i : Ident} {s : Slot}
    (hs : ps.get? i = some s) :
    (e.deliver level ps).shown i = s.outgoing.insertMany (e.display level ps i s) := by
  rw [Participants.shown, get?_deliver, hs]
  exact Slot.outgoing_sendAll _ _

theorem entering_pci (p : Pci) (phase : Phase) (ps : Participants) :
    (pci p).entering phase ps = .pci (if phase = .rising then (p.risingEdge ps).1 else p) := by
  cases phase <;> rfl

@[simp] theorem wiring?_entering (e : Engine) (phase : Phase) (ps : Participants) :
    (e.entering phase ps).wiring? = e.wiring? := by
  cases e <;> cases phase <;> rfl

end Engine

theorem Bus.Answers.display {b : Bus} {i : Ident} {time : Time} {signals : Signals} (h : b.Answers i time signals) :
    ∃ engine ps s, b.Prepared engine ps ∧ b.allReady = true ∧ b.time.add b.clock.advance.elapsed = .ok time ∧
      ps.get? i = some s ∧
      signals = s.outgoing.insertMany
        ((engine.entering b.clock.phase.next ps).display b.clock.phase.next.level ps i s) := by
  obtain ⟨engine, ps, slot, hprepared, hready, hsum, hslot, hsignals⟩ := h.spec
  obtain ⟨s, hs, -⟩ := Participants.exists_of_muted_eq hprepared.muted_eq.symm hslot
  exact ⟨engine, ps, s, hprepared, hready, hsum, hs, by rw [hsignals, Engine.shown_deliver _ _ hs]⟩

end Lockstep
