import Lockstep.Proofs.Bus.Terms
import Lockstep.Proofs.Engine.Arbitration
/-!
# The grant of a PCI bus

Participants know of the arbiter by the level of `GNT#` that they are shown. Here it is said in these terms whom the bus
is granted to: to one participant at most, to somebody else only on a rising edge and only if it asks for it, and away
from somebody who asks for it only after it has become bus master (`Bus.grants_on_request`).

Proof. Once the bus is assembled, what is shown as `GNT#` is the grant of the arbiter (`Bus.Granted`), and only a step
into a rising edge moves the arbiter (`Bus.Granted.perform`). A grant that the arbiter holds to be used has been used, by
the history (`Bus.Course.granted`).
-/

namespace Lockstep

namespace Pci

theorem get?_grant (p : Pci) (level : Level) {ps : Participants} {i : Ident} {s : Slot} (hs : ps.get? i = some s)
    (hident : s.ident = i) :
    (((Engine.pci p).deliver level ps).shown i).get? "GNT#" = some (.ofLevel (grantLevel p.arbiter.granted i)) := by
  rw [Engine.shown_deliver _ _ hs]
  refine get?_insertMany_deliveries ?_ _
  rw [← hident, deliveries]
  simp

theorem exists_of_start {options : Options} {p : Pci} (h : start options = .ok p) :
    ∃ parking linger seed, p = ⟨.start parking linger seed, none⟩ := by
  obtain ⟨parking, -, h⟩ := exists_of_bind_eq_ok h
  obtain ⟨linger, -, h⟩ := exists_of_bind_eq_ok h
  obtain ⟨seed, -, h⟩ := exists_of_bind_eq_ok h
  cases h
  exact ⟨parking, _, _, rfl⟩

theorem granted_start {options : Options} {p : Pci} (h : start options = .ok p) : p.arbiter.granted = none := by
  obtain ⟨_, _, _, rfl⟩ := exists_of_start h
  rfl

/-! ### Requests -/

def asksForBus (ps : Participants) (i : Ident) : Bool := (ps.get? i).any requests

variable {devices : List Device} {ps : Participants}

theorem requesting_iff_asksForBus (hstaffed : Participants.Staffed devices ps)
    (hsmall : ∀ d ∈ devices, d.ident ≤ pciMaxIdent) {n : Nat} :
    Arbiter.requesting (requestMask ps) n = true ↔ ∃ i : Ident, asksForBus ps i = true ∧ i.toNat = n := by
  have hidents : ∀ s ∈ ps.values, s.ident ≤ pciMaxIdent := by
    intro s hmem
    obtain ⟨i, hs⟩ := SortedMap.mem_values_iff.1 hmem
    exact hsmall _ (hstaffed.device hs).1
  rw [requesting_requestMask hidents]
  constructor
  · rintro ⟨s, hmem, hrequest, hn⟩
    obtain ⟨i, hs⟩ := SortedMap.mem_values_iff.1 hmem
    rw [(hstaffed.device hs).2] at hn
    exact ⟨i, (Option.any_eq_true _ _).2 ⟨s, hs, hrequest⟩, hn⟩
  · rintro ⟨i, hasks, hn⟩
    obtain ⟨s, hs, hrequest⟩ := (Option.any_eq_true _ _).1 hasks
    refine ⟨s, SortedMap.mem_values_iff.2 ⟨i, hs⟩, hrequest, ?_⟩
    rw [(hstaffed.device hs).2, hn]

theorem requesting_toNat_iff (hstaffed : Participants.Staffed devices ps)
    (hsmall : ∀ d ∈ devices, d.ident ≤ pciMaxIdent) {i : Ident} :
    Arbiter.requesting (requestMask ps) i.toNat = true ↔ asksForBus ps i = true := by
  rw [requesting_iff_asksForBus hstaffed hsmall]
  constructor
  · rintro ⟨j, hj, heq⟩
    rwa [UInt32.toNat_inj.1 heq] at hj
  · intro hasks
    exact ⟨i, hasks, rfl⟩

end Pci

namespace Bus

variable {c : BusConfig} {start b : Bus} {trace : Trace}

/-- Participant `i` is shown a low `GNT#`. -/
def holds (b : Bus) (i : Ident) : Bool := (b.participants.shown i).get? "GNT#" = some (.ofLevel .zero)

/-- The participant that has a transaction in progress. -/
def master? (b : Bus) : Option Ident :=
  match b.engine with
  | .pci p => p.master
  | _ => none

/-- The operation gives the grant to participant `i`. -/
def acquires (i : Ident) : Bus × Operation → Bool
  | (b, op) => !b.holds i && (b.perform op).holds i

/-- The operation makes participant `i` bus master. -/
def takesBus (i : Ident) : Bus × Operation → Bool
  | (b, op) => b.master? ≠ some i && (b.perform op).master? = some i

/-- Participant `i` has acquired the grant, and has not become bus master since. -/
def Unspent (i : Ident) (trace : Trace) : Prop :=
  ∃ before e since, trace = before ++ e :: since ∧ acquires i e = true ∧ ∀ e' ∈ since, takesBus i e' = false

theorem unspent_snoc {i : Ident} {e : Bus × Operation} :
    Unspent i (trace ++ [e]) ↔ acquires i e = true ∨ (Unspent i trace ∧ takesBus i e = false) :=
  exists_since_concat_iff

/-! ### The grant as it is shown -/

/-- The arbiter grants the bus to whom it is shown, once the bus is assembled, and to nobody before. -/
structure Granted (c : BusConfig) (b : Bus) (p : Pci) : Prop where
  staffed : Participants.Staffed c.devices b.participants
  engine : b.engine = .pci p
  shown : b.assembled = true → ∀ d ∈ c.devices,
    (b.participants.shown d.ident).get? "GNT#" = some (.ofLevel (Pci.grantLevel p.arbiter.granted d.ident))
  fresh : b.assembled = false → p.arbiter.granted = none ∧ ∀ i, b.holds i = false

namespace Granted

variable {p : Pci}

theorem holds_iff (h : Granted c b p) {d : Device} (hd : d ∈ c.devices) :
    b.holds d.ident = true ↔ p.arbiter.granted = some d.ident.toNat := by
  cases hassembled : b.assembled with
  | true =>
    rw [holds, h.shown hassembled d hd, Pci.grantLevel]
    split
    · next hgranted => simp [hgranted]
    · next hgranted => simpa [Bundle.ofLevel] using hgranted
  | false =>
    obtain ⟨hnone, hholds⟩ := h.fresh hassembled
    simp [hnone, hholds]

theorem of_holds (h : Granted c b p) {i : Ident} (hi : b.holds i = true) :
    (∃ d ∈ c.devices, d.ident = i) ∧ p.arbiter.granted = some i.toNat := by
  have hdevice : ∃ d ∈ c.devices, d.ident = i := by
    cases hs : b.participants.get? i with
    | some slot =>
      obtain ⟨hmem, hident⟩ := h.staffed.device hs
      exact ⟨slot.device, hmem, hident⟩
    | none =>
      rw [holds, Participants.shown, hs] at hi
      cases hi
  obtain ⟨d, hd, rfl⟩ := hdevice
  exact ⟨⟨d, hd, rfl⟩, (h.holds_iff hd).1 hi⟩

theorem holds_eq (h : Granted c b p) {b' : Bus} (h' : Granted c b' p) (i : Ident) : b'.holds i = b.holds i := by
  rw [Bool.eq_iff_iff]
  constructor
  · intro hi
    obtain ⟨⟨d, hd, rfl⟩, hgranted⟩ := h'.of_holds hi
    exact (h.holds_iff hd).2 hgranted
  · intro hi
    obtain ⟨⟨d, hd, rfl⟩, hgranted⟩ := h.of_holds hi
    exact (h'.holds_iff hd).2 hgranted

theorem get?_deliver (h : Granted c b p) (q : Pci) (level : Level) {ps : Participants}
    (hmuted : ps.muted = b.participants.muted) {d : Device} (hd : d ∈ c.devices) :
    (((Engine.pci q).deliver level ps).shown d.ident).get? "GNT#" =
      some (.ofLevel (Pci.grantLevel q.arbiter.granted d.ident)) := by
  obtain ⟨slot, hs, hdevice⟩ := h.staffed.slot hd
  obtain ⟨s, hs', hsame⟩ := Participants.exists_of_muted_eq hmuted.symm hs
  refine Pci.get?_grant q level hs' ?_
  rw [Slot.ident, ← (Slot.kept_of_muted_eq hsame).device, hdevice]

theorem prepared (h : Granted c b p) {engine : Engine} {ps : Participants} (hprepared : b.Prepared engine ps) :
    engine = .pci p ∧ ∀ d ∈ c.devices,
      (ps.shown d.ident).get? "GNT#" = some (.ofLevel (Pci.grantLevel p.arbiter.granted d.ident)) := by
  cases hprepared with
  | running assembled => exact ⟨h.engine, h.shown assembled⟩
  | fresh _ agreed =>
    rw [h.engine] at agreed
    cases agreed
    exact ⟨rfl, fun d hd => h.get?_deliver p _ rfl hd⟩

/-- Only a step into a rising edge moves the arbiter. -/
theorem perform (h : Granted c b p) (op : Operation) : ∃ p', Granted c (b.perform op) p' ∧ (p' = p ∨
    (stepped (b, op) = true ∧ b.clock.phase.next = .rising ∧ p' = (p.risingEdge b.participants).1)) := by
  have hstaffed : Participants.Staffed c.devices (b.perform op).participants :=
    h.staffed.of_roster_eq (roster_perform b op)
  by_cases hop : op = .advance
  · subst hop
    have hattempt := b.attempt_spec
    change Participants.Staffed c.devices b.advance.2.1.participants at hstaffed
    show ∃ p', Granted c b.advance.2.1 p' ∧ _
    simp only [stepped]
    generalize b.advance.2.1 = b' at hattempt hstaffed
    generalize b.advance.1 = outcome at hattempt
    cases hattempt with
    | waiting => exact ⟨p, h, .inl rfl⟩
    | refused => exact ⟨p, h, .inl rfl⟩
    | late cause engine ps live ready prepared overflow =>
      obtain ⟨rfl, hshown⟩ := h.prepared prepared
      exact ⟨p, ⟨hstaffed, rfl, fun _ => hshown, fun h => by cases h⟩, .inl rfl⟩
    | stepped engine ps time live ready prepared sum =>
      obtain ⟨rfl, -⟩ := h.prepared prepared
      rw [Engine.entering_pci] at hstaffed ⊢
      refine ⟨_, ⟨hstaffed, rfl, fun _ d hd => ?_, fun h => by cases h⟩, ?_⟩
      · rw [Participants.shown_each Slot.outgoing_rearm]
        exact h.get?_deliver _ _ prepared.muted_eq hd
      · split
        · next hrising => exact .inr ⟨rfl, hrising, by rw [Pci.risingEdge_of_muted_eq prepared.muted_eq]⟩
        · exact .inl rfl
  · have hstill := b.still_perform hop
    refine ⟨p, ⟨hstaffed, hstill.engine.trans h.engine, fun hassembled d hd => ?_, fun hassembled => ?_⟩, .inl rfl⟩
    · rw [hstill.shown]
      exact h.shown (hstill.assembled ▸ hassembled) d hd
    · obtain ⟨hnone, hholds⟩ := h.fresh (hstill.assembled ▸ hassembled)
      refine ⟨hnone, fun i => ?_⟩
      rw [holds, hstill.shown]
      exact hholds i

variable {p' : Pci} {op : Operation} {i : Ident}

theorem acquires (h : Granted c b p) (h' : Granted c (b.perform op) p') (hacquires : acquires i (b, op) = true) :
    p.arbiter.granted ≠ some i.toNat ∧ p'.arbiter.granted = some i.toNat ∧ ∃ d ∈ c.devices, d.ident = i := by
  obtain ⟨hbefore, hafter⟩ : b.holds i = false ∧ (b.perform op).holds i = true := by
    simpa [Bus.acquires] using hacquires
  obtain ⟨⟨d, hd, rfl⟩, hgranted⟩ := h'.of_holds hafter
  refine ⟨fun hheld => ?_, hgranted, d, hd, rfl⟩
  rw [(h.holds_iff hd).2 hheld] at hbefore
  cases hbefore

theorem takesBus_iff (h : Granted c b p) (h' : Granted c (b.perform op) p') :
    takesBus i (b, op) = true ↔ p.Becomes p' i := by
  simp [takesBus, master?, h.engine, h'.engine, Pci.Becomes]

theorem get?_of_answers (h : Granted c b p) (h' : Granted c (b.perform .advance) p') {time : Time} {signals : Signals}
    (hanswers : b.Answers i time signals) :
    signals.get? "GNT#" = some (.ofLevel (if (b.perform .advance).holds i then .zero else .one)) := by
  obtain ⟨⟨ds, hds⟩, ⟨slot, hs⟩, rfl⟩ := hanswers.eq_shown
  obtain ⟨hd, rfl⟩ := h.staffed.device hs
  have hiff : (b.perform .advance).holds slot.ident = true ↔ p'.arbiter.granted = some slot.ident.toNat :=
    h'.holds_iff hd
  refine (h'.shown (assembled_of_stepped hds) _ hd).trans ?_
  show some (Bundle.ofLevel (Pci.grantLevel _ slot.ident)) = _
  simp only [Pci.grantLevel, hiff]

end Granted

theorem granted_ofConfig (hstart : ofConfig c = .ok start) (hpci : c.protocol = .pci) :
    ∃ p, Granted c start p ∧ p.arbiter.granted = none := by
  have hstaffed := (Course.nil : Course start [] start).staffed hstart
  obtain ⟨-, engine, hengine, rfl⟩ := ofConfig_spec hstart
  rw [Engine.ofConfig, hpci] at hengine
  obtain ⟨p, hp, rfl⟩ := exists_of_map_eq_ok hengine
  have hnone := Pci.granted_start hp
  refine ⟨p, ⟨hstaffed, rfl, fun h => (by cases h), fun _ => ⟨hnone, fun i => ?_⟩⟩, hnone⟩
  rw [holds, Participants.shown]
  cases hs : (Participants.ofDevices c.devices).get? i with
  | none => rfl
  | some slot =>
    obtain ⟨d, -, rfl, -⟩ := vacant_of_ofDevices hs
    rfl

/-! ### The grant by its history -/

/-- What the arbiter holds to be used has been used: its holder has become bus master since it acquired the grant. -/
def Spends (trace : Trace) (p : Pci) : Prop :=
  ∀ i : Ident, p.arbiter.granted = some i.toNat → p.arbiter.spent = true → ¬ Unspent i trace

theorem Course.granted (hstart : ofConfig c = .ok start) (hpci : c.protocol = .pci) (h : Course start trace b) :
    ∃ p, Granted c b p ∧ Spends trace p := by
  induction h with
  | nil =>
    obtain ⟨p, hgranted, hnone⟩ := granted_ofConfig hstart hpci
    refine ⟨p, hgranted, fun i hi => ?_⟩
    rw [hnone] at hi
    cases hi
  | @snoc trace b h op ih =>
    obtain ⟨p, hgranted, hspends⟩ := ih
    obtain ⟨p', hgranted', hmoves⟩ := hgranted.perform op
    refine ⟨p', hgranted', fun i hi hspent hunspent => ?_⟩
    have hbefore : p.arbiter.granted = some i.toNat ∧ (p.arbiter.spent = true ∨ p.Becomes p' i) := by
      rcases hmoves with rfl | ⟨-, -, rfl⟩
      · exact ⟨hi, .inl hspent⟩
      · exact Pci.spent_of_risingEdge hi hspent
    obtain ⟨hi, hused⟩ := hbefore
    rcases unspent_snoc.1 hunspent with hacquires | ⟨hunspent, htakes⟩
    · exact (hgranted.acquires hgranted' hacquires).1 hi
    · rcases hused with hspent | hbecomes
      · exact hspends i hi hspent hunspent
      · rw [(hgranted.takesBus_iff hgranted').2 hbecomes] at htakes
        cases htakes

/-! ### Whom the bus is granted to -/

/-- What an operation may do to the grant of a bus with some history, and what participants get to know of it. -/
structure GrantsOnRequest (trace : Trace) (b : Bus) (op : Operation) : Prop where
  /-- At most one participant holds the grant. -/
  single : ∀ i j, (b.perform op).holds i = true → (b.perform op).holds j = true → i = j
  /-- Every UNTIL of a step says whether its participant holds the grant. -/
  shown : op = .advance → ∀ i time signals, b.Answers i time signals →
    signals.get? "GNT#" = some (.ofLevel (if (b.perform op).holds i then .zero else .one))
  /-- The grant is moved by a step into a rising edge only. -/
  edge : ∀ i, (b.perform op).holds i ≠ b.holds i → stepped (b, op) = true ∧ b.clock.phase.next = .rising
  /-- Whoever acquires the grant has not finished and drives `REQ#` low. -/
  request : ∀ i, acquires i (b, op) = true →
    ∃ slot, b.participants.get? i = some slot ∧ slot.finished = false ∧ slot.drivesBit "REQ#" = .zero
  /-- Whoever still requests the bus keeps its grant, unless it has become bus master since it acquired it. -/
  keeps : ∀ i slot, b.holds i = true → b.participants.get? i = some slot → slot.finished = false →
    slot.drivesBit "REQ#" = .zero → Unspent i (trace ++ [(b, op)]) → (b.perform op).holds i = true

theorem requesting_iff (hstart : ofConfig c = .ok start) (hpci : c.protocol = .pci) (h : Course start trace b)
    {i : Ident} {slot : Slot} (hs : b.participants.get? i = some slot) :
    Arbiter.requesting (Pci.requestMask b.participants) i.toNat = true ↔
      slot.finished = false ∧ slot.drivesBit "REQ#" = .zero := by
  have hsmall : ∀ d ∈ c.devices, d.ident ≤ pciMaxIdent := fun _ hd =>
    BusConfig.ident_le (ofConfig_spec hstart).1 hpci hd
  rw [Pci.requesting_toNat_iff (h.staffed hstart) hsmall, Pci.asksForBus, hs]
  simp [Pci.requests]

/-- **The grant.** A PCI bus is granted to one participant at a time, on request. -/
theorem grants_on_request (hstart : ofConfig c = .ok start) (hpci : c.protocol = .pci) (h : Course start trace b)
    (op : Operation) : GrantsOnRequest trace b op := by
  obtain ⟨p, hgranted, hspends⟩ := h.granted hstart hpci
  obtain ⟨p', hgranted', hmoves⟩ := hgranted.perform op
  refine ⟨?_, ?_, ?_, ?_, ?_⟩
  · intro i j hi hj
    have hsame := (hgranted'.of_holds hi).2.symm.trans (hgranted'.of_holds hj).2
    exact UInt32.toNat_inj.1 (Option.some.inj hsame)
  · rintro rfl i time signals hanswers
    exact hgranted.get?_of_answers hgranted' hanswers
  · intro i hne
    rcases hmoves with rfl | ⟨hstepped, hrising, -⟩
    · exact absurd (hgranted.holds_eq hgranted' i) hne
    · exact ⟨hstepped, hrising⟩
  · intro i hacquires
    obtain ⟨hbefore, hafter, d, hd, rfl⟩ := hgranted.acquires hgranted' hacquires
    rcases hmoves with rfl | ⟨-, -, rfl⟩
    · exact absurd hafter hbefore
    · obtain ⟨slot, hs, -⟩ := hgranted.staffed.slot hd
      have hrequest := (Pci.granted_of_risingEdge hafter).resolve_left hbefore
      exact ⟨slot, hs, (requesting_iff hstart hpci h hs).1 hrequest⟩
  · intro i slot hi hs hlive hreq hunspent
    obtain ⟨⟨d, hd, rfl⟩, hheld⟩ := hgranted.of_holds hi
    rcases hmoves with rfl | ⟨-, -, rfl⟩
    · rwa [hgranted.holds_eq hgranted']
    · rw [hgranted'.holds_iff hd]
      refine Pci.granted_risingEdge hheld ((requesting_iff hstart hpci h hs).2 ⟨hlive, hreq⟩) ?_
      rcases unspent_snoc.1 hunspent with hacquires | ⟨hunspent, htakes⟩
      · exact absurd hheld (hgranted.acquires hgranted' hacquires).1
      · rintro (hspent | hbecomes)
        · exact hspends _ hheld hspent hunspent
        · rw [(hgranted.takesBus_iff hgranted').2 hbecomes] at htakes
          cases htakes

/-- Everybody connects, and both request the bus all through a period. -/
def rivals : List Operation :=
  let requests : List Operation := [.line 0 "READY 0e-12 REQ#=0", .line 1 "READY 0e-12 REQ#=0"]
  [.handshake 7 "host" .empty, .handshake 8 "card" .empty] ++ requests ++ [.advance] ++ requests ++ [.advance] ++
    requests ++ [.advance] ++ requests ++ [.advance] ++ requests

theorem unspent_of_all {i : Ident} {events : Trace} (n : Nat) (hacquires : events[n]?.any (acquires i) = true)
    (hsince : ((events.drop (n + 1)).all fun e => !takesBus i e) = true) : Unspent i events := by
  obtain ⟨e, he, hacquires⟩ := (Option.any_eq_true _ _).1 hacquires
  obtain ⟨hn, rfl⟩ := List.getElem?_eq_some_iff.1 he
  refine ⟨events.take n, events[n], events.drop (n + 1), ?_, hacquires, fun e' he' => ?_⟩
  · rw [← List.drop_eq_getElem_cons, List.take_append_drop]
  · simpa using List.all_eq_true.1 hsince e' he'

theorem unspent_rivals : Unspent 0 (idleBus.traced rivals ++ [(rivals.foldl perform idleBus, .advance)]) :=
  unspent_of_all 4 (by cbv) (by cbv)

theorem holds_rivals : (rivals.foldl perform idleBus).clock.phase.next = .rising ∧
    (rivals.foldl perform idleBus).holds 0 = true ∧
    ((rivals.foldl perform idleBus).participants.get? 0).any Pci.requests = true :=
  ⟨by cbv, by cbv, by cbv⟩

/-- The second edge leaves the grant with the host, though the card requests the bus, too. -/
theorem host_keeps_grant : GrantsOnRequest (idleBus.traced rivals) (rivals.foldl perform idleBus) .advance ∧
    ((rivals.foldl perform idleBus).perform .advance).holds 0 = true := by
  obtain ⟨-, hholds, hrequests⟩ := holds_rivals
  obtain ⟨slot, hs, hrequest⟩ := (Option.any_eq_true _ _).1 hrequests
  obtain ⟨hlive, hreq⟩ : slot.finished = false ∧ slot.drivesBit "REQ#" = .zero := by
    simpa [Pci.requests] using hrequest
  have hgrants := grants_on_request ofConfig_hostAndCard rfl (course_traced idleBus rivals) .advance
  exact ⟨hgrants, hgrants.keeps 0 slot hholds hs hlive hreq unspent_rivals⟩

end Bus

end Lockstep
