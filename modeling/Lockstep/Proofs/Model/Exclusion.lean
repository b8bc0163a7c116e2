import Lockstep.Proofs.Model.Course
/-!
# Masters on a PCI bus

Any number of masters share a bus with any number of targets. No two of them ever drive `FRAME#` low, no wire has two
drivers, and whoever takes the bus has seen its grant (`Rig.masters_exclude`). It makes no difference when targets leave,
or whether the time runs out.

Proof. As long as no step fails, the players follow the traffic, and so at most one master drives what all masters share
(`Pci.Runs.exclusive`). After a step that fails nobody drives anything (`Pci.exclusive_of_off`).
-/

namespace Lockstep

namespace Pci

variable {c : BusConfig} {n : Nat} {r : Rig} {t : Traffic} {pci : Pci}

/-! ### Courses of rounds -/

/-- Somebody has been told by the last step into a rising edge that it holds the grant. -/
def HeldGrant (rig : Nat → Rig) (n : Nat) (i : Ident) : Prop :=
  ∃ m, m % 4 = 1 ∧ m ≤ n ∧ n < m + 4 ∧
    ∃ p ∈ (rig m).players, p.isOn = true ∧ p.client.ident = i ∧ p.client.bit "GNT#" = .zero

/-- **A course of rounds.** Unless everybody is off the bus, the players follow the traffic. -/
theorem runs_after (hidents : ∀ d ∈ c.devices, d.ident.toNat < arbiterSlots) (ht : c.clock.fault? = none)
    (hruns : Runs c 0 r .quiet pci) (stops : Nat → Ident → Bool) (n : Nat) :
    (∃ t pci, Runs c n (r.after stops n) t pci ∧ ∀ i q, t = .address i q → HeldGrant (r.after stops) n i) ∨
      (∃ pci, (r.after stops n).bus.engine = .pci pci) ∧ (r.after stops n).Seated c.devices driven false ∧
        ∀ p ∈ (r.after stops n).players, p.isOn = false := by
  induction n with
  | zero => exact .inl ⟨.quiet, pci, hruns, fun _ _ h => by cases h⟩
  | succ n ih =>
    have hpci : ∀ {r : Rig} {pci : Pci}, r.Seated c.devices driven false → r.bus.engine = .pci pci →
        ∃ pci', (r.round (stops n)).bus.engine = .pci pci' := by
      intro r pci hseated hengine
      have hkin := (hseated.kin_round (stops n)).protocol_eq
      rw [hengine] at hkin
      exact Engine.exists_pci hkin
    rcases ih with ⟨t, pci, hruns, hheld⟩ | ⟨⟨pci, hengine⟩, hseated, hoff⟩
    · rcases hruns.round hidents ht (stops n) with ⟨t', pci', hruns', hmoves⟩ | ⟨-, hoff⟩
      · refine .inl ⟨t', pci', hruns', ?_⟩
        rintro i q rfl
        have hnext := hmoves.next
        split at hnext
        · -- the address has just been put on the wires
          next hn =>
          obtain ⟨p, hp, hon, rfl, -⟩ := hruns'.concerted.owner i rfl
          refine ⟨n + 1, by omega, Nat.le_refl _, by omega, p, hp, hon, rfl, ?_⟩
          rw [hruns'.grants (Nat.succ_ne_zero n) p hp hon, hruns'.tracks.grant _ q rfl, grantLevel, if_pos rfl]
        · next hn =>
          obtain ⟨m, hm, hle, hlt, hplayer⟩ := hheld i q hnext.1.symm
          exact ⟨m, hm, by omega, by omega, hplayer⟩
      · exact .inr ⟨hpci hruns.seated hruns.engine, hoff⟩
    · exact .inr ⟨hpci hseated hengine, hseated.round_of_off hoff (stops n)⟩

/-! ### What a step records -/

theorem of_tookUngranted_mem {b : Bus} (hengine : b.engine = .pci pci) {j : Ident}
    (h : Record.noticed (.tookUngranted j) ∈ b.advance.2.2) : .tookUngranted j ∈ (pci.trackOwner b.participants).2 := by
  unfold Bus.advance at h
  split at h
  · cases h
  · split at h
    · cases h
    · next b₁ records hb₁ =>
      have hassembled : b₁.engine = .pci pci ∧ b₁.participants.muted = b.participants.muted ∧
          Record.noticed (.tookUngranted j) ∉ records := by
        obtain ⟨engine, ps, hprepared, hb⟩ := Bus.assemble_eq_ok hb₁
        refine ⟨by rw [hb, hprepared.eq_pci hengine], by rw [hb]; exact hprepared.muted_eq, ?_⟩
        unfold Bus.assemble at hb₁
        rw [hengine] at hb₁
        split at hb₁
        · cases hb₁
          exact List.not_mem_nil
        · cases hb₁
          simp
      obtain ⟨hpci, hmuted, hrecords⟩ := hassembled
      have hstep : Record.noticed (.tookUngranted j) ∈ b₁.step.2.2 := (List.mem_append.1 h).resolve_left hrecords
      unfold Bus.step at hstep
      dsimp only at hstep
      split at hstep
      · cases hstep
      · rw [hpci] at hstep
        cases hphase : b₁.clock.advance.phase with
        | rising =>
          change _ ∈ (pci.risingEdge b.participants).2
          rw [← risingEdge_of_muted_eq hmuted]
          simpa [Engine.step, Engine.atPhase, hphase] using hstep
        | high | falling | setup => simp [Engine.step, Engine.atPhase, hphase] at hstep

theorem engine_of_stepped {b : Bus} (hengine : b.engine = .pci pci) (hrising : b.clock.phase.next = .rising)
    {ds : List (ConnectionKey × Message)} (h : b.advance.1 = .stepped ds) :
    b.advance.2.1.engine = .pci (pci.risingEdge b.participants).1 := by
  have hattempt := b.attempt_spec
  rw [h] at hattempt
  generalize b.advance.2.1 = b' at hattempt
  cases hattempt with
  | stepped engine ps time live ready prepared =>
    rw [prepared.eq_pci hengine, hrising, Engine.entering_pci, if_pos rfl, risingEdge_of_muted_eq prepared.muted_eq]

/-! ### Clean wires -/

/-- The shared wires that masters and targets use. -/
def busWires : List (String × Nat) :=
  [("FRAME#", 1), ("IRDY#", 1), ("TRDY#", 1), ("DEVSEL#", 1), ("AD", 64), ("C/BE#", 8)]

/-- No wire of a bundle has two drivers that disagree. -/
def Clean (v : Bundle) : Prop := ∀ k, v.getD k ≠ .unknown

theorem clean_of_not_mem {v : Bundle} (h : Level.unknown ∉ v.bits) : Clean v := by
  intro k hk
  unfold Bundle.getD Bundle.get? at hk
  cases hget : v.bits[k]? with
  | none =>
    rw [hget] at hk
    cases hk
  | some l =>
    rw [hget] at hk
    exact h (hk ▸ List.mem_of_getElem? hget)

theorem clean_released (width : Nat) : Clean (.released width) := fun k => by
  rw [Bundle.getD_released]
  decide

theorem clean_lowPart (n bits width : Nat) : Clean (lowPart n bits width) := by
  intro k
  by_cases hk : k < width
  · rw [lowPart, Bundle.getD_resize _ _ hk]
    by_cases hbits : k < bits
    · rw [Bundle.getD_ofNat n hbits]
      cases n.testBit k <;> decide
    · rw [Bundle.getD_of_width_le (by rw [Bundle.width_ofNat]; omega)]
      decide
  · rw [Bundle.getD_of_width_le (by rw [width_lowPart]; omega)]
    decide

theorem Carries.clean {value : Option Nat} {ps : Participants} (h : Carries t value ps) :
    ∀ w ∈ busWires, Clean (resolve ps w.1 w.2) := by
  have hlevel : ∀ l : Level, l ≠ .unknown → Clean (.ofLevel l) := fun l hl =>
    clean_of_not_mem (by simpa [Bundle.ofLevel] using hl.symm)
  have hready : readyLevel value ≠ .unknown := by
    cases value <;> simp [readyLevel]
  have hreply : Clean (replyWires value) := by
    cases value with
    | none => exact clean_released 64
    | some n => exact clean_lowPart n 32 64
  simp only [busWires, List.forall_mem_cons, List.not_mem_nil, false_imp_iff, implies_true, and_true]
  refine ⟨?_, ?_, ?_, ?_, ?_, ?_⟩
  · rw [h.frame]
    exact hlevel _ (by cases t <;> simp [Traffic.frame])
  · rw [h.irdy]
    exact hlevel _ (by cases t <;> simp [Traffic.irdy])
  · rw [h.trdy]
    exact hlevel _ hready
  · rw [h.devsel]
    exact hlevel _ hready
  · rw [h.ad]
    cases t with
    | address => exact clean_lowPart _ 32 64
    | quiet | data | last => exact hreply
  · rw [h.cbe]
    cases t with
    | quiet => exact clean_released 8
    | address | data | last => exact clean_lowPart _ 4 8

/-! ### Mutual exclusion -/

/-- Before a step of a course of rounds, masters do not get in each other's way. -/
structure Exclusive (rig : Nat → Rig) (n : Nat) (b : Bus) : Prop where
  /-- One participant at most asserts `FRAME#`. -/
  single : ∀ i j s s', b.participants.get? i = some s → b.participants.get? j = some s' →
    s.drivesBit "FRAME#" = .zero → s'.drivesBit "FRAME#" = .zero → i = j
  clean : ∀ w ∈ busWires, Clean (resolve b.participants w.1 w.2)
  /-- Nobody is found to take the bus without a grant. -/
  granted : ∀ j, .noticed (.tookUngranted j) ∉ b.advance.2.2
  /-- Whoever asserts `FRAME#` at a rising edge, with no master on the bus, has seen its grant at the edge before. It
  becomes the master, and its grant is spent. -/
  taken : ∀ pci i s, b.engine = .pci pci → pci.master = none → b.clock.phase.next = .rising →
    b.participants.get? i = some s → s.drivesBit "FRAME#" = .zero →
    HeldGrant rig n i ∧ pci.arbiter.granted = some i.toNat ∧ ∀ ds, b.advance.1 = .stepped ds →
      b.advance.2.1.engine = .pci ⟨pci.arbiter.spend.arbitrate (requestMask b.participants), some i⟩

theorem Runs.exclusive {rig : Nat → Rig} (h : Runs c n r t pci) (stop : Ident → Bool)
    (hheld : ∀ i q, t = .address i q → HeldGrant rig n i) : Exclusive rig n (r.turns stop).bus := by
  have hseated := (h.seated.turns stop).1
  have hconcerted := h.concerted_turns stop
  have hengine := h.engine_turns stop
  obtain ⟨value, hanswering⟩ := exists_answering (t := t) fun p hp q hq => hseated.eq_of_ident_eq hp hq
  have hcarries := hconcerted.carries hseated hanswering
  have hnotes := h.tracks.trackOwner hcarries fun i q ht => by
    subst ht
    exact frameDriver?_eq hseated hconcerted
  refine ⟨fun i j s s' hi hj hs hs' => ?_, hcarries.clean, fun j hj => ?_, fun pci' i s hpci _ hrising hi hs => ?_⟩
  · obtain ⟨q, hq⟩ := (drivesFrame_iff hseated hconcerted hi).1 hs
    obtain ⟨q', hq'⟩ := (drivesFrame_iff hseated hconcerted hj).1 hs'
    rw [hq] at hq'
    cases hq'
    rfl
  · have hmem := of_tookUngranted_mem hengine hj
    rw [hnotes] at hmem
    cases t <;> simp [Traffic.notes] at hmem
  · obtain ⟨q, rfl⟩ := (drivesFrame_iff hseated hconcerted hi).1 hs
    rw [hengine] at hpci
    cases hpci
    refine ⟨hheld i q rfl, h.tracks.grant i q rfl, fun ds hstepped => ?_⟩
    rw [engine_of_stepped hengine hrising hstepped, risingEdge, hnotes]
    rfl

theorem exclusive_of_off {rig : Nat → Rig} (hseated : r.Seated c.devices driven false) (hengine : r.bus.engine = .pci pci)
    (hoff : ∀ p ∈ r.players, p.isOn = false) (stop : Ident → Bool) : Exclusive rig n (r.turns stop).bus := by
  obtain ⟨hturned, hplayers, -, -⟩ := hseated.turns stop
  have hengine := (hseated.engine_turns stop).trans hengine
  have hwires : ∀ p ∈ (r.turns stop).players, ∀ name width, p.wires name width = .released width := by
    intro p hp name width
    rw [hplayers] at hp
    obtain ⟨p', hp', rfl⟩ := List.mem_map.1 hp
    rw [Player.spoken_of_off (hoff p' hp')]
    exact p'.wires_of_off (hoff p' hp') name width
  have hreleased : ∀ {name : String} {width : Nat}, (name, width) ∈ sharedWires →
      resolve (r.turns stop).bus.participants name width = .released width := fun hwire =>
    resolve_eq_of_sole hturned hwire (Bundle.width_released _) (fun p hp _ => .inr (hwires p hp _ _)) (.inl rfl)
  have hframe : ∀ {i s}, (r.turns stop).bus.participants.get? i = some s → s.drivesBit "FRAME#" ≠ .zero := by
    intro i s hs hzero
    obtain ⟨p, hp, rfl, hseat⟩ := hturned.player hs
    have hwidth : s.widths.get? "FRAME#" = some 1 := by rw [hseat.widths]; exact get?_driven (by decide) s.device
    rw [(hseat.drives_eq hwidth).2, hwires p hp] at hzero
    cases hzero
  refine ⟨fun i _ s _ hi _ hs => absurd hs (hframe hi), fun w hw => ?_, fun j hj => ?_, fun _ i s _ _ _ hi hs =>
    absurd hs (hframe hi)⟩
  · rw [hreleased ((by decide : ∀ w ∈ busWires, w ∈ sharedWires) w hw)]
    exact clean_released _
  · have hmem := of_tookUngranted_mem hengine hj
    have hhigh : (resolve (r.turns stop).bus.participants "FRAME#" 1).getD 0 ≠ .zero := by
      rw [hreleased (by decide)]
      decide
    unfold Pci.trackOwner at hmem
    dsimp only at hmem
    split at hmem
    · split at hmem <;> simp at hmem
    · rw [if_pos hhigh] at hmem
      cases hmem

end Pci

namespace Rig

open Pci

/-- **Masters exclude each other.** Masters with any reads to do and targets with any identities share a PCI bus. At every
step of every course of rounds one of them at most asserts `FRAME#`, no shared wire is contested, and the bus is only ever
taken with a grant that has been seen. -/
theorem masters_exclude {c : BusConfig} {start : Bus} {actors : List (String × Actor)}
    (hstart : Bus.ofConfig c = .ok start) (hpci : c.protocol = .pci)
    (hnames : (actors.map (·.1)).Perm (c.devices.map (·.name))) (hfresh : ∀ a ∈ actors, Fresh a.2)
    (stops : Nat → Ident → Bool) (n : Nat) :
    Exclusive ((joinAll start 0 actors).after stops) n
      (((joinAll start 0 actors).after stops n).turns (stops n)).bus := by
  obtain ⟨⟨pci, hruns⟩, -⟩ := runs_joinAll hstart hpci hnames hfresh
  rcases runs_after (fun _ => ident_lt hstart hpci) (Bus.fault?_eq_none (Bus.ofConfig_spec hstart).1) hruns stops n with
    ⟨t, pci, hruns, hheld⟩ | ⟨⟨pci, hengine⟩, hseated, hoff⟩
  · exact hruns.exclusive (stops n) hheld
  · exact exclusive_of_off hseated hengine hoff (stops n)

def threeDevices : List Device := [⟨"host", 0, true⟩, ⟨"dma", 1, false⟩, ⟨"card", 2, false⟩]

def threeActors : List (String × Actor) :=
  [("dma", .ofQueries [⟨2, 4⟩]), ("host", .ofQueries [⟨2, 0⟩]), ("card", .pciTarget (.fresh 7))]

/-- Both masters ask for the bus at once. The first one takes it, having been shown its grant. -/
theorem first_master_holds_grant :
    let rig := (joinAll (idlePciBus .standard threeDevices) 0 threeActors).after fun _ _ => false
    (∃ s, ((rig 4).turns fun _ => false).bus.participants.get? 0 = some s ∧ s.drivesBit "FRAME#" = .zero) ∧
      HeldGrant rig 4 0 := by
  have hfresh : ∀ a ∈ threeActors, Fresh a.2 := by
    simp only [threeActors, List.forall_mem_cons, List.not_mem_nil, false_imp_iff, implies_true, and_true]
    exact ⟨.master _ (by decide), .master _ (by decide), .target 7 (by decide)⟩
  have hexclusive := masters_exclude (c := pciBus .standard threeDevices) (by rfl) rfl (by decide) hfresh
    (fun _ _ => false) 4
  have hdrives : ∃ s, (((joinAll (idlePciBus .standard threeDevices) 0 threeActors).after (fun _ _ => false) 4).turns
      fun _ => false).bus.participants.get? 0 = some s ∧ s.drivesBit "FRAME#" = .zero := by
    refine ⟨_, rfl, ?_⟩
    decide +kernel
  obtain ⟨s, hs, hframe⟩ := hdrives
  exact ⟨⟨s, hs, hframe⟩, (hexclusive.taken _ 0 s rfl (by decide +kernel) (by decide +kernel) hs hframe).1⟩

end Rig

end Lockstep
