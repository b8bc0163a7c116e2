import Lockstep.Proofs.Bus.Fit
import Lockstep.Proofs.Message.Framing
import Mathlib.Algebra.Order.BigOperators.Group.List
import Mathlib.Data.List.Perm.Subperm
/-!
# Signals fit on a line

The protocols know a fixed set of signal names, and each of them has a greatest width (`span`). What a participant may
drive, what the relays of a link carry and what participants are shown stays within these bounds, and has wires at all
(`Bus.Bounded`, `Bus.Course.bounded`). A line that carries such signals is short enough for a reader with the default
bound, whichever of them it carries (`Signals.Bounded.sendable_ready`, `Signals.Bounded.sendable_deliver`).

The bound on a line does not depend on the protocol: a line with every signal of every protocol at its greatest width
would still be short enough. So nothing has to be known of which signals come together.
-/

namespace Lockstep

/-- The names of all signals, with the most wires that a signal of the name can have. -/
def vocabulary : List (String × Nat) := [
  ("DATA_O", 4096), ("DATA_I", 4096), ("CLOCK_MODE", 2), ("CLOCK", 1),
  ("AWVALID", 1), ("AWREADY", 1), ("AWID", 4096), ("AWADDR", 64), ("AWLEN", 8), ("AWSIZE", 3), ("AWBURST", 2),
  ("AWLOCK", 1), ("AWCACHE", 4), ("AWPROT", 3), ("AWQOS", 4), ("WVALID", 1), ("WREADY", 1), ("WDATA", 4096),
  ("WSTRB", 512), ("WLAST", 1), ("BVALID", 1), ("BREADY", 1), ("BID", 4096), ("BRESP", 2), ("ARVALID", 1),
  ("ARREADY", 1), ("ARID", 4096), ("ARADDR", 64), ("ARLEN", 8), ("ARSIZE", 3), ("ARBURST", 2), ("ARLOCK", 1),
  ("ARCACHE", 4), ("ARPROT", 3), ("ARQOS", 4), ("RVALID", 1), ("RREADY", 1), ("RID", 4096), ("RDATA", 4096),
  ("RRESP", 2), ("RLAST", 1), ("ARESETn", 1), ("ACLK", 1),
  ("m_axis_rx_tdata", 256), ("m_axis_rx_tkeep", 32), ("m_axis_rx_tlast", 1), ("m_axis_rx_tvalid", 1),
  ("m_axis_rx_tuser", 22), ("m_axis_rx_tready", 1), ("s_axis_tx_tdata", 256), ("s_axis_tx_tkeep", 32),
  ("s_axis_tx_tlast", 1), ("s_axis_tx_tvalid", 1), ("s_axis_tx_tuser", 4), ("s_axis_tx_tready", 1),
  ("user_reset", 1), ("user_lnk_up", 1), ("tx_buf_av", 6), ("user_clk", 1),
  ("FRAME#", 1), ("IRDY#", 1), ("TRDY#", 1), ("STOP#", 1), ("DEVSEL#", 1), ("REQ64#", 1), ("ACK64#", 1), ("AD", 64),
  ("C/BE#", 8), ("PAR", 1), ("PAR64", 1), ("INTA#", 16), ("INTB#", 16), ("INTC#", 16), ("INTD#", 16), ("RESET#", 1),
  ("IDSEL", 1), ("GNT#", 1), ("REQ#", 1), ("PCI_CLK", 1)]

/-- The most wires that a signal of a name can have. -/
def span (name : String) : Nat := (vocabulary.lookup name).getD 0

/-- A signal of this name can have this many wires. -/
def Admissible (name : String) (width : Nat) : Prop := 0 < width ∧ width ≤ span name

instance (name : String) (width : Nat) : Decidable (Admissible name width) := inferInstanceAs (Decidable (_ ∧ _))

def Signals.Bounded (signals : Signals) : Prop := ∀ name v, signals.get? name = some v → Admissible name v.width

def Widths.Bounded (widths : Widths) : Prop := ∀ name w, widths.get? name = some w → Admissible name w

theorem Widths.bounded_ofList {es : List (String × Nat)} (h : ∀ e ∈ es, Admissible e.1 e.2) :
    Bounded (.ofList es) := fun name w hget => h (name, w) (SortedMap.mem_of_get?_ofList hget)

theorem Signals.Bounded.insert {signals : Signals} (h : signals.Bounded) {name : String} {v : Bundle}
    (hv : Admissible name v.width) : Signals.Bounded (signals.insert name v) :=
  SortedMap.forall_get?_insert (P := fun name (v : Bundle) => Admissible name v.width) h hv

theorem Widths.Bounded.offer {widths : Widths} (h : widths.Bounded) {signals : Signals}
    (hfits : widths.fault? signals = none) : signals.Bounded := fun name v hv =>
  h name v.width (Widths.fault?_eq_none_iff.1 hfits name v hv)

/-! ### What is agreed -/

theorem WidthOption.resolve_le {o : WidthOption} {device : String} {announced bus : Options} {width : Nat}
    (h : o.resolve device announced bus = .ok width) : width ≤ maxSignalWidth := by
  obtain ⟨requested, -, h⟩ := exists_of_bind_eq_ok h
  split at h
  · cases h
  · cases h
    omega

/-- Each signal of the table has wires, not too many for its name at the driving end, and no more than its name at
the receiving end can take. -/
def RelayTable.Bounded (t : RelayTable) : Prop :=
  ∀ r ∈ t.signals, Admissible r.source r.width ∧ span r.source ≤ span r.target

theorem RelayTable.bounded_ofList {rs : List RelaySignal}
    (h : ∀ r ∈ rs, r.width ≤ span r.source ∧ span r.source ≤ span r.target) : (ofList rs).Bounded := by
  intro r hr
  obtain ⟨hmem, hpos⟩ := List.mem_filter.1 hr
  exact ⟨⟨of_decide_eq_true hpos, (h r hmem).1⟩, (h r hmem).2⟩

theorem RelayTable.Bounded.drivenBy {t : RelayTable} (h : t.Bounded) (host : Bool) : (t.drivenBy host).Bounded := by
  refine Widths.bounded_ofList fun e he => ?_
  obtain ⟨r, hr, rfl⟩ := List.mem_map.1 he
  exact (h r (List.mem_filter.1 hr).1).1

namespace PointToPoint

theorem widths_spec {device : Device} {announced bus : Options} {w : Widths}
    (h : widths device announced bus = .ok w) :
    (0 < w.input ∧ w.input ≤ maxSignalWidth) ∧ 0 < w.output ∧ w.output ≤ maxSignalWidth := by
  obtain ⟨input, hinput, h⟩ := exists_of_bind_eq_ok h
  obtain ⟨output, houtput, h⟩ := exists_of_bind_eq_ok h
  have hi := WidthOption.resolve_le hinput
  have ho := WidthOption.resolve_le houtput
  simp only [Widths.checked] at h
  split at h
  · cases h
  · split at h
    · cases h
    · cases h
      exact ⟨⟨by dsimp only; omega, hi⟩, by dsimp only; omega, ho⟩

theorem bounded_table {toDevice toHost : Nat} (hdevice : toDevice ≤ maxSignalWidth) (hhost : toHost ≤ maxSignalWidth) :
    (table toDevice toHost).Bounded := by
  have hnames : span "DATA_O" ≤ span "DATA_I" := by decide
  refine RelayTable.bounded_ofList ?_
  simp only [List.forall_mem_cons]
  exact ⟨⟨hdevice, hnames⟩, ⟨hhost, hnames⟩, by simp⟩

theorem bounded_driven {device : Device} {announced bus : Options} {ws : Lockstep.Widths}
    (h : driven device announced bus = .ok ws) : ws.Bounded := by
  obtain ⟨w, hwidths, h⟩ := exists_of_bind_eq_ok h
  obtain ⟨-, hpos, hle⟩ := widths_spec hwidths
  have hdata : Lockstep.Widths.Bounded (.ofList [("DATA_O", w.output)]) :=
    Widths.bounded_ofList (by simpa using ⟨hpos, hle⟩)
  obtain rfl := Except.ok.inj h
  split
  · exact SortedMap.forall_get?_insert hdata (by decide)
  · exact hdata

end PointToPoint

namespace Axi4

theorem widths_spec {device : String} {announced bus : Options} {w : Widths}
    (h : widths device announced bus = .ok w) :
    w.data ≤ maxSignalWidth ∧ w.address ≤ 64 ∧ w.id ≤ maxSignalWidth := by
  obtain ⟨data, hdata, h⟩ := exists_of_bind_eq_ok h
  obtain ⟨address, -, h⟩ := exists_of_bind_eq_ok h
  obtain ⟨id, hid, h⟩ := exists_of_bind_eq_ok h
  simp only [Widths.checked] at h
  split at h
  · cases h
  · split at h
    · cases h
    · cases h
      exact ⟨WidthOption.resolve_le hdata, by dsimp only; omega, WidthOption.resolve_le hid⟩

theorem bounded_table {device : String} {announced bus : Options} {w : Widths}
    (h : widths device announced bus = .ok w) : (table w).Bounded := by
  obtain ⟨hdata, haddress, hid⟩ := widths_spec h
  have hstrobe : w.data / 8 ≤ span "WSTRB" := (Nat.div_le_div_right hdata).trans (by decide)
  refine RelayTable.bounded_ofList ?_
  simp only [List.forall_mem_cons, RelaySignal.same]
  -- the widths that depend on `w` are bounded by what we know, the others by evaluation
  and_intros <;> first | decide | assumption

end Axi4

namespace PcieTlp

theorem width_le {device : String} {announced bus : Options} {w : Nat} (h : width device announced bus = .ok w) :
    w ≤ 256 := by
  obtain ⟨w', -, h⟩ := exists_of_bind_eq_ok h
  split at h
  · next hw =>
    cases h
    omega
  · cases h

theorem bounded_table {device : String} {announced bus : Options} {w : Nat}
    (h : width device announced bus = .ok w) : (table w).Bounded := by
  have hdata := width_le h
  have hkeep : w / 8 ≤ span "m_axis_rx_tkeep" := (Nat.div_le_div_right hdata).trans (by decide)
  refine RelayTable.bounded_ofList ?_
  simp only [List.forall_mem_cons, RelaySignal.same]
  and_intros <;> first | decide | assumption

end PcieTlp

theorem Pci.bounded_driven (device : Device) : (driven device).Bounded := by
  refine Widths.bounded_ofList ?_
  cases device.host <;> decide

namespace Engine

/-- The wires of a link are within the bounds. -/
def Bounded : Engine → Prop
  | .pointToPoint _ w | .axi4 _ w | .pcieTlp _ w => ∀ wiring, w = some wiring → wiring.table.Bounded
  | .pci _ => True

theorem bounded_driven {e : Engine} {device : Device} {announced : Options} {ws : Widths}
    (h : e.driven device announced = .ok ws) : ws.Bounded := by
  cases e with
  | pointToPoint bus w => exact PointToPoint.bounded_driven h
  | axi4 bus w =>
    obtain ⟨widths, hwidths, rfl⟩ := exists_of_map_eq_ok h
    exact (Axi4.bounded_table hwidths).drivenBy _
  | pcieTlp bus w =>
    obtain ⟨width, hwidth, rfl⟩ := exists_of_map_eq_ok h
    exact (PcieTlp.bounded_table hwidth).drivenBy _
  | pci p =>
    cases h
    exact Pci.bounded_driven device

theorem bounded_wire {connect : Slot → Slot → Except EngineError (RelayTable × BusNotice)} {ps : Participants}
    {w : Wiring} {notice : BusNotice} (h : wire connect ps = .ok (w, notice))
    (hconnect : ∀ host device t n, connect host device = .ok (t, n) → t.Bounded) : w.table.Bounded := by
  obtain ⟨link, -, h⟩ := exists_of_bind_eq_ok h
  split at h
  · cases h
  · cases h
  · next host device _ _ =>
    obtain ⟨⟨t, n⟩, hagreed, h⟩ := exists_of_bind_eq_ok h
    cases h
    exact hconnect host device _ _ hagreed

theorem bounded_wrapUp {e e' : Engine} {ps : Participants} {notice : BusNotice}
    (h : e.wrapUp ps = .ok (e', notice)) : e'.Bounded := by
  cases e with
  | pointToPoint bus w =>
    obtain ⟨⟨wiring, noted⟩, hwire, heq⟩ := exists_of_map_eq_ok h
    cases heq
    refine fun _ hw => Option.some.inj hw ▸ bounded_wire hwire fun host device t notice hconnect => ?_
    obtain ⟨wh, hwh, hconnect⟩ := exists_of_bind_eq_ok hconnect
    obtain ⟨wd, -, hconnect⟩ := exists_of_bind_eq_ok hconnect
    obtain ⟨_, -, hconnect⟩ := exists_of_bind_eq_ok hconnect
    obtain ⟨_, -, hconnect⟩ := exists_of_bind_eq_ok hconnect
    cases hconnect
    obtain ⟨⟨-, hinput⟩, -, houtput⟩ := PointToPoint.widths_spec hwh
    exact PointToPoint.bounded_table houtput hinput
  | axi4 bus w =>
    obtain ⟨⟨wiring, noted⟩, hwire, heq⟩ := exists_of_map_eq_ok h
    cases heq
    refine fun _ hw => Option.some.inj hw ▸ bounded_wire hwire fun host device t notice hconnect => ?_
    obtain ⟨wm, hwm, hconnect⟩ := exists_of_bind_eq_ok hconnect
    obtain ⟨_, -, hconnect⟩ := exists_of_bind_eq_ok hconnect
    obtain ⟨_, -, hconnect⟩ := exists_of_bind_eq_ok hconnect
    obtain ⟨_, -, hconnect⟩ := exists_of_bind_eq_ok hconnect
    obtain ⟨_, -, hconnect⟩ := exists_of_bind_eq_ok hconnect
    cases hconnect
    exact Axi4.bounded_table hwm
  | pcieTlp bus w =>
    obtain ⟨⟨wiring, noted⟩, hwire, heq⟩ := exists_of_map_eq_ok h
    cases heq
    refine fun _ hw => Option.some.inj hw ▸ bounded_wire hwire fun host device t notice hconnect => ?_
    obtain ⟨wr, hwr, hconnect⟩ := exists_of_bind_eq_ok hconnect
    obtain ⟨_, -, hconnect⟩ := exists_of_bind_eq_ok hconnect
    obtain ⟨_, -, hconnect⟩ := exists_of_bind_eq_ok hconnect
    cases hconnect
    exact PcieTlp.bounded_table hwr
  | pci p =>
    cases h
    exact trivial

theorem Bounded.atPhase {e : Engine} (h : e.Bounded) (phase : Phase) (ps : Participants) :
    (e.atPhase phase ps).1.Bounded := by
  cases e <;> cases phase <;> exact h

end Engine

/-! ### What is shown -/

/-- What is agreed with the participant and what it is shown are within the bounds. -/
structure Slot.Bounded (s : Slot) : Prop where
  agreed : s.widths.Bounded
  shown : s.outgoing.Bounded

theorem Slot.Bounded.send {s : Slot} (h : s.Bounded) {name : String} {v : Bundle} (hv : Admissible name v.width) :
    (s.send name v).Bounded := ⟨h.agreed, h.shown.insert hv⟩

theorem Slot.Bounded.rearm {s : Slot} (h : s.Bounded) : s.rearm.Bounded := by
  unfold Slot.rearm
  split
  · exact h
  · exact ⟨h.agreed, h.shown⟩

theorem Slot.Bounded.admissible_drives {s : Slot} (h : s.Bounded) (hfits : s.Fits) {name : String}
    (hname : 0 < span name) : Admissible name (s.drives name).width := by
  unfold Slot.drives
  have hwidth := hfits name
  cases hv : s.driven.get? name with
  | some v =>
    rw [hv] at hwidth
    exact h.agreed name v.width hwidth.symm
  | none =>
    rw [hv] at hwidth
    dsimp only
    rw [← hwidth, Bundle.width_released]
    exact ⟨Nat.zero_lt_one, hname⟩

namespace Participants

def Bounded (ps : Participants) : Prop := ∀ i slot, ps.get? i = some slot → slot.Bounded

variable {ps : Participants}

theorem Bounded.modify (h : ps.Bounded) {i : Ident} {f : Slot → Slot} (hf : ∀ s : Slot, s.Bounded → (f s).Bounded) :
    Participants.Bounded (ps.modify i f) := by
  intro j slot hj
  rw [SortedMap.get?_modify] at hj
  split at hj
  · obtain ⟨s, hs, rfl⟩ := Option.map_eq_some_iff.1 hj
    exact hf s (h _ s hs)
  · exact h j slot hj

theorem Bounded.each (h : ps.Bounded) {f : Slot → Slot} (hf : ∀ s : Slot, s.Bounded → (f s).Bounded) :
    (ps.each f).Bounded := by
  intro i slot hi
  rw [get?_each] at hi
  obtain ⟨s, hs, rfl⟩ := Option.map_eq_some_iff.1 hi
  exact hf s (h i s hs)

end Participants

variable {ps : Participants}

theorem RelaySignal.admissible_value {r : RelaySignal} (hr : Admissible r.source r.width)
    (hnames : span r.source ≤ span r.target) (hps : ps.Bounded)
    (hfits : ∀ i slot, ps.get? i = some slot → slot.Fits) (link : Link) :
    Admissible r.target (r.value link ps).width := by
  have hreleased : Admissible r.target (Bundle.released r.width).width := by
    rw [Bundle.width_released]
    exact ⟨hr.1, hr.2.trans hnames⟩
  unfold value
  cases hslot : ps.get? (link.driver r.direction) with
  | none => exact hreleased
  | some slot =>
    dsimp only
    split
    · exact hreleased
    · have hdrives := (hps _ slot hslot).admissible_drives (hfits _ slot hslot) (hr.1.trans_le hr.2)
      exact ⟨hdrives.1, hdrives.2.trans hnames⟩

theorem RelayTable.Bounded.relay {t : RelayTable} (h : t.Bounded) (hps : ps.Bounded)
    (hfits : ∀ i slot, ps.get? i = some slot → slot.Fits) (link : Link) : (t.relay link ps).Bounded := by
  unfold RelayTable.relay
  suffices hall : ∀ (rs : List RelaySignal) (acc : Participants), (∀ r ∈ rs, r ∈ t.signals) → acc.Bounded →
      Participants.Bounded (rs.foldl (fun acc r =>
        acc.modify (link.receiver r.direction) fun slot => slot.send r.target (r.value link ps)) acc)
    from hall t.signals ps (fun _ hr => hr) hps
  intro rs
  induction rs with
  | nil => exact fun acc _ hacc => hacc
  | cons r rs ih =>
    intro acc hrs hacc
    obtain ⟨hr, hnames⟩ := h r (hrs r (by simp))
    refine ih _ (fun r' hr' => hrs r' (by simp [hr'])) (hacc.modify fun s hs => ?_)
    exact hs.send (RelaySignal.admissible_value hr hnames hps hfits link)

namespace Pci

theorem width_resolve (ps : Participants) (name : String) (width : Nat) : (resolve ps name width).width = width := by
  -- as wide as what came before, or filled up to the width
  refine List.foldlRecOn (motive := fun wires : Bundle => wires.width = width) ps.values _
    (Bundle.width_released width) ?_
  intro wires hwires slot _
  cases hblend : wires.blend (slot.drives name) with
  | ok v => exact (Bundle.width_eq_of_zip_eq_ok hblend).trans hwires
  | error _ => exact Bundle.width_filled width .unknown

theorem width_seen (wires own : Bundle) : (seen wires own).width = wires.width := by
  unfold seen
  cases hseen : wires.seenBy own with
  | ok v => exact Bundle.width_eq_of_zip_eq_ok hseen
  | error _ => rfl

theorem width_interrupts (ps : Participants) (name : String) : (interrupts ps name).width = arbiterSlots := by
  unfold interrupts
  suffices hall : ∀ (slots : List Slot) (lines : Bundle), lines.width = arbiterSlots →
      (slots.foldl (fun lines s => if s.drivesBit name = .zero then lines.set s.ident.toNat .zero else lines)
        lines).width = arbiterSlots
    from hall _ _ (Bundle.width_filled _ _)
  intro slots
  induction slots with
  | nil => exact fun lines hlines => hlines
  | cons s slots ih =>
    intro lines hlines
    refine ih _ ?_
    dsimp only
    split
    · rw [Bundle.width_set, hlines]
    · exact hlines

theorem admissible_deliveries {granted : Option Nat} {clock : Level} {slot : Slot} {d : String × Bundle}
    (hd : d ∈ deliveries ps granted clock slot) : Admissible d.1 d.2.width := by
  have hshared : ∀ w ∈ sharedWires, Admissible w.1 w.2 := by decide
  have hinterrupts : ∀ name ∈ interruptNames, Admissible name arbiterSlots := by decide
  simp only [deliveries, List.append_assoc, List.mem_append] at hd
  rcases hd with hd | hd | hd | hd
  · obtain ⟨w, hw, rfl⟩ := List.mem_map.1 hd
    simp only [width_seen, width_resolve]
    exact hshared w hw
  · have hsingle : ∀ name ∈ ["RESET#", "IDSEL", "GNT#"], Admissible name 1 := by decide
    simp only [List.mem_cons, List.not_mem_nil, or_false] at hd
    rcases hd with rfl | rfl | rfl <;> exact hsingle _ (by simp)
  · split at hd
    · obtain ⟨name, hname, rfl⟩ := List.mem_map.1 hd
      simp only [width_interrupts]
      exact hinterrupts name hname
    · cases hd
  · obtain rfl := List.mem_singleton.1 hd
    exact (by decide : Admissible clockName 1)

theorem bounded_deliver (h : ps.Bounded) (p : Pci) (clock : Level) : (p.deliver clock ps).Bounded := by
  refine h.each fun slot hslot => ?_
  suffices hall : ∀ (ds : List (String × Bundle)) (s : Slot), (∀ d ∈ ds, Admissible d.1 d.2.width) → s.Bounded →
      (ds.foldl (fun s (d : String × Bundle) => s.send d.1 d.2) s).Bounded
    from hall _ slot (fun _ hd => admissible_deliveries hd) hslot
  intro ds
  induction ds with
  | nil => exact fun s _ hs => hs
  | cons d ds ih =>
    intro s hds hs
    exact ih _ (fun d' hd' => hds d' (by simp [hd'])) (hs.send (hds d (by simp)))

end Pci

theorem Engine.Bounded.deliver {e : Engine} (he : e.Bounded) (hps : ps.Bounded)
    (hfits : ∀ i slot, ps.get? i = some slot → slot.Fits) (level : Level) : (e.deliver level ps).Bounded := by
  have hclock : ∀ (name : String) (level : Level) (s : Slot), Admissible name 1 → s.Bounded →
      (s.sendBit name level).Bounded := fun name level s hname hs => hs.send hname
  unfold Engine.deliver
  split
  · next w =>
    have hrelayed := (he w rfl).relay hps hfits w.link
    refine (hrelayed.modify fun s hs => ?_).modify fun s hs => ?_
    · exact hclock _ _ s (by decide) hs
    · exact hclock _ _ s (by decide) hs
  · next w => exact ((he w rfl).relay hps hfits w.link).each fun s hs => hclock _ _ s (by decide) hs
  · next w => exact ((he w rfl).relay hps hfits w.link).each fun s hs => hclock _ _ s (by decide) hs
  · exact Pci.bounded_deliver hps _ _
  · exact hps

/-! ### Runs of a bus -/

namespace Bus

structure Bounded (b : Bus) : Prop where
  engine : b.engine.Bounded
  participants : b.participants.Bounded

theorem bounded_ofConfig {c : BusConfig} {b : Bus} (h : ofConfig c = .ok b) : b.Bounded := by
  obtain ⟨-, engine, hengine, rfl⟩ := ofConfig_spec h
  refine ⟨?_, fun i slot hs => ?_⟩
  · show engine.Bounded
    unfold Engine.ofConfig at hengine
    split at hengine <;> obtain ⟨_, -, rfl⟩ := exists_of_map_eq_ok hengine
    · exact fun _ hw => by cases hw
    · exact fun _ hw => by cases hw
    · exact fun _ hw => by cases hw
    · exact trivial
  · obtain ⟨d, -, rfl, -⟩ := vacant_of_ofDevices hs
    exact ⟨(fun name w hw => by cases hw), fun name v hv => by cases hv⟩

variable {b : Bus}

theorem Bounded.modifySlot (h : b.Bounded) {i : Ident} {f : Slot → Slot} (hf : ∀ s : Slot, s.Bounded → (f s).Bounded) :
    (b.modifySlot i f).Bounded := ⟨h.engine, h.participants.modify hf⟩

theorem Bounded.receipt (h : b.Bounded) {i : Ident} {slot : Slot} {m : Message}
    {outcome : Except ParticipantError Received} {b' : Bus} (hreceipt : b.Receipt i slot m outcome b') :
    b'.Bounded := by
  cases hreceipt with
  | offered time signals => exact h.modifySlot fun s hs => ⟨hs.agreed, hs.shown⟩
  | left | violated => exact h.modifySlot fun s hs => ⟨hs.agreed, hs.shown⟩

theorem Bounded.disconnect (h : b.Bounded) (i : Ident) : (b.disconnect i).2.Bounded := by
  unfold Bus.disconnect
  split
  · exact h
  · split
    · exact h.modifySlot fun s hs => ⟨hs.agreed, hs.shown⟩
    · exact h.modifySlot fun s hs => ⟨hs.agreed, hs.shown⟩

theorem Bounded.tearDown (h : b.Bounded) : b.tearDown.2.1.Bounded := by
  unfold Bus.tearDown
  split
  · exact h
  · exact ⟨h.engine, h.participants.each fun s hs => ⟨hs.agreed, hs.shown⟩⟩

theorem Bounded.assemble (h : b.Bounded) (hfits : b.Fitted) {b' : Bus} {records : List Record}
    (hb' : b.assemble = .ok (b', records)) : b'.Bounded := by
  unfold Bus.assemble at hb'
  split at hb'
  · cases hb'
    exact h
  · split at hb'
    · cases hb'
    · next engine notice hwrapped =>
      have hengine := Engine.bounded_wrapUp hwrapped
      cases hb'
      exact ⟨hengine, hengine.deliver h.participants hfits _⟩

theorem Bounded.step (h : b.Bounded) (hfits : b.Fitted) : b.step.2.1.Bounded := by
  unfold Bus.step
  dsimp only
  split
  · exact ⟨h.engine, h.participants⟩
  · have hengine := h.engine.atPhase b.clock.advance.phase b.participants
    exact ⟨hengine, (hengine.deliver h.participants hfits _).each fun s hs => hs.rearm⟩

theorem Bounded.advance (h : b.Bounded) (hfits : b.Fitted) : b.advance.2.1.Bounded := by
  unfold Bus.advance
  split
  · exact h
  · split
    · exact h
    · next b₁ records hb₁ =>
      have hfits₁ : b₁.Fitted := by
        obtain ⟨engine, ps, hshown, rfl⟩ := assemble_spec hb₁
        exact hfits.of_muted_eq hshown
      exact (h.assemble hfits hb₁).step hfits₁

theorem Bounded.perform (h : b.Bounded) (hsound : b.Sound) (hfits : b.Fitted) {op : Operation}
    (huses : b.Uses op) : (b.perform op).Bounded := by
  cases op with
  | handshake k name options =>
    rcases b.handshake_spec k name options with ⟨_, _, heq⟩ | ⟨slot, widths, hadmits, heq⟩
    · rw [Bus.perform, heq]
      exact h
    · obtain ⟨-, -, -, -, hdriven⟩ := admits_spec hsound hadmits
      rw [Bus.perform, heq]
      exact h.modifySlot fun s hs => ⟨Engine.bounded_driven hdriven, hs.shown⟩
  | line i text =>
    obtain ⟨slot, hs, -⟩ := huses
    rcases hear_spec hs text with ⟨_, _, heq⟩ | ⟨_, _, _, _, heq, hreceipt⟩
    · rw [Bus.perform, heq]
      exact h
    · rw [Bus.perform, heq]
      exact h.receipt hreceipt
  | disconnect i => exact h.disconnect i
  | advance => exact h.advance hfits
  | tearDown => exact h.tearDown

theorem Course.bounded {c : BusConfig} {start : Bus} {trace : Trace} (hstart : ofConfig c = .ok start)
    (h : Course start trace b) (horderly : Orderly trace) : b.Bounded := by
  induction h with
  | nil => exact bounded_ofConfig hstart
  | snoc h op ih =>
    obtain ⟨horderly, huses⟩ := orderly_snoc.1 horderly
    exact (ih horderly).perform (h.sound hstart horderly) (h.fitted (fitted_ofConfig hstart)) huses

theorem Run.bounded {c : BusConfig} {start : Bus} {trace : Trace} (hstart : ofConfig c = .ok start)
    (h : Run start trace b) : b.Bounded := by
  obtain ⟨hcourse, horderly⟩ := h.course
  exact hcourse.bounded hstart horderly

end Bus

/-! ### Lines -/

namespace Text

theorem bytes_append (cs ds : List Char) : bytes (cs ++ ds) = bytes cs ++ bytes ds := List.flatMap_append

theorem length_bytes_of_ascii {cs : List Char} (h : ∀ c ∈ cs, c.toNat < 128) : (bytes cs).length = cs.length := by
  induction cs with
  | nil => rfl
  | cons c cs ih =>
    have hc : c.utf8Size = 1 := Char.utf8Size_eq_one_iff.2 (Nat.le_of_lt_succ (h c (by simp)))
    have hcons : bytes (c :: cs) = c.val.toUInt8 :: bytes cs := by
      rw [bytes, List.flatMap_cons, String.utf8EncodeChar_eq_singleton hc]
      rfl
    rw [hcons, List.length_cons, List.length_cons, ih fun c' hc' => h c' (by simp [hc'])]

theorem toNat_lt_of_isDigit {c : Char} (h : c.isDigit = true) : c.toNat < 128 :=
  (Char.isDigit_iff_toNat.1 h).2.trans_lt (by decide)

theorem toNat_lt_of_mem_ofNat {n : Nat} {c : Char} (h : c ∈ ofNat n) : c.toNat < 128 :=
  toNat_lt_of_isDigit (isDigit_of_mem_ofNat h)

theorem length_ofNat_le {n k : Nat} (hk : 0 < k) (h : n < 10 ^ k) : (ofNat n).length ≤ k :=
  (Nat.length_toDigits_le_iff (by decide) hk).2 h

end Text

theorem Time.length_bytes_chars_le (t : Time) : (Text.bytes t.chars).length ≤ 32 := by
  have hmantissa : (Text.ofNat t.mantissa.toNat).length ≤ 20 :=
    Text.length_ofNat_le (by decide) (t.mantissa.toNat_lt.trans (by decide))
  have hexponent : (Text.ofInt t.exponent.toInt).length ≤ 11 ∧ ∀ c ∈ Text.ofInt t.exponent.toInt, c.toNat < 128 := by
    have hlow := t.exponent.le_toInt
    have hhigh := t.exponent.toInt_lt
    cases he : t.exponent.toInt with
    | ofNat n =>
      rw [he] at hhigh
      have hn : (n : Int) < 2 ^ 31 := hhigh
      refine ⟨?_, fun c hc => Text.toNat_lt_of_mem_ofNat hc⟩
      exact (Text.length_ofNat_le (k := 10) (by decide) (by omega)).trans (by decide)
    | negSucc n =>
      rw [he] at hlow
      refine ⟨?_, fun c hc => ?_⟩
      · exact Nat.succ_le_succ (Text.length_ofNat_le (k := 10) (by decide) (by omega))
      · rcases List.mem_cons.1 hc with rfl | hc
        · decide
        · exact Text.toNat_lt_of_mem_ofNat hc
  rw [Text.length_bytes_of_ascii, chars, List.length_append, List.length_cons]
  · omega
  · intro c hc
    rcases List.mem_append.1 hc with hc | hc
    · exact Text.toNat_lt_of_mem_ofNat hc
    · rcases List.mem_cons.1 hc with rfl | hc
      · decide
      · exact hexponent.2 c hc

theorem Bundle.length_bytes_chars (v : Bundle) : (Text.bytes v.chars).length = v.width := by
  rw [Text.length_bytes_of_ascii, chars, List.length_map, List.length_reverse, Bundle.width]
  intro c hc
  obtain ⟨l, -, rfl⟩ := List.mem_map.1 hc
  cases l <;> decide

/-- The room that a signal takes on a line, with the space before it. -/
def room (e : String × Nat) : Nat := 2 + (Text.bytes e.1.toList).length + e.2

theorem sum_room_vocabulary : (vocabulary.map room).sum + 64 ≤ maxLineLength := by decide

theorem Admissible.mem_vocabulary {name : String} {width : Nat} (h : Admissible name width) :
    (name, span name) ∈ vocabulary := by
  have hpos : 0 < span name := h.1.trans_le h.2
  unfold span at *
  cases hlookup : vocabulary.lookup name with
  | none =>
    rw [hlookup] at hpos
    cases hpos
  | some w =>
    obtain ⟨before, after, heq, -⟩ := List.lookup_eq_some_iff.1 hlookup
    rw [heq]
    simp

theorem Admissible.isName {name : String} {width : Nat} (h : Admissible name width) : Text.IsName name.toList := by
  have hall : (vocabulary.all fun e =>
      !e.1.toList.isEmpty && e.1.toList.all fun c => !Text.isBlank c && c != '=') = true := by decide
  have hname := List.all_eq_true.1 hall _ h.mem_vocabulary
  simp only [Bool.and_eq_true, Bool.not_eq_true', List.isEmpty_eq_false_iff, List.all_eq_true, bne_iff_ne] at hname
  exact ⟨⟨hname.1, fun c hc => (hname.2 c hc).1⟩, fun hmem => (hname.2 '=' hmem).2 rfl⟩

namespace Signals

/-- Signals within the bounds take no more room than all signals there are: each of them comes once. -/
theorem Bounded.sum_room_le {signals : Signals} (h : signals.Bounded) :
    (signals.entries.map fun e => room (e.1, e.2.width)).sum ≤ (vocabulary.map room).sum := by
  have hadmissible : ∀ e ∈ signals.entries, Admissible e.1 e.2.width := fun e he =>
    h e.1 e.2 (SortedMap.mem_entries_iff.1 he)
  let widest : List (String × Nat) := signals.entries.map fun e => (e.1, span e.1)
  have hnodup : widest.Nodup := by
    refine List.pairwise_map.2 (signals.sorted.imp fun {a b} hlt heq => ?_)
    rw [(Prod.mk.inj heq).1] at hlt
    exact Std.lt_irrefl hlt
  have hsubset : widest ⊆ vocabulary := by
    intro e he
    obtain ⟨e', he', rfl⟩ := List.mem_map.1 he
    exact (hadmissible e' he').mem_vocabulary
  obtain ⟨chosen, hperm, hsublist⟩ := List.subperm_of_subset hnodup hsubset
  calc (signals.entries.map fun e => room (e.1, e.2.width)).sum
    _ ≤ (signals.entries.map fun e => room (e.1, span e.1)).sum :=
      List.sum_le_sum fun e he => Nat.add_le_add_left (hadmissible e he).2 _
    _ = (widest.map room).sum := by rw [List.map_map]; rfl
    _ = (chosen.map room).sum := (hperm.map room).sum_eq.symm
    _ ≤ (vocabulary.map room).sum := (hsublist.map room).sum_le_sum fun _ _ => Nat.zero_le _

theorem length_bytes_words_le (signals : Signals) :
    (Text.bytes (signals.words.flatMap fun w => ' ' :: w)).length ≤
      (signals.entries.map fun e => room (e.1, e.2.width)).sum := by
  unfold words
  induction signals.entries with
  | nil => exact Nat.le_refl 0
  | cons e es ih =>
    have hword : (Text.bytes (' ' :: assignment e.1.toList e.2.chars)).length = room (e.1, e.2.width) := calc
      _ = 1 + ((Text.bytes e.1.toList).length + (1 + (Text.bytes e.2.chars).length)) := by
        rw [show (' ' :: assignment e.1.toList e.2.chars) = [' '] ++ (e.1.toList ++ (['='] ++ e.2.chars)) from rfl]
        simp only [Text.bytes_append, List.length_append]
        rfl
      _ = room (e.1, e.2.width) := by
        rw [Bundle.length_bytes_chars]
        show _ = 2 + (Text.bytes e.1.toList).length + e.2.width
        omega
    rw [List.filter_cons, List.map_cons, List.sum_cons]
    split
    · rw [List.map_cons, List.flatMap_cons, Text.bytes_append, List.length_append, hword]
      omega
    · omega

theorem Bounded.length_bytes_le {signals : Signals} (h : signals.Bounded) {time : Time} {m : Message}
    (hm : m.arguments = time.chars :: signals.words) : (Text.bytes m.chars).length ≤ maxLineLength := by
  have hcommand : ∀ c : Command, (Text.bytes c.word.toList).length ≤ 7 := by
    intro c
    cases c <;> decide
  have htime : (Text.bytes (' ' :: time.chars)).length ≤ 33 := by
    rw [show (' ' :: time.chars) = [' '] ++ time.chars from rfl, Text.bytes_append, List.length_append]
    exact Nat.add_le_add_left time.length_bytes_chars_le 1
  have hsignals := signals.length_bytes_words_le.trans h.sum_room_le
  have htotal := sum_room_vocabulary
  have hword := hcommand m.command
  rw [Message.chars, hm, List.flatMap_cons, Text.bytes_append, Text.bytes_append, List.length_append,
    List.length_append]
  omega

theorem Bounded.wired {signals : Signals} (h : signals.Bounded) : signals.wired = signals :=
  wired_eq_self fun name v hv => (h name v hv).1

theorem Bounded.sendable_ready {signals : Signals} (h : signals.Bounded) (time : Time) :
    (Message.ready time signals).Sendable maxLineLength :=
  ⟨fun name v hv => (h name v hv).isName, h.length_bytes_le rfl⟩

theorem Bounded.sendable_deliver {signals : Signals} (h : signals.Bounded) (time : Time) :
    (Message.deliver time signals).Sendable maxLineLength :=
  ⟨fun name v hv => (h name v hv).isName, h.length_bytes_le rfl⟩

end Signals

end Lockstep
