import Lockstep.Proofs.Bus.Vocabulary
import Lockstep.Proofs.Engine.Ends
/-!
# What both ends of a link have agreed on

The table of a link is made from what the host announced. That it says the same of the other end is the point of the
options that both ends must resolve alike: `Engine.agreed_of_wrapUp` says that a link is wired with a table that suits
both of its ends (`Engine.Suits`). A signal of such a table is as wide as its driving end drives it, and the receiving
end is shown exactly the signals that its own options tell it to expect (`Engine.interface`).

The names of a table depend on nothing but the protocol. No two signals that go the same way share a name at either end,
and none is called like the clock (`RelayTable.Proper`).
-/

namespace Lockstep

/-! ### Tables -/

namespace RelayTable

/-- Nothing that is sent to an end is overwritten by something else that is sent to it. -/
structure Proper (t : RelayTable) (clockName : String) : Prop where
  distinct : t.signals.Pairwise fun r r' =>
    r.direction = r'.direction → r.source ≠ r'.source ∧ r.target ≠ r'.target
  unclocked : ∀ r ∈ t.signals, r.target ≠ clockName
  wired : ∀ r ∈ t.signals, 0 < r.width

/-- What one end of a link is shown: the signals that go there, and the clock. -/
def receivedBy (t : RelayTable) (clockName : String) (host : Bool) : Widths :=
  .ofList (((t.toward host).map fun r => (r.target, r.width)) ++ [(clockName, 1)])

theorem proper_ofList {rs : List RelaySignal} {clockName : String}
    (hdistinct : (rs.map fun r => (r.direction, r.source, r.target)).Pairwise fun a b =>
      a.1 = b.1 → a.2.1 ≠ b.2.1 ∧ a.2.2 ≠ b.2.2)
    (hclock : ∀ name ∈ rs.map (·.target), name ≠ clockName) : (ofList rs).Proper clockName := by
  refine ⟨(List.pairwise_map.1 hdistinct).filter _, fun r hr => ?_, fun r hr => ?_⟩
  · exact hclock r.target (List.mem_map_of_mem (List.mem_filter.1 hr).1)
  · simpa using (List.mem_filter.1 hr).2

variable {t : RelayTable} {clockName : String}

theorem fromHost_eq_iff (dir : Direction) (host : Bool) :
    dir = (if host then .hostToDevice else .deviceToHost) ↔ dir.fromHost = host := by
  cases dir <;> cases host <;> simp [Direction.fromHost]

theorem Proper.get?_drivenBy (h : t.Proper clockName) {r : RelaySignal} (hr : r ∈ t.signals) :
    (t.drivenBy r.direction.fromHost).get? r.source = some r.width := by
  have hdirection : ∀ r' ∈ t.signals.filter (fun r' => r'.direction =
      if r.direction.fromHost then Direction.hostToDevice else .deviceToHost), r'.direction = r.direction := by
    intro r' hr'
    have hdir := (List.mem_filter.1 hr').2
    rw [decide_eq_true_eq, fromHost_eq_iff] at hdir
    exact Direction.fromHost_inj hdir
  refine SortedMap.get?_ofList_of_mem (List.pairwise_map.2 ?_) (List.mem_map.2 ⟨r, List.mem_filter.2 ⟨hr, ?_⟩, rfl⟩)
  · refine (h.distinct.filter _).imp_of_mem fun {a b} ha hb hne => ?_
    exact (hne ((hdirection a ha).trans (hdirection b hb).symm)).1
  · rw [decide_eq_true_eq, fromHost_eq_iff]

theorem Proper.pairwise_toward (h : t.Proper clockName) (host : Bool) (value : RelaySignal → Bundle) (v : Bundle) :
    (((t.toward host).map fun r => (r.target, value r)) ++ [(clockName, v)]).Pairwise fun a b => a.1 ≠ b.1 := by
  have hdirection : ∀ r ∈ t.toward host, r ∈ t.signals ∧ r.direction.fromHost = !host := by
    intro r hr
    simpa [toward] using hr
  refine List.pairwise_append.2 ⟨List.pairwise_map.2 ?_, List.pairwise_singleton _ _, ?_⟩
  · refine (h.distinct.filter _).imp_of_mem fun {a b} ha hb hne => ?_
    have hsame : a.direction.fromHost = b.direction.fromHost :=
      (hdirection a ha).2.trans (hdirection b hb).2.symm
    exact (hne (Direction.fromHost_inj hsame)).2
  · intro a ha b hb
    obtain ⟨r, hr, rfl⟩ := List.mem_map.1 ha
    obtain rfl := List.mem_singleton.1 hb
    exact h.unclocked r (hdirection r hr).1

theorem Proper.receivedBy_pos (h : t.Proper clockName) {host : Bool} {name : String} {width : Nat}
    (hget : (t.receivedBy clockName host).get? name = some width) : 0 < width := by
  rcases List.mem_append.1 (SortedMap.mem_of_get?_ofList hget) with hmem | hmem
  · obtain ⟨r, hr, heq⟩ := List.mem_map.1 hmem
    cases heq
    exact h.wired r (List.mem_filter.1 hr).1
  · cases List.mem_singleton.1 hmem
    exact Nat.one_pos

end RelayTable

/-! ### What participants are shown -/

/-- The signals that a participant of a PCI bus is shown. -/
def Pci.shownTo (device : Device) : Widths :=
  .ofList (sharedWires ++ [("RESET#", 1), ("IDSEL", 1), ("GNT#", 1)] ++
    (if device.host then interruptNames.map fun name => (name, arbiterSlots) else []) ++ [(clockName, 1)])

namespace Engine

/-- The signals that a device is shown, given the options it announced. -/
def interface (e : Engine) (device : Device) (announced : Options) : Except EngineError Widths :=
  match e with
  | .pointToPoint bus _ => (PointToPoint.widths device announced bus).map fun w =>
    .ofList [("DATA_I", w.input), (PointToPoint.clockName, 1)]
  | .axi4 bus _ => (Axi4.widths device.name announced bus).map fun w =>
    (Axi4.table w).receivedBy Axi4.clockName device.host
  | .pcieTlp bus _ => (PcieTlp.width device.name announced bus).map fun w =>
    (PcieTlp.table w).receivedBy PcieTlp.clockName device.host
  | .pci _ => .ok (Pci.shownTo device)

/-- Engines that were configured alike. What becomes of an engine in a run is one of its kin. -/
inductive Kin : Engine → Engine → Prop where
  | pointToPoint (bus : Options) (w w' : Option Wiring) : Kin (.pointToPoint bus w) (.pointToPoint bus w')
  | axi4 (bus : Options) (w w' : Option Wiring) : Kin (.axi4 bus w) (.axi4 bus w')
  | pcieTlp (bus : Options) (w w' : Option Wiring) : Kin (.pcieTlp bus w) (.pcieTlp bus w')
  | pci (p p' : Pci) : Kin (.pci p) (.pci p')

theorem Kin.refl (e : Engine) : e.Kin e := by cases e <;> constructor

theorem Kin.trans {e e' e'' : Engine} (h : e.Kin e') (h' : e'.Kin e'') : e.Kin e'' := by
  cases h <;> cases h' <;> constructor

theorem Kin.protocol_eq {e e' : Engine} (h : e.Kin e') : e'.protocol = e.protocol := by cases h <;> rfl

theorem Kin.driven_eq {e e' : Engine} (h : e.Kin e') : e'.driven = e.driven := by cases h <;> rfl

theorem Kin.interface_eq {e e' : Engine} (h : e.Kin e') : e'.interface = e.interface := by cases h <;> rfl

theorem kin_wrapUp {e e' : Engine} {ps : Participants} {notice : BusNotice} (h : e.wrapUp ps = .ok (e', notice)) :
    e.Kin e' := by
  cases e with
  | pointToPoint bus w | axi4 bus w | pcieTlp bus w =>
    obtain ⟨_, -, heq⟩ := exists_of_map_eq_ok h
    cases heq
    constructor
  | pci p =>
    cases h
    constructor

theorem kin_entering (e : Engine) (phase : Phase) (ps : Participants) : e.Kin (e.entering phase ps) := by
  cases e <;> cases phase <;> constructor

/-- A table says of a participant what its own options say: how wide the signals are that it drives, and which signals
it is shown. -/
structure Suits (e : Engine) (t : RelayTable) (s : Slot) : Prop where
  drives : ∀ {widths : Widths}, e.driven s.device s.options = .ok widths →
    ∀ r ∈ t.signals, r.direction.fromHost = s.isHost → widths.get? r.source = some r.width
  sees : e.interface s.device s.options = .ok (t.receivedBy e.protocol.clockName s.isHost)

theorem Kin.suits_iff {e e' : Engine} (h : e.Kin e') {t : RelayTable} {s : Slot} : e'.Suits t s ↔ e.Suits t s := by
  constructor
  · rintro ⟨hdrives, hsees⟩
    rw [h.driven_eq] at hdrives
    rw [h.interface_eq, h.protocol_eq] at hsees
    exact ⟨hdrives, hsees⟩
  · rintro ⟨hdrives, hsees⟩
    rw [← h.driven_eq] at hdrives
    rw [← h.interface_eq, ← h.protocol_eq] at hsees
    exact ⟨hdrives, hsees⟩

theorem exists_pci {e : Engine} (h : e.protocol = .pci) : ∃ p, e = .pci p := by
  cases e with
  | pci p => exact ⟨p, rfl⟩
  | pointToPoint | axi4 | pcieTlp => cases h

theorem wiring?_eq_none {e : Engine} (h : e.protocol.isPaired = false) : e.wiring? = none := by
  cases e with
  | pci p => rfl
  | pointToPoint | axi4 | pcieTlp => cases h

end Engine

/-! ### Agreement -/

theorem eq_of_agree_eq_ok {key : String} {left right : String × Nat} (h : agree key left right = .ok ()) :
    left.2 = right.2 := by
  unfold agree at h
  split at h
  · next heq => exact heq
  · cases h

namespace PointToPoint

theorem proper_table (toDevice toHost : Nat) : (table toDevice toHost).Proper clockName := by
  refine RelayTable.proper_ofList ?_ ?_ <;> simp only [List.map_cons, List.map_nil, RelaySignal.crossed] <;> decide

variable {s : Slot} {bus : Options} {w : Widths}

theorem signals_table {toDevice toHost : Nat} (hdevice : 0 < toDevice) (hhost : 0 < toHost) :
    (table toDevice toHost).signals = [.crossed "DATA_O" "DATA_I" toDevice .hostToDevice,
      .crossed "DATA_O" "DATA_I" toHost .deviceToHost] := by
  simp [table, RelayTable.ofList, RelaySignal.crossed, hdevice, hhost]

theorem suits_table (h : widths s.device s.options bus = .ok w) (wiring : Option Wiring) :
    (Engine.pointToPoint bus wiring).Suits
      (if s.isHost then table w.output w.input else table w.input w.output) s := by
  obtain ⟨⟨hinput, -⟩, houtput, -⟩ := widths_spec h
  have hinterface : (Engine.pointToPoint bus wiring).interface s.device s.options =
      .ok (.ofList [("DATA_I", w.input), (clockName, 1)]) := by
    simp only [Engine.interface, h]
    rfl
  have hdrives : ∀ {ws : Lockstep.Widths}, (Engine.pointToPoint bus wiring).driven s.device s.options = .ok ws →
      ws.get? "DATA_O" = some w.output := by
    intro ws hws
    obtain ⟨w', hw', hws⟩ := exists_of_bind_eq_ok (show driven s.device s.options bus = .ok ws from hws)
    rw [h] at hw'
    cases hw'
    obtain rfl := Except.ok.inj hws
    have hdata : (SortedMap.ofList [("DATA_O", w.output)]).get? "DATA_O" = some w.output := rfl
    split
    · rw [SortedMap.get?_insert, if_neg (by decide), hdata]
    · exact hdata
  cases hflag : s.isHost with
  | true =>
    rw [if_pos rfl]
    refine ⟨fun hws r hr hdir => ?_, ?_⟩
    · rw [signals_table houtput hinput] at hr
      rcases List.mem_cons.1 hr with rfl | hr
      · exact hdrives hws
      · obtain rfl := List.mem_singleton.1 hr
        cases hdir.trans hflag
    · rw [hinterface, RelayTable.receivedBy, RelayTable.toward, signals_table houtput hinput, hflag]
      rfl
  | false =>
    rw [if_neg Bool.false_ne_true]
    refine ⟨fun hws r hr hdir => ?_, ?_⟩
    · rw [signals_table hinput houtput] at hr
      rcases List.mem_cons.1 hr with rfl | hr
      · cases hdir.trans hflag
      · obtain rfl := List.mem_singleton.1 hr
        exact hdrives hws
    · rw [hinterface, RelayTable.receivedBy, RelayTable.toward, signals_table hinput houtput, hflag]
      rfl

theorem agreed_connect {host card : Slot} {t : RelayTable} {notice : BusNotice}
    (h : connect host card bus = .ok (t, notice)) (hhost : host.isHost = true) (hcard : card.isHost = false)
    (wiring : Option Wiring) :
    t.Proper clockName ∧ (Engine.pointToPoint bus wiring).Suits t host ∧
      (Engine.pointToPoint bus wiring).Suits t card := by
  obtain ⟨wh, hwh, h⟩ := exists_of_bind_eq_ok h
  obtain ⟨wd, hwd, h⟩ := exists_of_bind_eq_ok h
  obtain ⟨_, houtput, h⟩ := exists_of_bind_eq_ok h
  obtain ⟨_, hinput, h⟩ := exists_of_bind_eq_ok h
  cases h
  have houtput : wh.output = wd.input := eq_of_agree_eq_ok houtput
  have hinput : wh.input = wd.output := eq_of_agree_eq_ok hinput
  refine ⟨proper_table _ _, ?_, ?_⟩
  · have hsuits := suits_table hwh wiring
    rwa [if_pos hhost] at hsuits
  · have hsuits := suits_table hwd wiring
    rwa [hcard, if_neg Bool.false_ne_true, ← houtput, ← hinput] at hsuits

end PointToPoint

theorem Engine.suits_of_eq {e : Engine} {t : RelayTable} {s : Slot} (hproper : t.Proper e.protocol.clockName)
    (hdriven : e.driven s.device s.options = .ok (t.drivenBy s.isHost))
    (hsees : e.interface s.device s.options = .ok (t.receivedBy e.protocol.clockName s.isHost)) : e.Suits t s := by
  refine ⟨fun hws r hr hdir => ?_, hsees⟩
  rw [hdriven] at hws
  cases hws
  rw [← hdir]
  exact hproper.get?_drivenBy hr

namespace Axi4

theorem proper_table (w : Widths) : (table w).Proper clockName := by
  refine RelayTable.proper_ofList ?_ ?_ <;> simp only [List.map_cons, List.map_nil, RelaySignal.same] <;> decide

theorem suits_table {s : Slot} {bus : Options} {w : Widths} (h : widths s.name s.options bus = .ok w)
    (wiring : Option Wiring) : (Engine.axi4 bus wiring).Suits (table w) s := by
  have h : widths s.device.name s.options bus = .ok w := h
  refine Engine.suits_of_eq (proper_table w) ?_ ?_
  · simp only [Engine.driven, driven, h]
    rfl
  · simp only [Engine.interface, h]
    rfl

theorem agreed_connect {host card : Slot} {bus : Options} {t : RelayTable} {notice : BusNotice}
    (h : connect host card bus = .ok (t, notice)) (wiring : Option Wiring) :
    t.Proper clockName ∧ (Engine.axi4 bus wiring).Suits t host ∧ (Engine.axi4 bus wiring).Suits t card := by
  obtain ⟨wm, hwm, h⟩ := exists_of_bind_eq_ok h
  obtain ⟨ws, hws, h⟩ := exists_of_bind_eq_ok h
  obtain ⟨_, hdata, h⟩ := exists_of_bind_eq_ok h
  obtain ⟨_, haddress, h⟩ := exists_of_bind_eq_ok h
  obtain ⟨_, hid, h⟩ := exists_of_bind_eq_ok h
  cases h
  have hsame : wm = ws := by
    cases wm
    cases ws
    rw [Widths.mk.injEq]
    exact ⟨eq_of_agree_eq_ok hdata, eq_of_agree_eq_ok haddress, eq_of_agree_eq_ok hid⟩
  subst hsame
  exact ⟨proper_table _, suits_table hwm wiring, suits_table hws wiring⟩

end Axi4

namespace PcieTlp

theorem proper_table (w : Nat) : (table w).Proper clockName := by
  refine RelayTable.proper_ofList ?_ ?_ <;> simp only [List.map_cons, List.map_nil, RelaySignal.same] <;> decide

theorem suits_table {s : Slot} {bus : Options} {w : Nat} (h : width s.name s.options bus = .ok w)
    (wiring : Option Wiring) : (Engine.pcieTlp bus wiring).Suits (table w) s := by
  have h : width s.device.name s.options bus = .ok w := h
  refine Engine.suits_of_eq (proper_table w) ?_ ?_
  · simp only [Engine.driven, driven, h]
    rfl
  · simp only [Engine.interface, h]
    rfl

theorem agreed_connect {host card : Slot} {bus : Options} {t : RelayTable} {notice : BusNotice}
    (h : connect host card bus = .ok (t, notice)) (wiring : Option Wiring) :
    t.Proper clockName ∧ (Engine.pcieTlp bus wiring).Suits t host ∧ (Engine.pcieTlp bus wiring).Suits t card := by
  obtain ⟨root, hroot, h⟩ := exists_of_bind_eq_ok h
  obtain ⟨endpoint, hendpoint, h⟩ := exists_of_bind_eq_ok h
  obtain ⟨_, hdata, h⟩ := exists_of_bind_eq_ok h
  cases h
  obtain rfl : root = endpoint := eq_of_agree_eq_ok hdata
  exact ⟨proper_table _, suits_table hroot wiring, suits_table hendpoint wiring⟩

end PcieTlp

namespace Engine

theorem interface_pos {e : Engine} {device : Device} {announced : Options} {widths : Widths}
    (h : e.interface device announced = .ok widths) {name : String} {width : Nat}
    (hget : widths.get? name = some width) : 0 < width := by
  cases e with
  | pointToPoint bus w =>
    obtain ⟨w, hw, rfl⟩ := exists_of_map_eq_ok h
    obtain ⟨⟨hpos, -⟩, -⟩ := PointToPoint.widths_spec hw
    rcases List.mem_cons.1 (SortedMap.mem_of_get?_ofList hget) with heq | hmem
    · cases heq
      exact hpos
    · cases List.mem_singleton.1 hmem
      exact Nat.one_pos
  | axi4 bus w =>
    obtain ⟨w, -, rfl⟩ := exists_of_map_eq_ok h
    exact (Axi4.proper_table w).receivedBy_pos hget
  | pcieTlp bus w =>
    obtain ⟨w, -, rfl⟩ := exists_of_map_eq_ok h
    exact (PcieTlp.proper_table w).receivedBy_pos hget
  | pci p =>
    cases h
    have hpos : ∀ host : Bool, ∀ e ∈ Pci.sharedWires ++ [("RESET#", 1), ("IDSEL", 1), ("GNT#", 1)] ++
        (if host then Pci.interruptNames.map fun name => (name, arbiterSlots) else []) ++
          [(Pci.clockName, 1)], 0 < e.2 := by decide
    exact hpos device.host _ (SortedMap.mem_of_get?_ofList hget)

theorem wire_spec {connect : Slot → Slot → Except EngineError (RelayTable × BusNotice)} {ps : Participants}
    {w : Wiring} {notice : BusNotice} (h : wire connect ps = .ok (w, notice)) {link : Link}
    (hlink : Link.find ps = .ok link) {host card : Slot} (hhost : ps.get? link.host = some host)
    (hcard : ps.get? link.device = some card) : w.link = link ∧ connect host card = .ok (w.table, notice) := by
  obtain ⟨link', hlink', h⟩ := exists_of_bind_eq_ok h
  rw [hlink] at hlink'
  cases hlink'
  rw [hhost, hcard] at h
  obtain ⟨⟨t, n⟩, hagreed, h⟩ := exists_of_bind_eq_ok h
  cases h
  exact ⟨rfl, hagreed⟩

/-- **Agreement.** An engine that has compared all options is wired between its ends, with a proper table that suits
both of them. -/
theorem agreed_of_wrapUp {e e' : Engine} {ps : Participants} {notice : BusNotice}
    (h : e.wrapUp ps = .ok (e', notice)) (hpaired : e.protocol.isPaired = true) {link : Link}
    (hlink : Link.find ps = .ok link) {host card : Slot} (hhost : ps.get? link.host = some host)
    (hcard : ps.get? link.device = some card) (hhostFlag : host.isHost = true) (hcardFlag : card.isHost = false) :
    ∃ t, e'.wiring? = some ⟨link, t⟩ ∧ t.Proper e.protocol.clockName ∧ e.Suits t host ∧ e.Suits t card := by
  cases e with
  | pointToPoint bus wiring =>
    obtain ⟨⟨w, noted⟩, hwire, heq⟩ := exists_of_map_eq_ok h
    cases heq
    obtain ⟨rfl, hconnect⟩ := wire_spec hwire hlink hhost hcard
    exact ⟨w.table, rfl, PointToPoint.agreed_connect hconnect hhostFlag hcardFlag wiring⟩
  | axi4 bus wiring =>
    obtain ⟨⟨w, noted⟩, hwire, heq⟩ := exists_of_map_eq_ok h
    cases heq
    obtain ⟨rfl, hconnect⟩ := wire_spec hwire hlink hhost hcard
    exact ⟨w.table, rfl, Axi4.agreed_connect hconnect wiring⟩
  | pcieTlp bus wiring =>
    obtain ⟨⟨w, noted⟩, hwire, heq⟩ := exists_of_map_eq_ok h
    cases heq
    obtain ⟨rfl, hconnect⟩ := wire_spec hwire hlink hhost hcard
    exact ⟨w.table, rfl, PcieTlp.agreed_connect hconnect wiring⟩
  | pci p => cases hpaired

end Engine

end Lockstep
