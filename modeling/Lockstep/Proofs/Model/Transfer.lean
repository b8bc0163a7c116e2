import Lockstep.Proofs.Model.Reach
/-!
# AXI4 transfers

A transfer between the master and the memory takes two rising edges. At the first one the memory takes the request and
puts its answer on the wires, and the master takes its valid signals back; at the second one the master takes the answer,
and the memory takes it back. Each side acts on what the other one drove before the edge, so at the second edge the
memory sees neither the request again nor a master that is not ready, and after it both are as they were before
(`Axi4.Master.Idle`, `Axi4.Memory.Rest`). One lemma for each side and each edge says so.
-/

namespace Lockstep

/-- What somebody drives arrives: the signals of a list have the values driven, or are released. -/
def Signals.Relays (seen drive : Signals) (reach : List (String × Nat)) : Prop :=
  ∀ e ∈ reach, seen.get? e.1 = some (drive.wires e.1 e.2)

namespace Signals.Relays

variable {seen drive : Signals} {reach : List (String × Nat)}

theorem get?_eq (h : seen.Relays drive reach) {name : String} {v : Bundle} (hv : drive.get? name = some v) (width : Nat)
    (hmem : (name, width) ∈ reach) : seen.get? name = some v := by
  rw [h _ hmem, Signals.wires, hv]
  rfl

theorem bit_eq (h : seen.Relays drive reach) {name : String} {level : Level}
    (hv : drive.get? name = some (.ofLevel level)) (hmem : (name, 1) ∈ reach) : seen.bit name = level :=
  Signals.bit_eq (h.get?_eq hv 1 hmem)

theorem bit_of_empty (h : seen.Relays .empty reach) {name : String} (hmem : (name, 1) ∈ reach) :
    seen.bit name = .released :=
  Signals.bit_eq (h _ hmem)

end Signals.Relays

theorem wordOf_mod (n : Nat) : wordOf (n % 2 ^ 32) = n % 2 ^ 32 :=
  Nat.min_eq_left (Nat.le_sub_one_of_lt (Nat.mod_lt _ (by decide)))

namespace Axi4

/-! ### The master -/

namespace Master

/-- The levels of the handshake wires that the master drives. -/
structure Handshakes (m : Master) (awvalid wvalid bready arvalid rready : Level) : Prop where
  awvalid : m.drive.get? "AWVALID" = some (.ofLevel awvalid)
  wvalid : m.drive.get? "WVALID" = some (.ofLevel wvalid)
  bready : m.drive.get? "BREADY" = some (.ofLevel bready)
  arvalid : m.drive.get? "ARVALID" = some (.ofLevel arvalid)
  rready : m.drive.get? "RREADY" = some (.ofLevel rready)

/-- The master is between two transfers. -/
structure Idle (m : Master) : Prop where
  wires : m.Handshakes .zero .zero .zero .zero .zero
  progress : m.progress = .idle

/-- The master has put a transfer on the wires. -/
def Begun (m : Master) : Transfer → Prop
  | .write address data => m.Handshakes .one .one .one .zero .zero ∧ m.progress = .writing false false ∧
    m.drive.get? "AWADDR" = some (.ofNat address 32) ∧ m.drive.get? "AWID" = some (.ofNat 0 4) ∧
    m.drive.get? "WDATA" = some (.ofNat data 32)
  | .read address => m.Handshakes .zero .zero .zero .one .one ∧ m.progress = .reading false ∧
    m.drive.get? "ARADDR" = some (.ofNat address 32) ∧ m.drive.get? "ARID" = some (.ofNat 0 4)

/-- The master has handed a transfer over and waits for the answer. -/
def Sent (m : Master) : Transfer → Prop
  | .write _ _ => m.Handshakes .zero .zero .one .zero .zero ∧ m.progress = .writing true true
  | .read _ => m.Handshakes .zero .zero .zero .zero .one ∧ m.progress = .reading true

theorem idle_fresh : fresh.Idle := ⟨⟨rfl, rfl, rfl, rfl, rfl⟩, rfl⟩

theorem Idle.begun_start {m : Master} (h : m.Idle) (t : Transfer) : (m.start t).Begun t := by
  obtain ⟨⟨hawvalid, hwvalid, hbready, harvalid, hrready⟩, -⟩ := h
  cases t with
  | write address data =>
    refine ⟨⟨?_, ?_, ?_, ?_, ?_⟩, rfl, ?_, ?_, ?_⟩ <;>
      simp [start, Signals.setBit, Signals.setNat, Signals.get?_set, harvalid, hrready, modelAddressBits, modelIdBits,
        modelDataBits]
  | read address =>
    refine ⟨⟨?_, ?_, ?_, ?_, ?_⟩, rfl, ?_, ?_⟩ <;>
      simp [start, Signals.setBit, Signals.setNat, Signals.get?_set, hawvalid, hwvalid, hbready, modelAddressBits,
        modelIdBits]

end Master

/-! ### The memory -/

namespace Memory

/-- The levels of the handshake wires that the memory drives. It is always ready. -/
structure Handshakes (m : Memory) (bvalid rvalid : Level) : Prop where
  awready : m.drive.get? "AWREADY" = some (.ofLevel .one)
  wready : m.drive.get? "WREADY" = some (.ofLevel .one)
  arready : m.drive.get? "ARREADY" = some (.ofLevel .one)
  bvalid : m.drive.get? "BVALID" = some (.ofLevel bvalid)
  rvalid : m.drive.get? "RVALID" = some (.ofLevel rvalid)

/-- The memory has nothing to do. -/
structure Rest (m : Memory) : Prop where
  wires : m.Handshakes .zero .zero
  writeAddress : m.writeAddress = none
  writeData : m.writeData = none
  responding : m.responding = false
  reading : m.reading = false

/-- The memory has taken a transfer and put the answer on the wires. -/
def Replying (m : Memory) (before : SortedMap Nat Nat) : Transfer → Prop
  | .write address data => m.Handshakes .one .zero ∧ m.drive.get? "BRESP" = some (.ofNat 0 2) ∧
    m.responding = true ∧ m.reading = false ∧ m.writeAddress = none ∧ m.writeData = none ∧
    m.words = before.insert (address % 2 ^ 32) (data % 2 ^ 32)
  | .read address => m.Handshakes .zero .one ∧
    m.drive.get? "RDATA" = some (.ofNat ((before.get? (address % 2 ^ 32)).getD 0) 32) ∧
    m.responding = false ∧ m.reading = true ∧ m.writeAddress = none ∧ m.writeData = none ∧ m.words = before

theorem rest_fresh : fresh.Rest := ⟨⟨rfl, rfl, rfl, rfl, rfl⟩, rfl, rfl, rfl, rfl⟩

variable {m : Memory} {seen : Signals}

theorem Rest.retract_eq (h : m.Rest) (seen : Signals) : m.retract seen = m := by
  simp [retract, h.responding, h.reading]

theorem takeAddress_eq (haw : seen.bit "AWVALID" ≠ .one) : m.takeAddress seen = .ok m := by
  rw [takeAddress, if_neg haw]

theorem takeData_eq (hw : seen.bit "WVALID" ≠ .one) : m.takeData seen = .ok m := by
  rw [takeData, if_neg hw]

theorem answer_eq (har : seen.bit "ARVALID" ≠ .one) : m.answer seen = .ok m := by
  rw [answer, if_neg (by simp [har])]

theorem store_eq (h : m.writeAddress = none) : m.store = m := by
  simp [store, h]

theorem Rest.edge_of_empty (h : m.Rest) (hseen : seen.Relays .empty Master.reach) : m.edge seen = .ok m := by
  have haw : seen.bit "AWVALID" ≠ .one := by rw [hseen.bit_of_empty (by decide)]; decide
  have hw : seen.bit "WVALID" ≠ .one := by rw [hseen.bit_of_empty (by decide)]; decide
  have har : seen.bit "ARVALID" ≠ .one := by rw [hseen.bit_of_empty (by decide)]; decide
  unfold edge
  rw [h.retract_eq, takeAddress_eq haw]
  show (m.takeData seen >>= fun m => m.store.answer seen) = _
  rw [takeData_eq hw]
  show m.store.answer seen = _
  rw [store_eq h.writeAddress, answer_eq har]

end Memory

/-! ### The first edge of a transfer -/

variable {m : Master} {mem : Memory} {seen : Signals} {t : Transfer} {before : SortedMap Nat Nat}

theorem Master.Begun.edge (h : m.Begun t) (hmem : mem.Rest) (hseen : seen.Relays mem.drive Memory.reach) :
    ∃ m', m.edge seen = .ok (m', none) ∧ m'.Sent t := by
  obtain ⟨hawready, hwready, harready, hbvalid, hrvalid⟩ := hmem.wires
  have haw := hseen.bit_eq hawready (by decide)
  have hw := hseen.bit_eq hwready (by decide)
  have har := hseen.bit_eq harready (by decide)
  have hb := hseen.bit_eq hbvalid (by decide)
  have hr := hseen.bit_eq hrvalid (by decide)
  cases t with
  | write address data =>
    obtain ⟨⟨_, _, hbready, harvalid, hrready⟩, hprogress, -⟩ := h
    refine ⟨⟨(m.drive.setBit "AWVALID" .zero).setBit "WVALID" .zero, .writing true true⟩, ?_,
      ⟨?_, ?_, ?_, ?_, ?_⟩, rfl⟩
    · simp [Master.edge, hprogress, handOver, haw, hw, hb]
    all_goals simp [Signals.setBit, Signals.get?_set, hbready, harvalid, hrready]
  | read address =>
    obtain ⟨⟨hawvalid, hwvalid, hbready, _, hrready⟩, hprogress, -⟩ := h
    refine ⟨⟨m.drive.setBit "ARVALID" .zero, .reading true⟩, ?_, ⟨?_, ?_, ?_, ?_, ?_⟩, rfl⟩
    · simp [Master.edge, hprogress, handOver, har, hr]
    all_goals simp [Signals.setBit, Signals.get?_set, hawvalid, hwvalid, hbready, hrready]

theorem Memory.Rest.edge (h : mem.Rest) (hm : m.Begun t) (hseen : seen.Relays m.drive Master.reach) :
    ∃ mem', mem.edge seen = .ok mem' ∧ mem'.Replying mem.words t := by
  obtain ⟨hawready, hwready, harready, hbvalid, hrvalid⟩ := h.wires
  unfold Memory.edge
  rw [h.retract_eq]
  cases t with
  | write address data =>
    obtain ⟨⟨hawvalid, hwvalid, -, harvalid, -⟩, -, haddress, hid, hdata⟩ := hm
    have haw := hseen.bit_eq hawvalid (by decide)
    have hw := hseen.bit_eq hwvalid (by decide)
    have har : seen.bit "ARVALID" ≠ .one := by rw [hseen.bit_eq harvalid (by decide)]; decide
    have haddress := Signals.number_eq (hseen.get?_eq haddress 32 (by decide)) (by decide)
    have hid := Signals.number_eq (hseen.get?_eq hid 4 (by decide)) (by decide)
    have hdata := Signals.number_eq (hseen.get?_eq hdata 32 (by decide)) (by decide)
    have htakeAddress : mem.takeAddress seen = .ok { mem with writeAddress := some (address % 2 ^ 32, 0) } := by
      rw [takeAddress, if_pos haw, haddress, hid]
      rfl
    have htakeData : ({ mem with writeAddress := some (address % 2 ^ 32, 0) } : Memory).takeData seen =
        .ok { mem with writeAddress := some (address % 2 ^ 32, 0), writeData := some (data % 2 ^ 32) } := by
      rw [takeData, if_pos hw, hdata]
      show Except.ok _ = _
      rw [wordOf_mod]
    rw [htakeAddress]
    show ∃ mem', (Memory.takeData seen _ >>= fun m => m.store.answer seen) = _ ∧ _
    rw [htakeData]
    show ∃ mem', (Memory.store _).answer seen = _ ∧ _
    rw [answer_eq har]
    refine ⟨_, rfl, ?_⟩
    simp only [store, h.responding]
    refine ⟨⟨?_, ?_, ?_, ?_, ?_⟩, ?_, rfl, h.reading, rfl, rfl, rfl⟩ <;>
      simp [Signals.setBit, Signals.setNat, Signals.get?_set, hawready, hwready, harready, hrvalid]
  | read address =>
    obtain ⟨⟨hawvalid, hwvalid, -, harvalid, -⟩, -, haddress, hid⟩ := hm
    have haw : seen.bit "AWVALID" ≠ .one := by rw [hseen.bit_eq hawvalid (by decide)]; decide
    have hw : seen.bit "WVALID" ≠ .one := by rw [hseen.bit_eq hwvalid (by decide)]; decide
    have har := hseen.bit_eq harvalid (by decide)
    have haddress := Signals.number_eq (hseen.get?_eq haddress 32 (by decide)) (by decide)
    have hid := Signals.number_eq (hseen.get?_eq hid 4 (by decide)) (by decide)
    rw [takeAddress_eq haw]
    show ∃ mem', (mem.takeData seen >>= fun m => m.store.answer seen) = _ ∧ _
    rw [takeData_eq hw]
    show ∃ mem', mem.store.answer seen = _ ∧ _
    rw [store_eq h.writeAddress, answer, if_pos (by simp [h.reading, har]), haddress, hid]
    refine ⟨_, rfl, ⟨?_, ?_, ?_, ?_, ?_⟩, ?_, h.responding, rfl, h.writeAddress, h.writeData, rfl⟩ <;>
      simp [Signals.setBit, Signals.setNat, Signals.get?_set, hawready, hwready, harready, hbvalid, modelDataBits]

/-! ### The second edge of a transfer -/

/-- What the master gets to know of a transfer, by the words that the memory held before. -/
def outcome (before : SortedMap Nat Nat) : Transfer → Nat
  | .write _ _ => 0
  | .read address => (before.get? (address % 2 ^ 32)).getD 0 % 2 ^ 32

theorem Master.Sent.edge (h : m.Sent t) (hmem : mem.Replying before t)
    (hseen : seen.Relays mem.drive Memory.reach) :
    ∃ m', m.edge seen = .ok (m', some (outcome before t)) ∧ m'.Idle := by
  cases t with
  | write address data =>
    obtain ⟨⟨hawvalid, hwvalid, _, harvalid, hrready⟩, hprogress⟩ := h
    obtain ⟨hwires, hresponse, -⟩ := hmem
    have hb := hseen.bit_eq hwires.bvalid (by decide)
    have hresponse := Signals.number_eq (hseen.get?_eq hresponse 2 (by decide)) (by decide)
    refine ⟨⟨m.drive.setBit "BREADY" .zero, .idle⟩, ?_, ⟨?_, ?_, ?_, ?_, ?_⟩, rfl⟩
    · simp [Master.edge, hprogress, handOver, hb, hresponse, outcome, Except.map]
    all_goals simp [Signals.setBit, Signals.get?_set, hawvalid, hwvalid, harvalid, hrready]
  | read address =>
    obtain ⟨⟨hawvalid, hwvalid, hbready, harvalid, _⟩, hprogress⟩ := h
    obtain ⟨hwires, hdata, -⟩ := hmem
    have hr := hseen.bit_eq hwires.rvalid (by decide)
    have hdata := Signals.number_eq (hseen.get?_eq hdata 32 (by decide)) (by decide)
    refine ⟨⟨m.drive.setBit "RREADY" .zero, .idle⟩, ?_, ⟨?_, ?_, ?_, ?_, ?_⟩, rfl⟩
    · rw [Master.edge, hprogress]
      simp only [handOver, Bool.not_true, Bool.false_and, if_pos hr, hdata, Except.map, wordOf_mod, outcome]
      rfl
    all_goals simp [Signals.setBit, Signals.get?_set, hawvalid, hwvalid, hbready, harvalid]

theorem Memory.Replying.edge (h : mem.Replying before t) (hm : m.Sent t) (hseen : seen.Relays m.drive Master.reach) :
    ∃ mem', mem.edge seen = .ok mem' ∧ mem'.Rest ∧ mem'.words = mem.words := by
  have hquiet : seen.bit "AWVALID" ≠ .one ∧ seen.bit "WVALID" ≠ .one ∧ seen.bit "ARVALID" ≠ .one := by
    cases t with
    | write _ _ | read _ =>
      obtain ⟨hwires, -⟩ := hm
      rw [hseen.bit_eq hwires.awvalid (by decide), hseen.bit_eq hwires.wvalid (by decide),
        hseen.bit_eq hwires.arvalid (by decide)]
      decide
  obtain ⟨haw, hw, har⟩ := hquiet
  have hrest : (mem.retract seen).Rest ∧ (mem.retract seen).words = mem.words := by
    cases t with
    | write address data =>
      obtain ⟨⟨hawready, hwready, harready, -, hrvalid⟩, -, hresponding, hreading, haddress, hdata, -⟩ := h
      have hb := hseen.bit_eq hm.1.bready (by decide)
      refine ⟨⟨⟨?_, ?_, ?_, ?_, ?_⟩, ?_, ?_, ?_, ?_⟩, ?_⟩ <;>
        simp [retract, hresponding, hreading, hb, Signals.setBit, Signals.get?_set, hawready, hwready, harready, hrvalid,
          haddress, hdata]
    | read address =>
      obtain ⟨⟨hawready, hwready, harready, hbvalid, -⟩, -, hresponding, hreading, haddress, hdata, -⟩ := h
      have hr := hseen.bit_eq hm.1.rready (by decide)
      refine ⟨⟨⟨?_, ?_, ?_, ?_, ?_⟩, ?_, ?_, ?_, ?_⟩, ?_⟩ <;>
        simp [retract, hresponding, hreading, hr, Signals.setBit, Signals.get?_set, hawready, hwready, harready, hbvalid,
          haddress, hdata]
  refine ⟨mem.retract seen, ?_, hrest⟩
  unfold Memory.edge
  rw [takeAddress_eq haw]
  show ((mem.retract seen).takeData seen >>= fun m => m.store.answer seen) = _
  rw [takeData_eq hw]
  show (mem.retract seen).store.answer seen = _
  rw [store_eq hrest.1.writeAddress, answer_eq har]

end Axi4

end Lockstep
