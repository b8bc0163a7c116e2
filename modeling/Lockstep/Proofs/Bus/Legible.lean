import Lockstep.Proofs.Bus.Delivery
import Lockstep.Proofs.Bus.Vocabulary
/-!
# What is sent can be read back

A reader with the default bound on lines gets every message of a bus as it was sent: the line is within the bound, it
is one line, and reading it gives back the time and all signals (`Message.Legible`). That holds of whatever a step
delivers and of whatever a participant may offer, on every bus and in the course of any run (`Bus.lines_read_back`).

Nothing depends on the protocol here. The options of a bus and of its participants decide how wide signals are, but no
choice of them takes a signal beyond the width that its name allows, and no signal without wires gets into a delivery.
-/

namespace Lockstep

/-- A reader with the default bound gets exactly this message out of its line. -/
structure Message.Legible (m : Message) : Prop where
  /-- The line is within the bound. -/
  short : (Text.bytes m.chars).length ≤ maxLineLength
  /-- It ends with its line feed. -/
  ended : m.bytes = Text.bytes m.chars ++ [Framer.lineFeed]
  /-- A framer that has been given the line, and any bytes behind it, yields the line as a whole. -/
  framed : ∀ (f : Framer) (rest : List UInt8), f.limit = maxLineLength → f.pending = m.bytes ++ rest →
    f.next = (.ok (some m.text), { limit := maxLineLength, pending := rest })
  /-- What is read is the message that was sent. -/
  decoded : Message.decode m.text = .ok m
  /-- A client gets the message, whatever the chunks in which its line arrives. -/
  received : ∀ i : Incoming, i.framer.limit = maxLineLength → i.seen = m.bytes →
    ∃ i' : Incoming, i.next = (.ok m, i') ∧ i'.seen = []

theorem Message.Sendable.legible {m : Message} (h : m.Sendable maxLineLength) (hwired : m.wired = m) : m.Legible := by
  have hdecoded : Message.decode m.text = .ok m := by rw [decode_text h.wireable, hwired]
  refine ⟨h.short, m.bytes_eq, fun f rest hlimit hpending => ?_, hdecoded, fun i hlimit hseen => ?_⟩
  · rw [m.bytes_eq, List.append_assoc] at hpending
    rw [Framer.next_of_segment hpending h.wireable.lineFeed_not_mem, hlimit, if_neg (Nat.not_lt.2 h.short),
      h.wireable.lineOf_bytes]
    rfl
  · have hstream : i.seen ++ [] = Message.stream [m] := by
      rw [List.append_nil, hseen, Message.stream, List.flatMap_singleton]
    have hms : ∀ m' ∈ [m], m'.Sendable i.framer.limit := by
      rw [hlimit]
      simpa using h
    obtain ⟨i', -, ⟨-, hnone, -⟩ | ⟨m', ms', hcons, hnext, hrest⟩⟩ := Incoming.next_of_stream hstream hms
    · cases hnone rfl
    · cases hcons
      rw [hwired] at hnext
      rw [List.append_nil] at hrest
      exact ⟨i', hnext, hrest⟩

theorem Signals.Bounded.legible_ready {signals : Signals} (h : signals.Bounded) (time : Time) :
    (Message.ready time signals).Legible :=
  (h.sendable_ready time).legible (by rw [Message.wired, h.wired])

theorem Signals.Bounded.legible_deliver {signals : Signals} (h : signals.Bounded) (time : Time) :
    (Message.deliver time signals).Legible :=
  (h.sendable_deliver time).legible (by rw [Message.wired, h.wired])

theorem Widths.fault?_filled (widths : Widths) (level : Level) : widths.fault? (widths.filled level) = none := by
  refine fault?_eq_none_iff.2 fun name v hv => ?_
  rw [filled, SortedMap.get?_mapValues] at hv
  obtain ⟨width, hwidth, rfl⟩ := Option.map_eq_some_iff.1 hv
  rw [Bundle.width_filled]
  exact hwidth

namespace Bus

variable {c : BusConfig} {start b : Bus} {trace : Trace}

/-- **Lines are read back.** Whatever a step delivers is legible, and so is whatever a participant may offer, be it every
signal that was agreed with it. -/
theorem lines_read_back (hstart : ofConfig c = .ok start) (h : Course start trace b) (horderly : Orderly trace) :
    (∀ ds, b.advance.1 = .stepped ds → ∀ d ∈ ds, d.2.Legible) ∧
    ∀ i slot, b.participants.get? i = some slot → ∀ time signals, slot.widths.fault? signals = none →
      (Message.ready time signals).Legible := by
  refine ⟨fun ds hds d hd => ?_, fun i slot hs time signals hfits => ?_⟩
  · have hbounded : b.advance.2.1.Bounded := (h.snoc .advance).bounded hstart (orderly_snoc.2 ⟨horderly, trivial⟩)
    rw [(stepsFrom_of_stepped hds).outgoing] at hd
    obtain ⟨⟨i, k⟩, -, rfl⟩ := List.mem_map.1 hd
    refine Signals.Bounded.legible_deliver ?_ _
    show Signals.Bounded (b.advance.2.1.participants.shown i)
    unfold Participants.shown
    cases hs : b.advance.2.1.participants.get? i with
    | none => exact fun name v hv => by cases hv
    | some slot => exact (hbounded.participants i slot hs).shown
  · exact (((h.bounded hstart horderly).participants i slot hs).agreed.offer hfits).legible_ready time

/-! ### A link at its widest -/

/-- An AXI4 link with the widest data and identities that there are. -/
def widestLink : BusConfig where
  name := "link"
  address := .tcp "localhost" 0
  protocol := .axi4
  clock := .standard
  devices := [⟨"host", 0, true⟩, ⟨"ram", 1, false⟩]
  options := .ofList [("DATA_WIDTH", "4096"), ("ADDR_WIDTH", "64"), ("ID_WIDTH", "4096")]

def idleWidestLink : Bus where
  config := widestLink
  participants := .ofDevices widestLink.devices
  engine := .axi4 widestLink.options none
  clock := .start .standard
  time := .zero
  assembled := false
  finished := false
  steps := 0

def widestGreetings : List Operation :=
  [.handshake 7 "host" .empty, .handshake 8 "ram" .empty, .line 0 "READY 0e-12", .line 1 "READY 0e-12"]

-- wires are evaluated one by one, and there are thousands of them
set_option maxRecDepth 100000 in
/-- Both ends can read what the first step delivers, and the host may offer all its wires in one line. -/
theorem widest_link_is_legible : ∃ ds slot,
    (widestGreetings.foldl perform idleWidestLink).advance.1 = .stepped ds ∧ (∀ d ∈ ds, d.2.Legible) ∧
    (widestGreetings.foldl perform idleWidestLink).participants.get? 0 = some slot ∧
    slot.widths.get? "WDATA" = some 4096 ∧ slot.widths.get? "AWID" = some 4096 ∧
    ∀ time, (Message.ready time (slot.widths.filled .one)).Legible := by
  have hstart : ofConfig widestLink = .ok idleWidestLink := by cbv
  have horderly : Orderly (idleWidestLink.traced widestGreetings) := orderly_of_all (by cbv)
  obtain ⟨ds, hds⟩ := exists_of_stepped (b := widestGreetings.foldl perform idleWidestLink) (by cbv)
  have hwidths : ((widestGreetings.foldl perform idleWidestLink).participants.get? 0).map (fun s =>
      (s.widths.get? "WDATA", s.widths.get? "AWID")) = some (some 4096, some 4096) := by cbv
  obtain ⟨slot, hs, hwide⟩ := Option.map_eq_some_iff.1 hwidths
  obtain ⟨hdata, hid⟩ := Prod.mk.inj hwide
  obtain ⟨hdeliveries, hoffers⟩ :=
    lines_read_back hstart (course_traced idleWidestLink widestGreetings) horderly
  exact ⟨ds, slot, hds, hdeliveries ds hds, hs, hdata, hid,
    fun time => hoffers 0 slot hs time _ (slot.widths.fault?_filled .one)⟩

end Bus

end Lockstep
