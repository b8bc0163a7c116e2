import Lockstep.Bus.Record
import Lockstep.Engine.Arbiter
/-!
# A shared PCI bus

Every participant may drive the shared wires. What it is shown of them is the blend of all drives, less its own
contribution, so that blending the two again gives the wire. The engine also routes IDSEL and interrupt wires
by the number of a device, and keeps track of the bus master to know when a grant has been used.
-/

namespace Lockstep

/-- The state of a PCI bus beside the drives of its participants. -/
structure Pci where
  arbiter : Arbiter
  /-- The device that has a transaction in progress. -/
  master : Option Ident
deriving DecidableEq

namespace Pci

def sharedWires : List (String × Nat) := [
  ("FRAME#", 1), ("IRDY#", 1), ("TRDY#", 1), ("STOP#", 1), ("DEVSEL#", 1), ("REQ64#", 1), ("ACK64#", 1),
  ("AD", 64), ("C/BE#", 8), ("PAR", 1), ("PAR64", 1)]

def interruptNames : List String := ["INTA#", "INTB#", "INTC#", "INTD#"]

def clockName : String := "PCI_CLK"

/-- The wire of `AD` that selects device 0 in a configuration cycle. -/
def idselBase : Nat := 16

/-! ### Options -/

def parkingOf (options : Options) : Except EngineError Parking :=
  match options.get? "parking" with
  | none => .ok .none
  | some text =>
    match Parking.ofText? text with
    | some p => .ok p
    | none => .error (.invalidOption "parking" text .notParkingMode)

def numberOf (options : Options) (key : String) (bound default : Nat) : Except EngineError Nat :=
  match options.get? key with
  | none => .ok default
  | some text => readUnsigned key text bound

def start (options : Options) : Except EngineError Pci := do
  let parking ← parkingOf options
  let linger ← numberOf options "gnt_linger" UInt32.size 4
  let seed ← numberOf options "seed" UInt64.size 0
  return ⟨.start parking linger.toUInt32 seed.toUInt64, none⟩

/-- The signals that a device drives: the shared wires, its request, and the reset of a host or the interrupts
of another device. -/
def driven (device : Device) : Widths :=
  let own := if device.host then [("RESET#", 1)] else interruptNames.map fun name => (name, 1)
  .ofList (("REQ#", 1) :: sharedWires ++ own)

/-! ### Resolving wires -/

/-- The blend of all drives of a signal. -/
def resolve (ps : Participants) (name : String) (width : Nat) : Bundle :=
  ps.values.foldl (fun wires slot =>
    match wires.blend (slot.drives name) with
    | .ok v => v
    | .error _ => .filled width .unknown) (.released width)

/-- What a participant is shown of resolved wires. -/
def seen (wires own : Bundle) : Bundle :=
  match wires.seenBy own with
  | .ok v => v
  | .error _ => wires

/-- The reset that the hosts drive together; a reset that nobody drives is not active. -/
def reset (ps : Participants) : Level :=
  let blended := (ps.values.filter (·.isHost)).foldl (fun l s => l.blend (s.drivesBit "RESET#")) .released
  if blended = .released then .one else blended

/-- The interrupts of one kind: wire `i` is low if device `i` asserts it. -/
def interrupts (ps : Participants) (name : String) : Bundle :=
  (ps.values.filter fun s => !s.isHost).foldl (fun lines s =>
    if s.drivesBit name = .zero then lines.set s.ident.toNat .zero else lines)
    (.filled arbiterSlots .one)

/-- The level of the wire that selects a device. -/
def idsel (ps : Participants) (ident : Ident) : Level :=
  (resolve ps "AD" 64).getD (idselBase + ident.toNat)

/-- The grant as a device is shown it: low for the grantee. -/
def grantLevel (granted : Option Nat) (ident : Ident) : Level :=
  if granted = some ident.toNat then .zero else .one

/-- Everything a participant is shown, given the drives of all, the grantee and the level of the clock. -/
def deliveries (ps : Participants) (granted : Option Nat) (clock : Level) (slot : Slot) :
    List (String × Bundle) :=
  (sharedWires.map fun (name, width) => (name, seen (resolve ps name width) (slot.drives name))) ++
  [("RESET#", .ofLevel (reset ps)), ("IDSEL", .ofLevel (idsel ps slot.ident)),
    ("GNT#", .ofLevel (grantLevel granted slot.ident))] ++
  (if slot.isHost then interruptNames.map fun name => (name, interrupts ps name) else []) ++
  [(clockName, .ofLevel clock)]

/-- Shows every participant what it is to see. -/
def deliver (p : Pci) (clock : Level) (ps : Participants) : Participants :=
  ps.each fun slot =>
    (deliveries ps p.arbiter.granted clock slot).foldl (fun s (name, value) => s.send name value) slot

def publications (clock : Level) (ps : Participants) : List Publication :=
  (sharedWires.map fun (name, width) => .signal name (resolve ps name width)) ++
  [.signal "RESET#" (.ofLevel (reset ps))] ++
  (interruptNames.map fun name => .signal name (interrupts ps name)) ++
  [.signal clockName (.ofLevel clock)]

def declarations : List Publication :=
  (sharedWires.map fun (name, width) => .declare name width) ++
  (interruptNames.map fun name => .declare name arbiterSlots) ++
  [.declare "RESET#" 1, .declare clockName 1]

/-! ### Ownership and arbitration -/

/-- The first participant, in the order of numbers, that asserts `FRAME#`. -/
def frameDriver? (ps : Participants) : Option Ident :=
  (ps.find? fun s => s.drivesBit "FRAME#" = .zero).map (·.ident)

/-- A master leaves the bus once neither `FRAME#` nor `IRDY#` is asserted. An idle bus is taken by the
participant that asserts `FRAME#`, which uses up its grant if it holds one. -/
def trackOwner (p : Pci) (ps : Participants) : Pci × List BusNotice :=
  let frame := (resolve ps "FRAME#" 1).getD 0
  let irdy := (resolve ps "IRDY#" 1).getD 0
  match p.master with
  | some master =>
    if frame ≠ .zero ∧ irdy ≠ .zero then ({ p with master := none }, [.released master]) else (p, [])
  | none =>
    if frame ≠ .zero then (p, [])
    else match frameDriver? ps with
      | none => (p, [])
      | some driver =>
        if p.arbiter.granted = some driver.toNat then
          (⟨p.arbiter.spend, some driver⟩, [.became driver])
        else (⟨p.arbiter, some driver⟩, [.tookUngranted driver, .became driver])

def requests (slot : Slot) : Bool := !slot.finished && slot.drivesBit "REQ#" = .zero

/-- Bit `i` is set when participant `i` requests the bus. -/
def requestMask (ps : Participants) : UInt16 :=
  (ps.values.filter requests).foldl (fun m s => m ||| ((1 : UInt16) <<< s.ident.toUInt16)) 0

def risingEdge (p : Pci) (ps : Participants) : Pci × List BusNotice :=
  let (p, notices) := p.trackOwner ps
  ({ p with arbiter := p.arbiter.arbitrate (requestMask ps) }, notices)

end Pci

end Lockstep
