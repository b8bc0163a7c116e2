import Lockstep.Bus.Config
/-!
# Participants of a bus

A bus has one slot for each device it expects. A slot is claimed by the first handshake that names its device,
becomes ready with each offer of the participant, and is finished for good once the participant leaves: from
then on it counts as ready and drives nothing.
-/

namespace Lockstep

/-- A connection is known by a number. It comes from a counter of 64 bits, which this is as long as fewer than 2⁶⁴ streams
have been accepted. -/
abbrev ConnectionKey := Nat

/-- What the bus knows of one of its devices. -/
structure Slot where
  device : Device
  /-- The options announced in the handshake. -/
  options : Options
  /-- The signals the participant may drive. -/
  widths : Widths
  /-- The last values the participant offered. -/
  driven : Signals
  /-- The values the participant is shown with the next delivery. -/
  outgoing : Signals
  ready : Bool
  finished : Bool
  claimed : Bool
  /-- The time of the last offer. -/
  offered : Option Time
  connection : Option ConnectionKey
deriving DecidableEq

namespace Slot

/-- The slot of a device that nobody has claimed. -/
def vacant (device : Device) : Slot where
  device := device
  options := .empty
  widths := .empty
  driven := .empty
  outgoing := .empty
  ready := false
  finished := false
  claimed := false
  offered := none
  connection := none

def ident (s : Slot) : Ident := s.device.ident

def name (s : Slot) : String := s.device.name

def isHost (s : Slot) : Bool := s.device.host

/-- Finished participants count as ready. -/
def isReady (s : Slot) : Bool := s.ready || s.finished

/-- What the participant drives on a signal: released wires if it drives nothing there. -/
def drives (s : Slot) (name : String) : Bundle :=
  match s.driven.get? name with
  | some v => v
  | none => .released ((s.widths.get? name).getD 1)

/-- The level the participant drives on wire 0 of a signal. -/
def drivesBit (s : Slot) (name : String) : Level := s.driven.bit name

/-- Sets what the participant is shown of a signal. -/
def send (s : Slot) (name : String) (value : Bundle) : Slot :=
  { s with outgoing := s.outgoing.insert name value }

def sendBit (s : Slot) (name : String) (level : Level) : Slot := s.send name (.ofLevel level)

/-- Binds the slot to a connection. Everything it may drive starts released. -/
def claim (s : Slot) (connection : ConnectionKey) (options : Options) (widths : Widths) : Slot :=
  { s with
    options, widths
    driven := widths.filled .released
    connection := some connection
    claimed := true }

/-- Takes an offer; signals that it does not mention keep their values. -/
def offer (s : Slot) (time : Time) (signals : Signals) : Slot :=
  { s with driven := signals.over s.driven, offered := some time, ready := true }

/-- Retires the participant: it drives nothing and counts as ready from now on. -/
def park (s : Slot) : Slot :=
  { s with
    driven := s.driven.mapValues fun _ v => .released v.width
    ready := true
    finished := true }

def unbind (s : Slot) : Slot := { s with connection := none }

/-- An unfinished participant has to offer again before the next step. -/
def rearm (s : Slot) : Slot := if s.finished then s else { s with ready := false }

end Slot

/-- The slots of a bus, in the order of their numbers. -/
abbrev Participants := SortedMap Ident Slot

namespace Participants

def ofDevices (devices : List Device) : Participants :=
  .ofList (devices.map fun d => (d.ident, Slot.vacant d))

/-- The first slot, in the order of numbers, that satisfies `p`. -/
def find? (ps : Participants) (p : Slot → Bool) : Option Slot := ps.values.find? p

def named? (ps : Participants) (name : String) : Option Slot := ps.find? (·.name = name)

/-- The number of the host of a paired bus. -/
def host? (ps : Participants) : Option Ident := (ps.find? (·.isHost)).map (·.ident)

/-- The number of the other end of a paired bus. -/
def device? (ps : Participants) : Option Ident := (ps.find? (!·.isHost)).map (·.ident)

def allReady (ps : Participants) : Bool := ps.values.all (·.isReady)

def allFinished (ps : Participants) : Bool := ps.values.all (·.finished)

def each (ps : Participants) (f : Slot → Slot) : Participants := ps.mapValues fun _ s => f s

end Participants

end Lockstep
