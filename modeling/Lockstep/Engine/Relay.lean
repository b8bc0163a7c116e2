import Lockstep.Bus.Record
/-!
# Links and relays

A paired bus links a host to a device. Its engine copies each signal of a table from the end that drives it to
the end that receives it, where it may have another name. An end that has left, or that is not there, is
relayed as released wires.
-/

namespace Lockstep

/-- Which end of a link drives a signal. -/
inductive Direction where
  | hostToDevice
  | deviceToHost
deriving DecidableEq

/-- The two ends of a paired bus. -/
structure Link where
  host : Ident
  device : Ident
deriving DecidableEq

namespace Link

/-- The first host and the first other device of a bus. -/
def find (ps : Participants) : Except EngineError Link :=
  match ps.host?, ps.device? with
  | none, _ => .error (.missingRole .host)
  | some _, none => .error (.missingRole .device)
  | some host, some device => .ok ⟨host, device⟩

def driver (l : Link) : Direction → Ident
  | .hostToDevice => l.host
  | .deviceToHost => l.device

def receiver (l : Link) : Direction → Ident
  | .hostToDevice => l.device
  | .deviceToHost => l.host

end Link

/-- A signal that is copied from one end of a link to the other. -/
structure RelaySignal where
  /-- The name that the driving end uses. -/
  source : String
  /-- The name that the receiving end sees. -/
  target : String
  width : Nat
  direction : Direction
  /-- The name under which the value is published. -/
  published : String
deriving DecidableEq

namespace RelaySignal

def same (name : String) (width : Nat) (direction : Direction) : RelaySignal :=
  ⟨name, name, width, direction, name⟩

/-- A signal that changes its name on the way. It is published as a signal of its driving end. -/
def crossed (source target : String) (width : Nat) (direction : Direction) : RelaySignal :=
  let side := match direction with
    | .hostToDevice => "host"
    | .deviceToHost => "device"
  ⟨source, target, width, direction, s!"{side}.{source}"⟩

def value (r : RelaySignal) (link : Link) (ps : Participants) : Bundle :=
  match ps.get? (link.driver r.direction) with
  | some slot => if slot.finished then .released r.width else slot.drives r.source
  | none => .released r.width

end RelaySignal

/-- The signals of a link that have wires. -/
structure RelayTable where
  signals : List RelaySignal
deriving DecidableEq

namespace RelayTable

/-- Signals without wires are left out. -/
def ofList (rs : List RelaySignal) : RelayTable := ⟨rs.filter fun r => 0 < r.width⟩

/-- The first signal that its driving end calls `source`. -/
def get? (t : RelayTable) (source : String) : Option RelaySignal :=
  t.signals.find? (·.source = source)

def drivenBy (t : RelayTable) (host : Bool) : Widths :=
  let direction := if host then Direction.hostToDevice else .deviceToHost
  .ofList ((t.signals.filter (·.direction = direction)).map fun r => (r.source, r.width))

def declarations (t : RelayTable) : List Publication :=
  t.signals.map fun r => .declare r.published r.width

/-- What is published when the table is relayed. -/
def publications (t : RelayTable) (link : Link) (ps : Participants) : List Publication :=
  t.signals.map fun r => .signal r.published (r.value link ps)

/-- Copies every value to the end that receives it. -/
def relay (t : RelayTable) (link : Link) (ps : Participants) : Participants :=
  t.signals.foldl (fun acc r =>
    acc.modify (link.receiver r.direction) fun slot => slot.send r.target (r.value link ps)) ps

end RelayTable

/-- The wires of a paired bus whose two ends have agreed. -/
structure Wiring where
  link : Link
  table : RelayTable
deriving DecidableEq

end Lockstep
