import Lockstep.Bus.Participant
/-!
# What a bus records of itself

While it runs, a bus records two kinds of things: every value its engine publishes, for whoever traces the
bus, and notices of what happened to it, for its log. Records have no influence on what participants see.
-/

namespace Lockstep

/-- How much a notice matters. -/
inductive Severity where
  | error
  | warning
  | info
  | debug
  | trace
deriving DecidableEq

def Severity.text : Severity → String
  | .error => "ERROR"
  | .warning => "WARN"
  | .info => "INFO"
  | .debug => "DEBUG"
  | .trace => "TRACE"

/-- A value that an engine publishes. -/
inductive Publication where
  /-- A signal will be published at a width. -/
  | declare (name : String) (width : Nat)
  /-- The time of the publications that follow. -/
  | time (time : Time)
  | signal (name : String) (value : Bundle)
deriving DecidableEq

/-- Something that happened to a bus. -/
inductive BusNotice where
  | connected (name : String) (ident : Ident)
  | offeredAhead (name : String) (offered now : Time)
  | left (name : String)
  | assembled (count : Nat) (protocol : Protocol)
  | tornDownEarly
  | ended (steps : Nat) (time : Time)
  | pointToPointLink (toDevice toHost : Nat)
  | axi4Link (data address id : Nat)
  | pcieLink (width : Nat)
  | pciBus (count : Nat)
  | released (ident : Ident)
  | tookUngranted (ident : Ident)
  | became (ident : Ident)
deriving DecidableEq

namespace BusNotice

def severity : BusNotice → Severity
  | .connected .. | .left _ | .assembled .. | .ended .. => .info
  | .tornDownEarly | .tookUngranted _ => .warning
  | _ => .debug

/-- What the log says, after the name of the bus. -/
def message : BusNotice → String
  | .connected name ident => s!"device '{name}' connected as ident {ident}"
  | .offeredAhead name offered now => s!"'{name}' offered {offered} ahead of bus time {now}"
  | .left name => s!"device '{name}' finished"
  | .assembled count protocol => s!"assembled {count} participants, running {protocol}"
  | .tornDownEarly => "torn down with participants still attached"
  | .ended steps time => s!"finished after {steps} steps at {time}"
  | .pointToPointLink toDevice toHost => s!"p2p link {toDevice} bits to device, {toHost} bits to host"
  | .axi4Link data address id => s!"axi4 data {data} addr {address} id {id}"
  | .pcieLink width => s!"pcie link {width} bits wide"
  | .pciBus count => s!"pci bus with {count} participants"
  | .released ident => s!"device {ident} released the bus"
  | .tookUngranted ident => s!"device {ident} asserted FRAME# without holding GNT#"
  | .became ident => s!"device {ident} is bus master"

def text (bus : String) (n : BusNotice) : String := s!"{bus}: {n.message}"

end BusNotice

/-- One record, in the order in which things happened. -/
inductive Record where
  | published (p : Publication)
  | noticed (n : BusNotice)
deriving DecidableEq

namespace Record

def publications (rs : List Record) : List Publication :=
  rs.filterMap fun | .published p => some p | .noticed _ => none

def notices (rs : List Record) : List BusNotice :=
  rs.filterMap fun | .published _ => none | .noticed n => some n

end Record

/-! ### The log -/

/-- A line of the log. -/
structure LogLine where
  severity : Severity
  text : String
deriving DecidableEq

def BusNotice.logLine (bus : String) (n : BusNotice) : LogLine := ⟨n.severity, n.text bus⟩

/-- The log of some records when publications are logged too: each of them with the time that was published
before it. The result holds the last published time. -/
def Record.logWithTrace (bus : String) (now : Time) : List Record → List LogLine × Time
  | [] => ([], now)
  | .noticed n :: rs =>
    let (ls, last) := logWithTrace bus now rs
    (n.logLine bus :: ls, last)
  | .published (.time t) :: rs => logWithTrace bus t rs
  | .published (.declare name width) :: rs =>
    let (ls, last) := logWithTrace bus now rs
    (⟨.trace, s!"{bus}: declare {name} [{width}]"⟩ :: ls, last)
  | .published (.signal name value) :: rs =>
    let (ls, last) := logWithTrace bus now rs
    (⟨.trace, s!"{bus} @{now}: {name} = {value}"⟩ :: ls, last)

def Record.log (bus : String) (rs : List Record) : List LogLine :=
  (Record.notices rs).map (·.logLine bus)

end Lockstep
