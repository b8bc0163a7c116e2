import Lockstep.Bus
import Lockstep.Framer
/-!
# The server

A server owns any number of buses and the connections of their participants. It takes one event at a time
(a new connection, a line, a stream that could not be cut into lines, the end of a stream), and after any
number of events it services its buses: each bus on which every participant is ready takes a step, and a bus
on which every participant has finished is torn down.

Every operation returns the new state and what the server does to the outside, in order.
-/

namespace Lockstep

/-- A live stream of a participant. -/
structure Connection where
  /-- The place of its bus in the list of buses. -/
  bus : Nat
  /-- The number of its participant, once a handshake has been accepted. -/
  ident : Option Ident
  /-- What the other end is called in the log. -/
  peer : String
deriving DecidableEq

/-- Something that a server notes down. -/
inductive ServerNotice where
  | notStarted (bus : String) (cause : ConfigError)
  | refused (cause : ParticipantError)
  | impliedFinish (cause : ParticipantError)
  | failed (bus : String) (cause : AdvanceError)
  | ofBus (bus : String) (notice : BusNotice)
deriving DecidableEq

def ServerNotice.logLine : ServerNotice → LogLine
  | .notStarted bus cause => ⟨.error, s!"bus '{bus}' not started: {cause}"⟩
  | .refused cause => ⟨.warning, cause.message⟩
  | .impliedFinish cause => ⟨.info, s!"{cause}, treating as FINISH"⟩
  | .failed bus cause => ⟨.error, s!"{bus}: {cause}"⟩
  | .ofBus bus notice => notice.logLine bus

/-- What reaches the server from outside. -/
inductive ServerEvent where
  /-- Somebody connected to a bus. -/
  | accepted (bus : Nat) (peer : String)
  /-- A complete line arrived. -/
  | line (connection : ConnectionKey) (text : String)
  /-- A stream cannot be cut into lines any further. -/
  | malformed (connection : ConnectionKey) (cause : LineError)
  /-- A stream ended. -/
  | closed (connection : ConnectionKey)
deriving DecidableEq

/-- What the server does to the outside. -/
inductive ServerAction where
  | send (connection : ConnectionKey) (message : Message)
  | close (connection : ConnectionKey)
  | note (notice : ServerNotice)
deriving DecidableEq

structure Server where
  /-- The longest line accepted from a participant, in bytes. -/
  lineLimit : Nat
  buses : List Bus
  connections : SortedMap ConnectionKey Connection
  /-- The number of the next connection; the first 2⁶⁴ connections have different ones. -/
  nextKey : ConnectionKey
  listening : Bool
deriving DecidableEq

/-- How a bus ended. -/
structure BusSummary where
  name : String
  assembled : Bool
  steps : Nat
  time : Time
deriving DecidableEq

namespace Server

/-! ### Construction -/

/-- What keeps a bus from being served beside the others. -/
def clash? (others : List Bus) (c : BusConfig) : Option ConfigError :=
  others.findSome? fun b =>
    if b.name = c.name then some (.duplicateBusName c.name)
    else if b.address.collides c.address then some (.duplicateAddress c.name c.address)
    else none

/-- The bus of a configuration, unless it is at fault or in the way of another bus. -/
def build (others : List Bus) (c : BusConfig) : Except ConfigError Bus :=
  match clash? others c with
  | some e => .error e
  | none => Bus.ofConfig c

/-- The buses that can be served beside `others`, and what is noted of the rest. -/
def buildAll (others : List Bus) : List BusConfig → List Bus × List ServerNotice
  | [] => (others, [])
  | c :: cs =>
    match build others c with
    | .ok b => buildAll (others ++ [b]) cs
    | .error e =>
      let (buses, notices) := buildAll others cs
      (buses, .notStarted c.name e :: notices)

/-- What is said when no bus can be served. -/
def noBusesMessage : String := "No valid bus is configured"

/-- A server of all buses that can be served together, if there are any. -/
def ofConfigs (configs : List BusConfig) (lineLimit : Nat) : Option Server × List ServerNotice :=
  let (buses, notices) := buildAll [] configs
  if buses.isEmpty then (none, notices)
  else (some {
    lineLimit, buses
    connections := .empty
    nextKey := 0
    listening := false }, notices)

/-- Opens a listener for every bus that has none, and names the buses concerned. -/
def listen (s : Server) : List String × Server :=
  if s.listening then ([], s)
  else ((s.buses.filter fun b => !b.finished).map Bus.name, { s with listening := true })

def finished (s : Server) : Bool := s.buses.all (·.finished)

/-- The place of the bus of a name among those that still listen. -/
def openBus? (s : Server) (name : String) : Option Nat :=
  s.buses.findIdx? fun b => b.name = name && !b.finished

def summaries (s : Server) : List BusSummary :=
  s.buses.map fun b => ⟨b.name, b.assembled, b.steps, b.time⟩

/-! ### Sequences of operations -/

/-- A state with everything done on the way to it. -/
abbrev Outcome := Server × List ServerAction

def Outcome.andThen (r : Outcome) (f : Server → Outcome) : Outcome :=
  let (s, actions) := f r.1
  (s, r.2 ++ actions)

/-- Does the same for each element of a list in turn. -/
def forEach {α : Type} (s : Server) (xs : List α) (f : α → Server → Outcome) : Outcome :=
  xs.foldl (fun r x => Outcome.andThen r (f x)) (s, [])

def setBus (s : Server) (index : Nat) (b : Bus) : Server := { s with buses := s.buses.set index b }

/-- The notices among the records of a bus. -/
def notes (b : Bus) (records : List Record) : List ServerAction :=
  (Record.notices records).map fun n => .note (.ofBus b.name n)

/-! ### Connections -/

/-- Forgets a connection, without touching its slot. -/
def closeConnection (key : ConnectionKey) (s : Server) : Outcome :=
  if s.connections.contains key then ({ s with connections := s.connections.erase key }, [.close key])
  else (s, [])

/-- Forgets a connection that went away on its own. A participant behind it has thereby finished. -/
def dropConnection (key : ConnectionKey) (s : Server) : Outcome :=
  match s.connections.get? key with
  | none => (s, [])
  | some c =>
    let (s, actions) :=
      match c.ident, s.buses[c.bus]? with
      | some ident, some b =>
        let (error, b) := b.disconnect ident
        (s.setBus c.bus b, error.toList.map fun e => .note (.impliedFinish e))
      | _, _ => (s, [])
    Outcome.andThen (s, actions) (closeConnection key)

/-- Takes in a new connection, unless its bus has been torn down. -/
def accept (index : Nat) (peer : String) (s : Server) : Outcome :=
  match s.buses[index]? with
  | none => (s, [])
  | some b =>
    if b.finished then (s, [])
    else ({ s with
      connections := s.connections.insert s.nextKey ⟨index, none, peer⟩
      nextKey := s.nextKey + 1 }, [])

/-! ### Lines -/

/-- Handles the first line of a connection, which has to be a handshake. Only a handshake that the bus refuses
is answered with a refusal. -/
def handleFirst (key : ConnectionKey) (c : Connection) (b : Bus) (line : String) (s : Server) : Outcome :=
  match Message.decode line with
  | .ok (.hello name options) =>
    match b.handshake key name options with
    | (.ok ident, b, records) =>
      let s := s.setBus c.bus b
      ({ s with connections := s.connections.modify key fun c => { c with ident := some ident } },
        notes b records ++ [.send key (.youAre ident)])
    | (.error e, b, records) =>
      Outcome.andThen (s.setBus c.bus b, notes b records ++ [.note (.refused e), .send key .nak])
        (closeConnection key)
  | .ok m =>
    Outcome.andThen (s, [.note (.refused (.violation b.name c.peer (.beforeHello m.command)))])
      (closeConnection key)
  | .error cause =>
    Outcome.andThen (s, [.note (.refused (.malformed b.name c.peer cause))]) (closeConnection key)

/-- Reads and applies a line of an admitted participant. -/
def takeLine (c : Connection) (b : Bus) (ident : Ident) (line : String) :
    Except ParticipantError Received × Bus × List Record :=
  match b.decode ident line with
  | .error cause => (.error (.malformed b.name c.peer cause), b, [])
  | .ok m => b.receive ident m

/-- Handles a line of an admitted participant. -/
def handleNext (key : ConnectionKey) (c : Connection) (b : Bus) (ident : Ident) (line : String)
    (s : Server) : Outcome :=
  match takeLine c b ident line with
  | (.ok .ready, b, records) => (s.setBus c.bus b, notes b records)
  | (.ok .finished, b, records) =>
    Outcome.andThen (s.setBus c.bus b, notes b records ++ [.send key .finish]) (closeConnection key)
  | (.error e, b, records) =>
    Outcome.andThen (s.setBus c.bus (b.disconnect ident).2, notes b records ++ [.note (.refused e)])
      (closeConnection key)

/-- Handles a line. Lines of connections that are gone are ignored. -/
def handleLine (key : ConnectionKey) (line : String) (s : Server) : Outcome :=
  match s.connections.get? key with
  | none => (s, [])
  | some c =>
    match s.buses[c.bus]?, c.ident with
    | none, _ => (s, [])
    | some b, none => handleFirst key c b line s
    | some b, some ident => handleNext key c b ident line s

/-- The notice of a stream that could not be cut into lines. -/
def malformedNotes (s : Server) (key : ConnectionKey) (cause : LineError) : List ServerAction :=
  match s.connections.get? key with
  | none => []
  | some c =>
    match s.buses[c.bus]? with
    | none => []
    | some b => [.note (.refused (.malformed b.name c.peer cause))]

def handle (s : Server) : ServerEvent → Outcome
  | .accepted index peer => s.accept index peer
  | .line key text => s.handleLine key text
  | .malformed key cause => Outcome.andThen (s, s.malformedNotes key cause) (dropConnection key)
  | .closed key => s.dropConnection key

/-! ### Service -/

def connectionsOf (s : Server) (index : Nat) : List ConnectionKey :=
  (s.connections.entries.filter fun e => e.2.bus = index).map (·.1)

/-- Ends a bus and closes all its connections. -/
def tearDown (index : Nat) (s : Server) : Outcome :=
  match s.buses[index]? with
  | none => (s, [])
  | some b =>
    let (bound, b, records) := b.tearDown
    let s := s.setBus index b
    Outcome.andThen (s, notes b records) fun s =>
      s.forEach (bound ++ s.connectionsOf index) closeConnection

def sendAll (s : Server) (ds : List Delivery) : List ServerAction :=
  (ds.filter fun d => s.connections.contains d.1).map fun d => .send d.1 d.2

/-- Gives one bus the opportunity to step or to end. -/
def serviceBus (index : Nat) (s : Server) : Outcome :=
  match s.buses[index]? with
  | none => (s, [])
  | some b =>
    if b.finished then (s, [])
    else if b.allFinished then s.tearDown index
    else
      let (outcome, b, records) := b.advance
      let s := s.setBus index b
      match outcome with
      | .waiting => (s, notes b records)
      | .stepped ds => (s, notes b records ++ s.sendAll ds)
      | .failed e => Outcome.andThen (s, notes b records ++ [.note (.failed b.name e)]) (tearDown index)

def service (s : Server) : Outcome := s.forEach (List.range s.buses.length) serviceBus

/-- Handles events that arrived together, then services the buses. -/
def handleBatch (s : Server) (events : List ServerEvent) : Outcome :=
  Outcome.andThen (s.forEach events fun e s => s.handle e) service

end Server

end Lockstep
