import Lockstep.Engine
import Lockstep.Message.Codec
/-!
# A simulated bus

A bus keeps its participants in lockstep. Each participant is admitted once by a handshake; afterwards the bus
takes one step whenever every participant is ready, moves its clock to the next phase and delivers to each
participant what it sees. A participant that leaves, breaks the protocol or loses its connection is retired,
and the others go on without it.
-/

namespace Lockstep

/-- Why a handshake is refused. -/
inductive Rejection where
  | shutDown
  | noSuchDevice
  | alreadyConnected
  | engine (cause : EngineError)
deriving DecidableEq

def Rejection.message : Rejection → String
  | .shutDown => "the bus has shut down"
  | .noSuchDevice => "no such device"
  | .alreadyConnected => "the device has already connected"
  | .engine cause => cause.message

/-- What a participant did out of turn. -/
inductive Violation where
  | noSuchParticipant
  | readyAfterFinish
  | readyTwice
  | unexpected (command : Command)
  | beforeHello (command : Command)
deriving DecidableEq

def Violation.message : Violation → String
  | .noSuchParticipant => "no such participant"
  | .readyAfterFinish => "READY after FINISH"
  | .readyTwice => "READY sent twice without waiting for UNTIL"
  | .unexpected command => s!"unexpected {command} after the handshake"
  | .beforeHello command => s!"{command} before HELLO"

/-- Why a bus has no use for a participant. -/
inductive ParticipantError where
  | rejected (bus name : String) (reason : Rejection)
  | malformed (bus peer : String) (cause : LineError)
  | violation (bus device : String) (reason : Violation)
  | disconnected (bus device : String)
deriving DecidableEq

def ParticipantError.message : ParticipantError → String
  | .rejected bus name reason => s!"Bus '{bus}' rejected device '{name}': {reason.message}"
  | .malformed bus peer cause => s!"Bus '{bus}': malformed message from {peer}: {cause}"
  | .violation bus device reason =>
    s!"Bus '{bus}': device '{device}' violated the protocol: {reason.message}"
  | .disconnected bus device => s!"Bus '{bus}': device '{device}' disconnected"

instance : ToString ParticipantError := ⟨ParticipantError.message⟩

/-- Why a bus cannot go on. -/
inductive AdvanceError where
  | engine (cause : EngineError)
  | time (cause : Time.Error)
deriving DecidableEq

def AdvanceError.message : AdvanceError → String
  | .engine cause => cause.message
  | .time cause => cause.message

instance : ToString AdvanceError := ⟨AdvanceError.message⟩

/-- What a message from a participant amounted to. -/
inductive Received where
  /-- The participant offers its signals for the next step. -/
  | ready
  /-- The participant has left. -/
  | finished
deriving DecidableEq

/-- A message for a connection. -/
abbrev Delivery := ConnectionKey × Message

/-- What became of an attempt to step. -/
inductive Advance where
  /-- Some participant is not ready yet, or the bus is torn down. -/
  | waiting
  | stepped (deliveries : List Delivery)
  | failed (cause : AdvanceError)
deriving DecidableEq

structure Bus where
  config : BusConfig
  participants : Participants
  engine : Engine
  clock : Clock
  time : Time
  /-- All participants have connected, and the engine runs. -/
  assembled : Bool
  /-- The bus has been torn down. -/
  finished : Bool
  steps : Nat
deriving DecidableEq

namespace Bus

/-- A bus of which the devices, the clock and the options make sense. -/
def ofConfig (c : BusConfig) : Except ConfigError Bus :=
  match c.fault? with
  | some e => .error e
  | none =>
    match Engine.ofConfig c with
    | .error e => .error (.engine c.name e)
    | .ok engine => .ok {
        config := c
        participants := .ofDevices c.devices
        engine
        clock := .start c.clock
        time := .zero
        assembled := false
        finished := false
        steps := 0 }

def name (b : Bus) : String := b.config.name

def address (b : Bus) : Address := b.config.address

def allReady (b : Bus) : Bool := b.participants.allReady

def allFinished (b : Bus) : Bool := b.participants.allFinished

def modifySlot (b : Bus) (ident : Ident) (f : Slot → Slot) : Bus :=
  { b with participants := b.participants.modify ident f }

/-! ### Handshake -/

/-- The slot a handshake would claim, with the signals its participant may drive. -/
def admits (b : Bus) (name : String) (options : Options) : Except Rejection (Slot × Widths) :=
  if b.finished then .error .shutDown
  else match b.participants.named? name with
    | none => .error .noSuchDevice
    | some slot =>
      if slot.claimed then .error .alreadyConnected
      else match b.engine.driven slot.device options with
        | .error e => .error (.engine e)
        | .ok widths => .ok (slot, widths)

/-- Matches a handshake to the free slot of a device, and binds it to a connection. -/
def handshake (b : Bus) (connection : ConnectionKey) (name : String) (options : Options) :
    Except ParticipantError Ident × Bus × List Record :=
  match b.admits name options with
  | .error reason => (.error (.rejected b.name name reason), b, [])
  | .ok (slot, widths) =>
    (.ok slot.ident, b.modifySlot slot.ident (·.claim connection options widths),
      [.noticed (.connected name slot.ident)])

/-! ### Messages -/

/-- Checks the signals of an offer against what the participant may drive. -/
def checkOffer (b : Bus) (ident : Ident) (m : Message) : Except LineError Message :=
  match m, b.participants.get? ident with
  | .ready _ signals, some slot =>
    match slot.widths.fault? signals with
    | some fault => .error (.misfit fault)
    | none => .ok m
  | _, _ => .ok m

def decode (b : Bus) (ident : Ident) (line : String) : Except LineError Message := do
  b.checkOffer ident (← Message.decode line)

/-- Retires a participant and forgets its connection. -/
def retire (b : Bus) (ident : Ident) : Bus := b.modifySlot ident (·.park.unbind)

/-- What a message amounts to when it comes from a participant in a given state. -/
def judge (slot : Slot) : Message → Except Violation Received
  | .ready .. =>
    if slot.finished then .error .readyAfterFinish
    else if slot.isReady then .error .readyTwice
    else .ok .ready
  | .finish => .ok .finished
  | m => .error (.unexpected m.command)

/-- The record of an offer that is ahead of the bus. -/
def offerRecord (b : Bus) (slot : Slot) (time : Time) : List Record :=
  if time.cmp b.time = .gt then [.noticed (.offeredAhead slot.name time b.time)] else []

/-- Applies a message of a participant. A message out of turn retires the participant. -/
def receive (b : Bus) (ident : Ident) (m : Message) :
    Except ParticipantError Received × Bus × List Record :=
  match b.participants.get? ident with
  | none => (.error (.violation b.name (toString ident) .noSuchParticipant), b, [])
  | some slot =>
    match judge slot m, m with
    | .error reason, _ => (.error (.violation b.name slot.name reason), b.retire ident, [])
    | .ok .ready, .ready time signals =>
      (.ok .ready, b.modifySlot ident (·.offer time signals), b.offerRecord slot time)
    | .ok outcome, _ => (.ok outcome, b.retire ident, [.noticed (.left slot.name)])

/-- Takes note that a participant lost its connection. Unless it had finished before, it leaves the bus with
this, and the error says so. -/
def disconnect (b : Bus) (ident : Ident) : Option ParticipantError × Bus :=
  match b.participants.get? ident with
  | none => (none, b)
  | some slot =>
    if slot.finished then (none, b.modifySlot ident (·.unbind))
    else (some (.disconnected b.name slot.name), b.retire ident)

/-! ### Steps -/

/-- The first step assembles the bus: the engine compares all options and shows participants what there is
before the first step. -/
def assemble (b : Bus) : Except EngineError (Bus × List Record) :=
  if b.assembled then .ok (b, [])
  else match b.engine.wrapUp b.participants with
    | .error e => .error e
    | .ok (engine, notice) =>
      let (participants, records) := engine.init b.clock.phase b.participants
      .ok ({ b with engine, participants, assembled := true },
        .noticed notice :: records ++ [.noticed (.assembled participants.size engine.protocol)])

/-- What goes out after a step: one delivery for each connected participant still on the bus. -/
def deliveries (time : Time) (ps : Participants) : List Delivery :=
  ps.values.filterMap fun slot =>
    if slot.finished then none
    else slot.connection.map fun key => (key, .deliver time slot.outgoing)

/-- Moves the clock on and lets the engine resolve all drives. If the time does not fit, nothing but the clock
has moved. -/
def step (b : Bus) : Advance × Bus × List Record :=
  let clock := b.clock.advance
  match b.time.add clock.elapsed with
  | .error e => (.failed (.time e), { b with clock }, [])
  | .ok time =>
    let (engine, participants, records) := b.engine.step clock.phase b.participants
    (.stepped (deliveries time participants),
      { b with clock, time, engine, participants := participants.each (·.rearm), steps := b.steps + 1 },
      .published (.time time) :: records)

/-- Takes one step if every participant is ready. -/
def advance (b : Bus) : Advance × Bus × List Record :=
  if b.finished || !b.allReady then (.waiting, b, [])
  else match b.assemble with
    | .error e => (.failed (.engine e), b, [])
    | .ok (b, records) =>
      let (outcome, b, more) := b.step
      (outcome, b, records ++ more)

/-! ### The end of a bus -/

/-- The connections still bound to the slots of a bus. -/
def boundConnections (ps : Participants) : List ConnectionKey := ps.values.filterMap (·.connection)

/-- Ends the simulation and releases every connection. A second time there is nothing left to end. -/
def tearDown (b : Bus) : List ConnectionKey × Bus × List Record :=
  if b.finished then ([], b, [])
  else
    let early := if b.allFinished then [] else [.noticed .tornDownEarly]
    (boundConnections b.participants,
      { b with finished := true, participants := b.participants.each (·.unbind) },
      early ++ [.noticed (.ended b.steps b.time)])

end Bus

end Lockstep
