import Lockstep.Proofs.Server.Run
import Mathlib.Logic.Function.Basic
/-!
# Participants that take turns

One bus of a server is played by one participant for each of its devices. A participant connects, introduces itself,
and after each message that lets it go on (YOU-ARE or an UNTIL) takes one turn: a line of any content, bytes that are
no line, or the end of its stream, as a function of what it has received (`Player`). Everything else is left open: a
`Play` proceeds by moves in any order, namely the next act of some participant, a service pass, or an event that
concerns other buses of the server.
-/

namespace Lockstep

inductive Turn where
  | line (text : String)
  /-- Bytes that cannot be cut into lines. -/
  | malformed (cause : LineError)
  | close

def Turn.event (k : ConnectionKey) : Turn → ServerEvent
  | .line text => .line k text
  | .malformed cause => .malformed k cause
  | .close => .closed k

/-- How the device of a name is played. -/
structure Play.Player (name : String) where
  greeting : String
  options : Options
  /-- It introduces itself by its own name. -/
  greets : Message.decode greeting = .ok (.hello name options)
  /-- Its turn, after all that it has received. -/
  turn : List Message → Turn

/-- Messages after which a participant takes a turn. -/
def Message.invites : Message → Bool
  | .youAre _ | .deliver .. => true
  | _ => false

/-- Where a participant stands. Its first turn is its greeting. -/
structure Seat (κ : Type) where
  connection : Option κ
  turns : Nat
  received : List Message

namespace Seat

variable {κ : Type}

def empty : Seat κ := ⟨none, 0, []⟩

/-- The turn that is due: the greeting, and then one turn for each message that invites to it. -/
def next? {name : String} (player : Play.Player name) (seat : Seat κ) : Option Turn :=
  match seat.turns with
  | 0 => some (.line player.greeting)
  | n + 1 =>
    match seat.received[n]? with
    | some m => if m.invites then some (player.turn (seat.received.take (n + 1))) else none
    | none => none

/-- The place after a turn to which the server replies with some messages. -/
def took (seat : Seat κ) (reply : List Message) : Seat κ :=
  { seat with turns := seat.turns + 1, received := seat.received ++ reply }

/-- The place after some actions of the server. -/
def receive (actions : List ServerAction) (seat : Seat ConnectionKey) : Seat ConnectionKey :=
  match seat.connection with
  | none => seat
  | some k => { seat with received := seat.received ++ Server.sentTo k actions }

end Seat

/-- The devices of a list, each with the knowledge that it is one of them. -/
abbrev Member (devices : List Device) := { d : Device // d ∈ devices }

/-- A server, one bus of which is played, with the place of everybody who plays. -/
structure Play (devices : List Device) where
  server : Server
  seats : Member devices → Seat ConnectionKey

namespace Play

variable {devices : List Device}

inductive Move (devices : List Device) where
  /-- A participant connects, under some name of its stream, or takes the turn that is due. -/
  | act (d : Member devices) (peer : String)
  | service
  /-- Something happens that concerns other buses. -/
  | other (e : ServerEvent)

def start (s : Server) : Play devices := ⟨s, fun _ => .empty⟩

def after (p : Play devices) (r : Server.Outcome) : Play devices := ⟨r.1, fun d => (p.seats d).receive r.2⟩

/-- A participant opens a stream to bus `n`, and has a connection if the stream was accepted. -/
def connect (n : Nat) (p : Play devices) (d : Member devices) (peer : String) : Play devices :=
  let s := (p.server.handle (.accepted n peer)).1
  let key := if s.connections.contains p.server.nextKey then some p.server.nextKey else none
  ⟨s, Function.update p.seats d { p.seats d with connection := key }⟩

/-- The next act of a participant, if there is one. -/
def act (n : Nat) (players : ∀ d : Member devices, Player d.val.name) (p : Play devices) (d : Member devices)
    (peer : String) : Play devices :=
  match (p.seats d).connection with
  | none => p.connect n d peer
  | some k =>
    match (p.seats d).next? (players d) with
    | none => p
    | some turn =>
      after ⟨p.server, Function.update p.seats d ((p.seats d).took [])⟩ (p.server.handle (turn.event k))

def move (n : Nat) (players : ∀ d : Member devices, Player d.val.name) (p : Play devices) :
    Move devices → Play devices
  | .act d peer => p.act n players d peer
  | .service => p.after p.server.service
  | .other e => if p.server.concerns n e then p else p.after (p.server.handle e)

def run (n : Nat) (players : ∀ d : Member devices, Player d.val.name) (p : Play devices)
    (moves : List (Move devices)) : Play devices :=
  moves.foldl (fun p m => p.move n players m) p

end Play

end Lockstep
