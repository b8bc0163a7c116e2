import Lockstep.Server
/-!
# Sessions with a server

A session drives a server from the far ends of its connections: it opens streams to the buses, sends bytes,
ends streams, and sees what comes back on each of them. Whatever one input causes is settled before the next
one, and the lines in one piece of bytes reach the server together.
-/

namespace Lockstep

/-- What has become of a stream. -/
inductive StreamState where
  | live
  /-- The server has closed it. -/
  | cut
  /-- We have closed it. -/
  | left
deriving DecidableEq

/-- Our end of a connection. -/
structure Stream where
  key : ConnectionKey
  framer : Framer
  state : StreamState
deriving DecidableEq

structure Session where
  server : Server
  /-- The streams in the order in which they were opened; one that was refused keeps its place. -/
  streams : List (Option Stream)
deriving DecidableEq

/-- What is done at the far ends. -/
inductive SessionInput where
  | connect (bus : String)
  | send (stream : Nat) (bytes : List UInt8)
  /-- Ends our side of a stream and keeps the other side open. -/
  | endStream (stream : Nat)
  | close (stream : Nat)
deriving DecidableEq

/-- How an input went. -/
inductive SessionReply where
  | opened (stream : Nat)
  | refused
  | done
  /-- The server had closed the stream. -/
  | closed
  /-- There is no such stream. -/
  | gone
deriving DecidableEq

/-- What a stream has brought: text, and whether the server closed it. -/
structure Arrival where
  stream : Nat
  text : String
  ended : Bool
deriving DecidableEq

/-- What one input led to. -/
structure SessionResult where
  reply : SessionReply
  received : List Arrival
  notices : List ServerNotice
deriving DecidableEq

namespace Session

/-- What the server calls the far end of a stream to an address: a pipe goes by its path. -/
def peerName : Address → String
  | .pipe path => path
  | a => a.text

/-- A session with a server that has just begun to listen. -/
def start (s : Server) : Session := ⟨s, []⟩

/-- The text sent to a connection by some actions. -/
def textFor (key : ConnectionKey) (actions : List ServerAction) : String :=
  String.join (actions.filterMap fun
    | .send k m => if k = key then some m.line else none
    | _ => none)

/-- The connection is closed by one of some actions. -/
def closes (key : ConnectionKey) (actions : List ServerAction) : Bool :=
  actions.any (· = .close key)

/-- What some actions bring to the streams that we have not closed. -/
def arrivals (streams : List (Option Stream)) (actions : List ServerAction) : List Arrival :=
  streams.zipIdx.filterMap fun (stream?, n) => do
    let stream ← stream?
    let text := textFor stream.key actions
    let ended := closes stream.key actions
    if stream.state = .live && (!text.isEmpty || ended) then some ⟨n, text, ended⟩ else none

/-- Marks the streams that some actions close. -/
def markCut (actions : List ServerAction) (stream : Stream) : Stream :=
  if stream.state = .live && closes stream.key actions then { stream with state := .cut } else stream

def noticesOf (actions : List ServerAction) : List ServerNotice :=
  actions.filterMap fun
    | .note n => some n
    | _ => none

/-- Hands events to the server and looks at what comes back. -/
def deliver (s : Session) (reply : SessionReply) (events : List ServerEvent) : Session × SessionResult :=
  let (server, actions) := s.server.handleBatch events
  (⟨server, s.streams.map fun stream? => stream?.map (markCut actions)⟩,
    ⟨reply, arrivals s.streams actions, noticesOf actions⟩)

/-- An input that the server does not notice. -/
def unheard (s : Session) (reply : SessionReply) : Session × SessionResult := (s, ⟨reply, [], []⟩)

def setStream (s : Session) (n : Nat) (stream : Stream) : Session :=
  { s with streams := s.streams.set n (some stream) }

/-- Opens a stream to a bus that still listens. -/
def connect (s : Session) (bus : String) : Session × SessionResult :=
  let n := s.streams.length
  match s.server.openBus? bus, s.server.buses.find? (·.name = bus) with
  | some index, some b =>
    let stream : Stream := ⟨s.server.nextKey, .start s.server.lineLimit, .live⟩
    deliver { s with streams := s.streams ++ [some stream] } (.opened n)
      [.accepted index (peerName b.address)]
  | _, _ => unheard { s with streams := s.streams ++ [none] } .refused

/-- The events that bytes on a stream lead to: its complete lines, and the fault that stops it. -/
def lineEvents (key : ConnectionKey) (framer : Framer) : List ServerEvent × Framer :=
  let (lines, fault, framer) := framer.drain
  (lines.map (.line key) ++ fault.toList.map (.malformed key), framer)

def stream? (s : Session) (n : Nat) : Option Stream := s.streams[n]?.join

def send (s : Session) (n : Nat) (bytes : List UInt8) : Session × SessionResult :=
  match s.stream? n with
  | none => s.unheard .gone
  | some stream =>
    match stream.state with
    | .left => s.unheard .gone
    | .cut => s.unheard .closed
    | .live =>
      let (events, framer) := lineEvents stream.key (stream.framer.push bytes)
      (s.setStream n { stream with framer }).deliver .done events

def endStream (s : Session) (n : Nat) : Session × SessionResult :=
  match s.stream? n with
  | none => s.unheard .done
  | some stream =>
    if stream.state = .live then s.deliver .done [.closed stream.key] else s.unheard .done

/-- Closes a stream; nothing that comes back on it is looked at any more. -/
def close (s : Session) (n : Nat) : Session × SessionResult :=
  match s.stream? n with
  | none => s.unheard .gone
  | some stream =>
    let left := s.setStream n { stream with state := .left }
    match stream.state with
    | .left => s.unheard .gone
    | .cut => left.unheard .done
    | .live => left.deliver .done [.closed stream.key]

def step (s : Session) : SessionInput → Session × SessionResult
  | .connect bus => s.connect bus
  | .send n bytes => s.send n bytes
  | .endStream n => s.endStream n
  | .close n => s.close n

def run (s : Session) : List SessionInput → Session × List SessionResult
  | [] => (s, [])
  | i :: is =>
    let (s, r) := s.step i
    let (s, rs) := s.run is
    (s, r :: rs)

/-- The streams that were opened and that we have not closed. -/
def unclosed (s : Session) : List Nat :=
  s.streams.zipIdx.filterMap fun (stream?, n) => do
    let stream ← stream?
    if stream.state = .left then none else some n

/-- Closes every stream that is not closed yet, one by one. -/
def closeAll (s : Session) : Session × List (Nat × SessionResult) :=
  let (s', rs) := s.run (s.unclosed.map .close)
  (s', s.unclosed.zip rs)

end Session

end Lockstep
