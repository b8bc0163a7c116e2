import Lockstep.Server.Session
import Lockstep.Proofs.Message.Framing
import Lockstep.Proofs.Server.Run
/-!
# A server and the clients of one of its buses

Each device of a bus is played by a client, at a station that has a stream to the server. Neither side sees the other:
a client makes one call after the other, and a call writes its message, waits, and returns as soon as what has arrived
decides its result; the server takes the events that its readers announce, in any order that keeps those of each
stream in order, and serves its buses whenever it likes. In between, bytes travel both ways in pieces of any size, and
other buses of the server do as they please. `Network.Step` lists what can happen next, and `Network.Run` collects what
is observed meanwhile: what the server notes of these streams, and how each call returns.

The calls are those of `Attached`, the readers are `Session.lineEvents` and `Incoming.next`, the server is `Server`.
-/

namespace Lockstep

/-- What a client is doing. While it is connecting, offering or leaving, it waits for the answer. -/
inductive Activity where
  | away
  | connecting (name : String) (options : Options)
  | idle (client : Client)
  | offering (client : Client) (drive : Signals)
  | leaving (client : Client)
  | gone

/-- A client, and its stream with the reader at the other end. The bytes `up` are on their way to the server, and the
bytes `down` on their way to the client. -/
structure Station where
  activity : Activity := .away
  up : List UInt8 := []
  /-- Behind these bytes, the end of the stream is on its way. -/
  hungUp : Bool := false
  /-- The number of the connection, once the server has accepted it. -/
  key : Option ConnectionKey := none
  framer : Framer := .start maxLineLength
  /-- What the reader has announced and the server has not taken. -/
  events : List ServerEvent := []
  down : List UInt8 := []
  /-- The server has closed the stream, behind these bytes. -/
  cut : Bool := false
  incoming : Incoming := ⟨.start maxLineLength, []⟩

namespace Station

/-! ### What happens at a station -/

def call (st : Station) (activity : Activity) (messages : List Message) : Station :=
  { st with activity, up := st.up ++ Message.stream messages }

/-- What has arrived decides what the client reads next. Bytes that do not complete a line decide it only if no more
can come. -/
def Decided (st : Station) : Prop :=
  st.incoming.next.1 ≠ .error .disconnected ∨ st.down = [] ∧ st.cut = true

/-- The server, which was `s` and is `s'`, has taken the stream in, or refused it. -/
def accepted (st : Station) (s s' : Server) : Station :=
  if s'.connections.contains s.nextKey then { st with key := some s.nextKey, framer := .start s.lineLimit }
  else { st with cut := true }

def read (st : Station) (k : ConnectionKey) (count : Nat) : Station :=
  let (events, framer) := Session.lineEvents k (st.framer.push (st.up.take count))
  { st with up := st.up.drop count, framer, events := st.events ++ events }

def readEnd (st : Station) (k : ConnectionKey) : Station :=
  { st with hungUp := false, events := st.events ++ [.closed k] }

def arrive (st : Station) (count : Nat) : Station :=
  { st with
    down := st.down.drop count
    incoming := { st.incoming with chunks := st.incoming.chunks ++ [st.down.take count] } }

/-- What some actions of the server mean to the stream. -/
def receive (st : Station) (actions : List ServerAction) : Station :=
  match st.key with
  | none => st
  | some k =>
    { st with
      down := st.down ++ Message.stream (Server.sentTo k actions)
      cut := st.cut || Session.closes k actions }

def connected (st : Station) : Except ClientError Attached → Station
  | .ok a => { st with activity := .idle a.client, incoming := a.incoming }
  | .error _ => { st with activity := .gone, hungUp := true }

def leave (st : Station) : Station := { st with activity := .gone, hungUp := true }

end Station

inductive Observation where
  | noted (notice : ServerNotice)
  /-- The call by which client `i` connects has returned. -/
  | connected (i : Ident) (result : Except ClientError Client)
  /-- An offer of client `i` has returned, and left it as `client`; meanwhile the bus is `bus`. -/
  | stepped (i : Ident) (result : Except ClientError Unit) (client : Client) (bus : Bus)
  /-- The farewell of client `i` has returned. -/
  | left (i : Ident) (result : Except ClientError Unit)

/-- A server with the clients of one of its buses, each at the number of its device. -/
structure Network where
  server : Server
  stations : Ident → Station

namespace Network

def update (w : Network) (i : Ident) (st : Station) : Network :=
  { w with stations := fun j => if j = i then st else w.stations j }

/-- The server has done something, which reaches all stations. -/
def after (w : Network) (r : Server.Outcome) : Network := ⟨r.1, fun i => (w.stations i).receive r.2⟩

def observed (actions : List ServerAction) : List Observation := (Session.noticesOf actions).map .noted

/-- What can happen next, if the clients are those of bus `n`. -/
inductive Step (n : Nat) (w : Network) : List Observation → Network → Prop where
  /-- A client connects under the name of its own device. Its options are words, and fit on a line. -/
  | connect (i : Ident) (options : Options) (b : Bus) (slot : Slot) (hb : w.server.buses[n]? = some b)
      (hs : b.participants.get? i = some slot) (away : (w.stations i).activity = .away)
      (sendable : (Message.hello slot.name options).Sendable maxLineLength) :
      Step n w [] (w.update i ((w.stations i).call (.connecting slot.name options)
        (Attached.connect slot.name options (w.stations i).incoming).2))
  | accept (i : Ident) (peer : String) (dialled : (w.stations i).activity ≠ .away)
      (new : (w.stations i).key = none) (uncut : (w.stations i).cut = false) :
      Step n w (observed (w.server.handle (.accepted n peer)).2)
        ((w.after (w.server.handle (.accepted n peer))).update i
          ((w.stations i).accepted w.server (w.server.handle (.accepted n peer)).1))
  | read (i : Ident) (k : ConnectionKey) (count : Nat) (hk : (w.stations i).key = some k) :
      Step n w [] (w.update i ((w.stations i).read k count))
  | readEnd (i : Ident) (k : ConnectionKey) (hk : (w.stations i).key = some k) (empty : (w.stations i).up = [])
      (hungUp : (w.stations i).hungUp = true) : Step n w [] (w.update i ((w.stations i).readEnd k))
  | handle (i : Ident) (e : ServerEvent) (events : List ServerEvent) (next : (w.stations i).events = e :: events) :
      Step n w (observed (w.server.handle e).2)
        ((w.update i { w.stations i with events }).after (w.server.handle e))
  | service : Step n w (observed w.server.service.2) (w.after w.server.service)
  /-- Something happens on another bus. What is noted of it does not count. -/
  | elsewhere (e : ServerEvent) (apart : w.server.concerns n e = false) :
      Step n w [] (w.after (w.server.handle e))
  | arrive (i : Ident) (count : Nat) : Step n w [] (w.update i ((w.stations i).arrive count))
  | connected (i : Ident) (name : String) (options : Options)
      (connecting : (w.stations i).activity = .connecting name options) (decided : (w.stations i).Decided) :
      Step n w [.connected i ((Attached.connect name options (w.stations i).incoming).1.map Attached.client)]
        (w.update i ((w.stations i).connected (Attached.connect name options (w.stations i).incoming).1))
  /-- A client offers signals that it may drive, at the agreed widths. -/
  | ready (i : Ident) (client : Client) (drive : Signals) (b : Bus) (slot : Slot)
      (hb : w.server.buses[n]? = some b) (hs : b.participants.get? i = some slot)
      (idle : (w.stations i).activity = .idle client) (fits : slot.widths.fault? drive = none) :
      Step n w [] (w.update i ((w.stations i).call (.offering client drive)
        ((⟨client, (w.stations i).incoming⟩ : Attached).ready drive).2.2))
  | stepped (i : Ident) (client : Client) (drive : Signals) (b : Bus) (r : Except ClientError Unit) (a : Attached)
      (hb : w.server.buses[n]? = some b) (offering : (w.stations i).activity = .offering client drive)
      (decided : (w.stations i).Decided)
      (returned : ((⟨client, (w.stations i).incoming⟩ : Attached).ready drive) = (r, a, [client.offer drive])) :
      Step n w [.stepped i r a.client b]
        (w.update i { w.stations i with activity := .idle a.client, incoming := a.incoming })
  | finish (i : Ident) (client : Client) (idle : (w.stations i).activity = .idle client) :
      Step n w [] (w.update i ((w.stations i).call (.leaving client)
        (⟨client, (w.stations i).incoming⟩ : Attached).finish.2))
  | left (i : Ident) (client : Client) (leaving : (w.stations i).activity = .leaving client)
      (decided : (w.stations i).Decided) :
      Step n w [.left i (⟨client, (w.stations i).incoming⟩ : Attached).finish.1]
        (w.update i (w.stations i).leave)
  /-- A client lets go of its stream without a farewell. -/
  | hangUp (i : Ident) (client : Client) (idle : (w.stations i).activity = .idle client) :
      Step n w [] (w.update i (w.stations i).leave)

/-- The network `w` is reached from a server that nobody has connected to, and `observations` have been made. -/
inductive Run (n : Nat) (start : Server) : List Observation → Network → Prop where
  | start : Run n start [] ⟨start, fun _ => {}⟩
  | step {observations new : List Observation} {w w' : Network} (h : Run n start observations w)
      (step : Step n w new w') : Run n start (observations ++ new) w'

end Network

end Lockstep
