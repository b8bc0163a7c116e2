import Lockstep.Framer
import Lockstep.Message.Codec
/-!
# A participant's end of a connection

A client introduces itself, and from then on offers the signals it drives and waits for the bus to step. What
it knows of the bus is what the last delivery carried. Its stream is the list of the chunks in which bytes will
still arrive; when the list is empty the stream has ended.

Every operation returns its result, the client afterwards and the messages it sent.
-/

namespace Lockstep

/-- What can go wrong while a client talks to its bus. -/
inductive ClientError where
  /-- The stream failed. -/
  | io
  | malformed (cause : LineError)
  | rejected (name : String)
  | unexpected (expected found : Command)
  /-- The bus has ended the simulation for this participant. -/
  | finished
  | disconnected
  | missingSignal (name : String)
deriving DecidableEq

def ClientError.message : ClientError → String
  | .io => "I/O error"
  | .malformed cause => s!"Malformed line from server: {cause}"
  | .rejected name => s!"Bus rejected device '{name}'"
  | .unexpected expected found => s!"Expected {expected} from server, got {found}"
  | .finished => "Server finished the simulation"
  | .disconnected => "Server closed the connection"
  | .missingSignal name => s!"Signal '{name}' was not delivered by the bus"

/-! ### What arrives -/

/-- Bytes on their way to a client: those that have arrived, and the chunks that will. -/
structure Incoming where
  framer : Framer
  chunks : List (List UInt8)
deriving DecidableEq

namespace Incoming

/-- The number of bytes that have not been taken as a line. -/
def size (i : Incoming) : Nat := i.framer.pending.length + i.chunks.flatten.length

def nextLine (framer : Framer) : List (List UInt8) → Except ClientError String × Incoming
  | [] =>
    match framer.next with
    | (.error e, f) => (.error (.malformed e), ⟨f, []⟩)
    | (.ok (some line), f) => (.ok line, ⟨f, []⟩)
    | (.ok none, f) => (.error .disconnected, ⟨f, []⟩)
  | chunk :: chunks =>
    match framer.next with
    | (.error e, f) => (.error (.malformed e), ⟨f, chunk :: chunks⟩)
    | (.ok (some line), f) => (.ok line, ⟨f, chunk :: chunks⟩)
    | (.ok none, f) => nextLine (f.push chunk) chunks

def next (i : Incoming) : Except ClientError Message × Incoming :=
  match nextLine i.framer i.chunks with
  | (.error e, i) => (.error e, i)
  | (.ok line, i) =>
    match Message.decode line with
    | .error e => (.error (.malformed e), i)
    | .ok m => (.ok m, i)

theorem pending_of_next_none {f f' : Framer} (h : f.next = (.ok none, f')) : f'.pending = f.pending := by
  cases hcut : f.cut? with
  | none =>
    rw [Framer.next_of_not_mem (Framer.cut?_eq_none_iff.1 hcut)] at h
    rw [← (Prod.mk.inj h).2]
    rfl
  | some parts =>
    obtain ⟨hpending, hnot⟩ := Framer.cut?_eq_some_iff.1 hcut
    rw [Framer.next_of_segment hpending hnot] at h
    split at h
    · cases h
    · exfalso
      have := (Prod.mk.inj h).1
      cases hl : Framer.lineOf parts.1 <;> simp [hl, Except.map] at this

theorem size_nextLine_lt {framer : Framer} {chunks : List (List UInt8)} {line : String} {i : Incoming}
    (h : nextLine framer chunks = (.ok line, i)) : i.size < (Incoming.mk framer chunks).size := by
  induction chunks generalizing framer with
  | nil =>
    rw [nextLine] at h
    split at h
    · cases h
    · next hn =>
      cases h
      have := Framer.length_pending_next hn
      simp only [size]
      omega
    · cases h
  | cons chunk chunks ih =>
    rw [nextLine] at h
    split at h
    · cases h
    · next hn =>
      cases h
      have := Framer.length_pending_next hn
      simp only [size]
      omega
    · next hn =>
      have hlt := ih h
      simp only [size, Framer.push, pending_of_next_none hn, List.flatten_cons, List.length_append] at hlt ⊢
      omega

theorem size_next_lt {i i' : Incoming} {m : Message} (h : i.next = (.ok m, i')) : i'.size < i.size := by
  unfold next at h
  split at h
  · cases h
  · next hl =>
    split at h
    · cases h
    · cases h
      exact size_nextLine_lt hl

end Incoming

/-! ### The client -/

structure Client where
  name : String
  ident : Ident
  /-- The time of the last delivery. -/
  time : Time
  /-- What the last delivery carried. -/
  signals : Signals
  /-- The number of deliveries. It fits 64 bits as long as fewer than 2⁶⁴ bytes are sent to the client. -/
  steps : Nat
deriving DecidableEq

/-- A transition of a clock wire. -/
inductive Edge where
  | rising
  | falling
deriving DecidableEq

def Edge.target : Edge → Level
  | .rising => .one
  | .falling => .zero

/-- The wire makes the transition when it goes to the target level from any other one. -/
def Edge.occurs (e : Edge) (before after : Level) : Bool := before ≠ e.target && after = e.target

namespace Client

/-- A client that has not heard from the bus. -/
def fresh (name : String) (ident : Ident) : Client := ⟨name, ident, .zero, .empty, 0⟩

def signal (c : Client) (name : String) : Except ClientError Bundle :=
  match c.signals.get? name with
  | some v => .ok v
  | none => .error (.missingSignal name)

/-- The level of wire 0 of a signal, released before it has been delivered. -/
def bit (c : Client) (name : String) : Level := c.signals.bit name

def offer (c : Client) (drive : Signals) : Message := .ready c.time drive

def take (c : Client) : Message → Except ClientError Client
  | .deliver time signals => .ok { c with time, signals, steps := c.steps + 1 }
  | .finish => .error .finished
  | m => .error (.unexpected .deliver m.command)

/-- Takes the answer to an introduction. A stream that ends here is a refusal too. -/
def welcome (name : String) : Except ClientError Message → Except ClientError Client
  | .ok (.youAre ident) => .ok (fresh name ident)
  | .ok .nak => .error (.rejected name)
  | .error .disconnected => .error (.rejected name)
  | .ok m => .error (.unexpected .youAre m.command)
  | .error e => .error e

/-- Takes the answer to a farewell. A stream that ends here will do. -/
def farewell : Except ClientError Message → Except ClientError Unit
  | .ok .finish => .ok ()
  | .error .disconnected => .ok ()
  | .ok m => .error (.unexpected .finish m.command)
  | .error e => .error e

end Client

/-! ### Talking over a stream -/

/-- A client with the stream from its server. -/
structure Attached where
  client : Client
  incoming : Incoming
deriving DecidableEq

namespace Attached

/-- Introduces a device and waits for the answer. -/
def connect (name : String) (options : Options) (incoming : Incoming) :
    Except ClientError Attached × List Message :=
  let (answer, incoming) := incoming.next
  ((Client.welcome name answer).map fun client => ⟨client, incoming⟩, [.hello name options])

def await (a : Attached) : Except ClientError Unit × Attached :=
  match a.incoming.next with
  | (.error e, incoming) => (.error e, { a with incoming })
  | (.ok m, incoming) =>
    match a.client.take m with
    | .error e => (.error e, { a with incoming })
    | .ok client => (.ok (), ⟨client, incoming⟩)

theorem size_await_lt {a a' : Attached} (h : a.await = (.ok (), a')) :
    a'.incoming.size < a.incoming.size := by
  unfold await at h
  split at h
  · cases h
  · next hn =>
    split at h
    · cases h
    · cases h
      exact Incoming.size_next_lt hn

/-- Offers signals and waits until the bus has stepped. -/
def ready (a : Attached) (drive : Signals) : Except ClientError Unit × Attached × List Message :=
  let (result, a') := a.await
  (result, a', [a.client.offer drive])

/-- Offers the same signals until a clock makes a transition. -/
def waitEdge (a : Attached) (clock : String) (drive : Signals) (edge : Edge) :
    Except ClientError Unit × Attached × List Message :=
  match _ : a.await with
  | (.error e, a') => (.error e, a', [a.client.offer drive])
  | (.ok (), a') =>
    if edge.occurs (a.client.bit clock) (a'.client.bit clock) then
      (.ok (), a', [a.client.offer drive])
    else
      let (result, last, sent) := waitEdge a' clock drive edge
      (result, last, a.client.offer drive :: sent)
termination_by a.incoming.size
decreasing_by exact size_await_lt ‹_›

/-- Leaves the bus and waits for the acknowledgement. -/
def finish (a : Attached) : Except ClientError Unit × List Message :=
  (Client.farewell a.incoming.next.1, [.finish])

end Attached

end Lockstep
