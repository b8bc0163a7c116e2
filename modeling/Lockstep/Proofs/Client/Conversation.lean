import Lockstep.Proofs.Bus.Vocabulary
import Lockstep.Proofs.Client.Network
import Lockstep.Proofs.Server.Service
/-!
# Where a client and its slot stand

The talk of a client with its slot has few phases. `Footing` lists them for a client that has been admitted, with the one
message that may be on its way: the welcome, nothing while the client is idle, an offer, nothing while the bus waits
for the others, a delivery, a farewell. In each phase it says how the time and the steps of the client compare with
those of the bus. `Stage` adds what comes before the admission and after the end, and ties the phase to the bytes in
transit and to the server's table.

A phase allows the client exactly the calls that its phase expects, and what a client does leads from a phase to a
phase (`Stage.connect` to `Stage.hangUp`). A call returns only in the phases in which its answer is on its way, or
when the stream has ended.
-/

namespace Lockstep

open Message

/-! ### Bytes in transit -/

def announced (k : ConnectionKey) (ms : List Message) : List ServerEvent := ms.map fun m => .line k m.text

namespace Station

variable {st : Station} {events : List ServerEvent} {left ms : List Message}

/-- Of what the client has sent, the server has not handled `events`, which have been announced, and has not read the
messages `left`. -/
structure Sends (st : Station) (events : List ServerEvent) (left : List Message) : Prop where
  waiting : st.events = events
  rest : st.framer.pending ++ st.up = stream left
  limit : st.framer.limit = maxLineLength
  sendable : ∀ m ∈ left, m.Sendable maxLineLength

/-- Of what the client has been sent, it has not read the messages `ms`. -/
structure Hears (st : Station) (ms : List Message) : Prop where
  rest : st.incoming.seen ++ st.down = stream ms
  limit : st.incoming.framer.limit = maxLineLength
  sendable : ∀ m ∈ ms, m.Sendable maxLineLength

structure Silent (st : Station) : Prop where
  uncut : st.cut = false
  stays : st.hungUp = false
  hears : st.Hears []

/-- The server has not accepted the stream, on which `ms` have been sent. -/
structure Unaccepted (st : Station) (ms : List Message) : Prop where
  key : st.key = none
  events : st.events = []
  up : st.up = stream ms

theorem Sends.read (h : st.Sends events left) (k : ConnectionKey) (count : Nat) :
    ∃ taken left', left = taken ++ left' ∧ (st.read k count).Sends (events ++ announced k taken) left' := by
  have hrest : (st.framer.push (st.up.take count)).pending ++ st.up.drop count = stream left := by
    show st.framer.pending ++ st.up.take count ++ st.up.drop count = _
    rw [List.append_assoc, List.take_append_drop, h.rest]
  have hlimit : (st.framer.push (st.up.take count)).limit = maxLineLength := h.limit
  obtain ⟨taken, left', f', rfl, hdrain, hsame, hleft, -⟩ :=
    Framer.drain_of_stream hrest (by rw [hlimit]; exact h.sendable)
  refine ⟨taken, left', rfl, ?_, ?_, ?_, fun m hm => h.sendable m (List.mem_append_right _ hm)⟩
  · simp [Station.read, Session.lineEvents, hdrain, h.waiting, announced, List.map_map, Function.comp_def]
  · simpa [Station.read, Session.lineEvents, hdrain] using hleft
  · simpa [Station.read, Session.lineEvents, hdrain] using hsame.trans hlimit

theorem Sends.congr (h : st.Sends events left) {st' : Station} (hevents : st'.events = st.events)
    (hframer : st'.framer = st.framer) (hup : st'.up = st.up) : st'.Sends events left :=
  ⟨hevents.trans h.waiting, by rw [hframer, hup]; exact h.rest, by rw [hframer]; exact h.limit, h.sendable⟩

theorem Hears.congr (h : st.Hears ms) {st' : Station} (hincoming : st'.incoming = st.incoming)
    (hdown : st'.down = st.down) : st'.Hears ms :=
  ⟨by rw [hincoming, hdown]; exact h.rest, by rw [hincoming]; exact h.limit, h.sendable⟩

theorem Sends.call (h : st.Sends events left) {m : Message} (hm : m.Sendable maxLineLength) (activity : Activity) :
    (st.call activity [m]).Sends events (left ++ [m]) := by
  refine ⟨h.waiting, ?_, h.limit, fun m' hm' => ?_⟩
  · show st.framer.pending ++ (st.up ++ stream [m]) = _
    rw [← List.append_assoc, h.rest, stream_append]
  · rcases List.mem_append.1 hm' with hm' | hm'
    · exact h.sendable m' hm'
    · obtain rfl := List.mem_singleton.1 hm'
      exact hm

theorem Hears.arrive (h : st.Hears ms) (count : Nat) : (st.arrive count).Hears ms := by
  refine ⟨?_, h.limit, h.sendable⟩
  show st.incoming.framer.pending ++ (st.incoming.chunks ++ [st.down.take count]).flatten ++ st.down.drop count = _
  rw [List.flatten_append, List.flatten_singleton, ← List.append_assoc, List.append_assoc, List.take_append_drop]
  exact h.rest

/-- What decides a call: the first message, or the end of the stream behind the last one. -/
theorem Hears.decided (h : st.Hears ms) (hd : st.Decided) :
    ∃ incoming, { st with incoming }.Hears ms.tail ∧
      (ms = [] ∧ st.cut = true ∧ st.incoming.next = (.error .disconnected, incoming) ∨
        ∃ m ms', ms = m :: ms' ∧ st.incoming.next = (.ok m.wired, incoming)) := by
  obtain ⟨incoming, hlimit, hnext⟩ := Incoming.next_of_stream h.rest (by rw [h.limit]; exact h.sendable)
  have hlimit := hlimit.trans h.limit
  rcases hnext with ⟨hnext, hend, hrest⟩ | ⟨m, ms', rfl, hnext, hrest⟩
  · rcases hd with hd | ⟨hdown, hcut⟩
    · rw [hnext] at hd
      exact absurd rfl hd
    · obtain rfl := hend hdown
      exact ⟨incoming, ⟨hrest, hlimit, h.sendable⟩, .inl ⟨rfl, hcut, hnext⟩⟩
  · exact ⟨incoming, ⟨hrest, hlimit, fun m' hm' => h.sendable m' (List.mem_cons_of_mem m hm')⟩,
      .inr ⟨m, ms', rfl, hnext⟩⟩

theorem Hears.not_decided (h : st.Hears []) (uncut : st.cut = false) : ¬ st.Decided := by
  intro hd
  obtain ⟨incoming, -, ⟨-, hcut, -⟩ | ⟨m, ms', hnil, -⟩⟩ := h.decided hd
  · rw [uncut] at hcut
    cases hcut
  · cases hnil

end Station

/-! ### Phases -/

/-- Nobody has claimed the slot yet, so the bus has not begun. -/
def Bus.Unused (b : Bus) (i : Ident) : Prop :=
  ∀ slot, b.participants.get? i = some slot →
    slot.claimed = false ∧ b.finished = false ∧ b.time = .zero ∧ b.steps = 0

/-- The phase of a client that has been admitted to a slot: what it does, what it has sent and the server has not
handled, and what it has been sent and has not read. -/
inductive Footing (b : Bus) (i : Ident) (slot : Slot) : Activity → List Message → List Message → Prop where
  | welcomed (name : String) (options : Options) (unready : slot.ready = false) (time : b.time = .zero)
      (steps : b.steps = 0) : Footing b i slot (.connecting name options) [] [.youAre i]
  | idle (client : Client) (unready : slot.ready = false) (time : client.time = b.time)
      (steps : client.steps = b.steps) : Footing b i slot (.idle client) [] []
  | offering (client : Client) (drive : Signals) (unready : slot.ready = false) (steps : client.steps = b.steps)
      (fits : slot.widths.fault? drive = none) : Footing b i slot (.offering client drive) [client.offer drive] []
  /-- The bus waits for the others. -/
  | offered (client : Client) (drive : Signals) (ready : slot.ready = true) (steps : client.steps = b.steps) :
      Footing b i slot (.offering client drive) [] []
  | answered (client : Client) (drive : Signals) (unready : slot.ready = false) (steps : client.steps + 1 = b.steps) :
      Footing b i slot (.offering client drive) [] [.deliver b.time slot.outgoing]
  | leaving (client : Client) (unready : slot.ready = false) : Footing b i slot (.leaving client) [.finish] []

/-- What a client may still read from a stream that the server has closed. -/
inductive Last : Activity → List Message → Prop where
  | none (activity : Activity) (h : activity ≠ .away) : Last activity []
  | refused (name : String) (options : Options) : Last (.connecting name options) [.nak]
  | farewell (client : Client) : Last (.leaving client) [.finish]
  | unread (ms : List Message) : Last .gone ms

/-- A client that has introduced itself and not been answered. -/
structure Introducing (b : Bus) (i : Ident) (st : Station) (name : String) (options : Options) : Prop where
  activity : st.activity = .connecting name options
  silent : st.Silent
  sendable : (Message.hello name options).Sendable maxLineLength
  named : ∃ slot, b.participants.get? i = some slot ∧ slot.name = name
  unused : b.Unused i

structure Seated (s : Server) (n : Nat) (b : Bus) (i : Ident) (k : ConnectionKey) (c : Connection) (slot : Slot) :
    Prop where
  listed : s.connections.get? k = some c
  bus : c.bus = n
  bound : c.ident = some i
  slot : b.participants.get? i = some slot

/-- A client that has been admitted to its slot by connection `k`. Of what it has sent, the server has read `taken` and
not `left`, and of what it has been sent, it has not read `down`. -/
structure Admitted (s : Server) (n : Nat) (b : Bus) (i : Ident) (st : Station) (k : ConnectionKey) (c : Connection)
    (slot : Slot) (taken left down : List Message) : Prop where
  key : st.key = some k
  seated : Seated s n b i k c slot
  uncut : st.cut = false
  stays : st.hungUp = false
  sends : st.Sends (announced k taken) left
  hears : st.Hears down
  footing : Footing b i slot st.activity (taken ++ left) down

/-- A client of which the server has forgotten the connection. It has not read `ms`. -/
structure Ended (s : Server) (st : Station) (k : ConnectionKey) (ms : List Message) : Prop where
  key : st.key = some k
  gone : s.connections.get? k = none
  /-- No answer is awaited that will not come. -/
  silent : st.cut = true ∨ st.activity = .gone
  hears : st.Hears ms
  last : Last st.activity ms

/-- Where station `i` of bus `n` stands. -/
inductive Stage (s : Server) (n : Nat) (b : Bus) (i : Ident) (st : Station) : Prop where
  | away (activity : st.activity = .away) (silent : st.Silent) (new : st.Unaccepted []) (unused : b.Unused i)
  | dialled (name : String) (options : Options) (h : Introducing b i st name options)
      (new : st.Unaccepted [.hello name options])
  | greeting (name : String) (options : Options) (k : ConnectionKey) (c : Connection) (taken left : List Message)
      (h : Introducing b i st name options) (key : st.key = some k) (hc : s.connections.get? k = some c)
      (bus : c.bus = n) (free : c.ident = none) (all : taken ++ left = [.hello name options])
      (sends : st.Sends (announced k taken) left)
  | admitted (k : ConnectionKey) (c : Connection) (slot : Slot) (taken left down : List Message)
      (h : Admitted s n b i st k c slot taken left down)
  /-- The client has let go of its stream, and the server has not noticed. -/
  | hungUp (k : ConnectionKey) (c : Connection) (slot : Slot) (activity : st.activity = .gone)
      (key : st.key = some k) (seated : Seated s n b i k c slot) (unready : slot.ready = false)
      (sends : st.Sends [] [] ∧ st.hungUp = true ∨ st.Sends [.closed k] [] ∧ st.hungUp = false) (hears : st.Hears [])
  | ended (k : ConnectionKey) (ms : List Message) (h : Ended s st k ms)

variable {s s' : Server} {n : Nat} {b b' : Bus} {i : Ident} {st : Station}

/-! ### What others do -/

theorem Bus.Unused.frame (h : b.Unused i) (hslot : b'.participants.get? i = b.participants.get? i)
    (hfinished : b'.finished = b.finished) (htime : b'.time = b.time) (hsteps : b'.steps = b.steps) : b'.Unused i := by
  intro slot hs
  rw [hslot] at hs
  rw [hfinished, htime, hsteps]
  exact h slot hs

theorem Footing.frame {slot : Slot} {activity : Activity} {up down : List Message} (h : Footing b i slot activity up down)
    (htime : b'.time = b.time) (hsteps : b'.steps = b.steps) : Footing b' i slot activity up down := by
  cases h with
  | welcomed name options unready time steps => exact .welcomed name options unready (htime ▸ time) (hsteps ▸ steps)
  | idle client unready time steps => exact .idle client unready (htime ▸ time) (hsteps ▸ steps)
  | offering client drive unready steps fits => exact .offering client drive unready (hsteps ▸ steps) fits
  | offered client drive ready steps => exact .offered client drive ready (hsteps ▸ steps)
  | answered client drive unready steps =>
    rw [← htime]
    exact .answered client drive unready (hsteps ▸ steps)
  | leaving client unready => exact .leaving client unready

theorem Introducing.frame {name : String} {options : Options} (h : Introducing b i st name options)
    (hslot : b'.participants.get? i = b.participants.get? i) (hfinished : b'.finished = b.finished)
    (htime : b'.time = b.time) (hsteps : b'.steps = b.steps) : Introducing b' i st name options :=
  { h with
    named := by rw [hslot]; exact h.named
    unused := h.unused.frame hslot hfinished htime hsteps }

theorem Stage.frame (h : Stage s n b i st) (hslot : b'.participants.get? i = b.participants.get? i)
    (hfinished : b'.finished = b.finished) (htime : b'.time = b.time) (hsteps : b'.steps = b.steps)
    (hkey : ∀ k, st.key = some k → s'.connections.get? k = s.connections.get? k) : Stage s' n b' i st := by
  cases h with
  | away activity silent new unused => exact .away activity silent new (unused.frame hslot hfinished htime hsteps)
  | dialled name options h new => exact .dialled name options (h.frame hslot hfinished htime hsteps) new
  | greeting name options k c taken left h key hc bus free all sends =>
    exact .greeting name options k c taken left (h.frame hslot hfinished htime hsteps) key
      ((hkey k key).trans hc) bus free all sends
  | admitted k c slot taken left down h =>
    refine .admitted k c slot taken left down { h with seated := ?_, footing := h.footing.frame htime hsteps }
    exact ⟨(hkey k h.key).trans h.seated.listed, h.seated.bus, h.seated.bound, hslot.trans h.seated.slot⟩
  | hungUp k c slot activity key seated unready sends hears =>
    have hseated : Seated s' n b' i k c slot :=
      ⟨(hkey k key).trans seated.listed, seated.bus, seated.bound, hslot.trans seated.slot⟩
    exact .hungUp k c slot activity key hseated unready sends hears
  | ended k ms h => exact .ended k ms { h with gone := (hkey k h.key).trans h.gone }

theorem Stage.listed_or_ended (h : Stage s n b i st) {k : ConnectionKey} (hk : st.key = some k) :
    (∃ c, s.connections.get? k = some c ∧ c.bus = n) ∨ ∃ ms, Ended s st k ms := by
  cases h with
  | away activity silent new => cases new.key.symm.trans hk
  | dialled name options h new => cases new.key.symm.trans hk
  | greeting name options j c taken left h key hc bus =>
    cases key.symm.trans hk
    exact .inl ⟨c, hc, bus⟩
  | admitted j c slot taken left down h =>
    cases h.key.symm.trans hk
    exact .inl ⟨c, h.seated.listed, h.seated.bus⟩
  | hungUp j c slot activity key seated =>
    cases key.symm.trans hk
    exact .inl ⟨c, seated.listed, seated.bus⟩
  | ended j ms h =>
    cases h.key.symm.trans hk
    exact .inr ⟨ms, h⟩

theorem Stage.bus_eq (h : Stage s n b i st) {k : ConnectionKey} (hk : st.key = some k) {c : Connection}
    (hc : s.connections.get? k = some c) : c.bus = n := by
  rcases h.listed_or_ended hk with ⟨c', hc', hbus⟩ | ⟨ms, h⟩
  · cases hc'.symm.trans hc
    exact hbus
  · cases h.gone.symm.trans hc

theorem Stage.of_gone (h : Stage s n b i st) {k : ConnectionKey} (hk : st.key = some k)
    (hgone : s.connections.get? k = none) : ∃ ms, Ended s st k ms :=
  (h.listed_or_ended hk).resolve_left fun ⟨_, hc, _⟩ => by cases hc.symm.trans hgone

/-! ### What the stream does -/

theorem Stage.read (h : Stage s n b i st) {k : ConnectionKey} (hk : st.key = some k) (count : Nat) :
    Stage s n b i (st.read k count) := by
  have hannounced : ∀ {taken more : List Message},
      announced k taken ++ announced k more = announced k (taken ++ more) := List.map_append.symm
  cases h with
  | away activity silent new => cases hk.symm.trans new.key
  | dialled name options h new => cases hk.symm.trans new.key
  | greeting name options j c taken left h key hc bus free all sends =>
    cases hk.symm.trans key
    obtain ⟨more, left', rfl, hsends⟩ := sends.read k count
    rw [hannounced] at hsends
    rw [← List.append_assoc] at all
    refine .greeting name options k c (taken ++ more) left' ?_ key hc bus free all hsends
    exact { h with silent := ⟨h.silent.uncut, h.silent.stays, h.silent.hears.congr rfl rfl⟩ }
  | admitted j c slot taken left down h =>
    cases hk.symm.trans h.key
    have hfooting := h.footing
    obtain ⟨more, left', rfl, hsends⟩ := h.sends.read k count
    rw [hannounced] at hsends
    rw [← List.append_assoc] at hfooting
    exact .admitted k c slot (taken ++ more) left' down
      ⟨h.key, h.seated, h.uncut, h.stays, hsends, h.hears.congr rfl rfl, hfooting⟩
  | hungUp j c slot activity key seated unready sends hears =>
    have hread : ∀ {events}, st.Sends events [] → (st.read k count).Sends events [] := by
      intro events hsends
      obtain ⟨more, left', hnil, hsends⟩ := hsends.read k count
      obtain ⟨rfl, rfl⟩ := List.append_eq_nil_iff.1 hnil.symm
      simpa [announced] using hsends
    refine .hungUp j c slot activity key seated unready ?_ (hears.congr rfl rfl)
    rcases sends with ⟨hsends, hup⟩ | ⟨hsends, hup⟩
    · exact .inl ⟨hread hsends, hup⟩
    · exact .inr ⟨hread hsends, hup⟩
  | ended j ms h => exact .ended j ms ⟨h.key, h.gone, h.silent, h.hears.congr rfl rfl, h.last⟩

theorem Stage.readEnd (h : Stage s n b i st) {k : ConnectionKey} (hk : st.key = some k) (hungUp : st.hungUp = true) :
    Stage s n b i (st.readEnd k) := by
  cases h with
  | away activity silent => cases hungUp.symm.trans silent.stays
  | dialled name options h => cases hungUp.symm.trans h.silent.stays
  | greeting name options j c taken left h => cases hungUp.symm.trans h.silent.stays
  | admitted j c slot taken left down h => cases hungUp.symm.trans h.stays
  | hungUp j c slot activity key seated unready sends hears =>
    cases hk.symm.trans key
    rcases sends with ⟨hsends, -⟩ | ⟨-, hup⟩
    · refine .hungUp k c slot activity key seated unready (.inr ⟨⟨?_, hsends.rest, hsends.limit, hsends.sendable⟩, rfl⟩)
        (hears.congr rfl rfl)
      show st.events ++ [.closed k] = [.closed k]
      rw [hsends.waiting, List.nil_append]
    · cases hungUp.symm.trans hup
  | ended j ms h => exact .ended j ms ⟨h.key, h.gone, h.silent, h.hears.congr rfl rfl, h.last⟩

theorem Stage.arrive (h : Stage s n b i st) (count : Nat) : Stage s n b i (st.arrive count) := by
  have hsilent : st.Silent → (st.arrive count).Silent := fun h => ⟨h.uncut, h.stays, h.hears.arrive count⟩
  cases h with
  | away activity silent new unused =>
    exact .away activity (hsilent silent) ⟨new.key, new.events, new.up⟩ unused
  | dialled name options h new =>
    exact .dialled name options { h with silent := hsilent h.silent } ⟨new.key, new.events, new.up⟩
  | greeting name options k c taken left h key hc bus free all sends =>
    exact .greeting name options k c taken left { h with silent := hsilent h.silent } key hc bus free all
      (sends.congr rfl rfl rfl)
  | admitted k c slot taken left down h =>
    exact .admitted k c slot taken left down
      ⟨h.key, h.seated, h.uncut, h.stays, h.sends.congr rfl rfl rfl, h.hears.arrive count, h.footing⟩
  | hungUp k c slot activity key seated unready sends hears =>
    refine .hungUp k c slot activity key seated unready ?_ (hears.arrive count)
    rcases sends with ⟨hsends, hup⟩ | ⟨hsends, hup⟩
    · exact .inl ⟨hsends.congr rfl rfl rfl, hup⟩
    · exact .inr ⟨hsends.congr rfl rfl rfl, hup⟩
  | ended k ms h => exact .ended k ms ⟨h.key, h.gone, h.silent, h.hears.arrive count, h.last⟩

/-! ### What the client does -/

/-- The server has said something that the client does not understand, or has no use for. -/
def ClientError.Confused : ClientError → Prop
  | .malformed _ | .unexpected .. | .finished => True
  | .io | .rejected _ | .disconnected | .missingSignal _ => False

/-- The client that has been admitted and has not left yet. -/
def Activity.client? : Activity → Option Client
  | .idle client | .offering client _ | .leaving client => some client
  | .away | .connecting .. | .gone => none

theorem Stage.of_client (h : Stage s n b i st) {client : Client} (hclient : st.activity.client? = some client) :
    (∃ k c slot taken left down, Admitted s n b i st k c slot taken left down) ∨
      ∃ k ms, Ended s st k ms ∧ st.cut = true := by
  cases h with
  | away activity =>
    rw [activity] at hclient
    cases hclient
  | dialled name options h | greeting name options k c taken left h =>
    rw [h.activity] at hclient
    cases hclient
  | admitted k c slot taken left down h => exact .inl ⟨k, c, slot, taken, left, down, h⟩
  | hungUp k c slot activity =>
    rw [activity] at hclient
    cases hclient
  | ended k ms h =>
    refine .inr ⟨k, ms, h, h.silent.resolve_right fun activity => ?_⟩
    rw [activity] at hclient
    cases hclient

theorem Admitted.footing_of {k : ConnectionKey} {c : Connection} {slot : Slot} {taken left down : List Message}
    (h : Admitted s n b i st k c slot taken left down) {activity : Activity} (heq : st.activity = activity) :
    ∃ up, taken ++ left = up ∧ Footing b i slot activity up down :=
  ⟨_, rfl, heq ▸ h.footing⟩

theorem Ended.leave {k : ConnectionKey} {ms : List Message} (h : Ended s st k ms) : Ended s st.leave k ms :=
  ⟨h.key, h.gone, .inr rfl, h.hears.congr rfl rfl, .unread ms⟩

theorem Ended.call {k : ConnectionKey} {ms : List Message} (h : Ended s st k ms) {client : Client}
    (idle : st.activity = .idle client) {activity : Activity} (hactivity : activity ≠ .away)
    (messages : List Message) : Ended s (st.call activity messages) k ms := by
  have hlast := idle ▸ h.last
  refine ⟨h.key, h.gone, .inl (h.silent.resolve_right fun hgone => ?_), h.hears.congr rfl rfl, ?_⟩
  · cases idle.symm.trans hgone
  · cases hlast with
    | none => exact .none _ hactivity

theorem Stage.connect (h : Stage s n b i st) (away : st.activity = .away) {slot : Slot} {options : Options}
    (hs : b.participants.get? i = some slot) (sendable : (Message.hello slot.name options).Sendable maxLineLength) :
    Stage s n b i (st.call (.connecting slot.name options) [.hello slot.name options]) := by
  cases h with
  | away activity silent new unused =>
    have hintroducing : Introducing b i (st.call (.connecting slot.name options) [.hello slot.name options])
        slot.name options :=
      ⟨rfl, ⟨silent.uncut, silent.stays, silent.hears.congr rfl rfl⟩, sendable, ⟨slot, hs, rfl⟩, unused⟩
    refine .dialled slot.name options hintroducing ⟨new.key, new.events, ?_⟩
    show st.up ++ stream _ = _
    rw [new.up, stream_nil, List.nil_append]
  | dialled name options h => cases away.symm.trans h.activity
  | greeting name options k c taken left h => cases away.symm.trans h.activity
  | admitted k c slot taken left down h =>
    have hfooting := h.footing
    rw [away] at hfooting
    cases hfooting
  | hungUp k c slot activity => cases away.symm.trans activity
  | ended k ms h =>
    have hlast := h.last
    rw [away] at hlast
    cases hlast with
    | none _ hne => exact absurd rfl hne

theorem Stage.connected (h : Stage s n b i st) {name : String} {options : Options}
    (connecting : st.activity = .connecting name options) (decided : st.Decided) :
    Stage s n b i (st.connected (Attached.connect name options st.incoming).1) ∧
      ∀ e, (Attached.connect name options st.incoming).1 = .error e → ¬ e.Confused := by
  cases h with
  | away activity => cases connecting.symm.trans activity
  | dialled _ _ h => exact absurd decided (h.silent.hears.not_decided h.silent.uncut)
  | greeting _ _ k c taken left h => exact absurd decided (h.silent.hears.not_decided h.silent.uncut)
  | hungUp k c slot activity => cases connecting.symm.trans activity
  | admitted k c slot taken left down h =>
    obtain ⟨incoming, hhears, hnext⟩ := h.hears.decided decided
    obtain ⟨up, hup, hfooting⟩ := h.footing_of connecting
    cases hfooting with
    | welcomed _ _ unready time steps =>
      rcases hnext with ⟨hnil, -⟩ | ⟨m, ms', hcons, hnext⟩
      · cases hnil
      · cases hcons
        have heq : (Attached.connect name options st.incoming).1 = .ok ⟨.fresh name i, incoming⟩ := by
          simp only [Attached.connect, hnext]
          rfl
        rw [heq]
        refine ⟨.admitted k c slot taken left [] ⟨h.key, h.seated, h.uncut, h.stays, h.sends.congr rfl rfl rfl,
          hhears.congr rfl rfl, ?_⟩, fun e he => by cases he⟩
        rw [hup]
        exact .idle _ unready time.symm steps.symm
  | ended k ms h =>
    obtain ⟨incoming, -, hnext⟩ := h.hears.decided decided
    have hlast := connecting ▸ h.last
    have heq : (Attached.connect name options st.incoming).1 = .error (.rejected name) := by
      cases hlast with
      | none =>
        rcases hnext with ⟨-, -, hnext⟩ | ⟨m, ms', hcons, -⟩
        · simp only [Attached.connect, hnext]
          rfl
        · cases hcons
      | refused =>
        rcases hnext with ⟨hnil, -⟩ | ⟨m, ms', hcons, hnext⟩
        · cases hnil
        · cases hcons
          simp only [Attached.connect, hnext]
          rfl
    rw [heq]
    refine ⟨.ended k ms h.leave, fun e he => ?_⟩
    cases he
    exact id

theorem Stage.ready (h : Stage s n b i st) (hb : b.Bounded) {client : Client} {drive : Signals} {slot : Slot}
    (hs : b.participants.get? i = some slot) (idle : st.activity = .idle client)
    (fits : slot.widths.fault? drive = none) :
    Stage s n b i (st.call (.offering client drive) [client.offer drive]) := by
  have hsendable : (client.offer drive).Sendable maxLineLength :=
    ((hb.participants i slot hs).agreed.offer fits).sendable_ready client.time
  rcases h.of_client (by rw [idle]; rfl) with ⟨k, c, slot', taken, left, down, h⟩ | ⟨k, ms, h, -⟩
  · obtain rfl := Option.some.inj (hs.symm.trans h.seated.slot)
    obtain ⟨up, hup, hfooting⟩ := h.footing_of idle
    cases hfooting with
    | idle _ unready time steps =>
      refine .admitted k c slot taken (left ++ [client.offer drive]) [] ⟨h.key, h.seated, h.uncut, h.stays,
        h.sends.call hsendable _, h.hears.congr rfl rfl, ?_⟩
      rw [← List.append_assoc, hup]
      exact .offering client drive unready steps fits
  · exact .ended k ms (h.call idle (by nofun) _)

theorem Stage.stepped (h : Stage s n b i st) (hb : b.Bounded) {client : Client} {drive : Signals}
    (offering : st.activity = .offering client drive) (decided : st.Decided) {r : Except ClientError Unit} {a : Attached}
    {sent : List Message} (returned : (⟨client, st.incoming⟩ : Attached).ready drive = (r, a, sent)) :
    Stage s n b i { st with activity := .idle a.client, incoming := a.incoming } ∧
      (∀ e, r = .error e → ¬ e.Confused) ∧
      (r = .ok () → ∃ slot, b.participants.get? i = some slot ∧ a.client.time = b.time ∧ a.client.steps = b.steps ∧
        a.client.signals = slot.outgoing) := by
  rcases h.of_client (by rw [offering]; rfl) with ⟨k, c, slot, taken, left, down, h⟩ | ⟨k, ms, h, hcut⟩
  · obtain ⟨incoming, hhears, hnext⟩ := h.hears.decided decided
    obtain ⟨up, hup, hfooting⟩ := h.footing_of offering
    cases hfooting with
    | offering | offered => exact absurd decided (h.hears.not_decided h.uncut)
    | answered _ _ unready steps =>
      rcases hnext with ⟨hnil, -⟩ | ⟨m, ms', hcons, hnext⟩
      · cases hnil
      · cases hcons
        have hsignals : slot.outgoing.wired = slot.outgoing := (hb.participants i slot h.seated.slot).shown.wired
        simp only [wired, hsignals] at hnext
        simp only [Attached.ready, Attached.await, hnext] at returned
        cases returned
        refine ⟨?_, (fun e he => by cases he), fun _ => ⟨slot, h.seated.slot, rfl, steps, rfl⟩⟩
        refine .admitted k c slot taken left [] ⟨h.key, h.seated, h.uncut, h.stays, h.sends.congr rfl rfl rfl,
          hhears.congr rfl rfl, ?_⟩
        rw [hup]
        exact .idle _ unready rfl steps
  · obtain ⟨incoming, hhears, hnext⟩ := h.hears.decided decided
    have hlast := offering ▸ h.last
    cases hlast with
    | none =>
      rcases hnext with ⟨-, -, hnext⟩ | ⟨m, ms', hcons, -⟩
      · simp only [Attached.ready, Attached.await, hnext] at returned
        cases returned
        refine ⟨.ended k [] ⟨h.key, h.gone, .inl hcut, hhears.congr rfl rfl, .none _ nofun⟩, fun e he => ?_,
          fun h => by cases h⟩
        cases he
        exact id
      · cases hcons

theorem Stage.finish (h : Stage s n b i st) {client : Client} (idle : st.activity = .idle client) :
    Stage s n b i (st.call (.leaving client) [.finish]) := by
  have hsendable : Message.finish.Sendable maxLineLength := ⟨trivial, by decide⟩
  rcases h.of_client (by rw [idle]; rfl) with ⟨k, c, slot, taken, left, down, h⟩ | ⟨k, ms, h, -⟩
  · obtain ⟨up, hup, hfooting⟩ := h.footing_of idle
    cases hfooting with
    | idle _ unready time steps =>
      refine .admitted k c slot taken (left ++ [.finish]) [] ⟨h.key, h.seated, h.uncut, h.stays,
        h.sends.call hsendable _, h.hears.congr rfl rfl, ?_⟩
      rw [← List.append_assoc, hup]
      exact .leaving client unready
  · exact .ended k ms (h.call idle (by nofun) _)

theorem Stage.left (h : Stage s n b i st) {client : Client} (leaving : st.activity = .leaving client)
    (decided : st.Decided) :
    Stage s n b i st.leave ∧ (⟨client, st.incoming⟩ : Attached).finish.1 = .ok () := by
  rcases h.of_client (by rw [leaving]; rfl) with ⟨k, c, slot, taken, left, down, h⟩ | ⟨k, ms, h, -⟩
  · obtain ⟨up, hup, hfooting⟩ := h.footing_of leaving
    cases hfooting with
    | leaving => exact absurd decided (h.hears.not_decided h.uncut)
  · obtain ⟨incoming, -, hnext⟩ := h.hears.decided decided
    refine ⟨.ended k ms h.leave, ?_⟩
    have hlast := leaving ▸ h.last
    cases hlast with
    | none =>
      rcases hnext with ⟨-, -, hnext⟩ | ⟨m, ms', hcons, -⟩
      · simp only [Attached.finish, hnext]
        rfl
      · cases hcons
    | farewell =>
      rcases hnext with ⟨hnil, -⟩ | ⟨m, ms', hcons, hnext⟩
      · cases hnil
      · cases hcons
        simp only [Attached.finish, hnext]
        rfl

theorem Stage.hangUp (h : Stage s n b i st) {client : Client} (idle : st.activity = .idle client) :
    Stage s n b i st.leave := by
  rcases h.of_client (by rw [idle]; rfl) with ⟨k, c, slot, taken, left, down, h⟩ | ⟨k, ms, h, -⟩
  · obtain ⟨up, hup, hfooting⟩ := h.footing_of idle
    cases hfooting with
    | idle _ unready time steps =>
      obtain ⟨rfl, rfl⟩ := List.append_eq_nil_iff.1 hup
      have hsends : st.leave.Sends [] [] := h.sends.congr rfl rfl rfl
      exact .hungUp k c slot rfl h.key h.seated unready (.inl ⟨hsends, rfl⟩) (h.hears.congr rfl rfl)
  · exact .ended k ms h.leave

end Lockstep
