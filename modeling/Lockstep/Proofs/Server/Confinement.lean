import Lockstep.Proofs.Server.Exchange
import Lockstep.Proofs.Server.History
/-!
# Failures stay local

Whatever an event of a connection is, a line of any content, bytes that are no line, or the end of the stream, it
changes nothing but that connection and the one slot of its bus that it is bound to, or that its accepted handshake
binds it to (`Confined`). Which events end the connection is said without the server's code by `Fatal`, and the
connection is gone afterwards exactly if the event was one of these. A participant behind it is then retired
(`Departed`): it counts as finished, nobody is connected to it, and everything that it was entitled to drive is
released.

Proof. The server settles an event by an exchange between the connection and its bus (`Consistent.handle_eq`). What an
exchange leaves alone is read off its few outcomes (`Bus.exchange_cases`), and that every wire is released when a
participant is retired follows from the fit between the offers and the agreed widths, which every bus has kept since
it was configured (`fitted_of_reaches`).
-/

namespace Lockstep

/-- The events that end connection `k` to bus `b`, which the table has as `c`. -/
inductive Fatal (b : Bus) (k : ConnectionKey) (c : Connection) : ServerEvent → Prop where
  | closed : Fatal b k c (.closed k)
  | unframed (cause : LineError) : Fatal b k c (.malformed k cause)
  | unreadable {text : String} {cause : LineError} (h : Message.decode text = .error cause) :
      Fatal b k c (.line k text)
  /-- The handshake has to come first. -/
  | beforeHello {text : String} {m : Message} (free : c.ident = none) (h : Message.decode text = .ok m)
      (other : m.command ≠ .hello) : Fatal b k c (.line k text)
  | refused {text name : String} {options : Options} {reason : Rejection} (free : c.ident = none)
      (h : Message.decode text = .ok (.hello name options)) (admits : b.admits name options = .error reason) :
      Fatal b k c (.line k text)
  /-- A signal that the participant may not drive, or not at this width. -/
  | misfit {text : String} {i : Ident} {slot : Slot} {time : Time} {signals : Signals} {fault : Widths.Fault}
      (bound : c.ident = some i) (hs : b.participants.get? i = some slot)
      (h : Message.decode text = .ok (.ready time signals)) (faulty : slot.widths.fault? signals = some fault) :
      Fatal b k c (.line k text)
  | readyTwice {text : String} {i : Ident} {slot : Slot} {time : Time} {signals : Signals}
      (bound : c.ident = some i) (hs : b.participants.get? i = some slot)
      (h : Message.decode text = .ok (.ready time signals)) (ready : slot.ready = true) :
      Fatal b k c (.line k text)
  | unexpected {text : String} {i : Ident} {m : Message} (bound : c.ident = some i)
      (h : Message.decode text = .ok m) (other : m.command ≠ .ready) (stays : m.command ≠ .finish) :
      Fatal b k c (.line k text)
  | finish {text : String} {i : Ident} (bound : c.ident = some i) (h : Message.decode text = .ok .finish) :
      Fatal b k c (.line k text)

/-- The slot of a participant that has left. -/
def Slot.departed (s : Slot) : Slot :=
  { s with driven := s.widths.filled .released, ready := true, finished := true, connection := none }

theorem Slot.Fits.park_unbind {s : Slot} (h : s.Fits) : s.park.unbind = s.departed := by
  rw [departed, ← h.driven_park]
  rfl

/-- What is left of connection `c` on its bus, which was `b` and is `b'`. -/
structure Departed (c : Connection) (b b' : Bus) : Prop where
  /-- The participant behind it has left. -/
  retired : ∀ i, c.ident = some i →
    ∃ slot, b.participants.get? i = some slot ∧ b'.participants.get? i = some slot.departed
  untouched : c.ident = none → b' = b

namespace Bus

variable {b : Bus} {k : ConnectionKey} {c : Connection} {e : ServerEvent}

inductive Exchanged (b : Bus) (k : ConnectionKey) (c : Connection) (e : ServerEvent) : Exchange → Prop where
  | admitted (text name : String) (options : Options) (slot : Slot) (widths : Widths) (free : c.ident = none)
      (line : e = .line k text) (h : Message.decode text = .ok (.hello name options))
      (admits : b.admits name options = .ok (slot, widths)) :
      Exchanged b k c e ⟨b.modifySlot slot.ident (·.claim k options widths),
        some { c with ident := some slot.ident }, [.youAre slot.ident]⟩
  | dismissed (sent : List Message) (free : c.ident = none) (fatal : Fatal b k c e) : Exchanged b k c e ⟨b, none, sent⟩
  | offered (text : String) (i : Ident) (slot : Slot) (time : Time) (signals : Signals) (bound : c.ident = some i)
      (hs : b.participants.get? i = some slot) (line : e = .line k text)
      (h : Message.decode text = .ok (.ready time signals)) (fits : slot.widths.fault? signals = none)
      (unready : slot.ready = false) :
      Exchanged b k c e ⟨b.modifySlot i (·.offer time signals), some c, []⟩
  | retired (i : Ident) (sent : List Message) (bound : c.ident = some i) (fatal : Fatal b k c e) :
      Exchanged b k c e ⟨b.retire i, none, sent⟩

theorem greet_cases (free : c.ident = none) (text : String) :
    Exchanged b k c (.line k text) (b.greet k c text) := by
  unfold greet
  cases hdecode : Message.decode text with
  | error cause => exact .dismissed [] free (.unreadable hdecode)
  | ok m =>
    cases m with
    | hello name options =>
      dsimp only
      cases hadmits : b.admits name options with
      | error reason => exact .dismissed _ free (.refused free hdecode hadmits)
      | ok found => exact .admitted text name options found.1 found.2 free rfl hdecode hadmits
    | youAre | nak | ready | deliver | finish =>
      exact .dismissed [] free (.beforeHello free hdecode (by simp [Message.command]))

theorem heed_cases {i : Ident} {slot : Slot} (bound : c.ident = some i) (hs : b.participants.get? i = some slot)
    (hlive : slot.finished = false) (text : String) : Exchanged b k c (.line k text) (b.heed c i text) := by
  have hread : b.decode i text = (Message.decode text).bind (b.checkOffer i) := rfl
  unfold heed hear
  rw [hread]
  cases hdecode : Message.decode text with
  | error cause => exact .retired i [] bound (.unreadable hdecode)
  | ok m =>
    cases m with
    | ready time signals =>
      cases hfault : slot.widths.fault? signals with
      | some fault =>
        simp only [Except.bind, checkOffer, hs, hfault]
        exact .retired i [] bound (.misfit bound hs hdecode hfault)
      | none =>
        cases hready : slot.ready with
        | true =>
          simp only [Except.bind, checkOffer, hs, hfault, receive, judge, hlive, Slot.isReady, hready]
          exact .retired i [] bound (.readyTwice bound hs hdecode hready)
        | false =>
          simp only [Except.bind, checkOffer, hs, hfault, receive, judge, hlive, Slot.isReady, hready]
          exact .offered text i slot time signals bound hs rfl hdecode hfault hready
    | finish =>
      simp only [Except.bind, checkOffer, hs, receive, judge]
      exact .retired i [.finish] bound (.finish bound hdecode)
    | hello | youAre | nak | deliver =>
      simp only [Except.bind, checkOffer, hs, receive, judge]
      exact .retired i [] bound (.unexpected bound hdecode (by simp [Message.command]) (by simp [Message.command]))

theorem exchange_cases (about : e.connection? = some k)
    (hslot : ∀ i, c.ident = some i → ∃ slot, b.participants.get? i = some slot ∧ slot.finished = false) :
    Exchanged b k c e (b.exchange k c e) := by
  have hlose : Fatal b k c e → Exchanged b k c e ⟨b.lose c, none, []⟩ := by
    intro hfatal
    unfold lose
    cases hi : c.ident with
    | none => exact .dismissed [] hi hfatal
    | some i => exact .retired i [] hi hfatal
  cases e with
  | accepted => cases about
  | line j text =>
    cases about
    unfold exchange
    cases hi : c.ident with
    | none => exact greet_cases hi text
    | some i =>
      obtain ⟨slot, hs, hlive⟩ := hslot i hi
      exact heed_cases hi hs hlive text
  | malformed j cause =>
    cases about
    exact hlose (.unframed cause)
  | closed j =>
    cases about
    exact hlose .closed

theorem Exchanged.connection_eq_none_iff {x : Exchange} (h : Exchanged b k c e x) :
    x.connection = none ↔ Fatal b k c e := by
  cases h with
  | dismissed sent free fatal => exact ⟨fun _ => fatal, fun _ => rfl⟩
  | retired i sent bound fatal => exact ⟨fun _ => fatal, fun _ => rfl⟩
  | admitted text name options slot widths free line h admits =>
    refine ⟨(fun hnone => by cases hnone), fun hfatal => ?_⟩
    subst line
    cases hfatal with
    | unreadable h' => cases h.symm.trans h'
    | beforeHello _ h' other =>
      cases h.symm.trans h'
      exact absurd rfl other
    | refused _ h' refused =>
      cases h.symm.trans h'
      cases admits.symm.trans refused
    | misfit bound | readyTwice bound | unexpected bound | finish bound => cases free.symm.trans bound
  | offered text i slot time signals bound hs line h fits unready =>
    refine ⟨(fun hnone => by cases hnone), fun hfatal => ?_⟩
    subst line
    cases hfatal with
    | unreadable h' => cases h.symm.trans h'
    | beforeHello free | refused free => cases bound.symm.trans free
    | misfit bound' hs' h' faulty =>
      cases bound.symm.trans bound'
      cases hs.symm.trans hs'
      cases h.symm.trans h'
      cases fits.symm.trans faulty
    | readyTwice bound' hs' h' ready =>
      cases bound.symm.trans bound'
      cases hs.symm.trans hs'
      cases unready.symm.trans ready
    | unexpected _ h' other =>
      cases h.symm.trans h'
      exact absurd rfl other
    | finish _ h' => cases h.symm.trans h'

theorem Exchanged.departed {x : Exchange} (h : Exchanged b k c e x) (hb : b.Fitted) (hfatal : Fatal b k c e)
    (hslot : ∀ i, c.ident = some i → ∃ slot, b.participants.get? i = some slot) : Departed c b x.bus := by
  have hnone := h.connection_eq_none_iff.2 hfatal
  cases h with
  | admitted | offered => cases hnone
  | dismissed sent free =>
    refine ⟨fun i hi => ?_, fun _ => rfl⟩
    cases free.symm.trans hi
  | retired i sent bound =>
    refine ⟨fun j hj => ?_, fun hfree => ?_⟩
    · cases bound.symm.trans hj
      obtain ⟨slot, hs⟩ := hslot i bound
      refine ⟨slot, hs, ?_⟩
      rw [retire, get?_modifySlot, if_pos rfl, hs, Option.map_some, (hb i slot hs).park_unbind]
    · cases bound.symm.trans hfree

end Bus

namespace Server

/-- What an event of connection `k`, which the table has as `c`, leaves alone. The bus of the connection was `b`
and is `b'`. -/
structure Confined (k : ConnectionKey) (c : Connection) (e : ServerEvent) (s s' : Server) (b b' : Bus)
    (actions : List ServerAction) : Prop where
  connections : ∀ j, j ≠ k → s'.connections.get? j = s.connections.get? j
  buses : ∀ n, n ≠ c.bus → s'.buses[n]? = s.buses[n]?
  rest : s' = { s with buses := s'.buses, connections := s'.connections }
  own : s'.buses[c.bus]? = some b'
  /-- Of the bus of the connection, only slots change: not its time, its steps, its clock or its engine. -/
  bus : b' = { b with participants := b'.participants }
  /-- No slot changes but the one to which the connection was bound or is bound now. -/
  slots : ∀ i, c.ident ≠ some i → (∀ c', s'.connections.get? k = some c' → c'.ident ≠ some i) →
    b'.participants.get? i = b.participants.get? i
  /-- A connection that stays is the same as before, or has been bound by an accepted handshake. -/
  stays : ∀ c', s'.connections.get? k = some c' → c' = c ∨
    ∃ text name options slot widths, c.ident = none ∧ e = .line k text ∧
      Message.decode text = .ok (.hello name options) ∧ b.admits name options = .ok (slot, widths) ∧
      c' = { c with ident := some slot.ident }
  /-- Nobody else is sent anything, or cut off. -/
  actions : ∀ a ∈ actions, (∃ notice, a = .note notice) ∨ (∃ m, a = .send k m) ∨ a = .close k

theorem mem_outward {k : ConnectionKey} {x : Exchange} {a : ServerAction} (h : a ∈ outward k x) :
    (∃ m, a = .send k m) ∨ a = .close k := by
  rcases List.mem_append.1 h with h | h
  · obtain ⟨m, -, rfl⟩ := List.mem_map.1 h
    exact .inl ⟨m, rfl⟩
  · split at h
    · exact .inr (List.mem_singleton.1 h)
    · cases h

variable {s : Server} {k : ConnectionKey} {c : Connection} {b : Bus} {e : ServerEvent}

theorem confined_settle (hc : s.connections.get? k = some c) (hb : s.buses[c.bus]? = some b) {x : Exchange}
    (hx : b.Exchanged k c e x) (notices : List ServerNotice) :
    Confined k c e s (s.settle k c.bus x) b x.bus (notices.map .note ++ outward k x) := by
  have hself : (s.settle k c.bus x).connections.get? k = x.connection := by rw [get?_settle hc, if_pos rfl]
  refine ⟨fun j hj => ?_, fun n hn => ?_, rfl, buses_setBus hb x.bus, ?_, fun i hi hi' => ?_, fun c' hc' => ?_,
    fun a ha => ?_⟩
  · rw [get?_settle hc, if_neg hj]
  · exact buses_setBus_of_ne (Ne.symm hn) s x.bus
  · cases hx <;> rfl
  · cases hx with
    | dismissed => rfl
    | admitted text name options slot widths free line h admits =>
      have hne : i ≠ slot.ident := by
        rintro rfl
        exact hi' _ hself rfl
      rw [Bus.get?_modifySlot, if_neg hne]
    | offered text j slot time signals bound =>
      have hne : i ≠ j := by
        rintro rfl
        exact hi bound
      rw [Bus.get?_modifySlot, if_neg hne]
    | retired j sent bound =>
      have hne : i ≠ j := by
        rintro rfl
        exact hi bound
      rw [Bus.retire, Bus.get?_modifySlot, if_neg hne]
  · rw [hself] at hc'
    cases hx with
    | dismissed | retired => cases hc'
    | offered =>
      cases hc'
      exact .inl rfl
    | admitted text name options slot widths free line h admits =>
      cases hc'
      exact .inr ⟨text, name, options, slot, widths, free, line, h, admits, rfl⟩
  · rcases List.mem_append.1 ha with ha | ha
    · obtain ⟨notice, -, rfl⟩ := List.mem_map.1 ha
      exact .inl ⟨notice, rfl⟩
    · exact .inr (mem_outward ha)

/-- **Failures stay local.** After any run of a server as it was configured, an event of a live connection changes
only this connection and the slot it is, or becomes, bound to. The connection is gone afterwards exactly if the event
is one of those that end it; then the participant behind it has left with all its wires released, and if there was
none, the bus is as it was. -/
theorem failures_stay_local {configs : List BusConfig} {limit : Nat} {start : Server} {notices : List ServerNotice}
    (h : ofConfigs configs limit = (some start, notices)) (steps : List Step) {k : ConnectionKey} {c : Connection}
    {e : ServerEvent} (hc : (start.run steps).1.connections.get? k = some c) (about : e.connection? = some k) :
    ∃ b b', (start.run steps).1.buses[c.bus]? = some b ∧
      Confined k c e (start.run steps).1 ((start.run steps).1.handle e).1 b b' ((start.run steps).1.handle e).2 ∧
      (((start.run steps).1.handle e).1.connections.get? k = none ↔ Fatal b k c e) ∧
      (Fatal b k c e → Departed c b b') := by
  have hreaches := Reaches.run start steps
  have hs := hreaches.consistent (consistent_ofConfigs h)
  generalize (start.run steps).1 = s at hc hs hreaches
  obtain ⟨b, hb, -⟩ := hs.served hc
  have hslot : ∀ i, c.ident = some i → ∃ slot, b.participants.get? i = some slot ∧ slot.finished = false := by
    intro i hi
    obtain ⟨slot, hslot, -, -, hlive⟩ := hs.slot_of_bound hc hi hb
    exact ⟨slot, hslot, hlive⟩
  have hx := Bus.exchange_cases about hslot
  obtain ⟨hstate, notices', hactions⟩ := hs.handle_eq about hc hb
  rw [hstate, hactions]
  refine ⟨b, (b.exchange k c e).bus, hb, confined_settle hc hb hx notices', ?_, fun hfatal => ?_⟩
  · rw [get?_settle hc, if_pos rfl]
    exact hx.connection_eq_none_iff
  · refine hx.departed (fitted_of_reaches h hreaches hb) hfatal fun i hi => ?_
    obtain ⟨slot, hs, -⟩ := hslot i hi
    exact ⟨slot, hs⟩

/-- The host has connected, and sends a READY without a time: it has left, and what it drove is released. -/
theorem departed_host : ∃ b b',
    (idleServer.run [.event (.accepted 0 "peer"), .event (.line 0 "HELLO host")]).1.connections.get? 0 =
      some ⟨0, some 0, "peer"⟩ ∧
    (ServerEvent.line 0 "READY").connection? = some 0 ∧
    (idleServer.run [.event (.accepted 0 "peer"), .event (.line 0 "HELLO host")]).1.buses[0]? = some b ∧
    Fatal b 0 ⟨0, some 0, "peer"⟩ (.line 0 "READY") ∧ Departed ⟨0, some 0, "peer"⟩ b b' := by
  have hc : (idleServer.run [.event (.accepted 0 "peer"), .event (.line 0 "HELLO host")]).1.connections.get? 0 =
      some ⟨0, some 0, "peer"⟩ := by cbv
  have hdecode : Message.decode "READY" = .error (.missingArgument .ready .time) := by cbv
  have about : (ServerEvent.line 0 "READY").connection? = some 0 := rfl
  obtain ⟨b, b', hb, -, -, hdeparted⟩ := failures_stay_local ofConfigs_hostAndCard
    [.event (.accepted 0 "peer"), .event (.line 0 "HELLO host")] hc about
  exact ⟨b, b', hc, about, hb, .unreadable hdecode, hdeparted (.unreadable hdecode)⟩

end Server

end Lockstep
