import Lockstep.Proofs.Bus.Roster
import Lockstep.Proofs.Client.Conversation
import Lockstep.Proofs.Server.Outward
/-!
# How the server meets a conversation

Two things that the server does concern a station: it takes an event that was announced for the station's connection,
and it serves the bus. What a station may have announced is known from its phase, and so is the exchange that comes of
it (`Stage.meets`): the introduction is accepted or refused, the offer is due, the farewell is acknowledged, and
none of this gives the server reason to blame anybody (`Server.Orderly`).

The service of the bus does nothing as long as somebody is neither ready nor finished. When it does go on, each
station with a slot waits for exactly that, for in every other phase the slot would hold the bus up (`Stage.advance`):
a slot that nobody has claimed is not ready, and a slot that holds a connection is not finished.
-/

namespace Lockstep

open Message Server

/-! ### Answers -/

namespace Message

theorem sendable_nak : Sendable maxLineLength .nak := ⟨trivial, by decide⟩

theorem sendable_finish : Sendable maxLineLength .finish := ⟨trivial, by decide⟩

theorem sendable_youAre (i : Ident) : Sendable maxLineLength (.youAre i) := by
  refine ⟨trivial, ?_⟩
  have hascii : ∀ c ∈ Text.ofNat i.toNat, c.toNat < 128 := fun c => Text.toNat_lt_of_mem_ofNat
  have hdigits : (Text.ofNat i.toNat).length ≤ 10 := Text.length_ofNat_le (by decide) (i.toNat_lt.trans (by decide))
  have hchars : (Message.youAre i).chars = "YOU-ARE ".toList ++ Text.ofNat i.toNat := by
    simp [chars, arguments, command, Command.word]
  rw [hchars, Text.bytes_append, List.length_append, Text.length_bytes_of_ascii hascii]
  have hcommand : (Text.bytes "YOU-ARE ".toList).length = 8 := by decide
  rw [hcommand]
  exact (Nat.add_le_add_left hdigits 8).trans (by decide)

end Message

namespace Station

variable {st : Station} {k : ConnectionKey} {ms : List Message}

theorem receive_of_key (hk : st.key = some k) (actions : List ServerAction) : st.receive actions =
    { st with down := st.down ++ stream (sentTo k actions), cut := st.cut || Session.closes k actions } := by
  simp only [receive, hk]

theorem receive_with_events (hk : st.key = some k) (events : List ServerEvent) (actions : List ServerAction) :
    { st with events }.receive actions =
      { st with events, down := st.down ++ stream (sentTo k actions), cut := st.cut || Session.closes k actions } := by
  have hkey : { st with events }.key = some k := hk
  rw [receive_of_key hkey]

theorem receive_of_silent {actions : List ServerAction}
    (h : ∀ k, st.key = some k → sentTo k actions = [] ∧ Session.closes k actions = false) : st.receive actions = st := by
  cases hk : st.key with
  | none => simp only [receive, hk]
  | some k =>
    obtain ⟨hsent, hcloses⟩ := h k hk
    rw [receive_of_key hk, hsent, hcloses, stream_nil, List.append_nil, Bool.or_false]

theorem receive_append (as bs : List ServerAction) : st.receive (as ++ bs) = (st.receive as).receive bs := by
  cases hk : st.key with
  | none => simp only [receive, hk]
  | some k =>
    have hk' : (st.receive as).key = some k := by rw [receive_of_key hk, hk]
    rw [receive_of_key hk', receive_of_key hk, receive_of_key hk, sentTo_append, stream_append]
    simp [Session.closes, Bool.or_assoc]

@[simp] theorem key_receive (st : Station) (actions : List ServerAction) : (st.receive actions).key = st.key := by
  unfold receive
  split <;> rfl

@[simp] theorem events_receive (st : Station) (actions : List ServerAction) : (st.receive actions).events = st.events := by
  unfold receive
  split <;> rfl

theorem Sends.next {taken left : List Message} (h : st.Sends (announced k taken) left) {m : Message}
    (all : taken ++ left = [m]) {e : ServerEvent} {events : List ServerEvent} (next : st.events = e :: events) :
    e = .line k m.text ∧ events = [] ∧ { st with events }.Sends (announced k []) [] := by
  have hwaiting := h.waiting
  rw [next] at hwaiting
  cases taken with
  | nil => cases hwaiting
  | cons m' taken =>
    obtain ⟨rfl, hnil⟩ := List.cons.inj all
    obtain ⟨rfl, rfl⟩ := List.append_eq_nil_iff.1 hnil
    obtain ⟨rfl, rfl⟩ := List.cons.inj hwaiting
    exact ⟨rfl, rfl, rfl, h.rest, h.limit, h.sendable⟩

theorem Hears.send (h : st.Hears ms) {st' : Station} {more : List Message} (hincoming : st'.incoming = st.incoming)
    (hdown : st'.down = st.down ++ stream more) (hmore : ∀ m ∈ more, m.Sendable maxLineLength) :
    st'.Hears (ms ++ more) := by
  refine ⟨?_, by rw [hincoming]; exact h.limit, fun m hm => ?_⟩
  · rw [hincoming, hdown, ← List.append_assoc, h.rest, stream_append]
  · exact (List.mem_append.1 hm).elim (h.sendable m) (hmore m)

end Station

/-! ### Exchanges -/

namespace Bus

variable {b : Bus} {k : ConnectionKey} {c : Connection} {i : Ident} {slot : Slot} {text : String}

theorem exchange_ready {time : Time} {signals : Signals} (bound : c.ident = some i)
    (hs : b.participants.get? i = some slot) (live : slot.finished = false) (unready : slot.ready = false)
    (decoded : Message.decode text = .ok (.ready time signals)) (fits : slot.widths.fault? signals = none) :
    b.exchange k c (.line k text) = ⟨b.modifySlot i (·.offer time signals), some c, []⟩ := by
  have hdecode := decode_ready hs decoded fits
  have hjudge : judge slot (.ready time signals) = .ok .ready := by simp [judge, live, Slot.isReady, unready]
  simp only [exchange, bound, heed, hear, hdecode, receive, hs, hjudge]

theorem exchange_finish (bound : c.ident = some i) (hs : b.participants.get? i = some slot)
    (decoded : Message.decode text = .ok .finish) :
    b.exchange k c (.line k text) = ⟨b.retire i, none, [.finish]⟩ := by
  have hdecode : b.decode i text = .ok .finish := decode_finish decoded
  simp only [exchange, bound, heed, hear, hdecode, receive, hs, judge]

end Bus

/-- What comes of event `e` of station `i`, the first of its events. -/
structure Meets (n : Nat) (b : Bus) (i : Ident) (st : Station) (k : ConnectionKey) (c : Connection) (e : ServerEvent)
    (events : List ServerEvent) : Prop where
  orderly : Orderly b k c e
  own : ∃ f, (b.exchange k c e).bus = b.modifySlot i f
  stage : ∀ {s' : Server} {actions : List ServerAction},
    s'.connections.get? k = (b.exchange k c e).connection → sentTo k actions = (b.exchange k c e).sent →
    Session.closes k actions = (b.exchange k c e).connection.isNone →
    Stage s' n (b.exchange k c e).bus i ({ st with events }.receive actions)

section

variable {s : Server} {n : Nat} {b : Bus} {i : Ident} {st : Station} {k : ConnectionKey} {c : Connection}
  {e : ServerEvent} {events : List ServerEvent}

theorem Meets.of_exchange {x : Exchange} (hx : b.exchange k c e = x) (hk : st.key = some k)
    (orderly : Orderly b k c e) (own : ∃ f, x.bus = b.modifySlot i f)
    (stage : ∀ {s' : Server}, s'.connections.get? k = x.connection → Stage s' n x.bus i
      { st with events, down := st.down ++ stream x.sent, cut := st.cut || x.connection.isNone }) :
    Meets n b i st k c e events := by
  subst hx
  refine ⟨orderly, own, fun hlisted hsent hcloses => ?_⟩
  rw [Station.receive_with_events hk, hsent, hcloses]
  exact stage hlisted

theorem Introducing.meets {name : String} {options : Options} {taken left : List Message} {devices : List Device}
    (h : Introducing b i st name options) (hb : b.Sound) (staffed : b.participants.Staffed devices)
    (hk : st.key = some k) (bus : c.bus = n) (free : c.ident = none)
    (all : taken ++ left = [.hello name options]) (sends : st.Sends (announced k taken) left)
    (next : st.events = e :: events) : Meets n b i st k c e events := by
  obtain ⟨rfl, rfl, hsends⟩ := sends.next all next
  have hdecode : Message.decode (Message.hello name options).text = .ok (.hello name options) :=
    decode_text h.sendable.wireable
  cases hadmits : b.admits name options with
  | error reason =>
    have hx : b.exchange k c (.line k (Message.hello name options).text) = ⟨b, none, [.nak]⟩ := by
      simp only [Bus.exchange, free, Bus.greet, hdecode, hadmits]
    refine .of_exchange hx hk (.hello free hdecode) ⟨fun slot => slot, (b.modifySlot_id i).symm⟩ fun hgone => ?_
    refine .ended k [.nak] ⟨hk, hgone, .inl (Bool.or_true _), ?_, ?_⟩
    · exact h.silent.hears.send rfl rfl (by simp [sendable_nak])
    · show Last st.activity [.nak]
      rw [h.activity]
      exact .refused name options
  | ok found =>
    obtain ⟨slot, widths⟩ := found
    obtain ⟨hlive, hslot, hname, hfree, -⟩ := Bus.admits_spec hb hadmits
    -- the slot of this name is the one of this station
    obtain ⟨slot', hslot', hname'⟩ := h.named
    have hdevice : slot.device = slot'.device :=
      staffed.eq_of_name_eq (staffed.device hslot).1 (staffed.device hslot').1 (hname.trans hname'.symm)
    have hident : slot.ident = i := (congrArg Device.ident hdevice).trans (staffed.device hslot').2
    have hx : b.exchange k c (.line k (Message.hello name options).text) =
        ⟨b.modifySlot i (·.claim k options widths), some { c with ident := some i }, [.youAre i]⟩ := by
      simp only [Bus.exchange, free, Bus.greet, hdecode, hadmits, hident]
    rw [hident] at hslot
    refine .of_exchange hx hk (.hello free hdecode) ⟨_, rfl⟩ fun {s'} hlisted => ?_
    have hseated : Seated s' n (b.modifySlot i (·.claim k options widths)) i k { c with ident := some i }
        (slot.claim k options widths) := by
      refine ⟨hlisted, bus, rfl, ?_⟩
      rw [Bus.get?_modifySlot, if_pos rfl, hslot]
      rfl
    obtain ⟨-, -, htime, hsteps⟩ := h.unused slot hslot
    refine .admitted k _ _ [] [] [.youAre i] ⟨hk, hseated, ?_, h.silent.stays, hsends.congr rfl rfl rfl, ?_, ?_⟩
    · show (st.cut || false) = false
      rw [h.silent.uncut]
      rfl
    · exact h.silent.hears.send rfl rfl (by simp [sendable_youAre])
    · show Footing _ i _ st.activity [] [.youAre i]
      rw [h.activity]
      exact .welcomed name options ((hb.slots hslot).vacant hfree).1 htime hsteps

theorem Admitted.meets {slot : Slot} {taken left down : List Message}
    (h : Admitted s n b i st k c slot taken left down) (hb : b.Bounded) (live : slot.finished = false)
    (next : st.events = e :: events) : Meets n b i st k c e events := by
  have hslot := h.seated.slot
  have hfooting := h.footing
  have hnone : taken ++ left ≠ [] := by
    intro hnil
    obtain ⟨rfl, rfl⟩ := List.append_eq_nil_iff.1 hnil
    cases next.symm.trans h.sends.waiting
  generalize hactivity : st.activity = activity at hfooting
  generalize hup : taken ++ left = up at hfooting hnone
  cases hfooting with
  | welcomed | idle | offered | answered => exact absurd rfl hnone
  | offering client drive unready steps fits =>
    obtain ⟨rfl, rfl, hsends⟩ := h.sends.next hup next
    have hbounded := (hb.participants i slot hslot).agreed.offer fits
    have hdecode : Message.decode (client.offer drive).text = .ok (.ready client.time drive) := by
      rw [Client.offer, decode_text (hbounded.sendable_ready client.time).wireable, wired, hbounded.wired]
    have hx := Bus.exchange_ready (k := k) h.seated.bound hslot live unready hdecode fits
    have horderly : Orderly b k c (.line k (client.offer drive).text) :=
      .ready h.seated.bound hslot live unready hdecode fits
    refine .of_exchange hx h.key horderly ⟨_, rfl⟩ fun {s'} hlisted => ?_
    have hseated : Seated s' n (b.modifySlot i (·.offer client.time drive)) i k c (slot.offer client.time drive) := by
      refine ⟨hlisted, h.seated.bus, h.seated.bound, ?_⟩
      rw [Bus.get?_modifySlot, if_pos rfl, hslot]
      rfl
    refine .admitted k c _ [] [] [] ⟨h.key, hseated, ?_, h.stays, hsends.congr rfl rfl rfl, ?_, ?_⟩
    · show (st.cut || false) = false
      rw [h.uncut]
      rfl
    · exact h.hears.congr rfl (List.append_nil _)
    · show Footing _ i _ st.activity [] []
      rw [hactivity]
      exact .offered client drive rfl steps
  | leaving client unready =>
    obtain ⟨rfl, rfl, -⟩ := h.sends.next hup next
    have hdecode : Message.decode Message.finish.text = .ok .finish := decode_text (m := .finish) trivial
    have hx := Bus.exchange_finish (k := k) h.seated.bound hslot hdecode
    refine .of_exchange hx h.key (.finish h.seated.bound hslot hdecode) ⟨_, rfl⟩ fun hgone => ?_
    refine .ended k [.finish] ⟨h.key, hgone, .inl (Bool.or_true _), ?_, ?_⟩
    · exact h.hears.send rfl rfl (by simp [sendable_finish])
    · show Last st.activity [.finish]
      rw [hactivity]
      exact .farewell client

theorem Stage.meets {devices : List Device} (h : Stage s n b i st) (hs : s.Consistent)
    (hbus : s.buses[n]? = some b) (hb : b.Bounded) (staffed : b.participants.Staffed devices)
    (hk : st.key = some k) (hc : s.connections.get? k = some c) (next : st.events = e :: events) :
    Meets n b i st k c e events := by
  cases h with
  | away activity silent new => cases hk.symm.trans new.key
  | dialled name options h new => cases hk.symm.trans new.key
  | greeting name options k' c' taken left h key hc' bus free all sends =>
    cases hk.symm.trans key
    cases hc.symm.trans hc'
    exact h.meets (hs.sound hbus) staffed hk bus free all sends next
  | admitted k' c' slot taken left down h =>
    cases hk.symm.trans h.key
    cases hc.symm.trans h.seated.listed
    obtain ⟨slot', hslot', -, -, hlive⟩ := hs.slot_of_bound hc h.seated.bound (h.seated.bus ▸ hbus)
    cases hslot'.symm.trans h.seated.slot
    exact h.meets hb hlive next
  | hungUp k' c' slot activity key seated unready sends hears =>
    cases hk.symm.trans key
    cases hc.symm.trans seated.listed
    rcases sends with ⟨hsends, -⟩ | ⟨hsends, -⟩
    · cases next.symm.trans hsends.waiting
    · cases next.symm.trans hsends.waiting
      have hx : b.exchange k c (.closed k) = ⟨b.retire i, none, []⟩ := by
        simp only [Bus.exchange, Bus.lose, seated.bound]
      refine .of_exchange hx hk .closed ⟨_, rfl⟩ fun hgone => ?_
      refine .ended k [] ⟨hk, hgone, .inr activity, hears.congr rfl (List.append_nil _), ?_⟩
      show Last st.activity []
      rw [activity]
      exact .unread []
  | ended k' ms h =>
    cases hk.symm.trans h.key
    cases hc.symm.trans h.gone

/-! ### The service of the bus -/

/-- When a bus goes on, a station waits for that, or it has no part in the bus: nobody has claimed its slot, because it
has none, or its connection is gone. -/
theorem Stage.advance (h : Stage s n b i st) (hs : s.Consistent) (hbus : s.buses[n]? = some b)
    (ready : b.allReady = true) {s' : Server} {b' : Bus} {actions : List ServerAction}
    (hroster : b'.participants.roster = b.participants.roster)
    (hstranger : ∀ k, s.connections.get? k = none →
      s'.connections.get? k = none ∧ sentTo k actions = [] ∧ Session.closes k actions = false)
    (hoffered : ∀ k c slot client drive, Admitted s n b i st k c slot [] [] [] →
      st.activity = .offering client drive → client.steps = b.steps → Stage s' n b' i (st.receive actions)) :
    Stage s' n b' i (st.receive actions) := by
  have hall := Participants.allReady_iff.1 ready i
  -- a slot that nobody has claimed would hold the bus up
  have hclaimed : ∀ slot, b.participants.get? i = some slot → slot.claimed ≠ false := by
    intro slot hslot hfree
    obtain ⟨hready, hfinished, -⟩ := ((hs.sound hbus).slots hslot).vacant hfree
    have hisReady := hall slot hslot
    rw [Slot.isReady, hready, hfinished] at hisReady
    cases hisReady
  -- and so would one that holds a connection and is not ready
  have hheld : ∀ {k c slot}, Seated s n b i k c slot → slot.ready = true := by
    intro k c slot hseated
    obtain ⟨slot', hslot', -, -, hlive⟩ := hs.slot_of_bound hseated.listed hseated.bound (hseated.bus ▸ hbus)
    cases hslot'.symm.trans hseated.slot
    have hisReady := hall slot hseated.slot
    rwa [Slot.isReady, hlive, Bool.or_false] at hisReady
  cases h with
  | away activity silent new unused =>
    have hnone : b.participants.get? i = none := by
      cases hslot : b.participants.get? i with
      | none => rfl
      | some slot => exact absurd (unused slot hslot).1 (hclaimed slot hslot)
    rw [Station.receive_of_silent fun k hk => by cases hk.symm.trans new.key]
    refine .away activity silent new fun slot hslot => ?_
    have hsame : b'.participants.roster.get? i = b.participants.roster.get? i := by rw [hroster]
    rw [Participants.get?_roster, Participants.get?_roster, hslot, hnone] at hsame
    cases hsame
  | dialled name options h =>
    obtain ⟨slot, hslot, -⟩ := h.named
    exact absurd (h.unused slot hslot).1 (hclaimed slot hslot)
  | greeting name options k c taken left h =>
    obtain ⟨slot, hslot, -⟩ := h.named
    exact absurd (h.unused slot hslot).1 (hclaimed slot hslot)
  | admitted k c slot taken left down h =>
    have hready := hheld h.seated
    have hfooting := h.footing
    generalize hactivity : st.activity = activity at hfooting
    generalize hup : taken ++ left = up at hfooting
    cases hfooting with
    | welcomed _ _ unready | idle _ unready | offering _ _ unready | answered _ _ unready | leaving _ unready =>
      cases hready.symm.trans unready
    | offered client drive _ steps =>
      obtain ⟨rfl, rfl⟩ := List.append_eq_nil_iff.1 hup
      exact hoffered k c slot client drive h hactivity steps
  | hungUp k c slot activity key seated unready => cases (hheld seated).symm.trans unready
  | ended k ms h =>
    obtain ⟨hgone, hsent, hcloses⟩ := hstranger k h.gone
    rw [Station.receive_of_silent fun j hj => by cases hj.symm.trans h.key; exact ⟨hsent, hcloses⟩]
    exact .ended k ms { h with gone := hgone }

theorem Stage.answer (h : Stage s n b i st) (hs : s.Consistent) (hbus : s.buses[n]? = some b) {ds : List Delivery}
    (advanced : b.advance.1 = .stepped ds) (hs' : (s.setBus n b.advance.2.1).Consistent)
    (hb' : b.advance.2.1.Bounded) (notices : List ServerNotice) :
    Stage (s.setBus n b.advance.2.1) n b.advance.2.1 i
      (st.receive (notices.map .note ++ ds.map fun d => .send d.1 d.2)) := by
  have hready := (Bus.ready_of_advance (b := b) (by rw [advanced]; simp)).2
  have hstep := Bus.stepsFrom_of_stepped advanced
  have hcloses : ∀ k, Session.closes k (notices.map .note ++ ds.map fun d => .send d.1 d.2) = false := by
    intro k
    refine Bool.eq_false_iff.2 fun hcut => ?_
    simpa using closes_iff_mem.1 hcut
  refine h.advance hs hbus hready (b.roster_perform .advance) (fun k hk => ⟨hk, ?_, hcloses k⟩) ?_
  · rw [sentTo_append, sentTo_notes, List.nil_append, sentTo, List.filterMap_map]
    refine List.filterMap_eq_nil_iff.2 fun d hd => if_neg ?_
    obtain ⟨c, j, hc, -⟩ := hs.delivered hbus advanced hd
    rintro rfl
    cases hk.symm.trans hc
  · intro k c slot client drive hadmitted hactivity hcount
    have hlisted := hadmitted.seated.listed
    have hbound := hadmitted.seated.bound
    have hholds : b.Holds i k := (hs.held hlisted (hadmitted.seated.bus ▸ hbus)).2 i hbound
    have hslots : (s.setBus n b.advance.2.1).buses[c.bus]? = some b.advance.2.1 := by
      rw [hadmitted.seated.bus]
      exact buses_setBus hbus _
    obtain ⟨slot', hslot', -, -, hlive⟩ := hs'.slot_of_bound hlisted hbound hslots
    have hshown : b.advance.2.1.participants.shown i = slot'.outgoing := by
      rw [Participants.shown, hslot']
      rfl
    have hsent := hs.sentTo_of_holds hbus advanced hholds
    rw [hshown] at hsent
    rw [Station.receive_of_key hadmitted.key, sentTo_append, sentTo_notes, List.nil_append, hsent, hcloses,
      Bool.or_false]
    refine .admitted k c slot' [] [] _ ⟨hadmitted.key, ⟨hlisted, hadmitted.seated.bus, hbound, hslot'⟩, hadmitted.uncut,
      hadmitted.stays, hadmitted.sends.congr rfl rfl rfl, hadmitted.hears.send rfl rfl ?_, ?_⟩
    · simpa using (hb'.participants i slot' hslot').shown.sendable_deliver b.advance.2.1.time
    · show Footing _ i _ st.activity [] _
      rw [hactivity]
      exact .answered client drive (hstep.rearmed i slot' hslot' hlive) (hstep.counted ▸ congrArg (· + 1) hcount)

theorem Stage.cutOff (h : Stage s n b i st) (hs : s.Consistent) (hbus : s.buses[n]? = some b)
    (ready : b.allReady = true) {b₁ : Bus} (hroster : b₁.participants.roster = b.participants.roster)
    (notices : List ServerNotice) {closes : List ConnectionKey}
    (cut : ∀ k, k ∈ closes ↔ ∃ c, s.connections.get? k = some c ∧ c.bus = n) :
    Stage (s.ended n b₁) n b₁.tearDown.2.1 i (st.receive (notices.map .note ++ closes.map .close)) := by
  have hsent : ∀ k, sentTo k (notices.map .note ++ closes.map .close) = [] := fun k => by simp
  have hcloses : ∀ k, Session.closes k (notices.map .note ++ closes.map .close) = true ↔
      ∃ c, s.connections.get? k = some c ∧ c.bus = n := by
    intro k
    rw [closes_iff_mem, ← cut]
    simp
  refine h.advance hs hbus ready ((b₁.roster_perform .tearDown).trans hroster) (fun k hk => ⟨?_, hsent k, ?_⟩) ?_
  · rw [get?_ended, hk]
    rfl
  · refine Bool.eq_false_iff.2 fun hcut => ?_
    obtain ⟨c, hc, -⟩ := (hcloses k).1 hcut
    cases hk.symm.trans hc
  · intro k c slot client drive hadmitted hactivity hcount
    have hcut := (hcloses k).2 ⟨c, hadmitted.seated.listed, hadmitted.seated.bus⟩
    rw [Station.receive_of_key hadmitted.key, hsent, hcut]
    refine .ended k [] ⟨hadmitted.key, ?_, .inl (Bool.or_true _), hadmitted.hears.congr rfl (List.append_nil _), ?_⟩
    · rw [get?_ended, hadmitted.seated.listed, Option.filter_some, if_neg (by simp [hadmitted.seated.bus])]
    · show Last st.activity []
      rw [hactivity]
      exact .none _ nofun

end

end Lockstep
