import Lockstep.Proofs.Bus.Delivery
import Lockstep.Proofs.Bus.Run
import Lockstep.Proofs.Server.Run
/-!
# What a move of a server can do

A connection that has been admitted is noted twice: the connection knows its slot, and the slot knows its
connection. `Server.Consistent` says that the two never disagree, and that nothing of a bus that was torn down is
left in the table of connections. In a consistent server, `Server.Moved` lists all that an event or the service of a
bus can come to, with the whole new state and everything that is done to the outside (`Server.Consistent.moved`);
later proofs take their facts about the server from there.
-/

namespace Lockstep

def ServerEvent.connection? : ServerEvent → Option ConnectionKey
  | .accepted .. => none
  | .line k _ | .malformed k _ | .closed k => some k

namespace Server

def Holds (s : Server) (n : Nat) (i : Ident) (k : ConnectionKey) : Prop :=
  ∃ b, s.buses[n]? = some b ∧ b.Holds i k

/-- The connections of a server and the slots of its buses agree. -/
structure Consistent (s : Server) : Prop where
  sound : ∀ {n : Nat} {b : Bus}, s.buses[n]? = some b → b.Sound
  /-- The next key is not in use, nor any after it. -/
  fresh : ∀ {k c}, s.connections.get? k = some c → k < s.nextKey
  /-- Every connection belongs to a bus that has not been torn down. -/
  served : ∀ {k c}, s.connections.get? k = some c → ∃ b, s.buses[c.bus]? = some b ∧ b.finished = false
  /-- A connection that has been admitted is held by its slot. -/
  bound : ∀ {k c i}, s.connections.get? k = some c → c.ident = some i → s.Holds c.bus i k
  /-- A slot holds a connection that knows of it. -/
  known : ∀ {n i k}, s.Holds n i k → ∃ c, s.connections.get? k = some c ∧ c.bus = n ∧ c.ident = some i

/-! ### States after a move -/

def forget (s : Server) (k : ConnectionKey) : Server := { s with connections := s.connections.erase k }

/-- The server after it has accepted a stream to bus `n`. -/
def opened (s : Server) (n : Nat) (peer : String) : Server :=
  { s with connections := s.connections.insert s.nextKey ⟨n, none, peer⟩, nextKey := s.nextKey + 1 }

/-- The server after slot `i` of bus `n`, which was `b`, has been claimed. -/
def admitted (s : Server) (k : ConnectionKey) (n : Nat) (b : Bus) (i : Ident) (options : Options)
    (widths : Widths) : Server :=
  { s.setBus n (b.modifySlot i (·.claim k options widths)) with
    connections := s.connections.modify k fun c => { c with ident := some i } }

/-- The server after slot `i` of bus `n`, which was `b`, has been retired with its connection. -/
def retired (s : Server) (k : ConnectionKey) (n : Nat) (b : Bus) (i : Ident) : Server :=
  (s.setBus n (b.retire i)).forget k

/-- The server after bus `n`, which was `b`, has been torn down. -/
def ended (s : Server) (n : Nat) (b : Bus) : Server :=
  { s.setBus n b.tearDown.2.1 with connections := s.connections.filter fun _ c => c.bus ≠ n }

/-- Moves that concern nobody: a stream to a bus that is gone, an event of a connection that is gone, the service
of a bus that is gone. -/
def Ignores (s : Server) : Move → Prop
  | .event (.accepted n _) | .serviceBus n => ∀ b, s.buses[n]? = some b → b.finished = true
  | .event (.line k _) | .event (.malformed k _) | .event (.closed k) => s.connections.get? k = none

/-- What a move can come to. -/
inductive Moved (s : Server) : Move → Server → List ServerAction → Prop where
  | ignored (m : Move) (h : s.Ignores m) : Moved s m s []
  | opened (n : Nat) (peer : String) (b : Bus) (hb : s.buses[n]? = some b) (live : b.finished = false) :
      Moved s (.event (.accepted n peer)) (s.opened n peer) []
  | admitted (k : ConnectionKey) (text : String) (c : Connection) (b : Bus) (name : String) (options : Options)
      (slot : Slot) (widths : Widths) (notices : List ServerNotice)
      (hc : s.connections.get? k = some c) (free : c.ident = none) (hb : s.buses[c.bus]? = some b)
      (decoded : Message.decode text = .ok (.hello name options))
      (admits : b.admits name options = .ok (slot, widths)) :
      Moved s (.event (.line k text)) (s.admitted k c.bus b slot.ident options widths)
        (notices.map .note ++ [.send k (.youAre slot.ident)])
  | refused (k : ConnectionKey) (text : String) (c : Connection) (b : Bus) (name : String) (options : Options)
      (reason : Rejection) (notices : List ServerNotice)
      (hc : s.connections.get? k = some c) (free : c.ident = none) (hb : s.buses[c.bus]? = some b)
      (decoded : Message.decode text = .ok (.hello name options))
      (admits : b.admits name options = .error reason) :
      Moved s (.event (.line k text)) (s.forget k) (notices.map .note ++ [.send k .nak, .close k])
  /-- A connection goes before it was admitted: its first line is no handshake, or its stream ends. -/
  | dropped (k : ConnectionKey) (e : ServerEvent) (c : Connection) (notices : List ServerNotice)
      (about : e.connection? = some k) (hc : s.connections.get? k = some c) (free : c.ident = none)
      (nohello : ∀ text name options, e = .line k text → Message.decode text ≠ .ok (.hello name options)) :
      Moved s (.event e) (s.forget k) (notices.map .note ++ [.close k])
  | offered (k : ConnectionKey) (text : String) (c : Connection) (b : Bus) (i : Ident)
      (notices : List ServerNotice)
      (hc : s.connections.get? k = some c) (bound : c.ident = some i) (hb : s.buses[c.bus]? = some b)
      (heard : (b.hear i text).1 = .ok (.ok .ready)) :
      Moved s (.event (.line k text)) (s.setBus c.bus (b.hear i text).2) (notices.map .note)
  | left (k : ConnectionKey) (text : String) (c : Connection) (b : Bus) (i : Ident)
      (notices : List ServerNotice)
      (hc : s.connections.get? k = some c) (bound : c.ident = some i) (hb : s.buses[c.bus]? = some b)
      (heard : (b.hear i text).1 = .ok (.ok .finished)) :
      Moved s (.event (.line k text)) (s.retired k c.bus b i)
        (notices.map .note ++ [.send k .finish, .close k])
  /-- A participant is retired without an answer: its line is out of turn or cannot be read, or its stream ends. -/
  | expelled (k : ConnectionKey) (e : ServerEvent) (c : Connection) (b : Bus) (i : Ident)
      (notices : List ServerNotice) (about : e.connection? = some k)
      (hc : s.connections.get? k = some c) (bound : c.ident = some i) (hb : s.buses[c.bus]? = some b)
      (unheard : ∀ text outcome, e = .line k text → (b.hear i text).1 ≠ .ok (.ok outcome)) :
      Moved s (.event e) (s.retired k c.bus b i) (notices.map .note ++ [.close k])
  | waiting (n : Nat) (b : Bus) (hb : s.buses[n]? = some b) (live : b.finished = false)
      (unready : b.allReady = false) : Moved s (.serviceBus n) s []
  | stepped (n : Nat) (b : Bus) (ds : List Delivery) (notices : List ServerNotice)
      (hb : s.buses[n]? = some b) (unfinished : b.allFinished = false) (advanced : b.advance.1 = .stepped ds) :
      Moved s (.serviceBus n) (s.setBus n b.advance.2.1)
        (notices.map .note ++ ds.map fun d => .send d.1 d.2)
  /-- A bus ends because all of its participants have finished, or because it cannot go on. -/
  | ended (n : Nat) (b b' : Bus) (notices : List ServerNotice) (closes : List ConnectionKey)
      (hb : s.buses[n]? = some b) (live : b.finished = false)
      (why : b.allFinished = true ∧ b' = b ∨
        b.allFinished = false ∧ b' = b.advance.2.1 ∧ ∃ cause, b.advance.1 = .failed cause)
      (cut : ∀ k, k ∈ closes ↔ ∃ c, s.connections.get? k = some c ∧ c.bus = n) :
      Moved s (.serviceBus n) (s.ended n b') (notices.map .note ++ closes.map .close)

/-! ### Closing connections -/

theorem closeConnection_eq (k : ConnectionKey) (s : Server) :
    closeConnection k s = (s.forget k, if s.connections.contains k then [.close k] else []) := by
  unfold closeConnection forget
  split
  · rfl
  · next h =>
    have hnone : s.connections.get? k = none := by simpa [SortedMap.contains] using h
    rw [SortedMap.erase_of_get?_eq_none hnone]

theorem closeConnection_of_live {k : ConnectionKey} {s : Server} {c : Connection}
    (h : s.connections.get? k = some c) : closeConnection k s = (s.forget k, [.close k]) := by
  rw [closeConnection_eq, if_pos (SortedMap.contains_iff.2 ⟨c, h⟩)]

theorem get?_filter_not_mem (t : SortedMap ConnectionKey Connection) (ks : List ConnectionKey)
    (k : ConnectionKey) : (t.filter fun k _ => k ∉ ks).get? k = if k ∈ ks then none else t.get? k := by
  rw [SortedMap.get?_filter]
  split
  · next h => cases t.get? k <;> simp [h]
  · next h => cases t.get? k <;> simp [h]

theorem forEach_closeConnection (s : Server) (ks : List ConnectionKey) :
    ∃ closes : List ConnectionKey, s.forEach ks closeConnection =
        ({ s with connections := s.connections.filter fun k _ => k ∉ ks }, closes.map .close) ∧
      ∀ k, k ∈ closes ↔ k ∈ ks ∧ ∃ c, s.connections.get? k = some c := by
  induction ks using List.reverseRecOn with
  | nil =>
    refine ⟨[], ?_, by simp⟩
    have hall : (s.connections.filter fun k _ => k ∉ ([] : List ConnectionKey)) = s.connections := by
      refine SortedMap.ext_get? fun k => ?_
      rw [get?_filter_not_mem, if_neg (List.not_mem_nil)]
    rw [hall]
    rfl
  | append_singleton ks k ih =>
    obtain ⟨closes, heq, hmem⟩ := ih
    have hrest : ((s.connections.filter fun k _ => k ∉ ks).erase k) =
        s.connections.filter fun k' _ => k' ∉ ks ++ [k] := by
      refine SortedMap.ext_get? fun j => ?_
      rw [SortedMap.get?_erase, get?_filter_not_mem, get?_filter_not_mem]
      by_cases hj : j = k <;> simp [hj]
    have hlive : (s.connections.filter fun k _ => k ∉ ks).contains k = true ↔
        k ∉ ks ∧ ∃ c, s.connections.get? k = some c := by
      rw [SortedMap.contains_iff, get?_filter_not_mem]
      by_cases hk : k ∈ ks <;> simp [hk]
    rw [forEach_concat, heq, Outcome.andThen, closeConnection_eq, forget]
    dsimp only
    rw [hrest]
    split
    · next hk =>
      refine ⟨closes ++ [k], by simp, fun k' => ?_⟩
      simp only [List.mem_append, List.mem_singleton, hmem]
      grind
    · next hk =>
      rw [hlive] at hk
      refine ⟨closes, by simp, fun k' => ?_⟩
      simp only [List.mem_append, List.mem_singleton, hmem]
      grind

theorem setBus_self {s : Server} {n : Nat} {b : Bus} (h : s.buses[n]? = some b) : s.setBus n b = s := by
  obtain ⟨hn, hb⟩ := List.getElem?_eq_some_iff.1 h
  rw [setBus, ← hb, List.set_getElem_self]

theorem buses_setBus {s : Server} {n : Nat} {b : Bus} (h : s.buses[n]? = some b) (b' : Bus) :
    (s.setBus n b').buses[n]? = some b' :=
  List.getElem?_set_self (List.getElem?_eq_some_iff.1 h).1

theorem buses_setBus_of_ne {n m : Nat} (h : m ≠ n) (s : Server) (b : Bus) :
    (s.setBus m b).buses[n]? = s.buses[n]? :=
  List.getElem?_set_ne h

theorem exists_notes (b : Bus) (records : List Record) :
    ∃ notices : List ServerNotice, notes b records = notices.map .note :=
  ⟨(Record.notices records).map (.ofBus b.name), by simp [notes]⟩

theorem tearDown_spec {s : Server} {n : Nat} {b : Bus} (hb : s.buses[n]? = some b)
    (hknown : ∀ i k, b.Holds i k → ∃ c, s.connections.get? k = some c ∧ c.bus = n) :
    ∃ (notices : List ServerNotice) (closes : List ConnectionKey),
      s.tearDown n = (s.ended n b, notices.map .note ++ closes.map .close) ∧
      ∀ k, k ∈ closes ↔ ∃ c, s.connections.get? k = some c ∧ c.bus = n := by
  have hof : ∀ {k}, k ∈ s.connectionsOf n ↔ ∃ c, s.connections.get? k = some c ∧ c.bus = n := by
    intro k
    simp only [connectionsOf, List.mem_map, List.mem_filter, decide_eq_true_eq]
    constructor
    · rintro ⟨⟨k, c⟩, ⟨hmem, hn⟩, rfl⟩
      exact ⟨c, SortedMap.mem_entries_iff.1 hmem, hn⟩
    · rintro ⟨c, hc, hn⟩
      exact ⟨(k, c), ⟨SortedMap.mem_entries_iff.2 hc, hn⟩, rfl⟩
  have hbound : ∀ {k}, k ∈ b.tearDown.1 → k ∈ s.connectionsOf n := by
    intro k hk
    rw [hof]
    unfold Bus.tearDown at hk
    split at hk
    · cases hk
    · obtain ⟨slot, hslot, hk⟩ := List.mem_filterMap.1 hk
      obtain ⟨i, hi⟩ := SortedMap.mem_values_iff.1 hslot
      exact hknown i k ⟨slot, hi, hk⟩
  have hmem : ∀ {k}, k ∈ b.tearDown.1 ++ s.connectionsOf n ↔ k ∈ s.connectionsOf n := by
    intro k
    rw [List.mem_append]
    exact ⟨fun h => h.elim hbound id, .inr⟩
  obtain ⟨notices, hnotes⟩ := exists_notes b.tearDown.2.1 b.tearDown.2.2
  obtain ⟨closes, heq, hcloses⟩ := forEach_closeConnection (s.setBus n b.tearDown.2.1)
    (b.tearDown.1 ++ s.connectionsOf n)
  refine ⟨notices, closes, ?_, fun k => ?_⟩
  · have hrest : (s.connections.filter fun k _ => k ∉ b.tearDown.1 ++ s.connectionsOf n) =
        s.connections.filter fun _ c => c.bus ≠ n := by
      refine SortedMap.ext_get? fun k => ?_
      rw [get?_filter_not_mem, SortedMap.get?_filter]
      simp only [hmem, hof]
      cases s.connections.get? k with
      | none => simp
      | some c => by_cases hn : c.bus = n <;> simp [hn, Option.filter_some]
    have hsame : (s.setBus n b.tearDown.2.1).connectionsOf n = s.connectionsOf n := rfl
    have hconnections : (s.setBus n b.tearDown.2.1).connections = s.connections := rfl
    unfold Server.tearDown
    simp only [hb, hnotes, Outcome.andThen, hsame, heq, hconnections, hrest]
    rfl
  · rw [hcloses, hmem, hof]
    constructor
    · rintro ⟨h, -⟩
      exact h
    · rintro ⟨c, hc, hn⟩
      exact ⟨⟨c, hc, hn⟩, c, hc⟩

theorem sendAll_eq {s : Server} {ds : List Delivery} (h : ∀ d ∈ ds, ∃ c, s.connections.get? d.1 = some c) :
    s.sendAll ds = ds.map fun d => .send d.1 d.2 := by
  rw [sendAll, List.filter_eq_self.2 fun d hd => SortedMap.contains_iff.2 (h d hd)]

/-! ### Events -/

theorem exists_malformedNotes (s : Server) (k : ConnectionKey) (cause : LineError) :
    ∃ notices : List ServerNotice, s.malformedNotes k cause = notices.map .note := by
  unfold malformedNotes
  split
  · exact ⟨[], rfl⟩
  · split
    · exact ⟨[], rfl⟩
    · exact ⟨[_], rfl⟩

/-! ### What a step sends -/

theorem sentTo_stepped {b : Bus} {ds : List Delivery} (h : b.advance.1 = .stepped ds) (k : ConnectionKey) :
    sentTo k (ds.map fun d => .send d.1 d.2) =
      (b.participants.attached.filter fun a => a.2 = k).map fun a =>
        .deliver b.advance.2.1.time (b.advance.2.1.participants.shown a.1) := by
  rw [(Bus.stepsFrom_of_stepped h).outgoing]
  generalize b.participants.attached = attached
  induction attached with
  | nil => rfl
  | cons a attached ih =>
    simp only [List.map_cons, List.filter_cons]
    rw [sentTo, List.filterMap_cons]
    by_cases hk : a.2 = k
    · simpa [hk, sentTo] using ih
    · simpa [hk, sentTo] using ih

theorem sentTo_of_not_holds {b : Bus} {ds : List Delivery} (h : b.advance.1 = .stepped ds) {k : ConnectionKey}
    (hk : ∀ i, ¬ b.Holds i k) : sentTo k (ds.map fun d => .send d.1 d.2) = [] := by
  rw [sentTo_stepped h]
  refine List.map_eq_nil_iff.2 (List.filter_eq_nil_iff.2 ?_)
  rintro ⟨i, k'⟩ ha hk'
  obtain rfl : k' = k := by simpa using hk'
  obtain ⟨slot, hslot, -, hheld⟩ := Participants.mem_attached.1 ha
  exact hk i ⟨slot, hslot, hheld⟩

namespace Consistent

variable {s : Server} (hs : s.Consistent)

include hs

theorem slot_of_bound {k : ConnectionKey} {c : Connection} {i : Ident} {b : Bus}
    (hc : s.connections.get? k = some c) (bound : c.ident = some i) (hb : s.buses[c.bus]? = some b) :
    ∃ slot, b.participants.get? i = some slot ∧ slot.connection = some k ∧ slot.claimed = true ∧
      slot.finished = false := by
  obtain ⟨b', hb', slot, hslot, hk⟩ := hs.bound hc bound
  rw [hb] at hb'
  cases hb'
  have hsound := (hs.sound hb).slots hslot
  exact ⟨slot, hslot, hk, hsound.claimed_of_connection hk, hsound.unfinished_of_connection hk⟩

theorem dropConnection_spec (k : ConnectionKey) :
    s.connections.get? k = none ∧ dropConnection k s = (s, []) ∨
    (∃ c, s.connections.get? k = some c ∧ c.ident = none ∧ dropConnection k s = (s.forget k, [.close k])) ∨
    ∃ c b i notice, s.connections.get? k = some c ∧ c.ident = some i ∧ s.buses[c.bus]? = some b ∧
      dropConnection k s = (s.retired k c.bus b i, [.note notice, .close k]) := by
  unfold dropConnection
  cases hc : s.connections.get? k with
  | none => exact .inl ⟨rfl, rfl⟩
  | some c =>
    obtain ⟨b, hb, -⟩ := hs.served hc
    cases hi : c.ident with
    | none =>
      refine .inr (.inl ⟨c, rfl, hi, ?_⟩)
      simp only [hi]
      rw [Outcome.andThen, closeConnection_of_live hc]
      rfl
    | some i =>
      obtain ⟨slot, hslot, -, -, hlive⟩ := hs.slot_of_bound hc hi hb
      refine .inr (.inr ⟨c, b, i, .impliedFinish (.disconnected b.name slot.name), rfl, hi, hb, ?_⟩)
      simp only [hi, hb, Bus.disconnect_of_live hslot hlive]
      have hc' : (s.setBus c.bus (b.retire i)).connections.get? k = some c := hc
      rw [Outcome.andThen, closeConnection_of_live hc']
      rfl

theorem moved_drop (e : ServerEvent) (k : ConnectionKey) (about : e.connection? = some k)
    (notLine : ∀ text, e ≠ .line k text) (notices : List ServerNotice)
    (hmove : s.handle e = Outcome.andThen (s, notices.map .note) (dropConnection k))
    (hnone : s.connections.get? k = none → notices = [] ∧ s.Ignores (.event e)) :
    s.Moved (.event e) (s.handle e).1 (s.handle e).2 := by
  rw [hmove]
  rcases hs.dropConnection_spec k with ⟨hc, heq⟩ | ⟨c, hc, hfree, heq⟩ | ⟨c, b, i, notice, hc, hbound, hb, heq⟩
  · obtain ⟨rfl, hignores⟩ := hnone hc
    simp only [Outcome.andThen, heq]
    exact .ignored _ hignores
  · simp only [Outcome.andThen, heq]
    exact .dropped k e c notices about hc hfree fun text _ _ he => absurd he (notLine text)
  · have := Moved.expelled k e c b i (notices ++ [notice]) about hc hbound hb
      fun text _ he => absurd he (notLine text)
    simpa [Outcome.andThen, heq] using this

theorem moved_next {k : ConnectionKey} {c : Connection} {b : Bus} {i : Ident} (text : String)
    (hc : s.connections.get? k = some c) (bound : c.ident = some i) (hb : s.buses[c.bus]? = some b) :
    s.Moved (.event (.line k text)) (s.handleNext k c b i text).1 (s.handleNext k c b i text).2 := by
  obtain ⟨slot, hslot, -, -, hlive⟩ := hs.slot_of_bound hc bound hb
  have hclose : ∀ b', closeConnection k (s.setBus c.bus b') = ((s.setBus c.bus b').forget k, [.close k]) :=
    fun b' => closeConnection_of_live (s := s.setBus c.bus b') hc
  unfold handleNext takeLine
  cases hdecoded : b.decode i text with
  | error cause =>
    simp only [Bus.disconnect_of_live hslot hlive]
    rw [Outcome.andThen, hclose]
    refine .expelled k _ c b i [_] rfl hc bound hb fun text' outcome he => ?_
    cases he
    rw [Bus.hear, hdecoded]
    simp
  | ok m =>
    have hheard : b.hear i text = (.ok (b.receive i m).1, (b.receive i m).2.1) := by rw [Bus.hear, hdecoded]
    have hreceipt := Bus.receive_spec hslot m
    dsimp only
    generalize b.receive i m = r at hheard hreceipt
    obtain ⟨outcome, b', records⟩ := r
    obtain ⟨notices, hnotes⟩ := exists_notes b' records
    dsimp only at hheard hreceipt ⊢
    cases hreceipt with
    | offered =>
      simp only [hnotes]
      have := Moved.offered k text c b i notices hc bound hb (by rw [hheard])
      rwa [hheard] at this
    | left =>
      simp only [hnotes]
      rw [Outcome.andThen, hclose]
      simpa [retired] using Moved.left k text c b i notices hc bound hb (by rw [hheard])
    | violated m reason =>
      simp only [hnotes, Bus.disconnect_retire hslot]
      rw [Outcome.andThen, hclose]
      have := Moved.expelled k (.line k text) c b i (notices ++ [.refused (.violation b.name slot.name reason)]) rfl
        hc bound hb fun text' outcome he => by
          cases he
          simp [hheard]
      simpa [retired] using this

theorem moved_line (k : ConnectionKey) (text : String) :
    s.Moved (.event (.line k text)) (s.handleLine k text).1 (s.handleLine k text).2 := by
  unfold handleLine
  cases hc : s.connections.get? k with
  | none => exact .ignored _ hc
  | some c =>
    obtain ⟨b, hb, -⟩ := hs.served hc
    cases hi : c.ident with
    | none =>
      simp only [hb, hi]
      unfold handleFirst
      split
      · next name options decoded =>
        rcases b.handshake_spec k name options with ⟨reason, hadmits, heq⟩ | ⟨slot, widths, hadmits, heq⟩
        · simp only [heq, setBus_self hb]
          rw [Outcome.andThen, closeConnection_of_live hc]
          exact .refused k text c b name options reason [_] hc hi hb decoded hadmits
        · simp only [heq]
          obtain ⟨notices, hnotes⟩ := exists_notes (b.modifySlot slot.ident (·.claim k options widths))
            [.noticed (.connected name slot.ident)]
          rw [hnotes]
          exact .admitted k text c b name options slot widths notices hc hi hb decoded hadmits
      · next m hm decoded =>
        rw [Outcome.andThen, closeConnection_of_live hc]
        refine .dropped k _ c [_] rfl hc hi fun text' name options he hdec => ?_
        cases he
        rw [decoded] at hdec
        cases hdec
        exact hm name options rfl
      · next cause decoded =>
        rw [Outcome.andThen, closeConnection_of_live hc]
        refine .dropped k _ c [_] rfl hc hi fun text' name options he hdec => ?_
        cases he
        rw [decoded] at hdec
        cases hdec
    | some i =>
      simp only [hb, hi]
      exact hs.moved_next text hc hi hb

theorem moved_handle (e : ServerEvent) : s.Moved (.event e) (s.handle e).1 (s.handle e).2 := by
  cases e with
  | accepted n peer =>
    show s.Moved _ (s.accept n peer).1 (s.accept n peer).2
    unfold accept
    cases hb : s.buses[n]? with
    | none =>
      refine .ignored _ fun b hb' => ?_
      rw [hb] at hb'
      cases hb'
    | some b =>
      cases hlive : b.finished with
      | true =>
        simp only [hlive, if_true]
        refine .ignored _ fun b' hb' => ?_
        rw [hb] at hb'
        cases hb'
        exact hlive
      | false =>
        simp only [hlive]
        exact .opened n peer b hb hlive
  | line k text => exact hs.moved_line k text
  | malformed k cause =>
    obtain ⟨notices, hnotes⟩ := s.exists_malformedNotes k cause
    refine hs.moved_drop _ k rfl (by simp) notices (by rw [handle, hnotes]) fun hnone => ⟨?_, hnone⟩
    rw [malformedNotes, hnone] at hnotes
    simpa using hnotes.symm
  | closed k => exact hs.moved_drop _ k rfl (by simp) [] rfl fun hnone => ⟨rfl, hnone⟩

/-! ### The service of a bus -/

theorem delivered {n : Nat} {b : Bus} {ds : List Delivery} (hb : s.buses[n]? = some b)
    (h : b.advance.1 = .stepped ds) {d : Delivery} (hd : d ∈ ds) :
    ∃ c i, s.connections.get? d.1 = some c ∧ c.bus = n ∧ c.ident = some i ∧ b.Holds i d.1 := by
  rw [(Bus.stepsFrom_of_stepped h).outgoing] at hd
  obtain ⟨⟨i, k⟩, ha, rfl⟩ := List.mem_map.1 hd
  obtain ⟨slot, hslot, -, hk⟩ := Participants.mem_attached.1 ha
  obtain ⟨c, hc, hn, hi⟩ := hs.known ⟨b, hb, slot, hslot, hk⟩
  exact ⟨c, i, hc, hn, hi, slot, hslot, hk⟩

theorem sentTo_of_holds {n : Nat} {b : Bus} {ds : List Delivery} (hb : s.buses[n]? = some b)
    (h : b.advance.1 = .stepped ds) {i : Ident} {k : ConnectionKey} (hi : b.Holds i k) :
    sentTo k (ds.map fun d => .send d.1 d.2) =
      [.deliver b.advance.2.1.time (b.advance.2.1.participants.shown i)] := by
  obtain ⟨slot, hslot, hk⟩ := hi
  obtain ⟨c, hc, -, hbound⟩ := hs.known ⟨b, hb, slot, hslot, hk⟩
  have hlive := ((hs.sound hb).slots hslot).unfinished_of_connection hk
  have hmem : (i, k) ∈ b.participants.attached := Participants.mem_attached.2 ⟨slot, hslot, hlive, hk⟩
  have hsingle : ∀ j, (j, k) ∈ b.participants.attached → j = i := by
    intro j hj
    obtain ⟨slot', hslot', -, hk'⟩ := Participants.mem_attached.1 hj
    obtain ⟨c', hc', -, hj'⟩ := hs.known ⟨b, hb, slot', hslot', hk'⟩
    rw [hc] at hc'
    cases hc'
    exact Option.some.inj (hj'.symm.trans hbound)
  rw [sentTo_stepped h, Participants.filter_attached hmem hsingle]
  rfl

theorem moved_serviceBus (n : Nat) : s.Moved (.serviceBus n) (s.serviceBus n).1 (s.serviceBus n).2 := by
  unfold serviceBus
  cases hb : s.buses[n]? with
  | none =>
    refine .ignored _ fun b hb' => ?_
    rw [hb] at hb'
    cases hb'
  | some b =>
    cases hlive : b.finished with
    | true =>
      simp only [hlive, if_true]
      refine .ignored _ fun b' hb' => ?_
      rw [hb] at hb'
      cases hb'
      exact hlive
    | false =>
      have hknown : ∀ i k, b.Holds i k → ∃ c, s.connections.get? k = some c ∧ c.bus = n := by
        intro i k hk
        obtain ⟨c, hc, hn, -⟩ := hs.known ⟨b, hb, hk⟩
        exact ⟨c, hc, hn⟩
      cases hfinished : b.allFinished with
      | true =>
        obtain ⟨notices, closes, heq, hcloses⟩ := tearDown_spec hb hknown
        simp only [hlive, hfinished, if_true, Bool.false_eq_true, if_false, heq]
        exact .ended n b b notices closes hb hlive (.inl ⟨hfinished, rfl⟩) hcloses
      | false =>
        obtain ⟨notices, hnotes⟩ := exists_notes b.advance.2.1 b.advance.2.2
        have hspec := b.advance_spec
        simp only [hlive, hfinished, Bool.false_eq_true, if_false]
        cases houtcome : b.advance.1 with
        | waiting =>
          have hunready : b.allReady = false := by
            rw [houtcome] at hspec
            generalize b.advance.2.1 = b' at hspec
            cases hspec with
            | waiting h => exact h.resolve_left (by rw [hlive]; exact Bool.false_ne_true)
          have hadvance : b.advance = (.waiting, b, []) := by simp [Bus.advance, hunready]
          simp only [hadvance, setBus_self hb]
          exact .waiting n b hb hlive hunready
        | stepped ds =>
          have hsend : (s.setBus n b.advance.2.1).sendAll ds = ds.map fun d => .send d.1 d.2 := by
            refine sendAll_eq fun d hd => ?_
            obtain ⟨c, i, hc, -⟩ := hs.delivered hb houtcome hd
            exact ⟨c, hc⟩
          simp only [hnotes, hsend]
          exact .stepped n b ds notices hb hfinished houtcome
        | failed cause =>
          obtain ⟨more, closes, heq, hcloses⟩ := tearDown_spec (buses_setBus hb b.advance.2.1)
            fun i k hk => hknown i k (hspec.holds_iff.1 hk)
          have hended : (s.setBus n b.advance.2.1).ended n b.advance.2.1 = s.ended n b.advance.2.1 := by
            simp [Server.ended, setBus]
          have := Moved.ended n b b.advance.2.1 (notices ++ .failed b.advance.2.1.name cause :: more) closes hb
            hlive (.inr ⟨hfinished, rfl, cause, houtcome⟩) hcloses
          simpa [Outcome.andThen, hnotes, heq, hended] using this

/-- A move of a consistent server comes to one of the listed cases. -/
theorem moved (m : Move) : s.Moved m (s.move m).1 (s.move m).2 := by
  cases m with
  | event e => exact hs.moved_handle e
  | serviceBus n => exact hs.moved_serviceBus n

end Consistent

/-! ### Moves elsewhere -/

/-- The move is about bus `n` or one of its connections. -/
def About (s : Server) (n : Nat) : Move → Prop
  | .event e => s.concerns n e = true
  | .serviceBus m => m = n

variable {s s' : Server} {m : Move} {actions : List ServerAction} {n : Nat}

theorem bus_ne_of_not_concerns {e : ServerEvent} {k : ConnectionKey} {c : Connection}
    (hn : ¬ s.concerns n e = true) (about : e.connection? = some k) (hc : s.connections.get? k = some c) :
    c.bus ≠ n := by
  intro hbus
  refine hn ?_
  cases e with
  | accepted => cases about
  | line | malformed | closed =>
    cases about
    simp [concerns, hc, hbus]

theorem get?_forget (s : Server) (j k : ConnectionKey) :
    (s.forget j).connections.get? k = if k = j then none else s.connections.get? k :=
  SortedMap.get?_erase _ _ _

theorem get?_opened (s : Server) (n : Nat) (peer : String) (k : ConnectionKey) :
    (s.opened n peer).connections.get? k = if k = s.nextKey then some ⟨n, none, peer⟩ else s.connections.get? k :=
  SortedMap.get?_insert _ _ _ _

theorem get?_admitted (s : Server) (j : ConnectionKey) (n : Nat) (b : Bus) (i : Ident) (options : Options)
    (widths : Widths) (k : ConnectionKey) : (s.admitted j n b i options widths).connections.get? k =
      if k = j then (s.connections.get? k).map fun c => { c with ident := some i } else s.connections.get? k :=
  SortedMap.get?_modify _ _ _ _

theorem get?_retired (s : Server) (j : ConnectionKey) (n : Nat) (b : Bus) (i : Ident) (k : ConnectionKey) :
    (s.retired j n b i).connections.get? k = if k = j then none else s.connections.get? k :=
  SortedMap.get?_erase _ _ _

theorem get?_ended (s : Server) (n : Nat) (b : Bus) (k : ConnectionKey) :
    (s.ended n b).connections.get? k = (s.connections.get? k).filter fun c => c.bus ≠ n :=
  SortedMap.get?_filter _ _ _

theorem Moved.elsewhere (h : s.Moved m s' actions) (hs : s.Consistent) (hn : ¬ s.About n m) :
    s'.buses[n]? = s.buses[n]? ∧ s.nextKey ≤ s'.nextKey ∧ ∀ k, k < s.nextKey →
      (∀ c, s.connections.get? k = some c → c.bus = n) →
      s'.connections.get? k = s.connections.get? k ∧ sentTo k actions = [] := by
  -- the connection of the move is none of those of bus `n`
  have hne : ∀ {j c k}, s.connections.get? j = some c → c.bus ≠ n →
      (∀ c, s.connections.get? k = some c → c.bus = n) → k ≠ j := by
    rintro j c k hc hbus hk rfl
    exact hbus (hk c hc)
  cases h with
  | ignored | waiting => exact ⟨rfl, Nat.le_refl _, fun k _ _ => ⟨rfl, rfl⟩⟩
  | opened m peer =>
    refine ⟨rfl, Nat.le_succ _, fun k hk _ => ⟨?_, rfl⟩⟩
    rw [get?_opened, if_neg (Nat.ne_of_lt hk)]
  | admitted j text c b name options slot widths notices hc =>
    have hbus := bus_ne_of_not_concerns hn rfl hc
    refine ⟨buses_setBus_of_ne hbus s _, Nat.le_refl _, fun k _ hk => ?_⟩
    have hj := hne hc hbus hk
    rw [get?_admitted, if_neg hj]
    simp [Ne.symm hj]
  | refused j text c b name options reason notices hc =>
    have hbus := bus_ne_of_not_concerns hn rfl hc
    refine ⟨rfl, Nat.le_refl _, fun k _ hk => ?_⟩
    have hj := hne hc hbus hk
    rw [get?_forget, if_neg hj]
    simp [Ne.symm hj]
  | dropped j e c notices about hc =>
    have hbus := bus_ne_of_not_concerns hn about hc
    refine ⟨rfl, Nat.le_refl _, fun k _ hk => ?_⟩
    rw [get?_forget, if_neg (hne hc hbus hk)]
    simp
  | offered j text c b i notices hc =>
    have hbus := bus_ne_of_not_concerns hn rfl hc
    exact ⟨buses_setBus_of_ne hbus s _, Nat.le_refl _, fun k _ _ => ⟨rfl, sentTo_notes _ _⟩⟩
  | left j text c b i notices hc =>
    have hbus := bus_ne_of_not_concerns hn rfl hc
    refine ⟨buses_setBus_of_ne hbus s _, Nat.le_refl _, fun k _ hk => ?_⟩
    have hj := hne hc hbus hk
    rw [get?_retired, if_neg hj]
    refine ⟨rfl, ?_⟩
    simp [Ne.symm hj]
  | expelled j e c b i notices about hc =>
    have hbus := bus_ne_of_not_concerns hn about hc
    refine ⟨buses_setBus_of_ne hbus s _, Nat.le_refl _, fun k _ hk => ?_⟩
    rw [get?_retired, if_neg (hne hc hbus hk)]
    exact ⟨rfl, by simp⟩
  | stepped m b ds notices hb unfinished advanced =>
    refine ⟨buses_setBus_of_ne hn s _, Nat.le_refl _, fun k _ hk => ⟨rfl, ?_⟩⟩
    rw [sentTo_append, sentTo_notes, List.nil_append, sentTo, List.filterMap_map]
    refine List.filterMap_eq_nil_iff.2 fun d hd => if_neg ?_
    obtain ⟨c, i, hc, hbus, -⟩ := hs.delivered hb advanced hd
    rintro rfl
    exact hn (hbus.symm.trans (hk c hc))
  | ended m b b' notices closes =>
    refine ⟨buses_setBus_of_ne hn s _, Nat.le_refl _, fun k _ hk => ?_⟩
    rw [get?_ended]
    refine ⟨?_, by simp⟩
    cases hc : s.connections.get? k with
    | none => rfl
    | some c =>
      rw [Option.filter_some, if_pos]
      rw [hk c hc]
      exact decide_eq_true (Ne.symm hn)

end Server

end Lockstep
