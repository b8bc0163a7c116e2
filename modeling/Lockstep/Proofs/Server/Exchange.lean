import Lockstep.Proofs.Server.Move
/-!
# What a connection exchanges with its bus

An event of a live connection concerns nothing but its bus, its entry in the table and what it is sent.
`Bus.exchange` computes these three from the bus, the entry and the event alone; the server adds notes, and closes
the stream if the entry is gone (`Consistent.handle_eq`). The rest of the server does not take part, which is what
makes an exchange the same in two servers that have the bus in common.
-/

namespace Lockstep

/-- What comes of an event of a connection. -/
structure Exchange where
  bus : Bus
  /-- What the table holds of the connection afterwards. -/
  connection : Option Connection
  sent : List Message

namespace Bus

def greet (b : Bus) (k : ConnectionKey) (c : Connection) (text : String) : Exchange :=
  match Message.decode text with
  | .ok (.hello name options) =>
    match b.admits name options with
    | .ok (slot, widths) =>
      ⟨b.modifySlot slot.ident (·.claim k options widths), some { c with ident := some slot.ident },
        [.youAre slot.ident]⟩
    | .error _ => ⟨b, none, [.nak]⟩
  | _ => ⟨b, none, []⟩

/-- A line of a connection that has been admitted. -/
def heed (b : Bus) (c : Connection) (i : Ident) (text : String) : Exchange :=
  match (b.hear i text).1 with
  | .ok (.ok .ready) => ⟨(b.hear i text).2, some c, []⟩
  | .ok (.ok .finished) => ⟨b.retire i, none, [.finish]⟩
  | _ => ⟨b.retire i, none, []⟩

/-- The bus without a participant, if there is one behind a connection. -/
def lose (b : Bus) (c : Connection) : Bus :=
  match c.ident with
  | none => b
  | some i => b.retire i

def exchange (b : Bus) (k : ConnectionKey) (c : Connection) : ServerEvent → Exchange
  | .line _ text =>
    match c.ident with
    | none => b.greet k c text
    | some i => b.heed c i text
  | _ => ⟨b.lose c, none, []⟩

section

variable {b : Bus} {k : ConnectionKey} {c : Connection} {e : ServerEvent}

theorem exchange_of_free (free : c.ident = none)
    (nohello : ∀ text name options, e = .line k text → Message.decode text ≠ .ok (.hello name options))
    (about : e.connection? = some k) : b.exchange k c e = ⟨b, none, []⟩ := by
  cases e with
  | line j text =>
    cases about
    simp only [exchange, free, greet]
    split
    · next name options decoded => exact absurd decoded (nohello text name options rfl)
    · rfl
  | accepted | malformed | closed => simp only [exchange, lose, free]

theorem exchange_of_unheard {i : Ident} (bound : c.ident = some i)
    (unheard : ∀ text outcome, e = .line k text → (b.hear i text).1 ≠ .ok (.ok outcome))
    (about : e.connection? = some k) : b.exchange k c e = ⟨b.retire i, none, []⟩ := by
  cases e with
  | line j text =>
    cases about
    simp only [exchange, bound, heed]
    split
    · next h => exact absurd h (unheard text _ rfl)
    · next h => exact absurd h (unheard text _ rfl)
    · rfl
  | accepted | malformed | closed => simp only [exchange, lose, bound]

end

end Bus

namespace Server

/-- The server after connection `k` to bus `n` has made an exchange. -/
def settle (s : Server) (k : ConnectionKey) (n : Nat) (x : Exchange) : Server :=
  { s.setBus n x.bus with
    connections := match x.connection with
      | some c => s.connections.modify k fun _ => c
      | none => s.connections.erase k }

/-- What an exchange of connection `k` does to the outside, apart from what is noted. -/
def outward (k : ConnectionKey) (x : Exchange) : List ServerAction :=
  x.sent.map (.send k) ++ if x.connection.isNone then [.close k] else []

variable {s : Server} {k : ConnectionKey} {c : Connection} {b : Bus}

theorem handle_of_gone {e : ServerEvent} (about : e.connection? = some k) (hgone : s.connections.get? k = none) :
    s.handle e = (s, []) := by
  cases e with
  | accepted => cases about
  | line j text =>
    cases about
    simp [handle, handleLine, hgone]
  | malformed j cause =>
    cases about
    simp [handle, malformedNotes, dropConnection, hgone, Outcome.andThen]
  | closed j =>
    cases about
    simp [handle, dropConnection, hgone]

theorem accept_of_live {n : Nat} (hb : s.buses[n]? = some b) (hlive : b.finished = false) (peer : String) :
    s.accept n peer = (s.opened n peer, []) := by
  unfold accept
  simp only [hb, hlive]
  rfl

theorem accept_of_not_live {n : Nat} (h : ∀ b, s.buses[n]? = some b → b.finished = true) (peer : String) :
    s.accept n peer = (s, []) := by
  unfold accept
  cases hb : s.buses[n]? with
  | none => rfl
  | some b =>
    simp only [h b hb]
    rfl

theorem get?_settle (hc : s.connections.get? k = some c) (n : Nat) (x : Exchange) (j : ConnectionKey) :
    (s.settle k n x).connections.get? j = if j = k then x.connection else s.connections.get? j := by
  unfold settle
  cases x.connection with
  | none =>
    show (s.connections.erase k).get? j = _
    rw [SortedMap.get?_erase]
  | some c' =>
    show (s.connections.modify k fun _ => c').get? j = _
    rw [SortedMap.get?_modify]
    split
    · next hj => rw [hj, hc]; rfl
    · rfl

theorem sentTo_outward (j k : ConnectionKey) (x : Exchange) :
    sentTo j (outward k x) = if j = k then x.sent else [] := by
  have hclose : sentTo j (if x.connection.isNone then [.close k] else []) = [] := by split <;> rfl
  rw [outward, sentTo_append, hclose, List.append_nil]
  split
  · next hj =>
    subst hj
    simp [sentTo, List.filterMap_map]
  · next hj =>
    refine List.filterMap_eq_nil_iff.2 fun a ha => ?_
    obtain ⟨m, -, rfl⟩ := List.mem_map.1 ha
    exact if_neg (Ne.symm hj)

theorem settle_kept (hc : s.connections.get? k = some c) (n : Nat) (b' : Bus) (sent : List Message) :
    s.settle k n ⟨b', some c, sent⟩ = s.setBus n b' := by
  have hsame := calc
    (s.connections.modify k fun _ => c) = s.connections.modify k fun c' => c' :=
      SortedMap.modify_congr fun _ hc' => Option.some.inj (hc.symm.trans hc')
    _ = s.connections := SortedMap.modify_id _ _
  show { s.setBus n b' with connections := s.connections.modify k fun _ => c } = s.setBus n b'
  rw [hsame]
  rfl

theorem settle_admitted (hc : s.connections.get? k = some c) (i : Ident) (options : Options) (widths : Widths)
    (sent : List Message) :
    s.settle k c.bus ⟨b.modifySlot i (·.claim k options widths), some { c with ident := some i }, sent⟩ =
      s.admitted k c.bus b i options widths := by
  have hsame : (s.connections.modify k fun _ => { c with ident := some i }) =
      s.connections.modify k fun c => { c with ident := some i } := by
    refine SortedMap.modify_congr fun c' hc' => ?_
    rw [Option.some.inj (hc.symm.trans hc')]
  unfold settle admitted
  simp only [hsame]

theorem Consistent.handle_eq (hs : s.Consistent) {e : ServerEvent} (about : e.connection? = some k)
    (hc : s.connections.get? k = some c) (hb : s.buses[c.bus]? = some b) :
    (s.handle e).1 = s.settle k c.bus (b.exchange k c e) ∧
      ∃ notices : List ServerNotice, (s.handle e).2 = notices.map .note ++ outward k (b.exchange k c e) := by
  have hmoved := hs.moved (.event e)
  change s.Moved (.event e) (s.handle e).1 (s.handle e).2 at hmoved
  generalize (s.handle e).1 = s' at hmoved
  generalize (s.handle e).2 = actions at hmoved
  -- the connection and the bus of the move are the given ones
  have hsame : ∀ {k' c'}, e.connection? = some k' → s.connections.get? k' = some c' → k' = k ∧ c' = c := by
    intro k' c' hk' hc'
    obtain rfl := Option.some.inj (hk'.symm.trans about)
    exact ⟨rfl, Option.some.inj (hc'.symm.trans hc)⟩
  have hbus : ∀ {b'}, s.buses[c.bus]? = some b' → b' = b := fun hb' => Option.some.inj (hb'.symm.trans hb)
  cases hmoved with
  | ignored m h =>
    cases e with
    | accepted => cases about
    | line | malformed | closed =>
      cases about
      cases hc.symm.trans h
  | opened => cases about
  | admitted k' text c' b' name options slot widths notices hc' free hb' decoded admits =>
    obtain ⟨rfl, rfl⟩ := hsame rfl hc'
    obtain rfl := hbus hb'
    simp only [Bus.exchange, free, Bus.greet, decoded, admits]
    exact ⟨(settle_admitted hc _ _ _ _).symm, notices, rfl⟩
  | refused k' text c' b' name options reason notices hc' free hb' decoded admits =>
    obtain ⟨rfl, rfl⟩ := hsame rfl hc'
    obtain rfl := hbus hb'
    simp only [Bus.exchange, free, Bus.greet, decoded, admits]
    refine ⟨?_, notices, rfl⟩
    show s.forget k' = (s.setBus c'.bus b').forget k'
    rw [setBus_self hb']
  | dropped k' e' c' notices about' hc' free nohello =>
    obtain ⟨rfl, rfl⟩ := hsame about' hc'
    rw [Bus.exchange_of_free free nohello about]
    refine ⟨?_, notices, rfl⟩
    show s.forget k' = (s.setBus c'.bus b).forget k'
    rw [setBus_self hb]
  | offered k' text c' b' i notices hc' bound hb' heard =>
    obtain ⟨rfl, rfl⟩ := hsame rfl hc'
    obtain rfl := hbus hb'
    simp only [Bus.exchange, bound, Bus.heed, heard]
    exact ⟨(settle_kept hc _ _ _).symm, notices, (List.append_nil _).symm⟩
  | left k' text c' b' i notices hc' bound hb' heard =>
    obtain ⟨rfl, rfl⟩ := hsame rfl hc'
    obtain rfl := hbus hb'
    simp only [Bus.exchange, bound, Bus.heed, heard]
    exact ⟨rfl, notices, rfl⟩
  | expelled k' e' c' b' i notices about' hc' bound hb' unheard =>
    obtain ⟨rfl, rfl⟩ := hsame about' hc'
    obtain rfl := hbus hb'
    rw [Bus.exchange_of_unheard bound unheard about]
    exact ⟨rfl, notices, rfl⟩

end Server

end Lockstep
