import Lockstep.Server.Session
import Lockstep.Proofs.Server.Confinement
/-!
# What a server does to the outside

The stream of a connection is closed when the connection leaves the table, and at no other time
(`Consistent.closes_iff`). A notice blames a participant if it says that a line was malformed or out of turn
(`ServerNotice.Blames`): neither the service of a bus nor an event of a participant that keeps to the protocol gives
rise to such a notice (`quiet_serviceBus`, `quiet_handle`).
-/

namespace Lockstep

/-- The error says that a line of a participant was malformed or out of turn. -/
def ParticipantError.Blames : ParticipantError → Prop
  | .malformed .. | .violation .. => True
  | .rejected .. | .disconnected .. => False

/-- The notice blames a participant for what it sent. -/
def ServerNotice.Blames : ServerNotice → Prop
  | .refused e | .impliedFinish e => e.Blames
  | .notStarted .. | .failed .. | .ofBus .. => False

namespace Bus

variable {b : Bus} {i : Ident} {text : String}

theorem decode_ready {slot : Slot} {time : Time} {signals : Signals} (hs : b.participants.get? i = some slot)
    (h : Message.decode text = .ok (.ready time signals)) (fits : slot.widths.fault? signals = none) :
    b.decode i text = .ok (.ready time signals) := by
  show (Message.decode text).bind (b.checkOffer i) = _
  rw [h]
  show b.checkOffer i (.ready time signals) = _
  simp only [checkOffer, hs, fits]

theorem decode_finish (h : Message.decode text = .ok .finish) : b.decode i text = .ok .finish := by
  show (Message.decode text).bind (b.checkOffer i) = _
  rw [h]
  rfl

end Bus

namespace Server

variable {s s' : Server} {actions more : List ServerAction}

theorem closes_iff_mem {k : ConnectionKey} : Session.closes k actions = true ↔ .close k ∈ actions := by
  simp [Session.closes]

theorem Moved.closes_iff {m : Move} (h : s.Moved m s' actions) {k : ConnectionKey} :
    Session.closes k actions = true ↔
      s.connections.get? k ≠ none ∧ s'.connections.get? k = none := by
  have hnote : ∀ notices : List ServerNotice, ServerAction.close k ∉ notices.map .note := by simp
  -- connections that stay in the table
  have hkept : ∀ {t : Server}, (s.connections.get? k ≠ none → t.connections.get? k ≠ none) →
      ¬ (s.connections.get? k ≠ none ∧ t.connections.get? k = none) := fun h h' => h h'.1 h'.2
  rw [closes_iff_mem]
  cases h with
  | ignored | waiting => exact iff_of_false List.not_mem_nil (hkept id)
  | opened n peer b =>
    refine iff_of_false List.not_mem_nil (hkept fun h => ?_)
    rw [get?_opened]
    split
    · exact Option.some_ne_none _
    · exact h
  | admitted j text c b name options slot widths notices hc =>
    refine iff_of_false (by simp) (hkept fun h => ?_)
    rw [get?_admitted]
    split
    · rwa [ne_eq, Option.map_eq_none_iff]
    · exact h
  | offered => exact iff_of_false (hnote _) (hkept id)
  | stepped => exact iff_of_false (by simp) (hkept id)
  | refused j text c b name options reason notices hc | dropped j e c notices about hc =>
    rw [get?_forget]
    by_cases hk : k = j
    · subst hk
      simp [hc]
    · simp [hk]
  | left j text c b i notices hc | expelled j e c b i notices about hc =>
    rw [get?_retired]
    by_cases hk : k = j
    · subst hk
      simp [hc]
    · simp [hk]
  | ended n b b' notices closes hb live why cut =>
    have hmem : ServerAction.close k ∈ notices.map .note ++ closes.map .close ↔ k ∈ closes := by simp
    rw [hmem, cut, get?_ended]
    cases hc : s.connections.get? k with
    | none => simp
    | some c => simp [Option.filter_some]

theorem Moved.lineLimit_eq {m : Move} (h : s.Moved m s' actions) : s'.lineLimit = s.lineLimit := by
  cases h <;> rfl

theorem Reaches.lineLimit_eq (h : Reaches s s' actions) (hs : s.Consistent) : s'.lineLimit = s.lineLimit := by
  induction h with
  | start => rfl
  | move h m ih => exact ((h.consistent hs).moved m).lineLimit_eq.trans ih

/-! ### Notices -/

/-- Nobody is blamed by what is noted. -/
def Quiet (actions : List ServerAction) : Prop := ∀ notice, .note notice ∈ actions → ¬ notice.Blames

theorem Quiet.append (h : Quiet actions) (h' : Quiet more) : Quiet (actions ++ more) := by
  intro notice hmem
  rcases List.mem_append.1 hmem with hmem | hmem
  · exact h notice hmem
  · exact h' notice hmem

theorem quiet_notes (b : Bus) (records : List Record) : Quiet (notes b records) := by
  intro notice hmem
  obtain ⟨n, -, hn⟩ := List.mem_map.1 hmem
  cases hn
  exact id

theorem quiet_nil : Quiet [] := fun _ hmem => by cases hmem

theorem quiet_send (k : ConnectionKey) (m : Message) : Quiet [.send k m] := fun _ hmem => by
  cases List.mem_singleton.1 hmem

theorem quiet_note {notice : ServerNotice} (h : ¬ notice.Blames) : Quiet [.note notice] := by
  intro notice' hmem
  obtain rfl := ServerAction.note.inj (List.mem_singleton.1 hmem)
  exact h

theorem quiet_closeConnection (k : ConnectionKey) (s : Server) : Quiet (closeConnection k s).2 := by
  rw [closeConnection_eq]
  dsimp only
  split
  · exact fun _ hmem => by cases List.mem_singleton.1 hmem
  · exact quiet_nil

theorem quiet_closeConnections (s : Server) (ks : List ConnectionKey) : Quiet (s.forEach ks closeConnection).2 := by
  obtain ⟨closes, heq, -⟩ := forEach_closeConnection s ks
  rw [heq]
  intro notice hmem
  obtain ⟨k, -, hk⟩ := List.mem_map.1 hmem
  cases hk

theorem quiet_sendAll (s : Server) (ds : List Delivery) : Quiet (s.sendAll ds) := by
  intro notice hmem
  obtain ⟨d, -, hd⟩ := List.mem_map.1 hmem
  cases hd

theorem quiet_tearDown (n : Nat) (s : Server) : Quiet (s.tearDown n).2 := by
  unfold tearDown
  split
  · exact quiet_nil
  · exact (quiet_notes _ _).append (quiet_closeConnections _ _)

theorem quiet_serviceBus (n : Nat) (s : Server) : Quiet (s.serviceBus n).2 := by
  unfold serviceBus
  split
  · exact quiet_nil
  · split
    · exact quiet_nil
    · split
      · exact quiet_tearDown n s
      · dsimp only
        split
        · exact quiet_notes _ _
        · exact (quiet_notes _ _).append (quiet_sendAll _ _)
        · exact ((quiet_notes _ _).append (quiet_note id)).append (quiet_tearDown n _)

theorem quiet_partway (s : Server) (n : Nat) : Quiet (s.partway n).2 := by
  induction n with
  | zero => exact quiet_nil
  | succ n ih =>
    rw [partway_succ]
    exact ih.append (quiet_serviceBus n _)

/-- The events of a participant that keeps to the protocol. Its connection to bus `b` is `c`. -/
inductive Orderly (b : Bus) (k : ConnectionKey) (c : Connection) : ServerEvent → Prop where
  | hello {text name : String} {options : Options} (free : c.ident = none)
      (h : Message.decode text = .ok (.hello name options)) : Orderly b k c (.line k text)
  | ready {text : String} {i : Ident} {slot : Slot} {time : Time} {signals : Signals} (bound : c.ident = some i)
      (hs : b.participants.get? i = some slot) (live : slot.finished = false) (unready : slot.ready = false)
      (h : Message.decode text = .ok (.ready time signals)) (fits : slot.widths.fault? signals = none) :
      Orderly b k c (.line k text)
  | finish {text : String} {i : Ident} {slot : Slot} (bound : c.ident = some i)
      (hs : b.participants.get? i = some slot) (h : Message.decode text = .ok .finish) : Orderly b k c (.line k text)
  | closed : Orderly b k c (.closed k)

theorem quiet_handle {k : ConnectionKey} {c : Connection} {b : Bus} {e : ServerEvent}
    (hc : s.connections.get? k = some c) (hb : s.buses[c.bus]? = some b) (h : Orderly b k c e) :
    Quiet (s.handle e).2 := by
  cases h with
  | @hello text name options free decoded =>
    simp only [handle, handleLine, hc, hb, free, handleFirst, decoded]
    rcases b.handshake_spec k name options with ⟨reason, -, heq⟩ | ⟨slot, widths, -, heq⟩
    · rw [heq]
      refine Quiet.append ?_ (quiet_closeConnection k _)
      exact (quiet_notes b []).append ((quiet_note id).append (quiet_send k .nak))
    · rw [heq]
      exact (quiet_notes _ _).append (quiet_send k _)
  | @ready text i slot time signals bound hslot live unready decoded fits =>
    have hdecode := Bus.decode_ready hslot decoded fits
    have hjudge : Bus.judge slot (.ready time signals) = .ok .ready := by
      simp [Bus.judge, live, Slot.isReady, unready]
    simp only [handle, handleLine, hc, hb, bound, handleNext, takeLine, hdecode, Bus.receive, hslot, hjudge]
    exact quiet_notes _ _
  | @finish text i slot bound hslot decoded =>
    have hdecode : b.decode i text = .ok .finish := Bus.decode_finish decoded
    simp only [handle, handleLine, hc, hb, bound, handleNext, takeLine, hdecode, Bus.receive, hslot, Bus.judge]
    exact Quiet.append ((quiet_notes _ _).append (quiet_send k _)) (quiet_closeConnection k _)
  | closed =>
    have hdisconnect : ∀ i, Quiet ((b.disconnect i).1.toList.map fun e => .note (.impliedFinish e)) := by
      intro i
      unfold Bus.disconnect
      split
      · exact quiet_nil
      · split
        · exact quiet_nil
        · exact quiet_note id
    simp only [handle, dropConnection, hc, hb]
    refine Quiet.append ?_ (quiet_closeConnection k _)
    cases c.ident with
    | none => exact quiet_nil
    | some i => exact hdisconnect i

end Server

end Lockstep
