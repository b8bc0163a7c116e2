import Lockstep.Proofs.Server.Mirror
import Lockstep.Proofs.Server.Transcript
/-!
# Lockstep is deterministic

What the participants of a bus are sent depends on what they do and on nothing else: not on the order in which their
lines reach the server, not on how these are grouped between service passes, not on other buses. Of the messages that
a participant has received in two plays, one sequence is the beginning of the other (`Play.received_comparable`),
because both plays are followed by matches (`Mirrors.run`) and matches are confluent.
-/

namespace Lockstep

open Server

/-! ### Turns -/

theorem Turn.event_eq_line {k j : ConnectionKey} {turn : Turn} {text : String} :
    turn.event k = .line j text ↔ turn = .line text ∧ k = j := by
  cases turn <;> simp [Turn.event, and_comm]

@[simp] theorem Turn.connection?_event (k : ConnectionKey) (turn : Turn) : (turn.event k).connection? = some k := by
  cases turn <;> rfl

theorem Slot.hear_unbind (slot : Slot) (text : String) :
    slot.unbind.hear text = ((slot.hear text).1.unbind, (slot.hear text).2) := by
  have hready : slot.unbind.isReady = slot.isReady := rfl
  have hwidths : slot.unbind.widths = slot.widths := rfl
  unfold hear
  split
  · rw [hready, hwidths]
    split <;> rfl
  · rfl
  · rfl

theorem Slot.hear_spec {b : Bus} {i : Ident} {slot : Slot} (hs : b.participants.get? i = some slot)
    (hlive : slot.finished = false) (text : String) :
    (∃ time signals, b.hear i text = (.ok (.ok .ready), b.modifySlot i (·.offer time signals)) ∧
      slot.hear text = (slot.offer time signals, [])) ∨
    ((b.hear i text).1 = .ok (.ok .finished) ∧ slot.hear text = (slot.park.unbind, [.finish])) ∨
    ((∀ outcome, (b.hear i text).1 ≠ .ok (.ok outcome)) ∧ slot.hear text = (slot.park.unbind, [])) := by
  have hdecode : b.decode i text = (Message.decode text).bind (b.checkOffer i) := rfl
  unfold Bus.hear Slot.hear
  rw [hdecode]
  cases Message.decode text with
  | error cause => exact .inr (.inr ⟨by simp [Except.bind], rfl⟩)
  | ok m =>
    cases m with
    | ready time signals =>
      cases hfault : slot.widths.fault? signals with
      | some fault =>
        refine .inr (.inr ⟨?_, by simp [hfault]⟩)
        simp [Except.bind, Bus.checkOffer, hs, hfault]
      | none =>
        cases hready : slot.isReady with
        | true =>
          refine .inr (.inr ⟨?_, by simp⟩)
          simp [Except.bind, Bus.checkOffer, hs, hfault, Bus.receive, Bus.judge, hlive, hready]
        | false =>
          refine .inl ⟨time, signals, ?_, by simp [hfault]⟩
          simp [Except.bind, Bus.checkOffer, hs, hfault, Bus.receive, Bus.judge, hlive, hready]
    | finish => exact .inr (.inl ⟨by simp [Except.bind, Bus.checkOffer, Bus.receive, hs, Bus.judge], rfl⟩)
    | hello _ _ | youAre _ | nak | deliver _ _ =>
      exact .inr (.inr ⟨by simp [Except.bind, Bus.checkOffer, Bus.receive, hs, Bus.judge], rfl⟩)

theorem Play.after_took {devices : List Device} {p : Play devices} {d : Member devices} {k : ConnectionKey}
    (hk : (p.seats d).connection = some k) {r : Outcome}
    (hothers : ∀ d' j, d' ≠ d → (p.seats d').connection = some j → sentTo j r.2 = []) :
    after ⟨p.server, Function.update p.seats d ((p.seats d).took [])⟩ r =
      ⟨r.1, Function.update p.seats d ((p.seats d).took (sentTo k r.2))⟩ := by
  unfold after
  rw [Play.mk.injEq]
  refine ⟨rfl, funext fun d' => ?_⟩
  by_cases hd : d' = d
  · subst hd
    simp [Seat.receive, Seat.took, hk]
  · simp only [Function.update_of_ne hd]
    exact Seat.receive_of_silent fun j hj => hothers d' j hd hj

namespace Mirrors

variable {devices : List Device} {n : Nat} {p : Play devices} {x : Match devices} {b : Bus}

/-! ### Acts -/

variable (players : ∀ d : Member devices, Play.Player d.val.name)

theorem act_eq (h : Mirrors n p x b) {d : Member devices} {slot : Slot}
    (hslot : b.participants.get? d.val.ident = some slot) {f : Slot → Slot} {seat : Seat Unit}
    (hact : (p.seats d).anonymous.act b.engine (players d) slot.unbind = ((f slot).unbind, seat)) :
    x.act players d = ⟨(b.modifySlot d.val.ident f).anonymous, Function.update x.seats d seat⟩ := by
  have hshown : x.bus.participants.get? d.val.ident = some slot.unbind := by
    rw [h.bus, Bus.get?_anonymous, hslot]
    rfl
  have hchange : (b.modifySlot d.val.ident f).anonymous =
      b.anonymous.modifySlot d.val.ident fun _ => (f slot).unbind :=
    Bus.anonymous_modifySlot fun s hs => by rw [Option.some.inj (hslot.symm.trans hs)]
  have hengine : x.bus.engine = b.engine := by rw [h.bus]; rfl
  rw [Match.act_eq players x hshown, h.seats d, hengine, hact, hchange, h.bus]

theorem acted (h : Mirrors n p x b) {d : Member devices} {slot : Slot}
    (hslot : b.participants.get? d.val.ident = some slot) {s' : Server} {f : Slot → Slot} {seat : Seat ConnectionKey}
    (hact : (p.seats d).anonymous.act b.engine (players d) slot.unbind = ((f slot).unbind, seat.anonymous))
    (hconsistent : s'.Consistent) (hserved : s'.buses[n]? = some (b.modifySlot d.val.ident f))
    (hnext : p.server.nextKey ≤ s'.nextKey)
    (hothers : ∀ d' k, d' ≠ d → (p.seats d').connection = some k →
      seat.connection ≠ some k ∧ s'.connections.get? k = p.server.connections.get? k)
    (hlinked : ∀ k, seat.connection = some k →
      Linked s' n (b.modifySlot d.val.ident f) (f slot) seat.turns k) :
    Mirrors n ⟨s', Function.update p.seats d seat⟩ (x.act players d) (b.modifySlot d.val.ident f) := by
  have hx := h.act_eq players hslot hact
  refine ⟨hconsistent, hserved, h.sound.act players d, by rw [hx], fun d' => ?_, fun d₁ d₂ k hk₁ hk₂ => ?_,
    fun d' slot' k hslot' hk => ?_⟩
  · rw [hx]
    by_cases hd : d' = d
    · subst hd
      simp
    · simp [hd, h.seats d']
  · dsimp only at hk₁ hk₂
    by_cases h₁ : d₁ = d
    · by_cases h₂ : d₂ = d
      · rw [h₁, h₂]
      · subst h₁
        rw [Function.update_self] at hk₁
        rw [Function.update_of_ne h₂] at hk₂
        exact absurd hk₁ (hothers d₂ k h₂ hk₂).1
    · by_cases h₂ : d₂ = d
      · subst h₂
        rw [Function.update_of_ne h₁] at hk₁
        rw [Function.update_self] at hk₂
        exact absurd hk₂ (hothers d₁ k h₁ hk₁).1
      · rw [Function.update_of_ne h₁] at hk₁
        rw [Function.update_of_ne h₂] at hk₂
        exact h.apart d₁ d₂ k hk₁ hk₂
  · rw [Bus.get?_modifySlot] at hslot'
    dsimp only at hk ⊢
    by_cases hd : d' = d
    · subst hd
      rw [if_pos rfl] at hslot'
      rw [hslot] at hslot'
      cases hslot'
      rw [Function.update_self] at hk ⊢
      exact hlinked k hk
    · rw [if_neg (h.sound.ident_ne hd)] at hslot'
      rw [Function.update_of_ne hd] at hk ⊢
      have hold := h.linked d' slot' k hslot' hk
      have hget := (hothers d' k hd hk).2
      refine ⟨Nat.lt_of_lt_of_le hold.used hnext, fun hturns => ?_, hold.held, fun hturns hlost => ?_⟩
      · rw [hget]
        exact hold.early hturns
      · rw [hget]
        exact hold.lost hturns hlost

theorem connect (h : Mirrors n p x b) (d : Member devices) (peer : String) (hc : (p.seats d).connection = none) :
    ∃ b', Mirrors n (p.connect n d peer) (x.act players d) b' := by
  obtain ⟨slot, hslot, -, hstanding⟩ := h.slot d
  have haway : (p.seats d).anonymous.connection = none := by rw [Seat.anonymous, hc]; rfl
  have hlive := h.live_of_unready hslot (hstanding.unready_of_act (players d) (.inl haway))
  obtain ⟨hturns, hvacant⟩ : (p.seats d).turns = 0 ∧ slot.Vacant := by
    cases hstanding with
    | away _ turns _ vacant => exact ⟨turns, vacant⟩
    | arrived hc' | rejected hc' | owing hc' | offered hc' | gone hc' => cases haway.symm.trans hc'
  have hopened : p.server.handle (.accepted n peer) = (p.server.opened n peer, []) := by
    simp [handle, accept, h.served, hlive, opened]
  have hconnect : p.connect n d peer = ⟨p.server.opened n peer,
      Function.update p.seats d { p.seats d with connection := some p.server.nextKey }⟩ := by
    have hcontains : (p.server.opened n peer).connections.contains p.server.nextKey = true := by
      rw [SortedMap.contains, get?_opened, if_pos rfl]
      rfl
    simp only [Play.connect, hopened, hcontains, if_true]
  have hbus : (b.modifySlot d.val.ident fun s => s) = b := b.modifySlot_id _
  rw [hconnect]
  have hact : (p.seats d).anonymous.act b.engine (players d) slot.unbind =
      (slot.unbind, Seat.anonymous { p.seats d with connection := some p.server.nextKey }) := by
    rw [Seat.act, haway]
    rfl
  refine ⟨_, h.acted players (f := fun s => s) hslot hact (h.consistent.opened h.served hlive peer) ?_
    (Nat.le_succ _) (fun d' k _ hk => ?_) fun k hk => ?_⟩
  · rw [hbus]
    exact h.served
  · obtain ⟨slot', hslot', -⟩ := h.slot d'
    have hused := Nat.ne_of_lt (h.linked d' slot' k hslot' hk).used
    refine ⟨fun heq => hused (Option.some.inj heq).symm, ?_⟩
    rw [get?_opened, if_neg hused]
  · cases hk
    refine ⟨Nat.lt_succ_self _, fun _ => ⟨⟨n, none, peer⟩, ?_, rfl, rfl⟩, fun hclaimed => ?_,
      fun hnonzero => absurd hturns hnonzero⟩
    · rw [get?_opened, if_pos rfl]
    · cases hvacant.unclaimed.symm.trans hclaimed

/-- What an event of a participant comes to if the server makes of it what the match makes of the turn. -/
structure Took (s : Server) (n : Nat) (b : Bus) (i : Ident) (slot : Slot) (k : ConnectionKey) (turn : Turn)
    (f : Slot → Slot) (r : Outcome) : Prop where
  served : r.1.buses[n]? = some (b.modifySlot i f)
  next : r.1.nextKey = s.nextKey
  others : ∀ j, j ≠ k → r.1.connections.get? j = s.connections.get? j ∧ sentTo j r.2 = []
  take : slot.unbind.take b.engine turn = ((f slot).unbind, sentTo k r.2)
  held : (f slot).claimed = true → (f slot).finished = false → (f slot).connection = some k
  lost : (f slot).claimed = false ∨ (f slot).finished = true → r.1.connections.get? k = none

theorem Took.retired {s : Server} {i : Ident} {slot : Slot} {k : ConnectionKey} {turn : Turn}
    {actions : List ServerAction} (hb : s.buses[n]? = some b) (hothers : ∀ j, j ≠ k → sentTo j actions = [])
    (htake : slot.unbind.take b.engine turn = (slot.park.unbind, sentTo k actions)) :
    Took s n b i slot k turn (·.park.unbind) (s.retired k n b i, actions) := by
  refine ⟨buses_setBus hb _, rfl, fun j hj => ⟨?_, hothers j hj⟩, htake, fun _ hlive => ?_, fun _ => ?_⟩
  · rw [get?_retired, if_neg hj]
  · cases hlive
  · rw [get?_retired, if_pos rfl]

theorem greeted (h : Mirrors n p x b) {d : Member devices} {slot : Slot} {k : ConnectionKey} {c : Connection}
    (hslot : b.participants.get? d.val.ident = some slot) (hdevice : slot.device = d.val) (hvacant : slot.Vacant)
    (hlive : b.finished = false) (hc : p.server.connections.get? k = some c) (hbus : c.bus = n)
    (hfree : c.ident = none) : ∃ f, Took p.server n b d.val.ident slot k (.line (players d).greeting) f
      (p.server.handle (.line k (players d).greeting)) := by
  have hnamed : b.participants.named? d.val.name = some slot := (h.staffed.named?_eq d.property).trans hslot
  have htake : slot.unbind.take b.engine (.line (players d).greeting) =
      slot.unbind.greet b.engine (players d).options := by
    simp [Slot.take, Slot.unbind, hvacant.unclaimed, (players d).greets]
  have hmoved := h.consistent.moved_handle (.line k (players d).greeting)
  generalize p.server.handle (.line k (players d).greeting) = r at hmoved
  obtain ⟨s', actions⟩ := r
  dsimp only at hmoved
  subst hbus
  cases hmoved with
  | ignored _ hignores => cases hc.symm.trans hignores
  | admitted _ _ c' b' name options slot' widths notices hc' _ hb' decoded admits =>
    cases hc.symm.trans hc'
    cases h.served.symm.trans hb'
    cases (players d).greets.symm.trans decoded
    cases hdriven : b.engine.driven slot.device (players d).options with
    | error e => simp [Bus.admits, hlive, hnamed, hvacant.unclaimed, hdriven] at admits
    | ok widths' =>
      obtain ⟨rfl, rfl⟩ : slot = slot' ∧ widths' = widths := by
        simpa [Bus.admits, hlive, hnamed, hvacant.unclaimed, hdriven] using admits
      have hident : slot.ident = d.val.ident := by rw [Slot.ident, hdevice]
      rw [hident]
      refine ⟨(·.claim k (players d).options widths'), ⟨?_, rfl, fun j hj => ⟨?_, ?_⟩, ?_, fun _ _ => rfl, ?_⟩⟩
      · exact buses_setBus h.served _
      · rw [get?_admitted, if_neg hj]
      · simp [Ne.symm hj]
      · rw [htake, Slot.greet, show slot.unbind.device = slot.device from rfl, hdriven]
        simp [Slot.claim, Slot.unbind, Slot.ident, hdevice]
      · rintro (hunclaimed | hfinished)
        · cases hunclaimed
        · cases hvacant.unfinished.symm.trans hfinished
  | refused _ _ c' b' name options reason notices hc' _ hb' decoded admits =>
    cases hc.symm.trans hc'
    cases h.served.symm.trans hb'
    cases (players d).greets.symm.trans decoded
    cases hdriven : b.engine.driven slot.device (players d).options with
    | ok widths => simp [Bus.admits, hlive, hnamed, hvacant.unclaimed, hdriven] at admits
    | error e =>
      refine ⟨fun s => s, ⟨?_, rfl, fun j hj => ⟨?_, ?_⟩, ?_, fun hclaimed => ?_, fun _ => ?_⟩⟩
      · rw [Bus.modifySlot_id]
        exact h.served
      · rw [get?_forget, if_neg hj]
      · simp [Ne.symm hj]
      · rw [htake, Slot.greet, show slot.unbind.device = slot.device from rfl, hdriven]
        simp
      · cases hvacant.unclaimed.symm.trans hclaimed
      · rw [get?_forget, if_pos rfl]
  | dropped _ _ c' notices about hc' _ nohello =>
    cases about
    exact absurd (players d).greets (nohello _ _ _ rfl)
  | offered _ _ c' b' i notices hc' bound | left _ _ c' b' i notices hc' bound =>
    cases hc.symm.trans hc'
    cases hfree.symm.trans bound
  | expelled _ _ c' b' i notices about hc' bound =>
    cases about
    cases hc.symm.trans hc'
    cases hfree.symm.trans bound

theorem answered (h : Mirrors n p x b) {i : Ident} {slot : Slot} {k : ConnectionKey}
    (hslot : b.participants.get? i = some slot) (hclaimed : slot.claimed = true) (hunfinished : slot.finished = false)
    (hk : slot.connection = some k) (turn : Turn) :
    ∃ f, Took p.server n b i slot k turn f (p.server.handle (turn.event k)) := by
  obtain ⟨c, hc, hbus, hbound⟩ := h.consistent.known ⟨b, h.served, slot, hslot, hk⟩
  have hmoved := h.consistent.moved_handle (turn.event k)
  have htake : ∀ text, slot.unbind.take b.engine (.line text) = ((slot.hear text).1.unbind, (slot.hear text).2) := by
    intro text
    rw [Slot.take, show slot.unbind.claimed = true from hclaimed, if_pos rfl, Slot.hear_unbind]
  generalize p.server.handle (turn.event k) = r at hmoved
  generalize he : turn.event k = e at hmoved
  obtain ⟨s', actions⟩ := r
  dsimp only at hmoved
  subst hbus
  cases hmoved with
  | ignored _ hignores =>
    cases turn with
    | line | malformed | close =>
      cases he
      cases hc.symm.trans hignores
  | opened => cases turn <;> cases he
  | admitted _ _ c' _ _ _ _ _ _ hc' free | refused _ _ c' _ _ _ _ _ hc' free =>
    obtain ⟨rfl, rfl⟩ := Turn.event_eq_line.1 he
    cases hc.symm.trans hc'
    cases hbound.symm.trans free
  | dropped k' _ c' notices about hc' free =>
    obtain rfl : k = k' := by simpa [← he] using about
    cases hc.symm.trans hc'
    cases hbound.symm.trans free
  | offered _ text c' b' i' notices hc' bound hb' heard =>
    obtain ⟨rfl, rfl⟩ := Turn.event_eq_line.1 he
    cases hc.symm.trans hc'
    cases h.served.symm.trans hb'
    cases hbound.symm.trans bound
    rcases Slot.hear_spec hslot hunfinished text with
      ⟨time, signals, heq, hhear⟩ | ⟨hleft, -⟩ | ⟨hunheard, -⟩
    · rw [heq]
      refine ⟨(·.offer time signals),
        ⟨buses_setBus h.served _, rfl, fun j _ => ⟨rfl, sentTo_notes _ _⟩, ?_, fun _ _ => hk, ?_⟩⟩
      · rw [htake, hhear, sentTo_notes]
      · rintro (hunclaimed | hfinished)
        · cases hclaimed.symm.trans hunclaimed
        · cases hunfinished.symm.trans hfinished
    · cases heard.symm.trans hleft
    · exact absurd heard (hunheard _)
  | left _ text c' b' i' notices hc' bound hb' heard =>
    obtain ⟨rfl, rfl⟩ := Turn.event_eq_line.1 he
    cases hc.symm.trans hc'
    cases h.served.symm.trans hb'
    cases hbound.symm.trans bound
    rcases Slot.hear_spec hslot hunfinished text with ⟨time, signals, heq, -⟩ | ⟨-, hhear⟩ | ⟨hunheard, -⟩
    · rw [heq] at heard
      cases heard
    · refine ⟨_, .retired h.served (fun j hj => by simp [Ne.symm hj]) ?_⟩
      rw [htake, hhear]
      simp [Slot.unbind]
    · exact absurd heard (hunheard _)
  | expelled k' _ c' b' i' notices about hc' bound hb' unheard =>
    obtain rfl : k = k' := by simpa [← he] using about
    cases hc.symm.trans hc'
    cases h.served.symm.trans hb'
    cases hbound.symm.trans bound
    have hexpelled : slot.unbind.take b.engine turn = (slot.park.unbind, []) := by
      cases turn with
      | malformed | close => rfl
      | line text =>
        rcases Slot.hear_spec hslot hunfinished text with ⟨time, signals, heq, -⟩ | ⟨hleft, -⟩ | ⟨-, hhear⟩
        · exact absurd (by rw [heq]) (unheard text .ready he.symm)
        · exact absurd hleft (unheard text .finished he.symm)
        · rw [htake, hhear]
          rfl
    refine ⟨_, .retired h.served (fun j _ => by simp) ?_⟩
    rw [hexpelled]
    simp

theorem exists_took (h : Mirrors n p x b) {d : Member devices} {slot : Slot} {k : ConnectionKey} {turn : Turn}
    (hslot : b.participants.get? d.val.ident = some slot) (hk : (p.seats d).connection = some k)
    (hnext : (p.seats d).next? (players d) = some turn) : b.finished = false ∧
      ∃ f, Took p.server n b d.val.ident slot k turn f (p.server.handle (turn.event k)) := by
  obtain ⟨slot', hslot', hdevice, hstanding⟩ := h.slot d
  cases hslot.symm.trans hslot'
  have hshown : (p.seats d).anonymous.next? (players d) = some turn := hnext
  have hlinked := h.linked d slot k hslot hk
  have hlive := h.live_of_unready hslot
    (hstanding.unready_of_act (players d) (.inr (by simp [hshown])))
  refine ⟨hlive, ?_⟩
  cases hstanding with
  | away hc => simp [Seat.anonymous, hk] at hc
  | arrived _ turns _ vacant =>
    obtain ⟨c, hc, hbus, hfree⟩ := hlinked.early turns
    have hgreeting : (p.seats d).anonymous.next? (players d) = some (.line (players d).greeting) := by
      rw [Seat.next?, turns]
    cases hshown.symm.trans hgreeting
    exact h.greeted players hslot hdevice vacant hlive hc hbus hfree
  | rejected _ turns received =>
    cases hshown.symm.trans (Standing.next?_rejected (players d) turns received)
  | owing _ _ _ _ _ _ claimed _ unfinished =>
    exact h.answered hslot claimed unfinished (hlinked.held claimed unfinished hlive) turn
  | offered _ turns => cases hshown.symm.trans (Standing.next?_offered (players d) turns)
  | gone _ turns silent => cases hshown.symm.trans (Standing.next?_gone (players d) turns silent)

theorem act (h : Mirrors n p x b) (d : Member devices) (peer : String) :
    ∃ b', Mirrors n (p.act n players d peer) (x.act players d) b' := by
  unfold Play.act
  split
  · next hc => exact h.connect players d peer hc
  · next k hk =>
    split
    · next hnext =>
      have hidle : ¬ ((x.seats d).connection = none ∨ (x.seats d).next? (players d) ≠ none) := by
        rw [h.seats d]
        rintro (hc | hacts)
        · simp [Seat.anonymous, hk] at hc
        · exact hacts hnext
      rw [Match.act_eq_self players hidle]
      exact ⟨b, h⟩
    · next turn hnext =>
      obtain ⟨slot, hslot, -⟩ := h.slot d
      obtain ⟨hlive, f, htook⟩ := h.exists_took players hslot hk hnext
      have hconsistent := h.consistent.moved_to (h.consistent.moved_handle (turn.event k))
      generalize p.server.handle (turn.event k) = r at htook hconsistent
      have hother : ∀ {d' j}, d' ≠ d → (p.seats d').connection = some j → j ≠ k := by
        rintro d' j hd hj rfl
        exact hd (h.apart d' d j hj hk)
      have hact : (p.seats d).anonymous.act b.engine (players d) slot.unbind =
          ((f slot).unbind, ((p.seats d).took (sentTo k r.2)).anonymous) := by
        have hnext' : (p.seats d).anonymous.next? (players d) = some turn := hnext
        have hk' : (p.seats d).anonymous.connection = some () := by rw [Seat.anonymous, hk]; rfl
        rw [Seat.act, hk', hnext']
        dsimp only
        rw [htook.take]
        rfl
      rw [Play.after_took hk fun d' j hd hj => (htook.others j (hother hd hj)).2]
      refine ⟨_, h.acted players hslot hact hconsistent htook.served (Nat.le_of_eq htook.next.symm)
        (fun d' j hd hj => ?_) fun j hj => ?_⟩
      · have hne := hother hd hj
        refine ⟨fun hsame => hne (Option.some.inj (hsame.symm.trans hk)), (htook.others j hne).1⟩
      · cases hk.symm.trans hj
        refine ⟨?_, fun hturns => absurd hturns (Nat.succ_ne_zero _), fun hc hf _ => htook.held hc hf,
          fun _ hlost => htook.lost ?_⟩
        · rw [htook.next]
          exact (h.linked d slot k hslot hk).used
        · exact hlost.imp_right fun hfinished => hfinished.resolve_right (Bool.eq_false_iff.1 hlive)

theorem move (h : Mirrors n p x b) (m : Play.Move devices) :
    ∃ moves b', Mirrors n (p.move n players m) (x.run players moves) b' := by
  cases m with
  | act d peer => exact ⟨[.act d], h.act players d peer⟩
  | service => exact ⟨[.service], h.service⟩
  | other e =>
    rw [Play.move]
    split
    · exact ⟨[], b, h⟩
    · next hother => exact ⟨[], b, h.frame (m := .event e) hother⟩

theorem run (h : Mirrors n p x b) (moves : List (Play.Move devices)) :
    ∃ moves' b', Mirrors n (p.run n players moves) (x.run players moves') b' := by
  induction moves generalizing p x b with
  | nil => exact ⟨[], b, h⟩
  | cons m moves ih =>
    obtain ⟨first, b₁, h₁⟩ := h.move players m
    obtain ⟨rest, b₂, h₂⟩ := ih h₁
    refine ⟨first ++ rest, b₂, ?_⟩
    rw [Match.run, List.foldl_append]
    exact h₂

theorem start {s : Server} {c : BusConfig} (hs : s.Consistent) (hb : s.buses[n]? = some b)
    (hc : Bus.ofConfig c = .ok b) :
    Mirrors n (Play.start s : Play b.config.devices) ⟨b.anonymous, fun _ => .empty⟩ b := by
  obtain ⟨hfault, engine, -, rfl⟩ := Bus.ofConfig_spec hc
  have hstaffed := Participants.staffed_ofDevices (BusConfig.distinct_of_fault? hfault)
  refine ⟨hs, hb, ⟨hstaffed.of_roster_eq (Participants.roster_anonymous _), fun d slot hslot => ?_, fun hf => ?_⟩,
    rfl, fun _ => rfl, fun _ _ _ hk => ?_, fun _ _ _ _ hk => ?_⟩
  · rw [Bus.get?_anonymous] at hslot
    obtain ⟨s, hs, rfl⟩ := Option.map_eq_some_iff.1 hslot
    obtain ⟨e, -, rfl, -⟩ := Bus.vacant_of_ofDevices hs
    exact .away rfl rfl rfl ⟨rfl, rfl, rfl⟩
  · cases hf
  · cases hk
  · cases hk

end Mirrors

namespace Play

/-! ### Plays are runs -/

/-- The play has come about by a run of server `s`, and everybody has received what was sent to it in the run. -/
structure Follows {devices : List Device} (s : Server) (steps : List Step) (p : Play devices) : Prop where
  server : p.server = (s.run steps).1
  absent : ∀ d, (p.seats d).connection = none → (p.seats d).received = []
  received : ∀ d k, (p.seats d).connection = some k → (p.seats d).received = sentTo k (s.run steps).2

namespace Follows

variable {devices : List Device} {s : Server} {steps : List Step} {p : Play devices}

theorem after (h : Follows s steps p) (step : Step) :
    Follows s (steps ++ [step]) (p.after (p.server.perform step)) := by
  refine ⟨?_, fun d hc => ?_, fun d k hk => ?_⟩
  · rw [run_concat, h.server]
    rfl
  · simp only [Play.after, Seat.connection_receive] at hc
    simp only [Play.after, Seat.receive, hc]
    exact h.absent d hc
  · simp only [Play.after, Seat.connection_receive] at hk
    simp only [Play.after, Seat.receive, hk]
    rw [h.received d k hk, run_concat, h.server, Outcome.andThen_snd, sentTo_append]

theorem took (h : Follows s steps p) (d : Member devices) :
    Follows s steps ⟨p.server, Function.update p.seats d ((p.seats d).took [])⟩ := by
  refine ⟨h.server, fun d' hc => ?_, fun d' k hk => ?_⟩
  · by_cases hd : d' = d
    · subst hd
      simp only [Function.update_self, Seat.took, List.append_nil] at hc ⊢
      exact h.absent d' hc
    · simp only [Function.update_of_ne hd] at hc ⊢
      exact h.absent d' hc
  · by_cases hd : d' = d
    · subst hd
      simp only [Function.update_self, Seat.took, List.append_nil] at hk ⊢
      exact h.received d' k hk
    · simp only [Function.update_of_ne hd] at hk ⊢
      exact h.received d' k hk

theorem connect (h : Follows s steps p) {n : Nat} {d : Member devices} (hc : (p.seats d).connection = none)
    (peer : String) (hfresh : sentTo p.server.nextKey (s.run steps).2 = []) :
    Follows s (steps ++ [.event (.accepted n peer)]) (p.connect n d peer) := by
  have hquiet : (p.server.handle (.accepted n peer)).2 = [] := by
    show (p.server.accept n peer).2 = []
    unfold accept
    split
    · rfl
    · split <;> rfl
  have hactions : (s.run (steps ++ [.event (.accepted n peer)])).2 = (s.run steps).2 := by
    rw [run_concat, Outcome.andThen_snd, ← h.server]
    show (s.run steps).2 ++ (p.server.handle (.accepted n peer)).2 = (s.run steps).2
    rw [hquiet, List.append_nil]
  refine ⟨?_, fun d' hc' => ?_, fun d' k hk => ?_⟩
  · rw [run_concat, Outcome.andThen_fst, ← h.server]
    rfl
  · by_cases hd : d' = d
    · subst hd
      simp only [Play.connect, Function.update_self]
      exact h.absent d' hc
    · simp only [Play.connect, Function.update_of_ne hd] at hc' ⊢
      exact h.absent d' hc'
  · rw [hactions]
    by_cases hd : d' = d
    · subst hd
      simp only [Play.connect, Function.update_self] at hk ⊢
      split at hk
      · cases hk
        rw [hfresh]
        exact h.absent d' hc
      · cases hk
    · simp only [Play.connect, Function.update_of_ne hd] at hk ⊢
      exact h.received d' k hk

theorem move (h : Follows s steps p) (n : Nat) (players : ∀ d : Member devices, Player d.val.name) (m : Move devices)
    (hfresh : sentTo p.server.nextKey (s.run steps).2 = []) :
    ∃ more, Follows s (steps ++ more) (p.move n players m) := by
  have hidle : Follows s (steps ++ []) p := by rwa [List.append_nil]
  cases m with
  | service => exact ⟨_, h.after .service⟩
  | other e =>
    rw [Play.move]
    split
    · exact ⟨[], hidle⟩
    · exact ⟨_, h.after (.event e)⟩
  | act d peer =>
    rw [Play.move, Play.act]
    split
    · next hc => exact ⟨_, h.connect hc peer hfresh⟩
    · next k hk =>
      split
      · exact ⟨[], hidle⟩
      · next turn _ => exact ⟨_, (h.took d).after (.event (turn.event k))⟩

end Follows

/-- A play is a run of its server, and everybody receives what the server sends to its connection. -/
theorem follows_run {configs : List BusConfig} {limit : Nat} {s : Server} {notices : List ServerNotice}
    (h : ofConfigs configs limit = (some s, notices)) {devices : List Device} (n : Nat)
    (players : ∀ d : Member devices, Player d.val.name) (moves : List (Move devices)) :
    ∃ steps, Follows s steps ((start s).run n players moves) := by
  have hconsistent := consistent_ofConfigs h
  have hfresh : ∀ steps, sentTo (s.run steps).1.nextKey (s.run steps).2 = [] := by
    intro steps
    have hreaches := Reaches.run s steps
    exact (hreaches.ledger hconsistent (ofConfigs_spec h).1 _).eq_nil_of_unused (hreaches.consistent hconsistent)
      (Nat.le_refl _)
  suffices ∀ (steps : List Step) (p : Play devices), Follows s steps p →
      ∃ steps, Follows s steps (p.run n players moves) from
    this [] _ ⟨rfl, fun _ _ => rfl, fun _ _ hk => by cases hk⟩
  induction moves with
  | nil => exact fun steps p hp => ⟨steps, hp⟩
  | cons m moves ih =>
    intro steps p hp
    obtain ⟨more, hmove⟩ := hp.move n players m (by rw [hp.server]; exact hfresh steps)
    exact ih _ _ hmove

/-! ### Determinism -/

/-- **Lockstep is deterministic.** However the lines of the participants of a bus reach the server, and however they
are grouped between service passes: two plays of the same players are two runs of the server, and of the messages that
a participant has been sent in them, one sequence is the beginning of the other. -/
theorem received_comparable {configs : List BusConfig} {limit : Nat} {s : Server} {notices : List ServerNotice}
    (h : ofConfigs configs limit = (some s, notices)) {n : Nat} {b : Bus} (hb : s.buses[n]? = some b)
    (players : ∀ d : Member b.config.devices, Player d.val.name) (moves moves' : List (Move b.config.devices)) :
    (∃ steps, Follows s steps ((start s).run n players moves)) ∧
    (∃ steps, Follows s steps ((start s).run n players moves')) ∧
    ∀ d,
      (((start s).run n players moves).seats d).received <+: (((start s).run n players moves').seats d).received ∨
      (((start s).run n players moves').seats d).received <+: (((start s).run n players moves).seats d).received := by
  refine ⟨follows_run h n players moves, follows_run h n players moves', fun d => ?_⟩
  obtain ⟨-, -, hconfigured⟩ := ofConfigs_spec h
  obtain ⟨c, -, hc⟩ := hconfigured b (List.mem_of_getElem? hb)
  have hstart := Mirrors.start (consistent_ofConfigs h) hb hc
  obtain ⟨ms, _, hrun⟩ := hstart.run players moves
  obtain ⟨ms', _, hrun'⟩ := hstart.run players moves'
  have hcomparable := hstart.sound.comparable players ms ms' d
  rw [hrun.seats d, hrun'.seats d] at hcomparable
  exact hcomparable

/-- Participants of the bus of a host and a card, which offer nothing once and leave. -/
def briefPlayers (d : Member Bus.hostAndCard.devices) : Player d.val.name where
  greeting := "HELLO " ++ d.val.name
  options := .empty
  greets := by
    obtain ⟨d, hd⟩ := d
    rcases List.mem_cons.1 hd with rfl | hd
    · cbv
    · obtain rfl := List.mem_singleton.1 hd
      cbv
  turn received := if received.length = 1 then .line "READY 0e-12" else .line "FINISH"

def host : Member Bus.hostAndCard.devices := ⟨⟨"host", 0, true⟩, .head _⟩

def card : Member Bus.hostAndCard.devices := ⟨⟨"card", 1, false⟩, .tail _ (.head _)⟩

/-- Everybody connects and plays to the end, with one step between. -/
def longPlay : List (Move Bus.hostAndCard.devices) :=
  [.act host "a", .act host "a", .act card "b", .act card "b", .act host "a", .act card "b", .service, .act card "b",
    .act host "a"]

/-- The card comes first, and the server services its buses early and often. -/
def shortPlay : List (Move Bus.hostAndCard.devices) :=
  [.act card "a", .act card "a", .service, .act host "b", .act host "b", .service, .act card "a", .service,
    .act host "b", .service]

/-- What the host has received in the short play is the beginning of what it receives in the long one. -/
theorem received_host :
    (((start idleServer).run 0 briefPlayers longPlay).seats host).received.length = 3 ∧
    (((start idleServer).run 0 briefPlayers shortPlay).seats host).received.length = 2 ∧
    (((start idleServer).run 0 briefPlayers shortPlay).seats host).received <+:
      (((start idleServer).run 0 briefPlayers longPlay).seats host).received := by
  have hlong : (((start idleServer).run 0 briefPlayers longPlay).seats host).received.length = 3 := by cbv
  have hshort : (((start idleServer).run 0 briefPlayers shortPlay).seats host).received.length = 2 := by cbv
  refine ⟨hlong, hshort, ?_⟩
  have hbus : idleServer.buses[0]? = some Bus.idleBus := rfl
  rcases (received_comparable ofConfigs_hostAndCard hbus briefPlayers shortPlay longPlay).2.2 host with h | h
  · exact h
  · have hle := h.length_le
    change (((start idleServer).run 0 briefPlayers longPlay).seats host).received.length ≤
      (((start idleServer).run 0 briefPlayers shortPlay).seats host).received.length at hle
    rw [hlong, hshort] at hle
    omega

end Play

end Lockstep
