import Lockstep.Proofs.Server.Binding
import Lockstep.Proofs.Server.Match
/-!
# A play and its match

A play on a bus of a server is followed by a match that has forgotten the keys (`Mirrors`). What happens to other
buses goes unnoticed there (`Mirrors.frame`), and a service pass is one service of the match (`Mirrors.service`),
whenever it comes.
-/

namespace Lockstep

open Server

/-- The place without the key of its connection. -/
def Seat.anonymous {κ : Type} (seat : Seat κ) : Seat Unit :=
  ⟨seat.connection.map fun _ => (), seat.turns, seat.received⟩

/-- How connection `k` of somebody who has taken some turns on bus `n` fits its slot. -/
structure Linked (s : Server) (n : Nat) (b : Bus) (slot : Slot) (turns : Nat) (k : ConnectionKey) : Prop where
  used : k < s.nextKey
  early : turns = 0 → ∃ c, s.connections.get? k = some c ∧ c.bus = n ∧ c.ident = none
  held : slot.claimed = true → slot.finished = false → b.finished = false → slot.connection = some k
  lost : turns ≠ 0 → slot.claimed = false ∨ slot.finished = true ∨ b.finished = true →
    s.connections.get? k = none

/-- A match follows a play on bus `n`, which is `b`. -/
structure Mirrors {devices : List Device} (n : Nat) (p : Play devices) (x : Match devices) (b : Bus) : Prop where
  consistent : p.server.Consistent
  served : p.server.buses[n]? = some b
  sound : x.Sound
  bus : x.bus = b.anonymous
  seats : ∀ d, x.seats d = (p.seats d).anonymous
  apart : ∀ d d' k, (p.seats d).connection = some k → (p.seats d').connection = some k → d = d'
  linked : ∀ (d : Member devices) slot k, b.participants.get? d.val.ident = some slot →
    (p.seats d).connection = some k → Linked p.server n b slot (p.seats d).turns k

/-! ### What is received -/

theorem Seat.receive_of_silent {actions : List ServerAction} {seat : Seat ConnectionKey}
    (h : ∀ k, seat.connection = some k → sentTo k actions = []) : seat.receive actions = seat := by
  unfold receive
  split
  · rfl
  · next k hk => rw [h k hk, List.append_nil]

theorem Seat.receive_append (as bs : List ServerAction) (seat : Seat ConnectionKey) :
    seat.receive (as ++ bs) = (seat.receive as).receive bs := by
  unfold receive
  cases hc : seat.connection with
  | none => simp [hc]
  | some k => simp

@[simp] theorem Seat.connection_receive (actions : List ServerAction) (seat : Seat ConnectionKey) :
    (seat.receive actions).connection = seat.connection := by
  unfold receive
  split <;> rfl

@[simp] theorem Seat.turns_receive (actions : List ServerAction) (seat : Seat ConnectionKey) :
    (seat.receive actions).turns = seat.turns := by
  unfold receive
  split <;> rfl

theorem Play.after_andThen {devices : List Device} (p : Play devices) (r : Outcome) (f : Server → Outcome) :
    p.after (r.andThen f) = (p.after r).after (f r.1) := by
  unfold after
  rw [Play.mk.injEq]
  exact ⟨rfl, funext fun d => Seat.receive_append _ _ _⟩

namespace Mirrors

variable {devices : List Device} {n : Nat} {p : Play devices} {x : Match devices} {b : Bus}

theorem slot (h : Mirrors n p x b) (d : Member devices) :
    ∃ slot, b.participants.get? d.val.ident = some slot ∧ slot.device = d.val ∧
      Standing slot (p.seats d).anonymous := by
  obtain ⟨slot', hslot', hstanding⟩ := h.sound.slot d
  obtain ⟨slot'', hslot'', hdevice⟩ := h.sound.staffed.slot d.property
  rw [hslot'] at hslot''
  cases hslot''
  rw [h.bus, Bus.get?_anonymous] at hslot'
  obtain ⟨slot, hslot, rfl⟩ := Option.map_eq_some_iff.1 hslot'
  rw [h.seats d] at hstanding
  exact ⟨slot, hslot, hdevice, hstanding.of_flags rfl rfl rfl⟩

theorem staffed (h : Mirrors n p x b) : Participants.Staffed devices b.participants := by
  have hroster : b.participants.roster = x.bus.participants.roster := by
    rw [h.bus]
    exact b.participants.roster_anonymous.symm
  exact h.sound.staffed.of_roster_eq hroster

theorem live_of_unready (h : Mirrors n p x b) {i : Ident} {slot : Slot} (hslot : b.participants.get? i = some slot)
    (hunready : slot.isReady = false) : b.finished = false := by
  refine Bool.eq_false_iff.2 fun hf => ?_
  have hall := h.sound.ended (by rw [h.bus]; exact hf)
  rw [h.bus] at hall
  have hready := Participants.allReady_iff.1 (b.participants.allReady_anonymous.symm.trans hall) i slot hslot
  rw [hunready] at hready
  cases hready

theorem bus_of_key (h : Mirrors n p x b) {d : Member devices} {k : ConnectionKey} {c : Connection}
    (hk : (p.seats d).connection = some k) (hc : p.server.connections.get? k = some c) : c.bus = n := by
  obtain ⟨slot, hslot, -, -⟩ := h.slot d
  have hlinked := h.linked d slot k hslot hk
  by_cases hturns : (p.seats d).turns = 0
  · obtain ⟨c', hc', hbus, -⟩ := hlinked.early hturns
    rw [hc] at hc'
    cases hc'
    exact hbus
  · by_cases hheld : slot.claimed = true ∧ slot.finished = false ∧ b.finished = false
    · have hholds := hlinked.held hheld.1 hheld.2.1 hheld.2.2
      obtain ⟨c', hc', hbus, -⟩ := h.consistent.known ⟨b, h.served, slot, hslot, hholds⟩
      rw [hc] at hc'
      cases hc'
      exact hbus
    · have hnone := hlinked.lost hturns (by simpa only [Bool.not_eq_true, Bool.not_eq_false, not_and_or] using hheld)
      cases hc.symm.trans hnone

theorem frame (h : Mirrors n p x b) {m : Server.Move} (hn : ¬ p.server.About n m) :
    Mirrors n (p.after (p.server.move m)) x b := by
  have hmoved := h.consistent.moved m
  obtain ⟨hbus, hnext, hkeys⟩ := hmoved.elsewhere h.consistent hn
  have hkey : ∀ {d k}, (p.seats d).connection = some k →
      (p.server.move m).1.connections.get? k = p.server.connections.get? k ∧ sentTo k (p.server.move m).2 = [] := by
    intro d k hk
    obtain ⟨slot, hslot, -⟩ := h.slot d
    exact hkeys k (h.linked d slot k hslot hk).used fun c hc => h.bus_of_key hk hc
  have hseats : (p.after (p.server.move m)).seats = p.seats := by
    funext d
    exact Seat.receive_of_silent fun k hk => (hkey hk).2
  refine ⟨h.consistent.moved_to hmoved, hbus.trans h.served, h.sound, h.bus, ?_, ?_, fun d slot k hslot hk => ?_⟩
  · rw [hseats]
    exact h.seats
  · rw [hseats]
    exact h.apart
  · rw [hseats] at hk ⊢
    have hlinked := h.linked d slot k hslot hk
    have hget := (hkey hk).1
    refine ⟨Nat.lt_of_lt_of_le hlinked.used hnext, fun hturns => ?_, hlinked.held, fun hturns hlost => ?_⟩
    · obtain ⟨c, hc, hcbus⟩ := hlinked.early hturns
      exact ⟨c, hget.trans hc, hcbus⟩
    · exact hget.trans (hlinked.lost hturns hlost)

/-! ### Service -/

theorem frame_silent (h : Mirrors n p x b) : Mirrors n (p.after (p.server, [])) x b := by
  have hself : p.after (p.server, []) = p := by
    unfold Play.after
    have hseats : (fun d => (p.seats d).receive []) = p.seats := funext fun d => Seat.receive_of_silent fun _ _ => rfl
    rw [hseats]
  rw [hself]
  exact h

theorem stepped (h : Mirrors n p x b) {ds : List Delivery} {notices : List ServerNotice}
    (hadvance : b.advance.1 = .stepped ds)
    (hconsistent : (p.server.setBus n b.advance.2.1).Consistent) (hx : (x.deliver b.advance.2.1.anonymous).Sound) :
    Mirrors n (p.after (p.server.setBus n b.advance.2.1, notices.map .note ++ ds.map fun d => .send d.1 d.2))
      (x.deliver b.advance.2.1.anonymous) b.advance.2.1 := by
  have hself := buses_setBus h.served b.advance.2.1
  obtain ⟨hlive, hready⟩ := Bus.ready_of_advance (b := b) (by simp [hadvance])
  refine ⟨hconsistent, hself, hx, rfl, fun d => ?_, ?_, fun d slot' k hslot' hk => ?_⟩
  · obtain ⟨slot, hslot, -, hstanding⟩ := h.slot d
    obtain ⟨shown, hget, -⟩ := hx.slot d
    have hanonymous : b.advance.2.1.anonymous.participants.get? d.val.ident = some shown := hget
    obtain ⟨slot', hslot', rfl⟩ := Option.map_eq_some_iff.1 ((b.advance.2.1.get?_anonymous _).symm.trans hanonymous)
    have hfinished : slot'.finished = slot.finished := by
      obtain ⟨slot₀, hslot₀, -, hfinished, -⟩ := b.advance_spec.of_slot hslot'
      rw [hslot] at hslot₀
      cases hslot₀
      exact hfinished
    obtain ⟨hc, hturns, hclaimed⟩ :=
      hstanding.admitted_of_ready (Participants.allReady_iff.1 hready _ _ hslot)
    obtain ⟨k, hk, -⟩ := Option.map_eq_some_iff.1 hc
    have hlinked := h.linked d slot k hslot hk
    have hdeliver : (x.deliver b.advance.2.1.anonymous).seats d =
        (p.seats d).anonymous.deliver b.advance.2.1.time slot'.unbind := by
      simp only [Match.deliver, hanonymous, h.seats d]
      rfl
    rw [hdeliver]
    simp only [Play.after, Seat.receive, hk, sentTo_append, sentTo_notes, List.nil_append]
    cases hf : slot.finished with
    | true =>
      -- nobody holds the connection of somebody who has left
      have hnone := hlinked.lost hturns (.inr (.inl hf))
      have hunheld : ∀ i, ¬ b.Holds i k := by
        intro i hi
        obtain ⟨c, hc, -⟩ := h.consistent.known ⟨b, h.served, hi⟩
        cases hnone.symm.trans hc
      have hleft : slot'.unbind.finished = true := hfinished.trans hf
      rw [sentTo_of_not_holds hadvance hunheld, List.append_nil, Seat.deliver, if_pos hleft]
      simp [Seat.anonymous, hk]
    | false =>
      have hheld := hlinked.held hclaimed hf hlive
      have hstays : ¬ slot'.unbind.finished = true := by
        rw [show slot'.unbind.finished = slot.finished from hfinished, hf]
        exact Bool.false_ne_true
      have hshown : b.advance.2.1.participants.shown d.val.ident = slot'.outgoing := by
        rw [Participants.shown, hslot']
        rfl
      rw [h.consistent.sentTo_of_holds h.served hadvance ⟨slot, hslot, hheld⟩, hshown, Seat.deliver,
        if_neg hstays]
      simp [Seat.anonymous, hk, Slot.unbind]
  · simp only [Play.after, Seat.connection_receive]
    exact h.apart
  · simp only [Play.after, Seat.connection_receive] at hk
    obtain ⟨slot, hslot, hclaimed, hfinished, hconnection⟩ := b.advance_spec.of_slot hslot'
    have hlinked := h.linked d slot k hslot hk
    have hended := b.advance_spec.finished_eq
    simp only [Play.after, Seat.turns_receive]
    refine ⟨hlinked.used, hlinked.early, ?_, ?_⟩
    · rw [hclaimed, hfinished, hended, hconnection]
      exact hlinked.held
    · rw [hclaimed, hfinished, hended]
      exact hlinked.lost

theorem ended (h : Mirrors n p x b) {b' : Bus} (notices : List ServerNotice) (closes : List ConnectionKey)
    (hready : b.allReady = true) (hconsistent : (p.server.ended n b').Consistent)
    (hx : (⟨b'.tearDown.2.1.anonymous, x.seats⟩ : Match devices).Sound) :
    Mirrors n (p.after (p.server.ended n b', notices.map .note ++ closes.map .close))
      ⟨b'.tearDown.2.1.anonymous, x.seats⟩ b'.tearDown.2.1 := by
  have hserved : (p.server.ended n b').buses[n]? = some b'.tearDown.2.1 := buses_setBus h.served _
  have hseats : (p.after (p.server.ended n b', notices.map .note ++ closes.map .close)).seats = p.seats := by
    funext d
    exact Seat.receive_of_silent fun k _ => by simp
  refine ⟨hconsistent, hserved, hx, rfl, ?_, ?_, fun d slot' k _ hk => ?_⟩
  · rw [hseats]
    exact h.seats
  · rw [hseats]
    exact h.apart
  · rw [hseats] at hk ⊢
    obtain ⟨slot, hslot, -, hstanding⟩ := h.slot d
    have hturns := (hstanding.admitted_of_ready (Participants.allReady_iff.1 hready _ _ hslot)).2.1
    refine ⟨(h.linked d slot k hslot hk).used, fun h0 => absurd h0 hturns, fun _ _ hlive => ?_, fun _ _ => ?_⟩
    · cases b'.finished_tearDown.symm.trans hlive
    · show (p.server.ended n b').connections.get? k = none
      rw [get?_ended]
      cases hc : p.server.connections.get? k with
      | none => rfl
      | some c => simp [h.bus_of_key hk hc]

theorem serviceBus (h : Mirrors n p x b) : ∃ b', Mirrors n (p.after (p.server.serviceBus n)) x.service b' := by
  have hmoved := h.consistent.moved_serviceBus n
  have hconsistent := h.consistent.moved_to hmoved
  have hfinished : x.bus.finished = b.finished := by rw [h.bus]; rfl
  have hall : x.bus.allFinished = b.allFinished := by rw [h.bus]; exact b.participants.allFinished_anonymous
  have hready : x.bus.allReady = b.allReady := by rw [h.bus]; exact b.participants.allReady_anonymous
  have hadvance : x.bus.advance.1 = b.advance.1.anonymous ∧ x.bus.advance.2.1 = b.advance.2.1.anonymous := by
    rw [h.bus]
    exact b.advance_anonymous
  have htearDown : x.bus.tearDown.2.1 = b.tearDown.2.1.anonymous := by rw [h.bus, Bus.tearDown_anonymous]
  have hx := h.sound.service
  generalize p.server.serviceBus n = r at hmoved hconsistent
  obtain ⟨s', actions⟩ := r
  dsimp only at hmoved hconsistent
  cases hmoved with
  | ignored m hignores =>
    have hself : x.service = x := by
      rw [Match.service, hfinished, hignores b h.served]
      rfl
    rw [hself]
    exact ⟨b, h.frame_silent⟩
  | waiting n b₀ hb live unready =>
    cases h.served.symm.trans hb
    rw [Match.service_of_unready (hready.trans unready)]
    exact ⟨b, h.frame_silent⟩
  | stepped n b₀ ds notices hb unfinished advanced =>
    cases h.served.symm.trans hb
    have hlive := (Bus.ready_of_advance (b := b) (by simp [advanced])).1
    have hservice : x.service = x.deliver b.advance.2.1.anonymous := by
      rw [Match.service, hfinished, hlive, hall, unfinished, hadvance.1, advanced, hadvance.2]
      rfl
    rw [hservice] at hx ⊢
    exact ⟨_, h.stepped advanced hconsistent hx⟩
  | ended n b₀ b' notices closes hb live why =>
    cases h.served.symm.trans hb
    obtain ⟨hready, hservice⟩ : b.allReady = true ∧ x.service = ⟨b'.tearDown.2.1.anonymous, x.seats⟩ := by
      rw [Match.service, hfinished, live, hall]
      rcases why with ⟨hfinished, rfl⟩ | ⟨hunfinished, rfl, cause, hfailed⟩
      · refine ⟨Participants.allReady_of_allFinished hfinished, ?_⟩
        rw [hfinished, htearDown]
        rfl
      · refine ⟨(Bus.ready_of_advance (b := b) (by simp [hfailed])).2, ?_⟩
        rw [hunfinished, hadvance.1, hfailed, hadvance.2]
        simp only [Advance.anonymous, Bus.tearDown_anonymous]
        rfl
    rw [hservice] at hx ⊢
    exact ⟨_, h.ended notices closes hready hconsistent hx⟩

theorem partway (h : Mirrors n p x b) (m : Nat) :
    ∃ b', Mirrors n (p.after (p.server.partway m)) (if n < m then x.service else x) b' := by
  induction m with
  | zero => exact ⟨b, h.frame_silent⟩
  | succ m ih =>
    obtain ⟨b₁, h₁⟩ := ih
    rw [partway_succ, Play.after_andThen]
    by_cases hm : m = n
    · subst hm
      rw [if_neg (Nat.lt_irrefl _)] at h₁
      rw [if_pos (Nat.lt_succ_self _)]
      exact h₁.serviceBus
    · have hlt : n < m + 1 ↔ n < m := by omega
      simp only [hlt]
      exact ⟨b₁, h₁.frame (m := .serviceBus m) hm⟩

theorem service (h : Mirrors n p x b) : ∃ b', Mirrors n (p.after p.server.service) x.service b' := by
  have hpartway := h.partway p.server.buses.length
  rw [if_pos (List.getElem?_eq_some_iff.1 h.served).1] at hpartway
  rw [service_eq_partway]
  exact hpartway

end Mirrors

end Lockstep
