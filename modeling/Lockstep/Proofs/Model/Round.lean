import Lockstep.Proofs.Bus.Schedule
import Lockstep.Proofs.Model.Join
/-!
# Rounds

In a round all players take their turns, the bus attempts its step, and the players hear of it. The attempt is never one
that waits, since everybody has spoken. So either the bus steps and each player on it is delivered what its slot is
shown, or the attempt fails and everybody is cut off (`Rig.Settled`, `Rig.Seated.settle`). Either way the players keep
their seats.

`Rig.after` is any course of rounds: who is told to stop, and when, is left open. The runs that play a configuration are
among them (`Rig.exists_run_eq`).
-/

namespace Lockstep

/-! ### Deliveries -/

theorem lookup_map_of_unique {α β γ : Type} [DecidableEq β] {name : α → β} {f : α → γ} {l : List α} {a : α} (ha : a ∈ l)
    (hunique : ∀ a' ∈ l, name a' = name a → a' = a) :
    (l.map fun a => (name a, f a)).lookup (name a) = some (f a) := by
  induction l with
  | nil => cases ha
  | cons b l ih =>
    rw [List.map_cons, List.lookup_cons]
    by_cases hname : name a = name b
    · rw [← hunique b List.mem_cons_self hname.symm]
      simp
    · have hmem : a ∈ l := by
        rcases List.mem_cons.1 ha with rfl | ha
        · exact absurd rfl hname
        · exact ha
      simp only [beq_eq_false_iff_ne.2 hname]
      exact ih hmem fun a' ha' => hunique a' (List.mem_cons_of_mem _ ha')

theorem Participants.lookup_deliveries {ps : Participants} {i : Ident} {k : ConnectionKey} (h : (i, k) ∈ ps.attached)
    (hsingle : ∀ j, (j, k) ∈ ps.attached → j = i) (time : Time) :
    (Bus.deliveries time ps).lookup k = some (.deliver time (ps.shown i)) := by
  rw [deliveries_eq]
  have hunique : ∀ a ∈ ps.attached, a.2 = k → a = (i, k) := by
    rintro ⟨j, k'⟩ ha rfl
    rw [hsingle j ha]
  exact lookup_map_of_unique h hunique

namespace Bus

theorem Walked.participants {t : ClockTiming} {n : Nat} {b : Bus} (h : Walked t n b) (ps : Participants) :
    Walked t n { b with participants := ps } := ⟨h.clock, h.exponent, h.mantissa, h.steps, h.unassembled⟩

theorem Walked.not_failed {t : ClockTiming} {n : Nat} {b : Bus} (h : Walked t n b) (ht : t.fault? = none)
    (hfits : t.walk (n + 1) < UInt64.size)
    (hagree : b.assembled = false → ∃ result, b.engine.wrapUp b.participants = .ok result) {cause : AdvanceError} :
    b.advance.1 ≠ .failed cause := by
  intro hfailed
  have hattempt := b.attempt_spec
  rw [hfailed] at hattempt
  generalize b.advance.2.1 = b' at hattempt
  cases hattempt with
  | refused _ live ready unassembled refusal =>
    obtain ⟨result, hresult⟩ := hagree unassembled
    rw [hresult] at refusal
    cases refusal
  | late _ engine ps live ready prepared overflow =>
    exact absurd ((h.overflow_iff ht).1 overflow).1 (Nat.not_le.2 hfits)

end Bus

theorem Phase.after_succ_eq_rising_iff (n : Nat) : Phase.after (n + 1) = .rising ↔ n % 4 = 0 := by
  rw [Phase.after_mod]
  rcases (by omega : n % 4 = 0 ∨ n % 4 = 1 ∨ n % 4 = 2 ∨ n % 4 = 3) with hn | hn | hn | hn
  · rw [show (n + 1) % 4 = 1 by omega, hn]
    decide
  · rw [show (n + 1) % 4 = 2 by omega, hn]
    decide
  · rw [show (n + 1) % 4 = 3 by omega, hn]
    decide
  · rw [show (n + 1) % 4 = 0 by omega, hn]
    decide

/-- The level of the clock that was delivered last, after some steps: none before the first one. -/
def clockLevel (n : Nat) : Level := if n = 0 then .released else (Phase.after n).level

theorem occurs_clockLevel (n : Nat) :
    Edge.rising.occurs (clockLevel n) (clockLevel (n + 1)) = decide (n % 4 = 0) := by
  rw [clockLevel, clockLevel, if_neg (Nat.succ_ne_zero n), Phase.level_after, Phase.level_after]
  rcases (by omega : n % 4 = 0 ∨ n % 4 = 1 ∨ n % 4 = 2 ∨ n % 4 = 3) with hn | hn | hn | hn <;>
    · have hnext : (n + 1) % 4 = (n % 4 + 1) % 4 := by omega
      rw [hnext, hn]
      split <;> first | rfl | omega

namespace Player

/-! ### What a player hears -/

/-- What a delivery makes of a player. -/
inductive Heard (p : Player) (client : Client) : Player → Prop where
  | listened (quiet : Edge.rising.occurs (p.client.bit p.actor.clock) (client.bit p.actor.clock) = false) :
      Heard p client { p with client }
  | acted (actor : Actor) (rising : Edge.rising.occurs (p.client.bit p.actor.clock) (client.bit p.actor.clock) = true)
      (edge : p.actor.edge client.signals = .ok actor) : Heard p client { p with client, actor, atEdge := true }
  | failed (e : ClientError)
      (rising : Edge.rising.occurs (p.client.bit p.actor.clock) (client.bit p.actor.clock) = true)
      (edge : p.actor.edge client.signals = .error e) : Heard p client ({ p with client }.leave (.error e))

theorem heard_deliver (p : Player) (time : Time) (signals : Signals) :
    p.Heard { p.client with time, signals, steps := p.client.steps + 1 } (p.hear (.deliver time signals)) := by
  unfold hear
  dsimp only [Client.take]
  split
  · next hrising =>
    split
    · next actor hedge => exact .acted actor hrising hedge
    · next e hedge => exact .failed e hrising hedge
  · next hquiet => exact .listened (by simpa using hquiet)

/-- What a player makes of a step, given what participants are shown. -/
def hears (time : Time) (shown : Ident → Signals) (p : Player) : Player :=
  if p.isOn then p.hear (.deliver time (shown p.client.ident)) else p

def cutOff (p : Player) : Player := if p.isOn then p.leave (.error .disconnected) else p

theorem isOn_cutOff (p : Player) : p.cutOff.isOn = false := by
  unfold cutOff
  split
  · rfl
  · next h => simpa using h

variable {p : Player} {time : Time} {shown : Ident → Signals}

theorem hears_of_off (h : p.isOn = false) : p.hears time shown = p := by rw [hears, h]; rfl

theorem heard_hears (h : p.isOn = true) (time : Time) (shown : Ident → Signals) :
    p.Heard { p.client with time, signals := shown p.client.ident, steps := p.client.steps + 1 } (p.hears time shown) := by
  rw [hears, if_pos h]
  exact p.heard_deliver _ _

theorem ident_hears (p : Player) : (p.hears time shown).client.ident = p.client.ident := by
  cases hon : p.isOn with
  | false => rw [hears_of_off hon]
  | true =>
    have hheard := heard_hears hon time shown
    generalize p.hears time shown = q at hheard
    cases hheard <;> rfl

theorem connection_hears (p : Player) : (p.hears time shown).connection = p.connection := by
  cases hon : p.isOn with
  | false => rw [hears_of_off hon]
  | true =>
    have hheard := heard_hears hon time shown
    generalize p.hears time shown = q at hheard
    cases hheard <;> rfl

theorem isOn_of_hears (h : (p.hears time shown).isOn = true) : p.isOn = true := by
  cases hon : p.isOn with
  | true => rfl
  | false =>
    rw [hears_of_off hon, hon] at h
    cases h

def informed (time : Time) (shown : Ident → Signals) (p : Player) : Client :=
  { p.client with time, signals := shown p.client.ident, steps := p.client.steps + 1 }

theorem isOn_of_spoken {stop : Ident → Bool} (h : (p.spoken stop).isOn = true) : p.isOn = true := by
  cases hon : p.isOn with
  | true => rfl
  | false => simp [spoken, hon] at h

theorem spoken_of_on {stop : Ident → Bool} (h : (p.spoken stop).isOn = true) :
    p.spoken stop = { p with atEdge := false } ∧ p.outcome = none := by
  have hon := isOn_of_spoken h
  unfold spoken at h ⊢
  rw [hon] at h ⊢
  cases hleaves : Rig.leaves stop p with
  | true =>
    rw [hleaves] at h
    cases h
  | false => exact ⟨rfl, Option.isNone_iff_eq_none.1 hon⟩

/-! ### The clock of a player -/

/-- A player on the bus follows its clock: it acts at every rising edge, and makes its first offer without one. -/
structure Attends (n : Nat) (p : Player) : Prop where
  clock : p.client.bit p.actor.clock = clockLevel n
  atEdge : p.atEdge = decide (n = 0 ∨ n % 4 = 1)

namespace Attends

variable {n : Nat} {stop : Ident → Bool}

theorem outcome_spoken (h : p.Attends n) (hout : p.outcome = none) (stop : Ident → Bool) :
    (p.spoken stop).outcome =
      if (n = 0 ∨ n % 4 = 1) ∧ (if p.actor.isMaster then p.actor.isDone else stop p.client.ident) = true then some (.ok ())
      else none := by
  have hon := isOn_of_outcome hout
  rw [spoken, hon, Rig.leaves, h.atEdge]
  by_cases hn : n = 0 ∨ n % 4 = 1
  · cases if p.actor.isMaster then p.actor.isDone else stop p.client.ident <;> simp [hn, leave, hout]
  · simp [hn, hout]

theorem listens (h : p.Attends n) (hon : (p.spoken stop).isOn = true)
    (hclock : (shown p.client.ident).bit p.actor.clock = clockLevel (n + 1)) (hn : n % 4 ≠ 0) :
    (p.spoken stop).hears time shown = { p with client := p.informed time shown, atEdge := false } ∧
      ((p.spoken stop).hears time shown).Attends (n + 1) := by
  obtain ⟨hspoken, hout⟩ := spoken_of_on hon
  have hquiet : Edge.rising.occurs (p.client.bit p.actor.clock) ((shown p.client.ident).bit p.actor.clock) = false := by
    rw [h.clock, hclock, occurs_clockLevel]
    simpa using hn
  have heq : (p.spoken stop).hears time shown = { p with client := p.informed time shown, atEdge := false } := by
    have hheard := heard_hears hon time shown
    generalize (p.spoken stop).hears time shown = q at hheard
    rw [hspoken] at hheard
    cases hheard with
    | listened => rfl
    | acted _ rising | failed _ rising => cases hquiet.symm.trans rising
  rw [heq]
  refine ⟨rfl, hclock, ?_⟩
  symm
  simp only [decide_eq_false_iff_not]
  omega

theorem acts (h : p.Attends n) (hon : (p.spoken stop).isOn = true)
    (hclock : (shown p.client.ident).bit p.actor.clock = clockLevel (n + 1)) (hn : n % 4 = 0) {actor : Actor}
    (hedge : p.actor.edge (shown p.client.ident) = .ok actor) :
    (p.spoken stop).hears time shown = { p with client := p.informed time shown, actor, atEdge := true } ∧
      ((p.spoken stop).hears time shown).Attends (n + 1) := by
  obtain ⟨hspoken, hout⟩ := spoken_of_on hon
  have hrising : Edge.rising.occurs (p.client.bit p.actor.clock) ((shown p.client.ident).bit p.actor.clock) = true := by
    rw [h.clock, hclock, occurs_clockLevel]
    simpa using hn
  have heq : (p.spoken stop).hears time shown =
      { p with client := p.informed time shown, actor, atEdge := true } := by
    have hheard := heard_hears hon time shown
    generalize (p.spoken stop).hears time shown = q at hheard
    rw [hspoken] at hheard
    cases hheard with
    | listened quiet => cases quiet.symm.trans hrising
    | acted actor' _ edge =>
      cases edge.symm.trans hedge
      rfl
    | failed e _ edge => cases edge.symm.trans hedge
  rw [heq]
  refine ⟨rfl, ?_, ?_⟩
  · show (shown p.client.ident).bit actor.clock = _
    rw [Actor.clock_edge hedge]
    exact hclock
  · symm
    simp only [decide_eq_true_eq]
    omega

theorem moves (h : p.Attends n) (time : Time) (hon : (p.spoken stop).isOn = true)
    (hclock : (shown p.client.ident).bit p.actor.clock = clockLevel (n + 1)) {actor : Actor}
    (hedge : if n % 4 = 0 then p.actor.edge (shown p.client.ident) = .ok actor else actor = p.actor) :
    ((p.spoken stop).hears time shown).client = p.informed time shown ∧
      ((p.spoken stop).hears time shown).actor = actor ∧ ((p.spoken stop).hears time shown).outcome = none ∧
      ((p.spoken stop).hears time shown).Attends (n + 1) := by
  have hout := (spoken_of_on hon).2
  split at hedge
  · next hn =>
    obtain ⟨heq, hattends⟩ := h.acts hon hclock hn hedge
    exact ⟨by rw [heq], by rw [heq], by rw [heq]; exact hout, hattends⟩
  · next hn =>
    obtain ⟨heq, hattends⟩ := h.listens hon hclock hn
    exact ⟨by rw [heq], by rw [heq, hedge], by rw [heq]; exact hout, hattends⟩

end Attends

end Player

namespace Rig

variable {devices : List Device} {agreed : Device → Widths} {r : Rig}

/-! ### The step of a round -/

/-- What the bus does to the slot of a player that a step drives away. -/
def lost (g : Player → Player) (p : Player) (s : Slot) : Slot := if p.isOn && !(g p).isOn then s.park.unbind else s

theorem dropLost_eq {g : Player → Player} {players : List Player} {b : Bus}
    (hidents : players.Pairwise fun p q => p.client.ident ≠ q.client.ident)
    (hslots : ∀ p ∈ players, p.isOn = true → ∃ s, b.participants.get? p.client.ident = some s ∧ s.finished = false) :
    dropLost players (players.map g) b = b.modifyEach (lost g) players := by
  induction players generalizing b with
  | nil => rfl
  | cons p players ih =>
    obtain ⟨hp, hrest⟩ := List.pairwise_cons.1 hidents
    have hdropped : (if p.isOn && !(g p).isOn then (b.disconnect p.client.ident).2 else b) =
        b.modifySlot p.client.ident (lost g p) := by
      unfold lost
      split
      · next hlost =>
        obtain ⟨s, hs, hunfinished⟩ := hslots p (by simp) (by simp at hlost; exact hlost.1)
        rw [Bus.disconnect_of_live hs hunfinished]
        rfl
      · exact (Bus.modifySlot_id _ _).symm
    have hslots' : ∀ q ∈ players, q.isOn = true → ∃ s,
        (b.modifySlot p.client.ident (lost g p)).participants.get? q.client.ident = some s ∧ s.finished = false := by
      intro q hq hon
      rw [Bus.get?_modifySlot, if_neg (Ne.symm (hp q hq))]
      exact hslots q (by simp [hq]) hon
    rw [Bus.modifyEach_cons, ← ih hrest hslots', ← hdropped]
    rfl

/-- The step after all turns, and what the players make of it. -/
def settle (r : Rig) : Rig :=
  ⟨dropLost r.players (r.players.map (hearStep r.bus.advance.1)) r.bus.advance.2.1,
    r.players.map (hearStep r.bus.advance.1)⟩

theorem round_eq (stop : Ident → Bool) (r : Rig) : r.round stop = (r.turns stop).settle := rfl

/-- What the step of a round can come to. -/
inductive Settled (r : Rig) : Rig → Prop where
  /-- Everybody on the bus hears what its slot is shown. -/
  | stepped (engine : Engine) (ps participants : Participants) (time : Time) (prepared : r.bus.Prepared engine ps)
      (sum : r.bus.time.add r.bus.clock.advance.elapsed = .ok time) :
      Settled r ⟨{ r.bus with
        engine := engine.entering r.bus.clock.phase.next ps
        participants
        clock := r.bus.clock.advance
        time
        assembled := true
        steps := r.bus.steps + 1 },
        r.players.map (Player.hears time
          ((engine.entering r.bus.clock.phase.next ps).deliver r.bus.clock.phase.next.level ps).shown)⟩
  /-- The step fails, and everybody is cut off. -/
  | failed (cause : AdvanceError) (participants : Participants) (failure : r.bus.advance.1 = .failed cause) :
      Settled r ⟨{ r.bus.advance.2.1 with participants }, r.players.map Player.cutOff⟩

theorem seat_heard {p q : Player} {s : Slot} (h : p.Seat agreed false s) (hon : p.isOn = true) {client : Client}
    (hident : client.ident = p.client.ident) (hheard : p.Heard client q) :
    q.Seat agreed false (if q.isOn then s else s.park.unbind) := by
  cases hheard with
  | listened =>
    rw [if_pos (show Player.isOn { p with client := client } = true from hon)]
    exact h.acted hon hident rfl hon rfl .same
  | acted actor _ hedge =>
    obtain ⟨hdrive, hreach⟩ := Actor.redriven_edge hedge
    rw [if_pos (show Player.isOn { p with client := client, actor := actor, atEdge := true } = true from hon)]
    exact h.acted hon hident rfl hon hreach hdrive
  | failed => exact h.left hident rfl h.within rfl

theorem seat_hears {p : Player} {s : Slot} (h : p.Seat agreed false s) {time : Time} {shown : Ident → Signals} :
    (p.hears time shown).Seat agreed false (lost (Player.hears time shown) p s) := by
  unfold lost
  cases hon : p.isOn with
  | false =>
    rw [Player.hears_of_off hon]
    exact h
  | true =>
    have hheard := Player.heard_hears hon time shown
    have hseat := seat_heard h hon (by rfl) hheard
    cases hstays : (p.hears time shown).isOn <;> rw [hstays] at hseat <;> exact hseat

theorem seat_cutOff {p : Player} {s : Slot} (h : p.Seat agreed true s) :
    p.cutOff.Seat agreed false (lost Player.cutOff p s) := by
  unfold lost
  rw [p.isOn_cutOff]
  unfold Player.cutOff
  cases hon : p.isOn with
  | false =>
    have hoff : ¬ p.isOn = true := by rw [hon]; decide
    exact ⟨h.ident, h.claimed, h.options, h.widths, h.fits, h.own, h.within, h.finished, fun hon => absurd hon hoff,
      h.quiet, fun hf => by cases hf⟩
  | true => exact h.left rfl rfl h.within rfl

theorem Seated.attached (h : r.Seated devices agreed true) {ps : Participants} (hmuted : ps.muted = r.bus.participants.muted)
    {p : Player} (hp : p ∈ r.players) (hon : p.isOn = true) :
    (p.client.ident, p.connection) ∈ ps.attached ∧ ∀ j, (j, p.connection) ∈ ps.attached → j = p.client.ident := by
  rw [Participants.attached_of_muted_eq hmuted]
  obtain ⟨s, hs, hseat⟩ := h.seats p hp
  refine ⟨Participants.mem_attached.2 ⟨s, hs, by rw [hseat.finished, hon]; rfl, (hseat.on hon).2⟩, fun j hj => ?_⟩
  obtain ⟨s', hs', hunfinished, hconnection⟩ := Participants.mem_attached.1 hj
  obtain ⟨q, hq, rfl, hseat'⟩ := h.player hs'
  have hon' : q.isOn = true := by
    rw [hseat'.finished] at hunfinished
    simpa using hunfinished
  rw [(hseat'.on hon').2] at hconnection
  rw [h.eq_of_connection_eq hq hp (Option.some.inj hconnection)]

theorem device_lost (g : Player → Player) (p : Player) (s : Slot) : (lost g p s).device = s.device := by
  unfold lost
  split <;> rfl

theorem Seated.drop {b : Bus} {told : Bool} {g : Player → Player} (h : Rig.Seated devices agreed told ⟨b, r.players⟩)
    (hclient : ∀ p ∈ r.players, (g p).client.ident = p.client.ident)
    (hconnection : ∀ p ∈ r.players, (g p).connection = p.connection)
    (hseats : ∀ p ∈ r.players, ∀ s, p.Seat agreed told s → (g p).Seat agreed false (lost g p s)) :
    dropLost r.players (r.players.map g) b = b.modifyEach (lost g) r.players ∧
      Rig.Seated devices agreed false ⟨b.modifyEach (lost g) r.players, r.players.map g⟩ := by
  refine ⟨dropLost_eq h.idents fun p hp hon => ?_, h.change hclient hconnection h.live
    (Bus.roster_modifyEach (device_lost g) _) (fun p hp => Bus.get?_modifyEach h.idents hp _)
    fun p hp s _ hseat => hseats p hp s hseat⟩
  obtain ⟨s, hs, hseat⟩ := h.seats p hp
  exact ⟨s, hs, by rw [hseat.finished, hon]; rfl⟩

theorem Seated.shown {told : Bool} (h : r.Seated devices agreed told) {b : Bus} (hlive : b.finished = false)
    (hmuted : b.participants.muted = r.bus.participants.muted) : Rig.Seated devices agreed told ⟨b, r.players⟩ := by
  refine ⟨h.staffed.of_roster_eq (Participants.roster_of_muted_eq hmuted), hlive, h.idents, h.connections, fun p hp => ?_,
    fun i s hs => ?_⟩
  · obtain ⟨s, hs, hseat⟩ := h.seats p hp
    obtain ⟨s', hs', hsame⟩ := Participants.exists_of_muted_eq hmuted.symm hs
    exact ⟨s', hs', hseat.shown hsame.symm⟩
  · obtain ⟨s', hs', -⟩ := Participants.exists_of_muted_eq hmuted hs
    exact h.full i s' hs'

theorem Seated.rearm (h : r.Seated devices agreed true) {b : Bus} (hlive : b.finished = false)
    (hslots : b.participants = r.bus.participants.each (·.rearm)) :
    Rig.Seated devices agreed false ⟨b, r.players⟩ := by
  refine ⟨h.staffed.of_roster_eq ?_, hlive, h.idents, h.connections, fun p hp => ?_, fun i s hs => ?_⟩
  · rw [hslots]
    exact Participants.roster_each Slot.device_rearm _
  · obtain ⟨s, hs, hseat⟩ := h.seats p hp
    refine ⟨s.rearm, ?_, hseat.rearm⟩
    rw [hslots, Participants.get?_each, hs]
    rfl
  · change b.participants.get? i = some s at hs
    rw [hslots, Participants.get?_each] at hs
    obtain ⟨s', hs', -⟩ := Option.map_eq_some_iff.1 hs
    exact h.full i s' hs'

theorem Seated.settle_of_failed (h : r.Seated devices agreed true) {cause : AdvanceError}
    (hcause : r.bus.advance.1 = .failed cause) (hlive : r.bus.advance.2.1.finished = false)
    (hmuted : r.bus.advance.2.1.participants.muted = r.bus.participants.muted) :
    r.settle.Seated devices agreed false ∧ Settled r r.settle := by
  have hhear : hearStep (.failed cause) = Player.cutOff := by
    funext p
    cases hon : p.isOn <;> simp [hearStep, Player.cutOff, hon]
  have hcut : ∀ p : Player, p.cutOff.client = p.client ∧ p.cutOff.connection = p.connection := by
    intro p
    unfold Player.cutOff
    split <;> exact ⟨rfl, rfl⟩
  obtain ⟨hdrop, hseated⟩ := (h.shown hlive hmuted).drop (g := Player.cutOff) (fun p _ => by rw [(hcut p).1])
    (fun p _ => (hcut p).2) fun p _ s hseat => seat_cutOff hseat
  have hsettle : r.settle =
      ⟨r.bus.advance.2.1.modifyEach (lost Player.cutOff) r.players, r.players.map Player.cutOff⟩ := by
    rw [Rig.settle, hcause, hhear, hdrop]
  rw [hsettle]
  exact ⟨hseated, .failed cause _ hcause⟩

theorem Seated.settle (h : r.Seated devices agreed true) (hready : r.bus.allReady = true) :
    r.settle.Seated devices agreed false ∧ Settled r r.settle := by
  have hattempt := r.bus.attempt_spec
  have hfailed := fun cause => @Seated.settle_of_failed _ _ _ h cause
  have hsettle : r.settle = ⟨dropLost r.players (r.players.map (hearStep r.bus.advance.1)) r.bus.advance.2.1,
    r.players.map (hearStep r.bus.advance.1)⟩ := rfl
  generalize r.bus.advance.2.1 = b at hattempt hsettle hfailed
  generalize r.bus.advance.1 = outcome at hattempt hsettle hfailed
  cases hattempt with
  | waiting hwaits =>
    rw [h.live, hready] at hwaits
    rcases hwaits with hwaits | hwaits <;> cases hwaits
  | refused cause => exact hfailed _ rfl h.live rfl
  | late cause engine ps live ready prepared overflow => exact hfailed _ rfl h.live prepared.muted_eq
  | stepped engine ps time live ready prepared sum =>
    have hmuted := (Engine.muted_deliver (engine.entering r.bus.clock.phase.next ps) r.bus.clock.phase.next.level ps).trans
      prepared.muted_eq
    generalize hshown : (engine.entering r.bus.clock.phase.next ps).deliver r.bus.clock.phase.next.level ps = shown
      at hsettle hmuted
    have hhear : ∀ p ∈ r.players, hearStep (.stepped (Bus.deliveries time shown)) p = p.hears time shown.shown := by
      intro p hp
      unfold hearStep
      cases hon : p.isOn with
      | false => simp [Player.hears_of_off hon]
      | true =>
        obtain ⟨hattached, hsingle⟩ := h.attached hmuted hp hon
        simp [Player.hears, hon, Participants.lookup_deliveries hattached hsingle]
    have hseated : Rig.Seated devices agreed false ⟨{ r.bus with
        engine := engine.entering r.bus.clock.phase.next ps
        participants := shown.each (·.rearm)
        clock := r.bus.clock.advance
        time
        assembled := true
        steps := r.bus.steps + 1 }, r.players⟩ :=
      (h.shown (b := { r.bus with participants := shown }) h.live hmuted).rearm h.live rfl
    obtain ⟨hdrop, hseated⟩ := hseated.drop (g := Player.hears time shown.shown) (fun p _ => p.ident_hears)
      (fun p _ => p.connection_hears) fun p _ s hseat => seat_hears hseat
    rw [List.map_congr_left hhear, hdrop] at hsettle
    rw [hsettle]
    refine ⟨hseated, ?_⟩
    rw [← hshown]
    exact .stepped engine ps _ time prepared sum

/-! ### A round -/

/-- A round after which the bus has stepped: with which engine and which participants it went into the step, and what
became of the players after their turns. -/
structure Stepped (t : ClockTiming) (n : Nat) (r r' : Rig) (engine : Engine) (ps : Participants) (time : Time) :
    Prop where
  prepared : r.bus.Prepared engine ps
  walked : r'.bus.Walked t (n + 1)
  assembled : r'.bus.assembled = true
  entered : r'.bus.engine = engine.entering (.after (n + 1)) ps
  players : r'.players = r.players.map (Player.hears time
    ((engine.entering (.after (n + 1)) ps).deliver (Phase.after (n + 1)).level ps).shown)

theorem Seated.walked_turns (h : r.Seated devices agreed false) {t : ClockTiming} {n : Nat} (hwalked : r.bus.Walked t n)
    (stop : Ident → Bool) : (r.turns stop).bus.Walked t n := by
  rw [(h.turns stop).2.2.1]
  exact hwalked.participants _

/-- **A round.** Either the bus steps, or everybody is cut off. -/
theorem Seated.round (h : r.Seated devices agreed false) {t : ClockTiming} {n : Nat} (hwalked : r.bus.Walked t n)
    (ht : t.fault? = none) (stop : Ident → Bool) :
    (r.round stop).Seated devices agreed false ∧
      ((∃ engine ps time, Stepped t n (r.turns stop) (r.round stop) engine ps time) ∨
        (∃ cause, (r.turns stop).bus.advance.1 = .failed cause) ∧
          (r.round stop).players = (r.turns stop).players.map Player.cutOff) := by
  obtain ⟨hseated, -, -, hready⟩ := h.turns stop
  have hwalked := h.walked_turns hwalked stop
  obtain ⟨hsettled, hsteps⟩ := hseated.settle hready
  rw [round_eq]
  refine ⟨hsettled, ?_⟩
  generalize (r.turns stop).settle = r' at hsteps
  cases hsteps with
  | stepped engine ps participants time prepared sum =>
    obtain ⟨hexponent, hmantissa⟩ := hwalked.time_eq ht sum
    have hclock : (r.turns stop).bus.clock.advance = ⟨t, .after (n + 1)⟩ := by
      rw [hwalked.clock]
      rfl
    have hphase : (r.turns stop).bus.clock.phase.next = .after (n + 1) := congrArg Clock.phase hclock
    rw [hphase]
    exact .inl ⟨engine, ps, time, prepared,
      ⟨hclock, hexponent, hmantissa, congrArg (· + 1) hwalked.steps, fun h => by cases h⟩, rfl, rfl, rfl⟩
  | failed cause participants failure => exact .inr ⟨⟨cause, failure⟩, rfl⟩

theorem Seated.round_of_off (h : r.Seated devices agreed false) (hoff : ∀ p ∈ r.players, p.isOn = false)
    (stop : Ident → Bool) :
    (r.round stop).Seated devices agreed false ∧ ∀ p ∈ (r.round stop).players, p.isOn = false := by
  obtain ⟨hseated, hplayers, -, hready⟩ := h.turns stop
  obtain ⟨hsettled, hsteps⟩ := hseated.settle hready
  have hoff : ∀ p ∈ (r.turns stop).players, p.isOn = false := by
    intro q hq
    rw [hplayers] at hq
    obtain ⟨p, hp, rfl⟩ := List.mem_map.1 hq
    rw [Player.spoken_of_off (hoff p hp)]
    exact hoff p hp
  rw [round_eq]
  refine ⟨hsettled, fun q hq => ?_⟩
  generalize (r.turns stop).settle = r' at hsteps hq
  cases hsteps with
  | stepped =>
    obtain ⟨p, hp, rfl⟩ := List.mem_map.1 hq
    rw [Player.hears_of_off (hoff p hp)]
    exact hoff p hp
  | failed =>
    obtain ⟨p, -, rfl⟩ := List.mem_map.1 hq
    exact p.isOn_cutOff

theorem Seated.kin_round (h : r.Seated devices agreed false) (stop : Ident → Bool) :
    r.bus.engine.Kin (r.round stop).bus.engine := by
  obtain ⟨hseated, -, -, hready⟩ := h.turns stop
  obtain ⟨-, hsteps⟩ := hseated.settle hready
  rw [round_eq, ← h.engine_turns stop]
  generalize (r.turns stop).settle = r' at hsteps
  cases hsteps with
  | stepped engine ps participants time prepared => exact prepared.kin.trans (Engine.kin_entering _ _ _)
  | failed => exact Bus.kin_perform _ .advance

/-! ### Courses of rounds -/

/-- The rig after some rounds. In round `n` the players of `stops n` are told to stop. -/
def after (stops : Nat → Ident → Bool) (r : Rig) : Nat → Rig
  | 0 => r
  | n + 1 => (r.after stops n).round (stops n)

/-- A run is a course of rounds in which nobody is told to stop before all masters are done. -/
theorem exists_run_eq (rounds : Nat) (r : Rig) : ∃ stops n, run rounds r = r.after stops n ∧ n ≤ rounds ∧
    (n < rounds → (r.after stops n).isOver = true) ∧
    ∀ m i, stops m i = true → mastersDone (r.after stops m).players = true := by
  -- everybody is told to stop once all masters are done, whenever the run ends
  let next : Rig → Rig := fun r => r.round fun _ => mastersDone r.players
  have hafter : ∀ n, r.after (fun m _ => mastersDone (next^[m] r).players) n = next^[n] r := by
    intro n
    induction n with
    | zero => rfl
    | succ n ih => rw [after, ih, Function.iterate_succ_apply']
  have hrun : ∀ (rounds : Nat) (r : Rig), ∃ n, run rounds r = next^[n] r ∧ n ≤ rounds ∧
      (n < rounds → (next^[n] r).isOver = true) := by
    intro rounds
    induction rounds with
    | zero => exact fun r => ⟨0, rfl, Nat.le_refl 0, fun h => absurd h (Nat.lt_irrefl 0)⟩
    | succ rounds ih =>
      intro r
      rw [run]
      split
      · next hover => exact ⟨0, rfl, Nat.zero_le _, fun _ => hover⟩
      · obtain ⟨n, heq, hle, hover⟩ := ih (next r)
        exact ⟨n + 1, heq, Nat.succ_le_succ hle, fun hlt => hover (Nat.lt_of_succ_lt_succ hlt)⟩
  obtain ⟨n, heq, hle, hover⟩ := hrun rounds r
  refine ⟨_, n, heq.trans (hafter n).symm, hle, fun hlt => ?_, fun m i hstop => ?_⟩
  · rw [hafter]
    exact hover hlt
  · rw [hafter]
    exact hstop

/-- A clock that leaves time for one period. -/
def slowestClock : ClockTiming := ⟨9223372036854775807, 9223372036854775807, 1, 2⟩

end Rig

end Lockstep
