import Lockstep.Proofs.Bus.Fit
import Lockstep.Proofs.Bus.Roster
import Lockstep.Proofs.Model.Reach
/-!
# Players and their slots

A player that has not left has a slot of its own, and what the slot drives is what its model drives. The two differ only
between the edge at which the model acts and the offer that follows it (`Player.Seat`, `Player.Seat.drives_eq`). A turn
of a player concerns its own slot only, and no turn goes wrong (`Rig.Seated.turns`), because a model keeps to the signals
of its device.

Players are told apart by the numbers of their slots, and their connections are told apart too. Everything that happens
to the slots in one round is therefore said player by player (`Bus.modifyEach`).
-/

namespace Lockstep

/-! ### Changing the slots of players -/

namespace Bus

/-- Changes the slots of some players, one after the other. -/
def modifyEach (f : Player → Slot → Slot) (players : List Player) (b : Bus) : Bus :=
  { b with participants := players.foldl (fun ps p => ps.modify p.client.ident (f p)) b.participants }

variable {f : Player → Slot → Slot} {players : List Player}

theorem modifyEach_cons (p : Player) (b : Bus) :
    b.modifyEach f (p :: players) = (b.modifySlot p.client.ident (f p)).modifyEach f players := rfl

theorem get?_modifyEach_of_ne {i : Ident} (h : ∀ p ∈ players, p.client.ident ≠ i) (b : Bus) :
    (b.modifyEach f players).participants.get? i = b.participants.get? i := by
  induction players generalizing b with
  | nil => rfl
  | cons p players ih =>
    rw [modifyEach_cons, ih (fun q hq => h q (by simp [hq])), get?_modifySlot, if_neg (Ne.symm (h p (by simp)))]

theorem get?_modifyEach (h : players.Pairwise fun p q => p.client.ident ≠ q.client.ident) {p : Player}
    (hp : p ∈ players) (b : Bus) :
    (b.modifyEach f players).participants.get? p.client.ident =
      (b.participants.get? p.client.ident).map (f p) := by
  induction players generalizing b with
  | nil => cases hp
  | cons q players ih =>
    obtain ⟨hq, hrest⟩ := List.pairwise_cons.1 h
    rw [modifyEach_cons]
    rcases List.mem_cons.1 hp with rfl | hp
    · rw [get?_modifyEach_of_ne (fun p' hp' => Ne.symm (hq p' hp')), get?_modifySlot, if_pos rfl]
    · rw [ih hrest hp, get?_modifySlot, if_neg (Ne.symm (hq p hp))]

theorem roster_modifyEach (h : ∀ p s, (f p s).device = s.device) (b : Bus) :
    (b.modifyEach f players).participants.roster = b.participants.roster := by
  induction players generalizing b with
  | nil => rfl
  | cons p players ih =>
    rw [modifyEach_cons, ih]
    exact Participants.roster_modify fun s _ => h p s

end Bus

/-! ### One player -/

namespace Player

/-- What a player drives: nothing once it has left. -/
def driving (p : Player) : Signals := if p.isOn then p.actor.drive else .empty

/-- What a player drives on the wires of a signal. -/
def wires (p : Player) (name : String) (width : Nat) : Bundle := p.driving.wires name width

def spoken (stop : Ident → Bool) (p : Player) : Player :=
  if !p.isOn then p else if Rig.leaves stop p then p.leave (.ok ()) else { p with atEdge := false }

/-- What the turn of a player does to its slot. -/
def turned (stop : Ident → Bool) (p : Player) (s : Slot) : Slot :=
  if !p.isOn then s else if Rig.leaves stop p then s.park.unbind else s.offer p.client.time p.actor.drive

/-- A player and the slot of its device. The player has had its turn before the coming step if it has been `told`. -/
structure Seat (agreed : Device → Widths) (told : Bool) (p : Player) (s : Slot) : Prop where
  ident : s.ident = p.client.ident
  claimed : s.claimed = true
  options : s.options = .empty
  widths : s.widths = agreed s.device
  fits : s.Fits
  /-- The model drives signals of the device only. -/
  own : ∀ e ∈ p.actor.reach, s.widths.get? e.1 = some e.2
  within : p.actor.drive.Within p.actor.reach
  finished : s.finished = !p.isOn
  on : p.isOn = true → s.ready = told ∧ s.connection = some p.connection
  /-- Signals that the model does not mention are released, and all signals once the player has left. -/
  quiet : ∀ name v, s.driven.get? name = some v → p.isOn = false ∨ p.actor.drive.get? name = none →
    v = .released v.width
  /-- After its turn the slot drives what the model drives. -/
  said : told = true → p.isOn = true → ∀ name v, p.actor.drive.get? name = some v → s.driven.get? name = some v

variable {agreed : Device → Widths} {told : Bool} {stop : Ident → Bool} {p : Player} {s : Slot}

theorem isOn_of_outcome (h : p.outcome = none) : p.isOn = true := by
  rw [isOn, h]
  rfl

theorem isOn_eq_false {outcome : Except ClientError Unit} (h : p.outcome = some outcome) : p.isOn = false := by
  rw [isOn, h]
  rfl

theorem wires_of_off (h : p.isOn = false) (name : String) (width : Nat) : p.wires name width = .released width := by
  rw [wires, driving, h]
  rfl

theorem spoken_of_off (h : p.isOn = false) (stop : Ident → Bool) : p.spoken stop = p := by
  rw [spoken, h]
  rfl

theorem client_spoken (stop : Ident → Bool) (p : Player) : (p.spoken stop).client = p.client := by
  unfold spoken
  split
  · rfl
  · split <;> rfl

theorem connection_spoken (stop : Ident → Bool) (p : Player) : (p.spoken stop).connection = p.connection := by
  unfold spoken
  split
  · rfl
  · split <;> rfl

theorem actor_spoken (stop : Ident → Bool) (p : Player) : (p.spoken stop).actor = p.actor := by
  unfold spoken
  split
  · rfl
  · split <;> rfl

theorem device_turned (stop : Ident → Bool) (p : Player) (s : Slot) : (p.turned stop s).device = s.device := by
  unfold turned
  split
  · rfl
  · split <;> rfl

namespace Seat

theorem fault?_eq_none (h : p.Seat agreed told s) : s.widths.fault? p.actor.drive = none :=
  Widths.fault?_eq_none_iff.2 fun _ _ hv => h.own _ (h.within _ _ hv)

theorem drives_eq (h : p.Seat agreed true s) {name : String} {width : Nat} (hwidth : s.widths.get? name = some width) :
    s.drives name = p.wires name width ∧ s.drivesBit name = (p.wires name width).getD 0 := by
  have hdriven := h.fits name
  rw [hwidth] at hdriven
  obtain ⟨v, hv, rfl⟩ := Option.map_eq_some_iff.1 hdriven
  have hwires : v = p.wires name v.width := by
    unfold wires Signals.wires driving
    split
    · next hon =>
      cases hdrive : p.actor.drive.get? name with
      | none => exact h.quiet name v hv (.inr hdrive)
      | some w =>
        have hsaid := h.said rfl hon name w hdrive
        rw [hv] at hsaid
        exact Option.some.inj hsaid
    · next hoff => exact h.quiet name v hv (.inl (by simpa using hoff))
  rw [Slot.drives, Slot.drivesBit, Signals.bit_eq hv, hv, ← hwires]
  exact ⟨rfl, rfl⟩

theorem shown (h : p.Seat agreed told s) {s' : Slot} (hmuted : s'.muted = s.muted) : p.Seat agreed told s' := by
  rw [Slot.eq_of_muted_eq hmuted]
  exact ⟨h.ident, h.claimed, h.options, h.widths, h.fits, h.own, h.within, h.finished, h.on, h.quiet, h.said⟩

theorem rearm (h : p.Seat agreed true s) : p.Seat agreed false s.rearm := by
  unfold Slot.rearm
  split
  · next hfinished =>
    have hoff : ¬ p.isOn = true := by
      rw [h.finished] at hfinished
      simpa using hfinished
    exact ⟨h.ident, h.claimed, h.options, h.widths, h.fits, h.own, h.within, h.finished, fun hon => absurd hon hoff,
      h.quiet, fun hf => by cases hf⟩
  · exact ⟨h.ident, h.claimed, h.options, h.widths, h.fits, h.own, h.within, h.finished,
      fun hon => ⟨rfl, (h.on hon).2⟩, h.quiet, fun hf => by cases hf⟩

theorem left (h : p.Seat agreed told s) {told' : Bool} {p' : Player} (hident : p'.client.ident = p.client.ident)
    (hreach : p'.actor.reach = p.actor.reach) (hwithin : p'.actor.drive.Within p'.actor.reach) (hoff : p'.isOn = false) :
    p'.Seat agreed told' s.park.unbind := by
  have hnot : ¬ p'.isOn = true := by rw [hoff]; decide
  refine ⟨h.ident.trans hident.symm, h.claimed, h.options, h.widths, h.fits.park, hreach ▸ h.own, hwithin, ?_,
    fun hon => absurd hon hnot, fun name v hv _ => ?_, fun _ hon => absurd hon hnot⟩
  · rw [hoff]
    rfl
  · change (s.driven.mapValues fun _ v => Bundle.released v.width).get? name = some v at hv
    rw [SortedMap.get?_mapValues] at hv
    obtain ⟨w, -, rfl⟩ := Option.map_eq_some_iff.1 hv
    rw [Bundle.width_released]

theorem acted (h : p.Seat agreed false s) (hon : p.isOn = true) {p' : Player}
    (hident : p'.client.ident = p.client.ident) (hconnection : p'.connection = p.connection) (hon' : p'.isOn = true)
    (hreach : p'.actor.reach = p.actor.reach) (hdrive : Signals.Redriven p.actor.reach p.actor.drive p'.actor.drive) :
    p'.Seat agreed false s := by
  refine ⟨h.ident.trans hident.symm, h.claimed, h.options, h.widths, h.fits, hreach ▸ h.own, hreach ▸ hdrive.within h.within,
    ?_, fun _ => ?_, fun name v hv hquiet => ?_, fun hf => by cases hf⟩
  · rw [hon', h.finished, hon]
  · rw [hconnection]
    exact h.on hon
  · refine h.quiet name v hv (.inr ?_)
    rcases hquiet with hoff | hnone
    · rw [hon'] at hoff
      cases hoff
    · exact hdrive.keeps hnone

theorem turned (h : p.Seat agreed false s) (stop : Ident → Bool) :
    (p.spoken stop).Seat agreed true (p.turned stop s) := by
  unfold spoken Player.turned
  split
  · next hoff =>
    have hoff : ¬ p.isOn = true := by simpa using hoff
    exact ⟨h.ident, h.claimed, h.options, h.widths, h.fits, h.own, h.within, h.finished, fun hon => absurd hon hoff,
      h.quiet, fun _ hon => absurd hon hoff⟩
  · next hon =>
    have hon : p.isOn = true := by simpa using hon
    split
    · exact h.left rfl rfl h.within rfl
    · have hdriven : ∀ name, (s.offer p.client.time p.actor.drive).driven.get? name =
          (p.actor.drive.get? name).or (s.driven.get? name) := fun name => Signals.get?_over _ _ _
      refine ⟨h.ident, h.claimed, h.options, h.widths, h.fits.offer h.fault?_eq_none _, h.own, h.within, h.finished,
        fun _ => ⟨rfl, (h.on hon).2⟩, fun name v hv hquiet => ?_, fun _ _ name v hv => ?_⟩
      · rcases hquiet with hoff | hnone
        · rw [show p.isOn = false from hoff] at hon
          cases hon
        · rw [hdriven, show p.actor.drive.get? name = none from hnone, Option.none_or] at hv
          exact h.quiet name v hv (.inr hnone)
      · rw [hdriven, show p.actor.drive.get? name = some v from hv, Option.some_or]

theorem speak_eq (h : p.Seat agreed false s) {b : Bus} (hs : b.participants.get? p.client.ident = some s)
    (stop : Ident → Bool) :
    Rig.speak stop p b = (p.spoken stop, b.modifySlot p.client.ident (p.turned stop)) := by
  unfold Rig.speak spoken Player.turned
  cases hon : p.isOn with
  | false => simp [Bus.modifySlot_id]
  | true =>
    have hunfinished : s.finished = false := by rw [h.finished, hon]; rfl
    have hunready : s.ready = false := (h.on hon).1
    cases hleaves : Rig.leaves stop p with
    | true =>
      have hreceipt := Bus.receive_spec hs .finish
      simp only [Bool.not_true, Bool.false_eq_true, if_false, if_true]
      generalize (b.receive p.client.ident .finish).2.1 = b' at hreceipt ⊢
      generalize (b.receive p.client.ident .finish).1 = outcome at hreceipt
      cases hreceipt with
      | left => rfl
      | violated _ _ hother => exact absurd rfl hother
    | false =>
      have hoffer : b.checkOffer p.client.ident (p.client.offer p.actor.drive) =
          .ok (p.client.offer p.actor.drive) := by
        simp [Bus.checkOffer, Client.offer, hs, h.fault?_eq_none]
      have hreceive : b.receive p.client.ident (p.client.offer p.actor.drive) =
          (.ok .ready, b.modifySlot p.client.ident (·.offer p.client.time p.actor.drive),
            b.offerRecord s p.client.time) := by
        simp [Bus.receive, Client.offer, hs, Bus.judge, Slot.isReady, hunfinished, hunready]
      simp only [Bool.not_true, Bool.false_eq_true, if_false, hoffer, hreceive]

end Seat

end Player

/-! ### A rig -/

namespace Rig

/-- Every player has the slot of its device, and every slot has its player. -/
structure Seated (devices : List Device) (agreed : Device → Widths) (told : Bool) (r : Rig) : Prop where
  staffed : Participants.Staffed devices r.bus.participants
  live : r.bus.finished = false
  idents : r.players.Pairwise fun p q => p.client.ident ≠ q.client.ident
  connections : r.players.Pairwise fun p q => p.connection ≠ q.connection
  seats : ∀ p ∈ r.players, ∃ s, r.bus.participants.get? p.client.ident = some s ∧ p.Seat agreed told s
  full : ∀ i s, r.bus.participants.get? i = some s → ∃ p ∈ r.players, p.client.ident = i

def turns (stop : Ident → Bool) (r : Rig) : Rig := ⟨(speakAll stop r.bus r.players).2, (speakAll stop r.bus r.players).1⟩

variable {devices : List Device} {agreed : Device → Widths} {told : Bool} {r : Rig}

namespace Seated

theorem eq_of_ident_eq (h : r.Seated devices agreed told) {p q : Player} (hp : p ∈ r.players) (hq : q ∈ r.players)
    (heq : p.client.ident = q.client.ident) : p = q :=
  List.inj_on_of_nodup_map (List.pairwise_map.2 h.idents) hp hq heq

theorem eq_of_connection_eq (h : r.Seated devices agreed told) {p q : Player} (hp : p ∈ r.players) (hq : q ∈ r.players)
    (heq : p.connection = q.connection) : p = q :=
  List.inj_on_of_nodup_map (List.pairwise_map.2 h.connections) hp hq heq

theorem player (h : r.Seated devices agreed told) {i : Ident} {s : Slot} (hs : r.bus.participants.get? i = some s) :
    ∃ p ∈ r.players, p.client.ident = i ∧ p.Seat agreed told s := by
  obtain ⟨p, hp, rfl⟩ := h.full i s hs
  obtain ⟨s', hs', hseat⟩ := h.seats p hp
  rw [hs] at hs'
  cases hs'
  exact ⟨p, hp, rfl, hseat⟩

theorem change (h : r.Seated devices agreed told) {told' : Bool} {g : Player → Player} {f : Player → Slot → Slot}
    (hclient : ∀ p ∈ r.players, (g p).client.ident = p.client.ident)
    (hconnection : ∀ p ∈ r.players, (g p).connection = p.connection) {b : Bus} (hlive : b.finished = false)
    (hroster : b.participants.roster = r.bus.participants.roster)
    (hslots : ∀ p ∈ r.players, b.participants.get? p.client.ident =
      (r.bus.participants.get? p.client.ident).map (f p))
    (hseats : ∀ p ∈ r.players, ∀ s, r.bus.participants.get? p.client.ident = some s → p.Seat agreed told s →
      (g p).Seat agreed told' (f p s)) : Rig.Seated devices agreed told' ⟨b, r.players.map g⟩ := by
  have hstaffed := h.staffed.of_roster_eq hroster
  refine ⟨hstaffed, hlive, ?_, ?_, fun q hq => ?_, fun i s hs => ?_⟩
  · refine List.pairwise_map.2 (h.idents.imp_of_mem fun hp hq hne => ?_)
    rwa [hclient _ hp, hclient _ hq]
  · refine List.pairwise_map.2 (h.connections.imp_of_mem fun hp hq hne => ?_)
    rwa [hconnection _ hp, hconnection _ hq]
  · obtain ⟨p, hp, rfl⟩ := List.mem_map.1 hq
    obtain ⟨s, hs, hseat⟩ := h.seats p hp
    refine ⟨f p s, ?_, hseats p hp s hs hseat⟩
    rw [hclient p hp]
    exact (hslots p hp).trans (by rw [hs]; rfl)
  · -- nobody gets a slot that had none before
    have hdevice := hstaffed.device hs
    obtain ⟨s₀, hs₀, -⟩ := h.staffed.slot hdevice.1
    rw [show s.device.ident = i from hdevice.2] at hs₀
    obtain ⟨p, hp, rfl⟩ := h.full i s₀ hs₀
    exact ⟨g p, List.mem_map_of_mem hp, hclient p hp⟩

end Seated

theorem speakAll_eq (stop : Ident → Bool) {players : List Player} {b : Bus}
    (hidents : players.Pairwise fun p q => p.client.ident ≠ q.client.ident)
    (hseats : ∀ p ∈ players, ∃ s, b.participants.get? p.client.ident = some s ∧ p.Seat agreed false s) :
    speakAll stop b players =
      (players.map (Player.spoken stop), b.modifyEach (Player.turned stop) players) := by
  induction players generalizing b with
  | nil => rfl
  | cons p players ih =>
    obtain ⟨hp, hrest⟩ := List.pairwise_cons.1 hidents
    obtain ⟨s, hs, hseat⟩ := hseats p (by simp)
    have hseats' : ∀ q ∈ players, ∃ s, (b.modifySlot p.client.ident (p.turned stop)).participants.get?
        q.client.ident = some s ∧ q.Seat agreed false s := by
      intro q hq
      rw [Bus.get?_modifySlot, if_neg (Ne.symm (hp q hq))]
      exact hseats q (by simp [hq])
    rw [speakAll, hseat.speak_eq hs stop]
    dsimp only
    rw [ih hrest hseats']
    rfl

/-- **Turns.** Every player either leaves or has its offer taken. -/
theorem Seated.turns (h : r.Seated devices agreed false) (stop : Ident → Bool) :
    (r.turns stop).Seated devices agreed true ∧ (r.turns stop).players = r.players.map (Player.spoken stop) ∧
      (r.turns stop).bus = r.bus.modifyEach (Player.turned stop) r.players ∧ (r.turns stop).bus.allReady = true := by
  have heq := speakAll_eq stop h.idents h.seats
  have hturns : r.turns stop =
      ⟨r.bus.modifyEach (Player.turned stop) r.players, r.players.map (Player.spoken stop)⟩ := by
    rw [Rig.turns, heq]
  have hseated : (r.turns stop).Seated devices agreed true := by
    rw [hturns]
    refine h.change (fun p _ => by rw [Player.client_spoken]) (fun p _ => Player.connection_spoken stop p) h.live
      (Bus.roster_modifyEach (Player.device_turned stop) _) (fun p hp => Bus.get?_modifyEach h.idents hp _)
      fun p _ s _ hseat => hseat.turned stop
  refine ⟨hseated, by rw [hturns], by rw [hturns], Participants.allReady_iff.2 fun i s hs => ?_⟩
  obtain ⟨p, -, -, hseat⟩ := hseated.player hs
  cases hon : p.isOn with
  | true => rw [Slot.isReady, (hseat.on hon).1, Bool.true_or]
  | false => rw [Slot.isReady, hseat.finished, hon, Bool.not_false, Bool.or_true]

theorem Seated.engine_turns (h : r.Seated devices agreed false) (stop : Ident → Bool) :
    (r.turns stop).bus.engine = r.bus.engine := by
  rw [(h.turns stop).2.2.1]
  rfl

end Rig

end Lockstep
