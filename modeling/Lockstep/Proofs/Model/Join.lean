import Lockstep.Proofs.Model.Player
/-!
# How players take their seats

When models are introduced to a new bus by the names of its devices, one for each device and in whatever order, all of
them are admitted, and each becomes the player of its device (`Rig.seated_joinAll`).
-/

namespace Lockstep

/-- The player has just been introduced to the bus, with a model and under the name of a device. -/
def Player.Enters (devices : List Device) (a : String × Actor) (p : Player) : Prop :=
  ∃ d ∈ devices, d.name = a.1 ∧ p.actor = a.2 ∧ p.client = .fresh d.name d.ident ∧ p.atEdge = true ∧ p.outcome = none

/-- A model suits a device if it drives signals of the device only. -/
structure Actor.Suits (a : Actor) (widths : Widths) : Prop where
  within : a.drive.Within a.reach
  own : ∀ e ∈ a.reach, widths.get? e.1 = some e.2

namespace Rig

variable {devices : List Device} {agreed : Device → Widths} {b : Bus}

theorem join_eq (hlive : b.finished = false) (hstaffed : Participants.Staffed devices b.participants) {d : Device}
    (hd : d ∈ devices) (hs : b.participants.get? d.ident = some (.vacant d)) {widths : Widths}
    (hwidths : b.engine.driven d .empty = .ok widths) (k : ConnectionKey) (a : Actor) :
    join b k d.name a = (⟨k, .fresh d.name d.ident, a, true, none⟩, b.modifySlot d.ident (·.claim k .empty widths)) := by
  have hadmits : b.admits d.name .empty = .ok (.vacant d, widths) := by
    simp [Bus.admits, hlive, hstaffed.named?_eq hd, hs, Slot.vacant, hwidths]
  simp only [join, Bus.handshake, hadmits]
  rfl

theorem seat_claim {d : Device} {a : Actor} (h : a.Suits (agreed d)) (k : ConnectionKey) :
    (Player.mk k (.fresh d.name d.ident) a true none).Seat agreed false ((Slot.vacant d).claim k .empty (agreed d)) := by
  refine ⟨rfl, rfl, rfl, rfl, Slot.fits_claim _ _ _ _, h.own, h.within, rfl, fun _ => ⟨rfl, rfl⟩, fun name v hv _ => ?_,
    fun hf => by cases hf⟩
  change ((agreed d).filled .released).get? name = some v at hv
  rw [Widths.filled, SortedMap.get?_mapValues] at hv
  obtain ⟨width, -, rfl⟩ := Option.map_eq_some_iff.1 hv
  exact congrArg Bundle.released (Bundle.width_filled _ _).symm

/-- What comes of introducing some models to a bus. -/
structure Joined (devices : List Device) (agreed : Device → Widths) (b : Bus) (k : ConnectionKey)
    (actors : List (String × Actor)) (r : Rig) : Prop where
  bus : ∃ ps, r.bus = { b with participants := ps }
  roster : r.bus.participants.roster = b.participants.roster
  enters : List.Forall₂ (Player.Enters devices) actors r.players
  others : ∀ i, (∀ p ∈ r.players, p.client.ident ≠ i) → r.bus.participants.get? i = b.participants.get? i
  later : ∀ p ∈ r.players, k ≤ p.connection
  idents : r.players.Pairwise fun p q => p.client.ident ≠ q.client.ident
  connections : r.players.Pairwise fun p q => p.connection ≠ q.connection
  seats : ∀ p ∈ r.players, ∃ s, r.bus.participants.get? p.client.ident = some s ∧ p.Seat agreed false s

theorem exists_enters {actors : List (String × Actor)} {players : List Player}
    (h : List.Forall₂ (Player.Enters devices) actors players) {p : Player} (hp : p ∈ players) :
    ∃ a ∈ actors, p.Enters devices a := by
  induction h with
  | nil => cases hp
  | cons hhead _ ih =>
    rcases List.mem_cons.1 hp with rfl | hp
    · exact ⟨_, List.mem_cons_self, hhead⟩
    · obtain ⟨a, ha, henters⟩ := ih hp
      exact ⟨a, List.mem_cons_of_mem _ ha, henters⟩

theorem exists_player {actors : List (String × Actor)} {players : List Player}
    (h : List.Forall₂ (Player.Enters devices) actors players) {a : String × Actor} (ha : a ∈ actors) :
    ∃ p ∈ players, p.Enters devices a := by
  induction h with
  | nil => cases ha
  | cons hhead _ ih =>
    rcases List.mem_cons.1 ha with rfl | ha
    · exact ⟨_, List.mem_cons_self, hhead⟩
    · obtain ⟨p, hp, henters⟩ := ih ha
      exact ⟨p, List.mem_cons_of_mem _ hp, henters⟩

theorem joined_joinAll (actors : List (String × Actor)) (k : ConnectionKey) (hlive : b.finished = false)
    (hstaffed : Participants.Staffed devices b.participants)
    (hagreed : ∀ d ∈ devices, b.engine.driven d .empty = .ok (agreed d))
    (hnames : actors.Pairwise fun a a' => a.1 ≠ a'.1)
    (hvacant : ∀ a ∈ actors, ∃ d ∈ devices, d.name = a.1 ∧ b.participants.get? d.ident = some (.vacant d) ∧
      a.2.Suits (agreed d)) :
    Joined devices agreed b k actors (joinAll b k actors) := by
  induction actors generalizing b k with
  | nil =>
    exact ⟨⟨b.participants, rfl⟩, rfl, .nil, fun _ _ => rfl, fun _ h => absurd h List.not_mem_nil, .nil, .nil,
      fun _ h => absurd h List.not_mem_nil⟩
  | cons a actors ih =>
    obtain ⟨hfirst, hrest⟩ := List.pairwise_cons.1 hnames
    obtain ⟨d, hd, hname, hs, hsuits⟩ := hvacant a (by simp)
    obtain ⟨name, actor⟩ := a
    obtain rfl : d.name = name := hname
    -- the models that are still to come find their slots as they were
    have hother : ∀ {e : Device}, e ∈ devices → e.name ≠ d.name → e.ident ≠ d.ident := fun he hne heq =>
      hne (congrArg Device.name (hstaffed.eq_of_ident_eq he hd heq))
    have hroster : (b.modifySlot d.ident (·.claim k .empty (agreed d))).participants.roster = b.participants.roster :=
      Participants.roster_modify fun _ _ => rfl
    have hnext := ih (b := b.modifySlot d.ident (·.claim k .empty (agreed d))) (k + 1) hlive
      (hstaffed.of_roster_eq hroster) hagreed hrest fun a' ha' => by
        obtain ⟨e, he, hname', hs', hsuits'⟩ := hvacant a' (by simp [ha'])
        have hne : e.name ≠ d.name := by
          rw [hname']
          exact Ne.symm (hfirst a' ha')
        refine ⟨e, he, hname', ?_, hsuits'⟩
        rw [Bus.get?_modifySlot, if_neg (hother he hne)]
        exact hs'
    have hplayer : ∀ q ∈ (joinAll (b.modifySlot d.ident (·.claim k .empty (agreed d))) (k + 1) actors).players,
        q.client.ident ≠ d.ident := by
      intro q hq
      obtain ⟨a', ha', e, he, hname', -, hclient, -⟩ := exists_enters hnext.enters hq
      rw [hclient]
      refine hother he ?_
      rw [hname']
      exact Ne.symm (hfirst a' ha')
    rw [joinAll, join_eq hlive hstaffed hd hs (hagreed d hd)]
    obtain ⟨ps, hps⟩ := hnext.bus
    refine ⟨⟨ps, hps⟩, hnext.roster.trans hroster, .cons ⟨d, hd, rfl, rfl, rfl, rfl, rfl⟩ hnext.enters, fun i hi => ?_,
      fun q hq => ?_, List.pairwise_cons.2 ⟨fun q hq => Ne.symm (hplayer q hq), hnext.idents⟩,
      List.pairwise_cons.2 ⟨fun q hq => Nat.ne_of_lt (hnext.later q hq), hnext.connections⟩, fun q hq => ?_⟩
    · have hi' := hnext.others i fun q hq => hi q (List.mem_cons_of_mem _ hq)
      have hne : i ≠ d.ident := Ne.symm (hi _ List.mem_cons_self)
      rw [Bus.get?_modifySlot, if_neg hne] at hi'
      exact hi'
    · rcases List.mem_cons.1 hq with rfl | hq
      · exact Nat.le_refl k
      · exact Nat.le_of_succ_le (hnext.later q hq)
    · rcases List.mem_cons.1 hq with rfl | hq
      · have hslot := hnext.others d.ident hplayer
        rw [Bus.get?_modifySlot, if_pos rfl, hs] at hslot
        exact ⟨_, hslot, seat_claim hsuits k⟩
      · exact hnext.seats q hq

/-- **Entry.** With one model for each device everybody gets a seat. -/
theorem seated_joinAll {c : BusConfig} {start : Bus} (hstart : Bus.ofConfig c = .ok start) {actors : List (String × Actor)}
    (hnames : (actors.map (·.1)).Perm (c.devices.map (·.name)))
    (hagreed : ∀ d ∈ c.devices, start.engine.driven d .empty = .ok (agreed d))
    (hsuits : ∀ d ∈ c.devices, ∀ a, (d.name, a) ∈ actors → a.Suits (agreed d)) :
    (joinAll start 0 actors).Seated c.devices agreed false ∧
      List.Forall₂ (Player.Enters c.devices) actors (joinAll start 0 actors).players ∧
      ∃ ps, (joinAll start 0 actors).bus = { start with participants := ps } := by
  have hstaffed : Participants.Staffed c.devices start.participants := (Bus.Course.nil).staffed hstart
  obtain ⟨-, engine, -, rfl⟩ := Bus.ofConfig_spec hstart
  have hdistinct : actors.Pairwise fun a a' => a.1 ≠ a'.1 := by
    refine List.pairwise_map.1 ((hnames.pairwise_iff Ne.symm).2 ?_)
    exact List.pairwise_map.2 (hstaffed.1.imp And.left)
  have hjoined := joined_joinAll actors 0 rfl hstaffed hagreed hdistinct fun a ha => by
    obtain ⟨d, hd, hname⟩ := List.mem_map.1 (hnames.mem_iff.1 (List.mem_map_of_mem (f := (·.1)) ha))
    obtain ⟨s, hs, -⟩ := hstaffed.slot hd
    obtain ⟨e, -, rfl, hident⟩ := Bus.vacant_of_ofDevices hs
    obtain rfl : e = d := (hstaffed.device hs).1 |> fun he => hstaffed.eq_of_ident_eq he hd hident
    exact ⟨e, hd, hname, hs, hsuits e hd a.2 (by rw [hname]; exact ha)⟩
  refine ⟨⟨hstaffed.of_roster_eq hjoined.roster, ?_, hjoined.idents, hjoined.connections, hjoined.seats, fun i s hs => ?_⟩,
    hjoined.enters, hjoined.bus⟩
  · obtain ⟨ps, hps⟩ := hjoined.bus
    rw [hps]
  · have hdevice := (hstaffed.of_roster_eq hjoined.roster).device hs
    obtain ⟨a, ha, hname⟩ := List.mem_map.1 (hnames.mem_iff.2 (List.mem_map_of_mem (f := (·.name)) hdevice.1))
    obtain ⟨p, hp, e, he, hname', -, hclient, -⟩ := exists_player hjoined.enters ha
    refine ⟨p, hp, ?_⟩
    rw [hclient, ← hdevice.2]
    exact congrArg Device.ident (hstaffed.eq_of_name_eq he hdevice.1 (hname'.trans hname))

end Rig

end Lockstep
