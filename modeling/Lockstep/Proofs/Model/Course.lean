import Lockstep.Proofs.Model.Concert
/-!
# Rounds on a PCI bus

Masters and targets enter a quiet bus (`Pci.runs_joinAll`), and from then on they follow the traffic, round by round
(`Pci.Runs.round`). A step into a rising edge moves the traffic on, the other steps leave it as it is. A step that fails
cuts everybody off.
-/

namespace Lockstep

namespace Pci

/-! ### One round -/

/-- A rig that has been run for some rounds, none of which failed. -/
structure Runs (c : BusConfig) (n : Nat) (r : Rig) (t : Traffic) (pci : Pci) : Prop where
  seated : r.Seated c.devices driven false
  walked : r.bus.Walked c.clock n
  engine : r.bus.engine = .pci pci
  tracks : Tracks t pci
  concerted : Concerted t r.players
  attends : ∀ p ∈ r.players, p.isOn = true → p.Attends n
  /-- Everybody has been told by the last step whether it holds the grant. -/
  grants : n ≠ 0 → ∀ p ∈ r.players, p.isOn = true →
    p.client.bit "GNT#" = grantLevel pci.arbiter.granted p.client.ident

/-- How far a round has moved a player. -/
structure Moved (t : Traffic) (rising : Bool) (p p' : Player) : Prop where
  client : p'.client.ident = p.client.ident
  outcome : p'.outcome = p.outcome
  actor : if rising && p.isOn then Advances t p.client.ident p.actor p'.actor else p'.actor = p.actor

/-- How a round has moved a rig on, whose players have taken their turns. -/
structure Moves (n : Nat) (r r' : Rig) (t : Traffic) (pci : Pci) (t' : Traffic) (pci' : Pci) : Prop where
  next : if n % 4 = 0 then pci' = (pci.risingEdge r.bus.participants).1 ∧ ∃ value, Answering t r.players value ∧
    t.Next (Requests r.players) pci'.arbiter.granted value t' else t' = t ∧ pci' = pci
  players : ∃ g : Player → Player, r'.players = r.players.map g ∧ ∀ p ∈ r.players, Moved t (n % 4 = 0) p (g p)

variable {c : BusConfig} {n : Nat} {r : Rig} {t t' : Traffic} {pci : Pci} {stop : Ident → Bool}

theorem Runs.engine_turns (h : Runs c n r t pci) (stop : Ident → Bool) : (r.turns stop).bus.engine = .pci pci :=
  (h.seated.engine_turns stop).trans h.engine

theorem Runs.not_failed (h : Runs c n r t pci) (ht : c.clock.fault? = none) (hfits : c.clock.walk (n + 1) < UInt64.size)
    (stop : Ident → Bool) {cause : AdvanceError} : (r.turns stop).bus.advance.1 ≠ .failed cause := by
  refine (h.seated.walked_turns h.walked stop).not_failed ht hfits fun _ => ?_
  rw [h.engine_turns stop]
  exact ⟨_, rfl⟩

theorem Runs.concerted_turns (h : Runs c n r t pci) (stop : Ident → Bool) :
    Concerted t (r.turns stop).players := by
  rw [(h.seated.turns stop).2.1]
  exact h.concerted.spoken stop

theorem Advances.isMaster_eq {i : Ident} {a a' : Actor} (h : Advances t i a a') : a'.isMaster = a.isMaster := by
  cases h <;> rfl

theorem Plays.clock_eq {i : Ident} {a : Actor} (h : Plays t i a) : a.clock = clockName := by
  cases h <;> rfl

theorem Answering.lt {players : List Player} {value : Option Nat} (hanswering : Answering t players value)
    (h : Concerted t players) {m : Nat} (hm : value = some m) : m < 2 ^ 32 := by
  obtain ⟨p, hp, hon, g, q, hactor, -, rfl⟩ := hanswering.source m hm
  have hplays := h.plays p hp hon
  rw [hactor] at hplays
  cases hplays with
  | target _ _ bounded =>
    unfold answer
    split
    · exact bounded
    · decide

theorem requests_iff (hseated : r.Seated c.devices driven true) {p : Player} (hp : p ∈ r.players) (hon : p.isOn = true)
    {w : Worker Master Query} (hactor : p.actor = .pciMaster w) (q : Query) :
    Requests r.players p.client.ident q ↔ w.model.cycle = .requesting q := by
  refine ⟨fun ⟨p', hp', _, hident, w', hactor', hcycle⟩ => ?_, fun hcycle => ⟨p, hp, hon, rfl, w, hactor, hcycle⟩⟩
  obtain rfl := hseated.eq_of_ident_eq hp' hp hident
  rw [hactor] at hactor'
  cases hactor'
  exact hcycle

theorem exists_advances (hidents : ∀ d ∈ c.devices, d.ident.toNat < arbiterSlots) (hseated : r.Seated c.devices driven true)
    (h : Concerted t r.players) {value : Option Nat} (hanswering : Answering t r.players value) {pci' : Pci} {t' : Traffic}
    (hnext : t.Next (Requests r.players) pci'.arbiter.granted value t') {ps : Participants}
    (hmuted : ps.muted = r.bus.participants.muted) (level : Level) {p : Player} (hp : p ∈ r.players) (hon : p.isOn = true) :
    ∃ actor, p.actor.edge (((Engine.pci pci').deliver level ps).shown p.client.ident) = .ok actor ∧
      Plays t' p.client.ident actor ∧ Advances t p.client.ident p.actor actor := by
  obtain ⟨s, hs, hseat⟩ := hseated.seats p hp
  have hident : p.client.ident.toNat < arbiterSlots := by
    obtain ⟨hmem, heq⟩ := hseated.staffed.device hs
    rw [← heq]
    exact hidents _ hmem
  exact (h.plays p hp hon).edge hseat.within (h.carries hseated hanswering) (sees hseated hmuted pci' level hp hon).1 hident
    (fun q hq => h.valid hq) hnext (fun w hactor q => requests_iff hseated hp hon hactor q)
    fun m hm => hanswering.lt h hm

theorem Runs.of_acts (h : Runs c n r t pci) {t' : Traffic} {pci' : Pci} {ps : Participants} {time : Time}
    {shown : Ident → Signals} (hround : (r.round stop).Seated c.devices driven false)
    (hsteps : Rig.Stepped c.clock n (r.turns stop) (r.round stop) (.pci pci) ps time)
    (hentering : (Engine.pci pci).entering (.after (n + 1)) ps = .pci pci')
    (hshown : ((Engine.pci pci').deliver (Phase.after (n + 1)).level ps).shown = shown) (htracks : Tracks t' pci')
    (hactors : ∀ p ∈ (r.turns stop).players, p.isOn = true → (shown p.client.ident).bit clockName = clockLevel (n + 1) ∧
      (shown p.client.ident).bit "GNT#" = grantLevel pci'.arbiter.granted p.client.ident ∧ ∃ actor,
        (if n % 4 = 0 then p.actor.edge (shown p.client.ident) = .ok actor else actor = p.actor) ∧
        Plays t' p.client.ident actor ∧
        if n % 4 = 0 then Advances t p.client.ident p.actor actor else actor = p.actor)
    (howner : ∀ i, t'.owner = some i → ∃ p ∈ (r.turns stop).players, p.isOn = true ∧ p.client.ident = i ∧
      p.actor.isMaster = true) :
    Runs c (n + 1) (r.round stop) t' pci' ∧ ∃ g : Player → Player, (r.round stop).players = (r.turns stop).players.map g ∧
      ∀ p ∈ (r.turns stop).players, Moved t (n % 4 = 0) p (g p) := by
  obtain ⟨hseated, hplayers, -, -⟩ := h.seated.turns stop
  have hconcerted := h.concerted_turns stop
  have hheard : (r.round stop).players = (r.turns stop).players.map (Player.hears time shown) := by
    rw [hsteps.players, hentering, hshown]
  -- what a player on the bus comes to
  have hmoves : ∀ p ∈ (r.turns stop).players, p.isOn = true → (p.hears time shown).outcome = none ∧
      (p.hears time shown).Attends (n + 1) ∧ Plays t' p.client.ident (p.hears time shown).actor ∧
      (p.hears time shown).client.bit "GNT#" = grantLevel pci'.arbiter.granted p.client.ident ∧
      if n % 4 = 0 then Advances t p.client.ident p.actor (p.hears time shown).actor
        else (p.hears time shown).actor = p.actor := by
    intro q hq hon
    obtain ⟨hclock, hgrant, actor, hedge, hplays, hadvances⟩ := hactors q hq hon
    have hclockName := (hconcerted.plays q hq hon).clock_eq
    rw [hplayers] at hq
    obtain ⟨p, hp, rfl⟩ := List.mem_map.1 hq
    simp only [Player.client_spoken, Player.actor_spoken] at hclock hclockName hgrant hedge hplays hadvances ⊢
    obtain ⟨hclient, hactor, hout, hattends⟩ := (h.attends p hp (Player.isOn_of_spoken hon)).moves time hon
      (by rw [hclockName]; exact hclock) hedge
    rw [hactor, hclient]
    exact ⟨hout, hattends, hplays, hgrant, hadvances⟩
  refine ⟨⟨hround, hsteps.walked, hsteps.entered.trans hentering, htracks, ⟨fun p' hp' hon' => ?_, fun i hi => ?_⟩,
    fun p' hp' hon' => ?_, fun _ p' hp' hon' => ?_⟩, _, hheard, fun p hp => ?_⟩
  · rw [hheard] at hp'
    obtain ⟨p, hp, rfl⟩ := List.mem_map.1 hp'
    rw [Player.ident_hears]
    exact (hmoves p hp (Player.isOn_of_hears hon')).2.2.1
  · obtain ⟨p, hp, hon, hident, hmaster⟩ := howner i hi
    obtain ⟨hout, -, -, -, hadvances⟩ := hmoves p hp hon
    refine ⟨_, by rw [hheard]; exact List.mem_map_of_mem hp, Player.isOn_of_outcome hout,
      by rw [Player.ident_hears, hident], ?_⟩
    split at hadvances
    · rw [hadvances.isMaster_eq, hmaster]
    · rw [hadvances, hmaster]
  · rw [hheard] at hp'
    obtain ⟨p, hp, rfl⟩ := List.mem_map.1 hp'
    exact (hmoves p hp (Player.isOn_of_hears hon')).2.1
  · rw [hheard] at hp'
    obtain ⟨p, hp, rfl⟩ := List.mem_map.1 hp'
    rw [Player.ident_hears]
    exact (hmoves p hp (Player.isOn_of_hears hon')).2.2.2.1
  · refine ⟨p.ident_hears, ?_, ?_⟩
    · cases hon : p.isOn with
      | true => rw [(hmoves p hp hon).1, Option.isNone_iff_eq_none.1 hon]
      | false => rw [Player.hears_of_off hon]
    · cases hon : p.isOn with
      | true =>
        have hadvances := (hmoves p hp hon).2.2.2.2
        by_cases hn : n % 4 = 0
        · simpa [hn] using hadvances
        · simpa [hn] using hadvances
      | false =>
        rw [Player.hears_of_off hon, Bool.and_false]
        rfl

theorem Runs.exists_next (h : Runs c n r t pci) (stop : Ident → Bool) {pci' : Pci}
    (hpci' : (pci.risingEdge (r.turns stop).bus.participants).1 = pci') :
    ∃ t' value, Answering t (r.turns stop).players value ∧
      t.Next (Requests (r.turns stop).players) pci'.arbiter.granted value t' ∧ Tracks t' pci' ∧
      ∀ i, t'.owner = some i → ∃ p ∈ (r.turns stop).players, p.isOn = true ∧ p.client.ident = i ∧
        p.actor.isMaster = true := by
  have hseated := (h.seated.turns stop).1
  have hconcerted := h.concerted_turns stop
  obtain ⟨value, hanswering⟩ := exists_answering (t := t) fun p hp q hq => hseated.eq_of_ident_eq hp hq
  have hnext : ∃ t', t.Next (Requests (r.turns stop).players) pci'.arbiter.granted value t' :=
    Traffic.exists_next fun hvalue => by
      obtain ⟨m, hm⟩ := Option.ne_none_iff_exists'.1 hvalue
      obtain ⟨_, _, -, _, q, -, hasks, -⟩ := hanswering.source m hm
      obtain ⟨-, j, hdata⟩ := Traffic.asks_eq_some hasks
      exact ⟨j, q, hdata⟩
  obtain ⟨t', hnext⟩ := hnext
  have hdriver : ∀ i q, t = .address i q → frameDriver? (r.turns stop).bus.participants = some i := by
    rintro i q rfl
    exact frameDriver?_eq hseated hconcerted
  refine ⟨t', value, hanswering, hnext, ?_, fun i hi => ?_⟩
  · rw [← hpci'] at hnext ⊢
    exact h.tracks.edge (hconcerted.carries hseated hanswering) hdriver hnext
  · rcases hnext.owner_eq with ⟨-, howner⟩ | ⟨-, howner⟩
    · obtain ⟨-, q, p, hp, hon, hident, w, hactor, -⟩ := howner i hi
      exact ⟨p, hp, hon, hident, by rw [hactor]; rfl⟩
    · exact hconcerted.owner i (howner ▸ hi)

theorem Runs.round (h : Runs c n r t pci) (hidents : ∀ d ∈ c.devices, d.ident.toNat < arbiterSlots)
    (ht : c.clock.fault? = none) (stop : Ident → Bool) :
    (∃ t' pci', Runs c (n + 1) (r.round stop) t' pci' ∧ Moves n (r.turns stop) (r.round stop) t pci t' pci') ∨
      (∃ cause, (r.turns stop).bus.advance.1 = .failed cause) ∧
        (r.round stop).Seated c.devices driven false ∧ ∀ p ∈ (r.round stop).players, p.isOn = false := by
  have hseated := (h.seated.turns stop).1
  have hconcerted := h.concerted_turns stop
  obtain ⟨hround, ⟨engine, ps, time, hsteps⟩ | ⟨hfailed, hcut⟩⟩ := h.seated.round h.walked ht stop
  swap
  · refine .inr ⟨hfailed, hround, fun p hp => ?_⟩
    rw [hcut] at hp
    obtain ⟨p', -, rfl⟩ := List.mem_map.1 hp
    exact p'.isOn_cutOff
  obtain rfl := hsteps.prepared.eq_pci (h.engine_turns stop)
  have hmuted := hsteps.prepared.muted_eq
  left
  by_cases hn : n % 4 = 0
  · -- the traffic moves on
    have hentering : (Engine.pci pci).entering (.after (n + 1)) ps =
        .pci (pci.risingEdge (r.turns stop).bus.participants).1 := by
      rw [Engine.entering_pci, if_pos ((Phase.after_succ_eq_rising_iff n).2 hn), risingEdge_of_muted_eq hmuted]
    generalize hpci' : (pci.risingEdge (r.turns stop).bus.participants).1 = pci' at hentering
    obtain ⟨t', value, hanswering, hnext, htracks, howner⟩ := h.exists_next stop hpci'
    obtain ⟨hruns, hmoved⟩ := h.of_acts hround hsteps hentering rfl htracks (fun p hp hon => by
      obtain ⟨hsees, hclock⟩ := sees hseated hmuted pci' (Phase.after (n + 1)).level hp hon
      obtain ⟨actor, hedge, hplays, hadvances⟩ :=
        exists_advances hidents hseated hconcerted hanswering hnext hmuted _ hp hon
      refine ⟨hclock, hsees.grant, actor, ?_, hplays, ?_⟩
      · rw [if_pos hn]
        exact hedge
      · rw [if_pos hn]
        exact hadvances) howner
    exact ⟨t', pci', hruns, ⟨by rw [if_pos hn]; exact ⟨hpci'.symm, value, hanswering, hnext⟩, hmoved⟩⟩
  · -- nobody acts
    have hentering : (Engine.pci pci).entering (.after (n + 1)) ps = .pci pci := by
      rw [Engine.entering_pci, if_neg fun hrising => hn ((Phase.after_succ_eq_rising_iff n).1 hrising)]
    obtain ⟨hruns, hmoved⟩ := h.of_acts hround hsteps hentering rfl h.tracks (fun p hp hon => by
      obtain ⟨hsees, hclock⟩ := sees hseated hmuted pci (Phase.after (n + 1)).level hp hon
      refine ⟨hclock, hsees.grant, p.actor, ?_, hconcerted.plays p hp hon, ?_⟩
      · rw [if_neg hn]
      · rw [if_neg hn]) hconcerted.owner
    exact ⟨t, pci, hruns, ⟨by rw [if_neg hn]; exact ⟨rfl, rfl⟩, hmoved⟩⟩

/-! ### From the start -/

/-- A model that has not begun: a master with some queries that make sense, or a target with an identity of 32 bits. -/
inductive Fresh : Actor → Prop where
  | master (queries : List Query) (valid : ∀ q ∈ queries, q.Valid) : Fresh (.ofQueries queries)
  | target (id : Nat) (bounded : id < 2 ^ 32) : Fresh (.pciTarget (.fresh id))

theorem get?_driven_request (device : Device) : (driven device).get? "REQ#" = some 1 :=
  get?_driven_of_mem (List.mem_append_left _ List.mem_cons_self)

theorem Fresh.suits {a : Actor} (h : Fresh a) (d : Device) : a.Suits (driven d) := by
  cases h with
  | master queries =>
    refine ⟨?_, fun e he => ?_⟩
    · cases queries with
      | nil => exact Signals.within_empty _
      | cons q queries => exact (Master.redriven_start .fresh q).within (Signals.within_empty _)
    · rcases List.mem_cons.1 he with rfl | he
      · exact get?_driven_request d
      · exact get?_driven ((by decide : ∀ e ∈ Master.reach.tail, e ∈ sharedWires) e he) d
  | target id =>
    exact ⟨Signals.within_empty _, fun e he => get?_driven ((by decide : ∀ e ∈ Target.reach, e ∈ sharedWires) e he) d⟩

theorem Fresh.plays {a : Actor} (h : Fresh a) (i : Ident) : Plays .quiet i a := by
  have hquiet : Traffic.quiet.owner ≠ some i := fun h => by cases h
  cases h with
  | master queries valid =>
    refine .master _ (Master.follows_begin hquiet rfl Lines.free_empty queries []) fun q hq => valid q ?_
    rwa [(Worker.jobs_begin Master.start .fresh queries []).1] at hq
  | target id bounded => exact .target _ ⟨rfl, Replies.none_empty⟩ bounded

theorem master_start {options : Options} {pci : Pci} (h : start options = .ok pci) : pci.master = none := by
  obtain ⟨_, _, _, rfl⟩ := exists_of_start h
  rfl

variable {start : Bus} {actors : List (String × Actor)} {stops : Nat → Ident → Bool}

theorem ident_lt (hstart : Bus.ofConfig c = .ok start) (hpci : c.protocol = .pci) {d : Device} (hd : d ∈ c.devices) :
    d.ident.toNat < arbiterSlots :=
  Nat.lt_succ_of_le (BusConfig.ident_le (Bus.ofConfig_spec hstart).1 hpci hd)

theorem runs_joinAll (hstart : Bus.ofConfig c = .ok start) (hpci : c.protocol = .pci)
    (hnames : (actors.map (·.1)).Perm (c.devices.map (·.name))) (hfresh : ∀ a ∈ actors, Fresh a.2) :
    (∃ pci, Runs c 0 (Rig.joinAll start 0 actors) .quiet pci) ∧
      List.Forall₂ (Player.Enters c.devices) actors (Rig.joinAll start 0 actors).players := by
  have hwalked := (Bus.Course.nil).walked hstart (fun _ h => absurd h List.not_mem_nil)
  obtain ⟨pci, hengine, hmaster⟩ : ∃ pci, start.engine = .pci pci ∧ pci.master = none := by
    obtain ⟨-, engine, hengine, rfl⟩ := Bus.ofConfig_spec hstart
    rw [Engine.ofConfig, hpci] at hengine
    obtain ⟨pci, hpci, rfl⟩ := exists_of_map_eq_ok hengine
    exact ⟨pci, rfl, master_start hpci⟩
  have hagreed : ∀ d ∈ c.devices, start.engine.driven d .empty = .ok (driven d) := fun d _ => by
    rw [hengine]
    rfl
  obtain ⟨hseated, henters, ps, hbus⟩ := Rig.seated_joinAll hstart hnames hagreed fun d _ a ha =>
    (hfresh _ ha).suits d
  refine ⟨⟨pci, hseated, ?_, ?_, ⟨hmaster, fun _ _ h => by cases h⟩, ⟨fun p hp _ => ?_, fun _ h => by cases h⟩,
    fun p hp _ => ?_, fun h => absurd rfl h⟩, henters⟩
  · rw [hbus]
    exact hwalked.participants ps
  · rw [hbus]
    exact hengine
  · obtain ⟨a, ha, d, -, -, hactor, -⟩ := Rig.exists_enters henters hp
    rw [hactor]
    exact (hfresh a ha).plays _
  · obtain ⟨a, ha, d, -, -, hactor, hclient, hedge, -⟩ := Rig.exists_enters henters hp
    exact ⟨by rw [hclient]; rfl, hedge⟩

/-- A PCI bus with some clock and some devices. -/
def pciBus (clock : ClockTiming) (devices : List Device) : BusConfig where
  name := "bus"
  address := .tcp "localhost" 0
  protocol := .pci
  clock
  devices
  options := .empty

def idlePciBus (clock : ClockTiming) (devices : List Device) : Bus where
  config := pciBus clock devices
  participants := .ofDevices devices
  engine := .pci ⟨.start .none 4 0, none⟩
  clock := .start clock
  time := .zero
  assembled := false
  finished := false
  steps := 0

end Pci

end Lockstep
