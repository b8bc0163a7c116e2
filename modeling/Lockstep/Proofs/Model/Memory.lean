import Lockstep.Proofs.Model.Round
import Lockstep.Proofs.Model.Stage
/-!
# A memory behind an AXI4 link

A master and a memory work through any list of transfers as a memory should: each write is acknowledged, each read
brings the data of the last write to its address, and what the memory holds are the last writes
(`Rig.serves_transfers`). This is so for every clock and whoever joins first, as long as the time of the bus does not run
out, and it does not matter how long the memory stays on the bus when the master is done.

Proof. What each side sees of the other at an edge is what the other one has driven since the edge before
(`Axi4.relays_wires`). So the two go from stage to stage with the edges, and between rising edges nobody acts
(`Axi4.Duet.round`). The bus steps in each round (`Axi4.Serves.round`).
-/

namespace Lockstep

namespace Axi4

variable {jobs : List Transfer} {w : Worker Master Transfer} {mem : Memory}

/-! ### The link -/

/-- The signals that an end of a link of default width drives. -/
def agreed (d : Device) : Lockstep.Widths := (table ⟨32, 32, 4⟩).drivenBy d.host

def wiring (host card : Device) : Wiring := ⟨⟨host.ident, card.ident⟩, table ⟨32, 32, 4⟩⟩

theorem mem_table_of_master : ∀ e ∈ Master.reach, RelaySignal.same e.1 e.2 .hostToDevice ∈ (table ⟨32, 32, 4⟩).signals := by
  decide

theorem mem_table_of_memory : ∀ e ∈ Memory.reach, RelaySignal.same e.1 e.2 .deviceToHost ∈ (table ⟨32, 32, 4⟩).signals := by
  decide

theorem suits_host {d : Device} (h : d.host = true) (jobs : List Transfer) : (Actor.ofTransfers jobs).Suits (agreed d) := by
  refine ⟨?_, fun e he => ?_⟩
  · have hfresh : Signals.Within Master.fresh.drive Master.reach :=
      (Signals.Redriven.same
        |>.setBit (by decide) |>.setBit (by decide) |>.setBit (by decide) |>.setBit (by decide) |>.setBit (by decide)
        |>.setBit (by decide)).within (Signals.within_empty _)
    cases jobs with
    | nil => exact hfresh
    | cons t jobs => exact (Master.redriven_start _ t).within hfresh
  · rw [agreed, h]
    exact (proper_table _).get?_drivenBy (mem_table_of_master e he)

theorem suits_card {d : Device} (h : d.host = false) : (Actor.axi4Memory .fresh).Suits (agreed d) := by
  have hfresh : Signals.Within Memory.fresh.drive Memory.reach :=
    (Signals.Redriven.same
      |>.setBit (by decide) |>.setBit (by decide) |>.setBit (by decide) |>.setBit (by decide) |>.setBit (by decide)
      |>.setBit (by decide)).within (Signals.within_empty _)
  refine ⟨hfresh, fun e he => ?_⟩
  rw [agreed, h]
  exact (proper_table _).get?_drivenBy (mem_table_of_memory e he)

/-- The name of a device does not matter to its widths, since all of them have defaults. -/
theorem widths_eq (device device' : String) (announced bus : Options) :
    widths device announced bus = widths device' announced bus := by
  have hrequested : ∀ o : WidthOption, o.fallback.isSome → o.requested device announced bus =
      o.requested device' announced bus := by
    intro o ho
    unfold WidthOption.requested
    cases o.text? announced bus with
    | some text => rfl
    | none =>
      obtain ⟨width, hwidth⟩ := Option.isSome_iff_exists.1 ho
      rw [hwidth]
  simp only [widths, WidthOption.resolve, hrequested dataOption rfl, hrequested addressOption rfl, hrequested idOption rfl]

variable {c : BusConfig} {host card : Device} {ps : Participants}

theorem exists_wrapUp_eq (hwidths : widths c.name .empty c.options = .ok ⟨32, 32, 4⟩) (hpairs : c.Pairs host card)
    (hstaffed : Participants.Staffed c.devices ps) (hoptions : ∀ i s, ps.get? i = some s → s.options = .empty)
    (before : Option Wiring) : ∃ notice,
    (Engine.axi4 c.options before).wrapUp ps = .ok (.axi4 c.options (some (wiring host card)), notice) := by
  obtain ⟨hostSlot, hhost, -⟩ := hstaffed.slot hpairs.host_mem
  obtain ⟨cardSlot, hcard, -⟩ := hstaffed.slot hpairs.card_mem
  have hconnect : connect hostSlot cardSlot c.options = .ok (table ⟨32, 32, 4⟩, .axi4Link 32 32 4) := by
    rw [connect, hoptions _ _ hhost, hoptions _ _ hcard, widths_eq hostSlot.name c.name, widths_eq cardSlot.name c.name,
      hwidths]
    rfl
  have hwire : Engine.wire (connect · · c.options) ps = .ok (wiring host card, .axi4Link 32 32 4) := by
    simp only [Engine.wire, hpairs.find_link hstaffed, bind, Except.bind, hhost, hcard, hconnect]
    rfl
  exact ⟨.axi4Link 32 32 4, by rw [Engine.wrapUp, hwire]; rfl⟩

variable {r : Rig} {p q : Player}

theorem value_eq (hseated : r.Seated c.devices agreed true) (hmuted : ps.muted = r.bus.participants.muted) {link : Link}
    {rs : RelaySignal} (hrs : rs ∈ (table ⟨32, 32, 4⟩).signals) {d : Device} (hd : d ∈ c.devices)
    (hend : rs.direction.fromHost = d.host) (hdriver : link.driver rs.direction = d.ident) (hq : q ∈ r.players)
    (hident : q.client.ident = d.ident) : rs.value link ps = q.wires rs.source rs.width := by
  have hstaffed := hseated.staffed.of_roster_eq (Participants.roster_of_muted_eq hmuted)
  obtain ⟨s, hs, hseat⟩ := hseated.seats q hq
  obtain ⟨s', hs', hsame⟩ := Participants.exists_of_muted_eq hmuted.symm hs
  have hseat' := hseat.shown hsame.symm
  have hdevice : s'.device = d := hstaffed.eq_of_ident_eq (hstaffed.device hs').1 hd (hseat'.ident.trans hident)
  have hwidth : s'.widths.get? rs.source = some rs.width := by
    rw [hseat'.widths, hdevice, agreed, ← hend]
    exact (proper_table _).get?_drivenBy hrs
  rw [RelaySignal.value, hdriver, ← hident, hs']
  dsimp only
  cases hon : q.isOn with
  | true =>
    rw [hseat'.finished, hon]
    exact (hseat'.drives_eq hwidth).1
  | false =>
    rw [hseat'.finished, hon, Player.wires, Player.driving, hon]
    rfl

theorem relays_wires (hseated : r.Seated c.devices agreed true) (hpairs : c.Pairs host card)
    (hmuted : ps.muted = r.bus.participants.muted) (level : Level) {d other : Device} (hd : d ∈ c.devices)
    (hother : other ∈ c.devices) (hends : d.host = !other.host) (hq : q ∈ r.players)
    (hident : q.client.ident = other.ident) {reach : List (String × Nat)} {dir : Direction}
    (hreach : ∀ e ∈ reach, RelaySignal.same e.1 e.2 dir ∈ (table ⟨32, 32, 4⟩).signals) (hdir : dir.fromHost = other.host) :
    let seen := ((Engine.axi4 c.options (some (wiring host card))).deliver level ps).shown d.ident
    seen.Relays q.driving reach ∧ seen.bit clockName = level := by
  have hstaffed := hseated.staffed.of_roster_eq (Participants.roster_of_muted_eq hmuted)
  have hne := hpairs.ident_ne hstaffed
  obtain ⟨s, hs, -⟩ := hstaffed.slot hd
  have hdisplay : (Engine.axi4 c.options (some (wiring host card))).display level ps d.ident s =
      (((table ⟨32, 32, 4⟩).toward d.host).map fun rs => (rs.target, rs.value ⟨host.ident, card.ident⟩ ps)) ++
        [(clockName, .ofLevel level)] := by
    rw [← hpairs.addressed_eq hne hd]
    rfl
  have hdistinct := (proper_table ⟨32, 32, 4⟩).pairwise_toward d.host (fun rs => rs.value ⟨host.ident, card.ident⟩ ps)
    (.ofLevel level)
  dsimp only
  rw [Engine.shown_deliver _ _ hs, hdisplay]
  have hclock := List.mem_append_right (((table ⟨32, 32, 4⟩).toward d.host).map fun rs =>
    (rs.target, rs.value ⟨host.ident, card.ident⟩ ps)) (List.mem_singleton_self (clockName, Bundle.ofLevel level))
  refine ⟨fun e he => ?_, Signals.bit_eq (SortedMap.get?_insertMany_of_mem hdistinct hclock _)⟩
  have hrs := hreach e he
  have hvalue := value_eq hseated hmuted hrs hother hdir ((hpairs.driver_iff hne hother dir).2 hdir) hq hident
  refine (SortedMap.get?_insertMany_of_mem hdistinct (List.mem_append_left _ (List.mem_map.2 ⟨_, ?_, rfl⟩)) _).trans
    (congrArg some hvalue)
  exact List.mem_filter.2 ⟨hrs, by simp [RelaySignal.same, hdir, hends]⟩

/-! ### Rounds -/

/-- A master and a memory that have been at work for some rounds, none of which failed. -/
structure Duet (jobs : List Transfer) (n : Nat) (p q : Player) (w : Worker Master Transfer) (mem : Memory) : Prop where
  master : p.actor = .axi4Master w
  memory : q.actor = .axi4Memory mem
  attends : ∀ a ∈ [p, q], a.isOn = true → a.Attends n
  stage : Stage jobs ((n + 3) / 4) w mem
  /-- The master leaves as soon as it can after its last transfer. -/
  leaves : p.outcome = if 8 * jobs.length - 3 < n then some (.ok ()) else none
  /-- The memory does not leave before the master is done. -/
  stays : q.outcome = none ∨ (q.outcome = some (.ok ()) ∧ w.jobs = [])

namespace Duet

variable {n : Nat} {stop : Ident → Bool} {shown : Ident → Signals}

theorem outcome_master (h : Duet jobs n p q w mem) (stop : Ident → Bool) :
    (p.spoken stop).outcome = if w.jobs = [] then some (.ok ()) else none := by
  have hout := h.leaves
  have hjobs := h.stage.jobs_eq_nil_iff
  split at hout
  · next hn =>
    rw [Player.spoken_of_off (Player.isOn_eq_false hout), if_pos (hjobs.2 hn.le)]
    exact hout
  · next hn =>
    rw [(h.attends p (by simp) (Player.isOn_of_outcome hout)).outcome_spoken hout, h.master]
    by_cases hnil : w.jobs = []
    · have hlast := hjobs.1 hnil
      rw [if_pos hnil, if_pos ⟨by omega, by simp [Actor.isMaster, Actor.isDone, hnil]⟩]
    · rw [if_neg hnil, if_neg fun hleaves => hnil (by simpa [Actor.isMaster, Actor.isDone] using hleaves.2)]

theorem outcome_memory (h : Duet jobs n p q w mem) (hstop : stop q.client.ident = true → w.jobs = []) :
    ((q.spoken stop).outcome = none ∨ ((q.spoken stop).outcome = some (.ok ()) ∧ w.jobs = [])) ∧
      (q.outcome = some (.ok ()) ∨ (stop q.client.ident = true ∧ (n = 0 ∨ n % 4 = 1)) →
        (q.spoken stop).outcome = some (.ok ())) := by
  rcases h.stays with hout | ⟨hout, hjobs⟩
  · rw [(h.attends q (by simp) (Player.isOn_of_outcome hout)).outcome_spoken hout, h.memory]
    simp only [Actor.isMaster, Bool.false_eq_true, if_false]
    by_cases hleaves : (n = 0 ∨ n % 4 = 1) ∧ stop q.client.ident = true
    · rw [if_pos hleaves]
      exact ⟨.inr ⟨rfl, hstop hleaves.2⟩, fun _ => rfl⟩
    · rw [if_neg hleaves]
      refine ⟨.inl rfl, fun hleft => ?_⟩
      rcases hleft with hleft | ⟨hs, hn⟩
      · rw [hout] at hleft
        cases hleft
      · exact absurd ⟨hn, hs⟩ hleaves
  · rw [Player.spoken_of_off (Player.isOn_eq_false hout)]
    exact ⟨.inr ⟨hout, hjobs⟩, fun _ => hout⟩

theorem round_of_busy (h : Duet jobs n p q w mem) (time : Time) (hjobs : w.jobs ≠ [])
    (hstop : stop q.client.ident = true → w.jobs = [])
    (hseen : (shown p.client.ident).Relays (q.spoken stop).driving Memory.reach ∧
      (shown p.client.ident).bit clockName = clockLevel (n + 1))
    (hseen' : (shown q.client.ident).Relays (p.spoken stop).driving Master.reach ∧
      (shown q.client.ident).bit clockName = clockLevel (n + 1)) :
    ∃ w' mem', Duet jobs (n + 1) ((p.spoken stop).hears time shown) ((q.spoken stop).hears time shown) w' mem' := by
  have hout := h.outcome_master stop
  rw [if_neg hjobs] at hout
  have hout' := (h.outcome_memory hstop).1.resolve_right fun h => hjobs h.2
  have hon := Player.isOn_of_outcome hout
  have hon' := Player.isOn_of_outcome hout'
  rw [Player.driving, if_pos hon', Player.actor_spoken, h.memory] at hseen
  rw [Player.driving, if_pos hon, Player.actor_spoken, h.master] at hseen'
  obtain ⟨w', mem', hstage, hedge, hedge'⟩ := h.stage.round hjobs hseen.1 hseen'.1
  rw [← h.master] at hedge
  rw [← h.memory] at hedge'
  obtain ⟨-, hactor, hout, hattends⟩ := (h.attends p (by simp) (Player.isOn_of_spoken hon)).moves time hon
    (by rw [h.master]; exact hseen.2) hedge
  obtain ⟨-, hactor', hout', hattends'⟩ := (h.attends q (by simp) (Player.isOn_of_spoken hon')).moves time hon'
    (by rw [h.memory]; exact hseen'.2) hedge'
  refine ⟨w', mem', hactor, hactor', fun a ha _ => ?_, hstage, ?_, .inl hout'⟩
  · rcases List.mem_pair.1 ha with rfl | rfl
    · exact hattends
    · exact hattends'
  · rw [Ne, h.stage.jobs_eq_nil_iff] at hjobs
    rw [hout, if_neg (by omega)]

theorem round_of_done (h : Duet jobs n p q w mem) (time : Time) (hjobs : w.jobs = [])
    (hseen : (shown q.client.ident).Relays (p.spoken stop).driving Master.reach ∧
      (shown q.client.ident).bit clockName = clockLevel (n + 1)) :
    Duet jobs (n + 1) ((p.spoken stop).hears time shown) ((q.spoken stop).hears time shown) w mem ∧
      ((q.spoken stop).hears time shown).outcome = (q.spoken stop).outcome := by
  have hout := h.outcome_master stop
  rw [if_pos hjobs] at hout
  have hoff := Player.isOn_eq_false hout
  have hleft : (p.spoken stop).hears time shown = p.spoken stop := Player.hears_of_off hoff
  rw [Player.driving, hoff] at hseen
  obtain ⟨hstage, hidle⟩ := h.stage.round_later hjobs hseen.1
  rw [hleft]
  suffices hmoved : ((q.spoken stop).hears time shown).actor = .axi4Memory mem ∧
      ((q.spoken stop).hears time shown).outcome = (q.spoken stop).outcome ∧
      (((q.spoken stop).hears time shown).isOn = true → ((q.spoken stop).hears time shown).Attends (n + 1)) by
    obtain ⟨hactor, hout', hattends⟩ := hmoved
    refine ⟨⟨by rw [Player.actor_spoken, h.master], hactor, fun a ha hon => ?_, hstage, ?_, ?_⟩, hout'⟩
    · rcases List.mem_pair.1 ha with rfl | rfl
      · rw [hoff] at hon
        cases hon
      · exact hattends hon
    · rw [hout, if_pos (Nat.lt_succ_of_le (h.stage.jobs_eq_nil_iff.1 hjobs))]
    · rw [hout']
      exact (h.outcome_memory fun _ => hjobs).1
  cases hon : (q.spoken stop).isOn with
  | false =>
    rw [Player.hears_of_off hon, Player.actor_spoken]
    exact ⟨h.memory, rfl, fun hon' => absurd hon' (by rw [hon]; decide)⟩
  | true =>
    rw [← h.memory] at hidle
    obtain ⟨-, hactor, hout', hattends⟩ := (h.attends q (by simp) (Player.isOn_of_spoken hon)).moves time hon
      (by rw [h.memory]; exact hseen.2) hidle
    exact ⟨hactor.trans h.memory, hout'.trans (Option.isNone_iff_eq_none.1 hon).symm, fun _ => hattends⟩

theorem round (h : Duet jobs n p q w mem) (time : Time) (hstop : stop q.client.ident = true → w.jobs = [])
    (hseen : (shown p.client.ident).Relays (q.spoken stop).driving Memory.reach ∧
      (shown p.client.ident).bit clockName = clockLevel (n + 1))
    (hseen' : (shown q.client.ident).Relays (p.spoken stop).driving Master.reach ∧
      (shown q.client.ident).bit clockName = clockLevel (n + 1)) :
    (∃ w' mem', Duet jobs (n + 1) ((p.spoken stop).hears time shown) ((q.spoken stop).hears time shown) w' mem') ∧
      (q.outcome = some (.ok ()) ∨ (stop q.client.ident = true ∧ (n = 0 ∨ n % 4 = 1)) →
        ((q.spoken stop).hears time shown).outcome = some (.ok ())) := by
  by_cases hjobs : w.jobs = []
  · obtain ⟨hduet, hout⟩ := h.round_of_done time hjobs hseen'
    rw [hout]
    exact ⟨⟨w, mem, hduet⟩, (h.outcome_memory hstop).2⟩
  · refine ⟨h.round_of_busy time hjobs hstop hseen hseen', fun hout => absurd ?_ hjobs⟩
    rcases hout with hout | ⟨hs, -⟩
    · rcases h.stays with hout' | ⟨-, hnil⟩
      · rw [hout] at hout'
        cases hout'
      · exact hnil
    · exact hstop hs

end Duet

/-- A rig in which a master and a memory have been at work for some rounds. -/
structure Serves (c : BusConfig) (host card : Device) (jobs : List Transfer) (n : Nat) (r : Rig) (p q : Player) :
    Prop where
  seated : r.Seated c.devices agreed false
  walked : r.bus.Walked c.clock n
  engine : r.bus.engine = .axi4 c.options (if r.bus.assembled then some (wiring host card) else none)
  master : p ∈ r.players ∧ p.client.ident = host.ident
  memory : q ∈ r.players ∧ q.client.ident = card.ident
  duet : ∃ w mem, Duet jobs n p q w mem

namespace Serves

variable {n : Nat} {stop : Ident → Bool}

theorem prepared (h : Serves c host card jobs n r p q) (hwidths : widths c.name .empty c.options = .ok ⟨32, 32, 4⟩)
    (hpairs : c.Pairs host card) (stop : Ident → Bool) :
    ((r.turns stop).bus.assembled = false → ∃ result, (r.turns stop).bus.engine.wrapUp (r.turns stop).bus.participants =
      .ok result) ∧
    ∀ engine ps, (r.turns stop).bus.Prepared engine ps → engine = .axi4 c.options (some (wiring host card)) := by
  obtain ⟨hseated, -, hbus, -⟩ := h.seated.turns stop
  have hengine : (r.turns stop).bus.engine = r.bus.engine ∧ (r.turns stop).bus.assembled = r.bus.assembled := by
    rw [hbus]
    exact ⟨rfl, rfl⟩
  have hoptions : ∀ i s, (r.turns stop).bus.participants.get? i = some s → s.options = .empty := by
    intro i s hs
    obtain ⟨_, -, -, hseat⟩ := hseated.player hs
    exact hseat.options
  obtain ⟨notice, hwrapUp⟩ := exists_wrapUp_eq hwidths hpairs hseated.staffed hoptions
    (if r.bus.assembled then some (wiring host card) else none)
  rw [← h.engine, ← hengine.1] at hwrapUp
  refine ⟨fun _ => ⟨_, hwrapUp⟩, fun engine ps hprepared => ?_⟩
  cases hprepared with
  | running assembled => rw [hengine.1, h.engine, ← hengine.2, assembled]; rfl
  | fresh _ agreed =>
    rw [hwrapUp] at agreed
    cases agreed
    rfl

theorem round (h : Serves c host card jobs n r p q) (hwidths : widths c.name .empty c.options = .ok ⟨32, 32, 4⟩)
    (hpairs : c.Pairs host card) (ht : c.clock.fault? = none) (hfits : c.clock.walk (n + 1) < UInt64.size)
    (hstop : stop card.ident = true → Rig.mastersDone r.players = true) :
    ∃ p' q', Serves c host card jobs (n + 1) (r.round stop) p' q' ∧
      (q.outcome = some (.ok ()) ∨ (stop card.ident = true ∧ (n = 0 ∨ n % 4 = 1)) → q'.outcome = some (.ok ())) := by
  obtain ⟨hp, hhost⟩ := h.master
  obtain ⟨hq, hcard⟩ := h.memory
  obtain ⟨w, mem, hduet⟩ := h.duet
  obtain ⟨hseated, hplayers, -, -⟩ := h.seated.turns stop
  obtain ⟨hagree, hprepared⟩ := h.prepared hwidths hpairs stop
  obtain ⟨hround, ⟨engine, ps, time, hsteps⟩ | ⟨⟨cause, hfailed⟩, -⟩⟩ := h.seated.round h.walked ht stop
  swap
  · exact absurd hfailed ((h.seated.walked_turns h.walked stop).not_failed ht hfits hagree)
  obtain rfl := hprepared engine ps hsteps.prepared
  have hspoken : p.spoken stop ∈ (r.turns stop).players ∧ q.spoken stop ∈ (r.turns stop).players := by
    rw [hplayers]
    exact ⟨List.mem_map_of_mem hp, List.mem_map_of_mem hq⟩
  have hentering : (Engine.axi4 c.options (some (wiring host card))).entering (.after (n + 1)) ps =
      .axi4 c.options (some (wiring host card)) := by
    cases Phase.after (n + 1) <;> rfl
  have hheard := hsteps.players
  rw [hentering] at hheard
  -- what the two sides see of each other
  have hseen := relays_wires hseated hpairs hsteps.prepared.muted_eq (clockLevel (n + 1)) hpairs.host_mem
    hpairs.card_mem (by rw [hpairs.isHost, hpairs.isCard]; rfl) hspoken.2 (by rw [Player.client_spoken, hcard])
    mem_table_of_memory (by rw [hpairs.isCard]; rfl)
  have hseen' := relays_wires hseated hpairs hsteps.prepared.muted_eq (clockLevel (n + 1)) hpairs.card_mem
    hpairs.host_mem (by rw [hpairs.isHost, hpairs.isCard]; rfl) hspoken.1 (by rw [Player.client_spoken, hhost])
    mem_table_of_master (by rw [hpairs.isHost]; rfl)
  rw [← hhost] at hseen
  rw [← hcard] at hseen' hstop ⊢
  have hdone : stop q.client.ident = true → w.jobs = [] := fun hs => by
    have hdone := List.all_eq_true.1 (hstop hs) p hp
    by_cases hn : 8 * jobs.length - 3 < n
    · exact hduet.stage.jobs_eq_nil_iff.2 hn.le
    · have hout := hduet.leaves
      rw [if_neg hn] at hout
      simpa [Player.isOn, hout, hduet.master, Actor.isMaster, Actor.isDone] using hdone
  obtain ⟨hduet', hout⟩ := hduet.round time hdone hseen hseen'
  have hmem : ∀ a ∈ (r.turns stop).players, a.hears time _ ∈ (r.round stop).players := fun a ha => by
    rw [hheard]
    exact List.mem_map_of_mem ha
  refine ⟨_, _, ⟨hround, hsteps.walked, ?_, ⟨hmem _ hspoken.1, ?_⟩, ⟨hmem _ hspoken.2, ?_⟩, hduet'⟩, hout⟩
  · rw [hsteps.entered, hentering, hsteps.assembled]
    rfl
  · rw [Player.ident_hears, Player.client_spoken, hhost]
  · rw [Player.ident_hears, Player.client_spoken, hcard]

end Serves

/-! ### From the start -/

variable {start : Bus} {actors : List (String × Actor)}

theorem names_perm (hpairs : c.Pairs host card) (hstaffed : Participants.Staffed c.devices ps) :
    [host.name, card.name].Perm (c.devices.map (·.name)) := by
  have hne : host ≠ card := fun heq => hpairs.ident_ne hstaffed (congrArg Device.ident heq)
  have hnodup : c.devices.Nodup := hstaffed.1.imp fun hdistinct heq => hdistinct.1 (congrArg Device.name heq)
  have hperm : [host, card].Perm c.devices := by
    refine (List.perm_ext_iff_of_nodup (by simp [hne]) hnodup).2 fun d => ⟨fun hd => ?_, fun hd => ?_⟩
    · rcases List.mem_pair.1 hd with rfl | rfl
      · exact hpairs.host_mem
      · exact hpairs.card_mem
    · exact List.mem_pair.2 (hpairs.only d hd)
  exact hperm.map (·.name)

theorem serves_joinAll (hstart : Bus.ofConfig c = .ok start) (hprotocol : c.protocol = .axi4)
    (hwidths : widths c.name .empty c.options = .ok ⟨32, 32, 4⟩) (hpairs : c.Pairs host card)
    (hactors : actors.Perm [(host.name, .ofTransfers jobs), (card.name, .axi4Memory .fresh)]) :
    ∃ p q, Serves c host card jobs 0 (Rig.joinAll start 0 actors) p q := by
  have hstaffed : Participants.Staffed c.devices start.participants := (Bus.Course.nil).staffed hstart
  have hwalked := (Bus.Course.nil).walked hstart (fun _ h => absurd h List.not_mem_nil)
  obtain ⟨hengine, hassembled⟩ : start.engine = .axi4 c.options none ∧ start.assembled = false := by
    obtain ⟨-, engine, hengine, rfl⟩ := Bus.ofConfig_spec hstart
    simp only [Engine.ofConfig, hprotocol] at hengine
    obtain ⟨-, -, rfl⟩ := exists_of_map_eq_ok hengine
    exact ⟨rfl, rfl⟩
  have hnames : (actors.map (·.1)).Perm (c.devices.map (·.name)) := (hactors.map Prod.fst).trans (names_perm hpairs hstaffed)
  have hagreed : ∀ d ∈ c.devices, start.engine.driven d .empty = .ok (agreed d) := fun d _ => by
    rw [hengine, Engine.driven, driven, widths_eq d.name c.name, hwidths]
    rfl
  have hsuits : ∀ d ∈ c.devices, ∀ a, (d.name, a) ∈ actors → a.Suits (agreed d) := by
    intro d hd a ha
    rcases List.mem_pair.1 (hactors.mem_iff.1 ha) with heq | heq
    · obtain ⟨hname, rfl⟩ := Prod.mk.inj heq
      rw [hstaffed.eq_of_name_eq hd hpairs.host_mem hname]
      exact suits_host hpairs.isHost jobs
    · obtain ⟨hname, rfl⟩ := Prod.mk.inj heq
      rw [hstaffed.eq_of_name_eq hd hpairs.card_mem hname]
      exact suits_card hpairs.isCard
  obtain ⟨hseated, henters, ps, hbus⟩ := Rig.seated_joinAll hstart hnames hagreed hsuits
  have hplayer : ∀ d ∈ c.devices, ∀ a, (d.name, a) ∈ actors → ∃ p ∈ (Rig.joinAll start 0 actors).players,
      p.client = .fresh d.name d.ident ∧ p.actor = a ∧ p.atEdge = true ∧ p.outcome = none := by
    intro d hd a ha
    obtain ⟨p, hp, e, he, hname, hactor, hclient, hedge, hout⟩ := Rig.exists_player henters ha
    obtain rfl := hstaffed.eq_of_name_eq he hd hname
    exact ⟨p, hp, hclient, hactor, hedge, hout⟩
  obtain ⟨p, hp, hclient, hactor, hedge, hout⟩ := hplayer host hpairs.host_mem (.ofTransfers jobs)
    (hactors.mem_iff.2 (by simp))
  obtain ⟨q, hq, hclient', hactor', hedge', hout'⟩ := hplayer card hpairs.card_mem (.axi4Memory .fresh)
    (hactors.mem_iff.2 (by simp))
  refine ⟨p, q, ⟨hseated, ?_, ?_, ⟨hp, by rw [hclient]; rfl⟩, ⟨hq, by rw [hclient']; rfl⟩, _, _,
    hactor, hactor', fun a ha _ => ?_, stage_start jobs, by rw [hout]; rfl, .inl hout'⟩⟩
  · rw [hbus]
    exact hwalked.participants ps
  · rw [hbus, hengine, hassembled]
    rfl
  · rcases List.mem_pair.1 ha with rfl | rfl
    · exact ⟨by rw [hclient]; rfl, hedge⟩
    · exact ⟨by rw [hclient']; rfl, hedge'⟩

theorem Serves.after (hwidths : widths c.name .empty c.options = .ok ⟨32, 32, 4⟩) (hpairs : c.Pairs host card)
    (ht : c.clock.fault? = none) {r : Rig} (h : ∃ p q, Serves c host card jobs 0 r p q) {stops : Nat → Ident → Bool}
    {n : Nat} (hfits : c.clock.walk n < UInt64.size)
    (hstops : ∀ m < n, stops m card.ident = true → Rig.mastersDone (r.after stops m).players = true) :
    ∃ p q, Serves c host card jobs n (r.after stops n) p q ∧
      ∀ m < n, stops m card.ident = true → m = 0 ∨ m % 4 = 1 → q.outcome = some (.ok ()) := by
  induction n with
  | zero =>
    obtain ⟨p, q, h⟩ := h
    exact ⟨p, q, h, fun m hm => absurd hm (Nat.not_lt_zero m)⟩
  | succ n ih =>
    obtain ⟨p, q, hserves, htold⟩ := ih ((ClockTiming.walk_lt_succ ht n).trans hfits)
      fun m hm => hstops m (Nat.lt_succ_of_lt hm)
    obtain ⟨p', q', hserves', hleft⟩ := hserves.round hwidths hpairs ht hfits (hstops n (Nat.lt_succ_self n))
    refine ⟨p', q', hserves', fun m hm hstop hedge => hleft ?_⟩
    rcases Nat.lt_succ_iff_lt_or_eq.1 hm with hm | rfl
    · exact .inl (htold m hm hstop hedge)
    · exact .inr ⟨hstop, hedge⟩

/-- What a master and a memory have come to after some rounds. In round `m` the players of `stops m` are told to
stop. -/
structure Served (host card : Device) (jobs : List Transfer) (stops : Nat → Ident → Bool) (n : Nat)
    (players : List Player) : Prop where
  /-- Every transfer takes two clocks, and the master leaves after the last one. -/
  master : ∃ p ∈ players, p.client.ident = host.ident ∧
    p.actor.results p.fault? = (responses (jobs.take ((n + 3) / 8))).map .ok ∧
    p.outcome = if 8 * jobs.length - 3 < n then some (.ok ()) else none
  /-- The memory leaves when it is told to, and holds the last writes then. -/
  memory : ∃ q ∈ players, ∃ mem, q.client.ident = card.ident ∧ q.actor = .axi4Memory mem ∧
    (8 * jobs.length - 3 ≤ n → ∀ k, mem.words.get? k = lastWrite? jobs k) ∧
    (q.outcome = none ∨ q.outcome = some (.ok ()) ∧ 8 * jobs.length - 3 ≤ n) ∧
    ∀ m < n, stops m card.ident = true → m = 0 ∨ m % 4 = 1 → q.outcome = some (.ok ())

end Axi4

namespace Rig

open Axi4

variable {c : BusConfig} {host card : Device} {start : Bus} {jobs : List Transfer} {actors : List (String × Actor)}
  {stops : Nat → Ident → Bool} {n : Nat}

/-- **A memory.** A master and a memory on a link of default width, whatever the clock and as long as the time lasts. The
memory is told to stop when the master is done. -/
theorem serves_transfers (hstart : Bus.ofConfig c = .ok start) (hprotocol : c.protocol = .axi4)
    (hwidths : widths c.name .empty c.options = .ok ⟨32, 32, 4⟩) (hpairs : c.Pairs host card)
    (hactors : actors.Perm [(host.name, .ofTransfers jobs), (card.name, .axi4Memory .fresh)])
    (hstops : ∀ m < n, stops m card.ident = true → mastersDone ((joinAll start 0 actors).after stops m).players = true)
    (hfits : c.clock.walk n < UInt64.size) :
    Served host card jobs stops n ((joinAll start 0 actors).after stops n).players := by
  have ht := Bus.fault?_eq_none (Bus.ofConfig_spec hstart).1
  obtain ⟨p, q, hserves, htold⟩ := Serves.after hwidths hpairs ht
    (serves_joinAll hstart hprotocol hwidths hpairs hactors) hfits hstops
  obtain ⟨w, mem, hduet⟩ := hserves.duet
  obtain ⟨hresults, -, hwords⟩ := hduet.stage.done_eq
  have hjobs := hduet.stage.jobs_eq_nil_iff
  refine ⟨⟨p, hserves.master.1, hserves.master.2, ?_, hduet.leaves⟩,
    q, hserves.memory.1, mem, hserves.memory.2, hduet.memory, fun hn => hwords (hjobs.2 hn), ?_, htold⟩
  · have hfault : p.fault? = none := by
      rw [Player.fault?, hduet.leaves]
      by_cases hn : 8 * jobs.length - 3 < n
      · rw [if_pos hn]
      · rw [if_neg hn]
    rw [hduet.master, hfault, Actor.results, Actor.results.report, hresults, Nat.div_div_eq_div_mul, List.append_nil]
  · exact hduet.stays.imp_right fun ⟨hout, hnil⟩ => ⟨hout, hjobs.1 hnil⟩

/-! ### A memory of one word -/

/-- A link of default width with some clock. -/
def memoryLink (clock : ClockTiming) : BusConfig where
  name := "link"
  address := .tcp "localhost" 0
  protocol := .axi4
  clock
  devices := [⟨"host", 0, true⟩, ⟨"ram", 1, false⟩]
  options := .empty

def idleMemoryLink (clock : ClockTiming) : Bus where
  config := memoryLink clock
  participants := .ofDevices [⟨"host", 0, true⟩, ⟨"ram", 1, false⟩]
  engine := .axi4 .empty none
  clock := .start clock
  time := .zero
  assembled := false
  finished := false
  steps := 0

theorem pairs_memoryLink (clock : ClockTiming) :
    (memoryLink clock).Pairs ⟨"host", 0, true⟩ ⟨"ram", 1, false⟩ := by
  refine ⟨?_, ?_, rfl, rfl, ?_⟩ <;> simp [memoryLink]

def writeAndRead : List Transfer := [.write 4096 7, .read 4294971392]

def memoryActors : List (String × Actor) := [("host", .ofTransfers writeAndRead), ("ram", .axi4Memory .fresh)]

def stopLate (m : Nat) (_ : Ident) : Bool := m = 17

/-- The write is read back, and then the memory is stopped. -/
theorem one_word_is_served :
    let players := ((joinAll (idleMemoryLink .standard) 0 memoryActors).after stopLate 18).players
    (∃ p ∈ players, p.actor.results p.fault? = [.ok 0, .ok 7]) ∧
      ∃ q ∈ players, q.outcome = some (.ok ()) ∧ ∃ mem, q.actor = .axi4Memory mem ∧ mem.words.get? 4096 = some 7 := by
  have hdone : mastersDone ((joinAll (idleMemoryLink .standard) 0 memoryActors).after stopLate 17).players = true := by
    decide +kernel
  have hstops : ∀ m < 18, stopLate m 1 = true →
      mastersDone ((joinAll (idleMemoryLink .standard) 0 memoryActors).after stopLate m).players = true := by
    intro m _ hm
    obtain rfl : m = 17 := of_decide_eq_true hm
    exact hdone
  obtain ⟨⟨p, hp, -, hresults, -⟩, q, hq, mem, -, hmem, hwords, -, hleft⟩ :=
    serves_transfers (c := memoryLink .standard) (by rfl) rfl (by rfl) (pairs_memoryLink .standard) (.refl memoryActors)
      hstops (by decide)
  exact ⟨⟨p, hp, hresults⟩, q, hq, hleft 17 (by decide) rfl (by decide), mem, hmem, hwords (by decide) 4096⟩

/-! ### A clock too slow -/

/-- With a slow clock the time may run out within the first transfer. The master is cut off then. -/
theorem transfer_cut_off : ¬ ∀ (c : BusConfig) (host card : Device) (start : Bus) (jobs : List Transfer)
    (actors : List (String × Actor)) (stops : Nat → Ident → Bool) (n : Nat),
    Bus.ofConfig c = .ok start → c.protocol = .axi4 → widths c.name .empty c.options = .ok ⟨32, 32, 4⟩ →
      c.Pairs host card → actors.Perm [(host.name, .ofTransfers jobs), (card.name, .axi4Memory .fresh)] →
      (∀ m < n, stops m card.ident = true → mastersDone ((joinAll start 0 actors).after stops m).players = true) →
      Served host card jobs stops n ((joinAll start 0 actors).after stops n).players := by
  intro h
  have hcut : ∀ p ∈ ((joinAll (idleMemoryLink slowestClock) 0 memoryActors).after (fun _ _ => false) 5).players,
      p.actor.results p.fault? ≠ [.ok 0] := by
    decide +kernel
  obtain ⟨⟨p, hp, -, hresults, -⟩, -⟩ := h (memoryLink slowestClock) _ _ (idleMemoryLink slowestClock) writeAndRead
    memoryActors (fun _ _ => false) 5 (by rfl) rfl (by rfl) (pairs_memoryLink slowestClock) (.refl memoryActors)
    (fun _ _ h => by cases h)
  exact hcut p hp hresults

end Rig

end Lockstep
