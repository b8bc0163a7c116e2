import Lockstep.Proofs.Engine.Arbitration
import Lockstep.Proofs.Model.Course
import Lockstep.Proofs.Model.Lineup
/-!
# A master on a PCI bus

One master shares a bus with some targets. Every read returns what it should, and every target counts the reads that it
has answered (`Rig.answers_reads`).

Proof. The players follow the traffic (`Pci.Runs.round`). No one but the master asks for the bus, so the master is granted
the bus when it asks (`Pci.Lineup.Cast.granted_of_head`), and no target leaves while it may be asked, so the answers on the
wires are what the targets hold (`Pci.Lineup.Cast.answered`). So each edge is one of a sole master.
-/

namespace Lockstep

theorem Arbiter.granted_of_sole {a : Arbiter} {requests : UInt16} {i : Nat} (hi : i < arbiterSlots)
    (hsole : ∀ n, requesting requests n = true ↔ n = i) : (a.arbitrate requests).granted = some i := by
  have hedge := a.edge_spec requests
  have hrequests := (hsole i).2 rfl
  generalize a.arbitrate requests = a' at hedge
  cases hedge with
  | kept h =>
    obtain ⟨n, hgranted, hrequest, -⟩ := keeps_iff.1 h
    rw [← (hsole n).1 hrequest]
    exact hgranted
  | passed n _ picked => exact congrArg some ((hsole n).1 (requesting_of_pick? picked))
  | lingered _ quiet | recalled _ _ quiet =>
    rw [quiet i hi] at hrequests
    cases hrequests

namespace Pci

namespace Lineup

/-- The rounds that some queries take. The last of them is done at the edge that begins its last clock. -/
def span (l : Lineup) (qs : List Query) : Nat := 4 * l.clocksOf qs - 3

/-- The part of a player in a run of so many rounds, in which some queries are done. -/
inductive Role (l : Lineup) (queries : List Query) (stops : Nat → Ident → Bool) (n : Nat) (done : List Query) (t : Traffic)
    (w : Worker Master Query) (p : Player) : Prop where
  /-- The master leaves as soon as it can after its last query. -/
  | master (ident : p.client.ident = l.master.ident) (actor : p.actor = .pciMaster w)
      (leaves : p.outcome = if l.span queries < n then some (.ok ()) else none)
  /-- A target leaves when it is told to, but not before the master is done. -/
  | target (d : Device) (mem : d ∈ l.targets) (ident : p.client.ident = d.ident) (g : Target)
      (actor : p.actor = .pciTarget g) (word : g.id = (l.word d).toNat) (served : g.served = served d.ident done t)
      (stays : p.outcome = none ∨ p.outcome = some (.ok ()) ∧ w.jobs = [])
      (told : ∀ m < n, stops m d.ident = true → m = 0 ∨ m % 4 = 1 → p.outcome = some (.ok ()))

variable {c : BusConfig} {l : Lineup} {queries done : List Query} {stops : Nat → Ident → Bool} {n : Nat} {r : Rig}
  {t t' : Traffic} {pci pci' : Pci} {w w' : Worker Master Query} {p p' : Player} {value : Option Nat}

theorem Role.spoken (h : l.Role queries stops n done t w p) (hattends : p.isOn = true → p.Attends n)
    (hjobs : w.jobs = [] ↔ l.span queries ≤ n) (hstop : ∀ d ∈ l.targets, stops n d.ident = true → w.jobs = []) :
    l.Role queries stops (n + 1) done t w (p.spoken (stops n)) := by
  have hstays : p.outcome = some (.ok ()) → p.spoken (stops n) = p := fun hout =>
    Player.spoken_of_off (Player.isOn_eq_false hout) (stops n)
  have hturn : p.outcome = none → p.Attends n := fun hout => hattends (Player.isOn_of_outcome hout)
  cases h with
  | master ident actor leaves =>
    refine .master (by rw [Player.client_spoken, ident]) (by rw [Player.actor_spoken, actor]) ?_
    by_cases hleft : l.span queries < n
    · rw [if_pos hleft] at leaves
      rw [hstays leaves, leaves, if_pos (Nat.lt_succ_of_lt hleft)]
    · rw [if_neg hleft] at leaves
      rw [(hturn leaves).outcome_spoken leaves, actor]
      simp only [Actor.isMaster, Actor.isDone, if_true, List.isEmpty_iff, hjobs]
      refine if_congr ?_ rfl rfl
      unfold span at hleft ⊢
      omega
  | target d mem ident g actor word served stays told =>
    refine .target d mem (by rw [Player.client_spoken, ident]) g (by rw [Player.actor_spoken, actor]) word served ?_ ?_
    · rcases stays with hout | ⟨hout, hnil⟩
      · rw [(hturn hout).outcome_spoken hout, actor]
        simp only [Actor.isMaster, Bool.false_eq_true, if_false]
        split
        · next hleaves => exact .inr ⟨rfl, hstop d mem (ident ▸ hleaves.2)⟩
        · exact .inl rfl
      · rw [hstays hout]
        exact .inr ⟨hout, hnil⟩
    · intro m hm hstop' hedge
      rcases Nat.lt_succ_iff_lt_or_eq.1 hm with hm | rfl
      · have hout := told m hm hstop' hedge
        rw [hstays hout]
        exact hout
      · rcases stays with hout | ⟨hout, -⟩
        · rw [(hturn hout).outcome_spoken hout, actor]
          exact if_pos ⟨hedge, ident ▸ hstop'⟩
        · rw [hstays hout]
          exact hout

theorem Role.of_master (h : l.Role queries stops n done t w p) (hdistinct : l.Distinct)
    (hident : p.client.ident = l.master.ident) :
    p.actor = .pciMaster w ∧ p.outcome = if l.span queries < n then some (.ok ()) else none := by
  cases h with
  | master _ actor leaves => exact ⟨actor, leaves⟩
  | target d mem ident => exact absurd (ident.symm.trans hident) (hdistinct.ident_ne mem)

theorem Role.of_target (h : l.Role queries stops n done t w p) (hdistinct : l.Distinct) {d : Device} (hd : d ∈ l.targets)
    (hident : p.client.ident = d.ident) : ∃ g, p.actor = .pciTarget g ∧ g.id = (l.word d).toNat ∧
      g.served = served d.ident done t ∧ (p.outcome = none ∨ p.outcome = some (.ok ()) ∧ w.jobs = []) ∧
      ∀ m < n, stops m d.ident = true → m = 0 ∨ m % 4 = 1 → p.outcome = some (.ok ()) := by
  cases h with
  | master ident => exact absurd (hident.symm.trans ident) (hdistinct.ident_ne hd)
  | target e mem ident g actor word served stays told =>
    obtain rfl := hdistinct.eq_of_ident_eq mem hd (ident.symm.trans hident)
    exact ⟨g, actor, word, served, stays, told⟩

section Seats

variable {told : Bool}

theorem distinct_of_seated (hseated : r.Seated c.devices driven told) (hdevices : c.devices.Perm l.devices) : l.Distinct :=
  (hdevices.pairwise_iff fun hne => hne.symm).1 (hseated.staffed.1.imp And.right)

theorem exists_player (hseated : r.Seated c.devices driven told) (hdevices : c.devices.Perm l.devices) {d : Device}
    (hd : d ∈ l.devices) : ∃ p ∈ r.players, p.client.ident = d.ident := by
  obtain ⟨s, hs, -⟩ := hseated.staffed.slot (hdevices.mem_iff.2 hd)
  obtain ⟨p, hp, hident, -⟩ := hseated.player hs
  exact ⟨p, hp, hident⟩

end Seats

/-! ### Players in their parts -/

/-- A rig in round `n` after all turns. Everybody plays its part, and the master is on the bus while it has queries left. -/
structure Cast (c : BusConfig) (l : Lineup) (queries : List Query) (stops : Nat → Ident → Bool) (n : Nat) (r : Rig)
    (done : List Query) (t : Traffic) (w : Worker Master Query) : Prop where
  devices : c.devices.Perm l.devices
  seated : r.Seated c.devices driven true
  concerted : Concerted t r.players
  roles : ∀ p ∈ r.players, l.Role queries stops (n + 1) done t w p
  reached : l.Reached done ((n + 3) / 4) t w
  busy : w.jobs = [] ↔ l.span queries ≤ n

namespace Cast

theorem distinct (h : l.Cast c queries stops n r done t w) : l.Distinct := distinct_of_seated h.seated h.devices

theorem exists_master (h : l.Cast c queries stops n r done t w) :
    ∃ p ∈ r.players, p.client.ident = l.master.ident ∧ p.actor = .pciMaster w ∧ (p.isOn = true ↔ w.jobs ≠ []) := by
  obtain ⟨p, hp, hident⟩ := exists_player h.seated h.devices List.mem_cons_self
  obtain ⟨hactor, hleaves⟩ := (h.roles p hp).of_master h.distinct hident
  refine ⟨p, hp, hident, hactor, ?_⟩
  rw [Player.isOn, hleaves, Ne, h.busy]
  split <;> simp <;> omega

theorem exists_target (h : l.Cast c queries stops n r done t w) {d : Device} (hd : d ∈ l.targets) :
    ∃ p ∈ r.players, p.client.ident = d.ident ∧ (w.jobs ≠ [] → p.isOn = true) ∧ ∃ g, p.actor = .pciTarget g := by
  obtain ⟨p, hp, hident⟩ := exists_player h.seated h.devices (List.mem_cons_of_mem _ hd)
  obtain ⟨g, hactor, -, -, hstays, -⟩ := (h.roles p hp).of_target h.distinct hd hident
  exact ⟨p, hp, hident, fun hbusy => Player.isOn_of_outcome (hstays.resolve_right fun hleft => hbusy hleft.2), g, hactor⟩

theorem follows (h : l.Cast c queries stops n r done t w) (hbusy : w.jobs ≠ []) : Master.Follows t l.master.ident w := by
  obtain ⟨p, hp, hident, hactor, hon⟩ := h.exists_master
  have hplays := h.concerted.plays p hp (hon.2 hbusy)
  rw [hactor, hident] at hplays
  cases hplays with
  | master _ follows => exact follows

/-! ### Requests -/

theorem of_requests (h : l.Cast c queries stops n r done t w) {i : Ident} {q : Query} (hrequests : Requests r.players i q) :
    i = l.master.ident ∧ t.owner ≠ some i ∧ w.jobs.head? = some q := by
  obtain ⟨p, hp, hon, rfl, w', hactor, hcycle⟩ := hrequests
  have hplays := h.concerted.plays p hp hon
  rw [hactor] at hplays
  cases h.roles p hp with
  | master ident actor =>
    rw [actor] at hactor
    cases hactor
    refine ⟨ident, ?_⟩
    cases hplays with
    | master _ follows =>
      cases follows with
      | resting _ _ cycle =>
        rw [hcycle] at cycle
        cases cycle
      | requesting other q' first cycle =>
        rw [hcycle] at cycle
        cases cycle
        exact ⟨other, first⟩
      | owning _ _ cycle =>
        rw [hcycle] at cycle
        cases t <;> cases cycle
  | target _ _ _ g actor =>
    rw [actor] at hactor
    cases hactor

theorem requests_of_head (h : l.Cast c queries stops n r done .quiet w) {q : Query} (hq : w.jobs.head? = some q) :
    Requests r.players l.master.ident q ∧ ∀ p ∈ r.players,
      p.wires "REQ#" 1 = .ofLevel (if p.client.ident = l.master.ident then .zero else .released) := by
  have hbusy : w.jobs ≠ [] := fun hnil => by
    rw [hnil] at hq
    cases hq
  obtain ⟨p, hp, hident, hactor, hon⟩ := h.exists_master
  obtain ⟨hcycle, hlines⟩ : w.model.cycle = .requesting q ∧ w.model.drive.wires "REQ#" 1 = .ofLevel .zero := by
    cases h.follows hbusy with
    | resting _ jobs => exact absurd jobs hbusy
    | requesting _ q' first cycle lines =>
      rw [hq] at first
      cases first
      exact ⟨cycle, lines.req⟩
    | owning own => cases own
  refine ⟨⟨p, hp, hon.2 hbusy, hident, w, hactor, hcycle⟩, fun p' hp' => ?_⟩
  by_cases hmaster : p'.client.ident = l.master.ident
  · obtain rfl := h.seated.eq_of_ident_eq hp hp' (hident.trans hmaster.symm)
    rw [if_pos hmaster, (Concerted.wires_eq h.seated hp (hon.2 hbusy) _ _).1, hactor]
    exact hlines
  · rw [if_neg hmaster]
    cases hon' : p'.isOn with
    | false =>
      exact p'.wires_of_off hon' _ _
    | true =>
      obtain ⟨hwires, hwithin⟩ := Concerted.wires_eq h.seated hp' hon' "REQ#" 1
      rw [hwires]
      cases h.roles p' hp' with
      | master ident => exact absurd ident hmaster
      | target _ _ _ g actor =>
        rw [actor] at hwithin ⊢
        exact Signals.Within.wires_eq hwithin (by decide : ∀ e ∈ Target.reach, e.1 ≠ "REQ#") 1

theorem granted_of_head (h : l.Cast c queries stops n r done .quiet w)
    (hidents : ∀ d ∈ c.devices, d.ident.toNat < arbiterSlots) {q : Query} (hq : w.jobs.head? = some q) (pci : Pci) :
    (pci.risingEdge r.bus.participants).1.arbiter.granted = some l.master.ident.toNat := by
  obtain ⟨⟨p, hp, hon, hident, -⟩, hwires⟩ := h.requests_of_head hq
  have hsmall : ∀ d ∈ c.devices, d.ident ≤ pciMaxIdent := fun d hd => Nat.le_of_lt_succ (hidents d hd)
  -- a slot requests the bus if its player is the master
  have hrequests : ∀ p ∈ r.players, ∀ s, r.bus.participants.get? p.client.ident = some s →
      (requests s = true ↔ p.isOn = true ∧ p.client.ident = l.master.ident) := by
    intro p' hp' s hs
    obtain ⟨s', hs', hseat⟩ := h.seated.seats p' hp'
    rw [hs] at hs'
    cases hs'
    have hdrives := (hseat.drives_eq (by rw [hseat.widths]; exact get?_driven_request s.device)).2
    rw [hwires p' hp'] at hdrives
    rw [requests, hseat.finished, hdrives]
    by_cases hmaster : p'.client.ident = l.master.ident
    · rw [if_pos hmaster]
      simp [hmaster, Bundle.ofLevel, Bundle.getD, Bundle.get?]
    · rw [if_neg hmaster]
      simp [hmaster, Bundle.ofLevel, Bundle.getD, Bundle.get?]
  refine Arbiter.granted_of_sole (hidents _ (h.devices.mem_iff.2 List.mem_cons_self)) fun i => ?_
  rw [requesting_iff_asksForBus h.seated.staffed hsmall]
  constructor
  · rintro ⟨i, hasks, rfl⟩
    obtain ⟨s, hs, hrequest⟩ := (Option.any_eq_true _ _).1 hasks
    obtain ⟨p', hp', rfl, -⟩ := h.seated.player hs
    rw [((hrequests p' hp' s hs).1 hrequest).2]
  · rintro rfl
    obtain ⟨s, hs, -⟩ := h.seated.seats p hp
    exact ⟨p.client.ident, (Option.any_eq_true _ _).2 ⟨s, hs, (hrequests p hp s hs).2 ⟨hon, hident⟩⟩, by rw [hident]⟩

/-! ### Answers -/

theorem answered (h : l.Cast c queries stops n r done t w) (hanswering : Answering t r.players value) :
    value = l.answered? t := by
  cases hvalue : value with
  | some m =>
    -- somebody answers
    obtain ⟨p, hp, -, g, q, hactor, hasks, rfl⟩ := hanswering.source m hvalue
    obtain ⟨htarget, j, rfl⟩ := Traffic.asks_eq_some hasks
    cases h.roles p hp with
    | master _ actor =>
      rw [actor] at hactor
      cases hactor
    | target d mem ident g' actor word =>
      rw [actor] at hactor
      cases hactor
      rw [answered?, h.distinct.reply?_eq_some mem (by rw [htarget, ident]), word]
  | none =>
    -- nobody answers
    cases t with
    | quiet | address | last => rfl
    | data j q clocks =>
      cases clocks with
      | succ clocks => rfl
      | zero =>
        refine (reply?_eq_none.2 fun d hd htarget => ?_).symm
        obtain ⟨p, hp, hident, hon, g, hactor⟩ := h.exists_target hd
        have hasks : (Traffic.data j q 0).asks p.client.ident = some q := by
          rw [Traffic.asks, hident, if_pos htarget.symm]
        have hgiven := hanswering.given p hp (hon (h.reached.ne_nil rfl)) g q hactor hasks
        rw [hvalue] at hgiven
        cases hgiven

/-! ### A round -/

theorem exists_progress (h : l.Cast c queries stops n r done t w) {rising : Bool} {g : Player → Player}
    (hmoved : ∀ p ∈ r.players, Moved t rising p (g p)) :
    ∃ w', (∀ p ∈ r.players, p.client.ident = l.master.ident → (g p).actor = .pciMaster w') ∧
      if rising then Master.Progress w w' (t.result? l.master.ident) else w' = w := by
  obtain ⟨p, hp, hident, hactor, hon⟩ := h.exists_master
  have hsole : ∀ p' ∈ r.players, p'.client.ident = l.master.ident → p' = p := fun p' hp' hmaster =>
    h.seated.eq_of_ident_eq hp' hp (hmaster.trans hident.symm)
  have hadvances := (hmoved p hp).actor
  by_cases hacts : (rising && p.isOn) = true
  · obtain ⟨hrising, hpresent⟩ := Bool.and_eq_true_iff.1 hacts
    rw [if_pos hacts, hactor, hident] at hadvances
    generalize hactor' : (g p).actor = a' at hadvances
    cases hadvances with
    | master _ w' progress =>
      refine ⟨w', fun p' hp' hmaster => ?_, by rwa [if_pos hrising]⟩
      rw [hsole p' hp' hmaster, hactor']
  · rw [if_neg hacts, hactor] at hadvances
    refine ⟨w, fun p' hp' hmaster => ?_, ?_⟩
    · rw [hsole p' hp' hmaster, hadvances]
    · cases rising with
      | false => rfl
      | true =>
        have hnil : w.jobs = [] := by simpa [hon] using hacts
        rw [h.reached.quiet hnil]
        exact ⟨rfl, rfl⟩

theorem served_moved (h : l.Cast c queries stops n r done t w) {rising : Bool} (hmoved : Moved t rising p p')
    {g : Target} (hactor : p.actor = .pciTarget g) (hstays : p.outcome = none ∨ p.outcome = some (.ok ()) ∧ w.jobs = []) :
    ∃ g', p'.actor = .pciTarget g' ∧ g'.id = g.id ∧
      g'.served = g.served + if rising then (t.asks p.client.ident).toList.length else 0 := by
  have hadvances := hmoved.actor
  by_cases hacts : (rising && p.isOn) = true
  · obtain ⟨hrising, -⟩ := Bool.and_eq_true_iff.1 hacts
    rw [if_pos hacts, hactor] at hadvances
    generalize hactor' : p'.actor = a' at hadvances
    cases hadvances with
    | target _ g' id served => exact ⟨g', rfl, id, by rw [served, if_pos hrising]⟩
  · rw [if_neg hacts, hactor] at hadvances
    refine ⟨g, hadvances, rfl, ?_⟩
    cases rising with
    | false => rfl
    | true =>
      have hoff : p.isOn = false := by simpa using hacts
      have hnil : w.jobs = [] := by
        rcases hstays with hout | ⟨-, hnil⟩
        · rw [Player.isOn_of_outcome hout] at hoff
          cases hoff
        · exact hnil
      rw [h.reached.quiet hnil]
      rfl

/-- **A round.** The master gets on with its queries, and the targets count. -/
theorem round (h : l.Cast c queries stops n r done t w) (hidents : ∀ d ∈ c.devices, d.ident.toNat < arbiterSlots) {r' : Rig}
    (hmoves : Moves n r r' t pci t' pci') : ∃ done' w', done' ++ w'.jobs = done ++ w.jobs ∧
      l.Reached done' ((n + 1 + 3) / 4) t' w' ∧ ∀ p ∈ r'.players, l.Role queries stops (n + 1) done' t' w' p := by
  obtain ⟨g, hplayers, hmoved⟩ := hmoves.players
  obtain ⟨w', hmaster, hprogress⟩ := h.exists_progress hmoved
  have hnext := hmoves.next
  -- what is left to show, once it is known what is done
  suffices hdone : ∃ done', done' ++ w'.jobs = done ++ w.jobs ∧ l.Reached done' ((n + 1 + 3) / 4) t' w' ∧
      (∀ d ∈ l.targets, served d.ident done' t' = served d.ident done t +
        if decide (n % 4 = 0) then (t.asks d.ident).toList.length else 0) ∧ (w.jobs = [] → w'.jobs = []) by
    obtain ⟨done', hsplit, hreached, hserved, hnil⟩ := hdone
    refine ⟨done', w', hsplit, hreached, fun p' hp' => ?_⟩
    rw [hplayers] at hp'
    obtain ⟨p, hp, rfl⟩ := List.mem_map.1 hp'
    have hclient := (hmoved p hp).client
    have hout := (hmoved p hp).outcome
    cases h.roles p hp with
    | master ident _ leaves => exact .master (hclient.trans ident) (hmaster p hp ident) (hout.trans leaves)
    | target d mem ident gt actor word served stays told =>
      obtain ⟨gt', hactor', hid, hcount⟩ := h.served_moved (hmoved p hp) actor stays
      refine .target d mem (hclient.trans ident) gt' hactor' (hid.trans word) ?_ ?_ ?_
      · rw [hcount, served, hserved d mem, ident]
      · rw [hout]
        exact stays.imp_right fun hleft => ⟨hleft.1, hnil hleft.2⟩
      · rw [hout]
        exact told
  by_cases hn : n % 4 = 0
  · simp only [hn, decide_true, if_true] at hprogress hnext ⊢
    obtain ⟨rfl, value, hanswering, hnext⟩ := hnext
    have hvalue := h.answered hanswering
    have hreached := h.reached.edge (fun _ _ hrequests => h.of_requests hrequests) (fun hquiet q hq => by
      subst hquiet
      exact ⟨(h.requests_of_head hq).1, h.granted_of_head hidents hq pci⟩) hvalue hnext hprogress
    refine ⟨done ++ t.finished, ?_, ?_, fun d hd => h.reached.served_edge hvalue hnext hd, fun hnil => ?_⟩
    · rw [List.append_assoc, h.reached.finished_append hprogress]
    · rwa [show (n + 1 + 3) / 4 = (n + 3) / 4 + 1 by omega]
    · have hjobs := h.reached.finished_append hprogress
      rw [hnil] at hjobs
      exact (List.append_eq_nil_iff.1 hjobs).2
  · simp only [hn, decide_false, if_false, Bool.false_eq_true] at hprogress hnext ⊢
    obtain ⟨rfl, rfl⟩ := hnext
    subst hprogress
    refine ⟨done, rfl, ?_, fun _ _ => rfl, id⟩
    rw [show (n + 1 + 3) / 4 = (n + 3) / 4 by omega]
    exact h.reached

end Cast

/-! ### Courses of rounds -/

/-- A rig that has been run for some rounds, none of which failed, with some queries done. -/
structure Reads (c : BusConfig) (l : Lineup) (queries : List Query) (stops : Nat → Ident → Bool) (n : Nat) (r : Rig)
    (done : List Query) (t : Traffic) (w : Worker Master Query) (pci : Pci) : Prop where
  runs : Runs c n r t pci
  split : done ++ w.jobs = queries
  reached : l.Reached done ((n + 3) / 4) t w
  roles : ∀ p ∈ r.players, l.Role queries stops n done t w p

namespace Reads

theorem jobs_eq_nil_iff (h : l.Reads c queries stops n r done t w pci) : w.jobs = [] ↔ l.span queries ≤ n := by
  rw [h.reached.jobs_eq_nil_iff, h.split, span]
  omega

theorem of_mastersDone (h : l.Reads c queries stops n r done t w pci) (hdevices : c.devices.Perm l.devices)
    (hdone : Rig.mastersDone r.players = true) : w.jobs = [] := by
  obtain ⟨p, hp, hident⟩ := exists_player h.runs.seated hdevices List.mem_cons_self
  obtain ⟨hactor, hleaves⟩ := (h.roles p hp).of_master (distinct_of_seated h.runs.seated hdevices) hident
  have hleft := List.all_eq_true.1 hdone p hp
  by_cases hlast : l.span queries < n
  · exact h.jobs_eq_nil_iff.2 (Nat.le_of_lt hlast)
  · rw [if_neg hlast] at hleaves
    simpa [Player.isOn, hleaves, hactor, Actor.isMaster, Actor.isDone] using hleft

theorem cast (h : l.Reads c queries stops n r done t w pci) (hdevices : c.devices.Perm l.devices)
    (hstop : ∀ d ∈ l.targets, stops n d.ident = true → Rig.mastersDone r.players = true) :
    l.Cast c queries stops n (r.turns (stops n)) done t w := by
  obtain ⟨hseated, hplayers, -, -⟩ := h.runs.seated.turns (stops n)
  refine ⟨hdevices, hseated, h.runs.concerted_turns (stops n), fun q hq => ?_, h.reached, h.jobs_eq_nil_iff⟩
  rw [hplayers] at hq
  obtain ⟨p, hp, rfl⟩ := List.mem_map.1 hq
  exact (h.roles p hp).spoken (h.runs.attends p hp) h.jobs_eq_nil_iff fun d hd hs =>
    h.of_mastersDone hdevices (hstop d hd hs)

theorem round (h : l.Reads c queries stops n r done t w pci) (hdevices : c.devices.Perm l.devices)
    (hidents : ∀ d ∈ c.devices, d.ident.toNat < arbiterSlots) (ht : c.clock.fault? = none)
    (hfits : c.clock.walk (n + 1) < UInt64.size)
    (hstop : ∀ d ∈ l.targets, stops n d.ident = true → Rig.mastersDone r.players = true) :
    ∃ done' t' w' pci', l.Reads c queries stops (n + 1) (r.round (stops n)) done' t' w' pci' := by
  rcases h.runs.round hidents ht (stops n) with ⟨t', pci', hruns, hmoves⟩ | ⟨⟨cause, hfailed⟩, -⟩
  · obtain ⟨done', w', hsplit, hreached, hroles⟩ := (h.cast hdevices hstop).round hidents hmoves
    exact ⟨done', t', w', pci', hruns, hsplit.trans h.split, hreached, hroles⟩
  · exact absurd hfailed (h.runs.not_failed ht hfits (stops n))

end Reads

/-- The models of a lineup, by the names of their devices. -/
def actors (l : Lineup) (queries : List Query) : List (String × Actor) :=
  (l.master.name, .ofQueries queries) :: l.targets.map fun d => (d.name, .pciTarget (.fresh (l.word d).toNat))

theorem reads_joinAll {start : Bus} {actors : List (String × Actor)} (hstart : Bus.ofConfig c = .ok start)
    (hpci : c.protocol = .pci) (hdevices : c.devices.Perm l.devices) (hactors : actors.Perm (l.actors queries))
    (hvalid : ∀ q ∈ queries, q.Valid) (stops : Nat → Ident → Bool) :
    ∃ pci, l.Reads c queries stops 0 (Rig.joinAll start 0 actors) [] .quiet (.begin Master.start .fresh queries []) pci := by
  have hstaffed : Participants.Staffed c.devices start.participants := (Bus.Course.nil).staffed hstart
  have hnames : (actors.map (·.1)).Perm (c.devices.map (·.name)) := by
    refine (hactors.map Prod.fst).trans (.trans (.of_eq ?_) (hdevices.map (·.name)).symm)
    simp [Lineup.actors, devices]
  have hfresh : ∀ a ∈ actors, Fresh a.2 := by
    intro a ha
    rcases List.mem_cons.1 (hactors.mem_iff.1 ha) with rfl | ha
    · exact .master queries hvalid
    · obtain ⟨d, -, rfl⟩ := List.mem_map.1 ha
      exact .target _ (l.word d).toNat_lt
  obtain ⟨⟨pci, hruns⟩, henters⟩ := runs_joinAll hstart hpci hnames hfresh
  refine ⟨pci, hruns, (Worker.jobs_begin Master.start .fresh queries []).1, reached_begin queries, fun p hp => ?_⟩
  obtain ⟨a, ha, e, he, hname, hactor, hclient, -, hout⟩ := Rig.exists_enters henters hp
  have hident : p.client.ident = e.ident := by rw [hclient]; rfl
  rcases List.mem_cons.1 (hactors.mem_iff.1 ha) with rfl | ha
  · obtain rfl := hstaffed.eq_of_name_eq he (hdevices.mem_iff.2 List.mem_cons_self) hname
    exact .master hident hactor hout
  · obtain ⟨d, hd, rfl⟩ := List.mem_map.1 ha
    obtain rfl := hstaffed.eq_of_name_eq he (hdevices.mem_iff.2 (List.mem_cons_of_mem _ hd)) hname
    exact .target e hd hident _ hactor rfl rfl (.inl hout) fun m hm => absurd hm (Nat.not_lt_zero m)

theorem Reads.after (hdevices : c.devices.Perm l.devices) (hidents : ∀ d ∈ c.devices, d.ident.toNat < arbiterSlots)
    (ht : c.clock.fault? = none) (h : l.Reads c queries stops 0 r done t w pci) (hfits : c.clock.walk n < UInt64.size)
    (hstops : ∀ m < n, ∀ d ∈ l.targets, stops m d.ident = true → Rig.mastersDone (r.after stops m).players = true) :
    ∃ done' t' w' pci', l.Reads c queries stops n (r.after stops n) done' t' w' pci' := by
  induction n with
  | zero => exact ⟨done, t, w, pci, h⟩
  | succ n ih =>
    obtain ⟨_, _, _, _, hreads⟩ := ih ((ClockTiming.walk_lt_succ ht n).trans hfits)
      fun m hm => hstops m (Nat.lt_succ_of_lt hm)
    exact hreads.round hdevices hidents ht hfits (hstops n (Nat.lt_succ_self n))

/-- What a master and some targets have come to after some rounds. In round `m` the players of `stops m` are told to
stop. -/
structure Answers (l : Lineup) (queries : List Query) (stops : Nat → Ident → Bool) (n : Nat) (players : List Player) :
    Prop where
  /-- No read fails, and each takes its clocks, no more and no less. The master leaves after the last one. -/
  master : ∃ p ∈ players, p.client.ident = l.master.ident ∧ ∃ results : List Nat,
    p.actor.results p.fault? = results.map .ok ∧ List.Forall₂ l.Brings (queries.take results.length) results ∧
    (∀ k ≤ queries.length, k ≤ results.length ↔ l.span (queries.take k) ≤ n) ∧
    p.outcome = if l.span queries < n then some (.ok ()) else none
  /-- A target leaves when it is told to, and has counted the reads of it then. -/
  targets : ∀ d ∈ l.targets, ∃ p ∈ players, p.client.ident = d.ident ∧ ∃ g, p.actor = .pciTarget g ∧
    (l.span queries ≤ n → g.served = queries.countP fun q => q.target = d.ident.toNat) ∧
    (p.outcome = none ∨ p.outcome = some (.ok ()) ∧ l.span queries ≤ n) ∧
    ∀ m < n, stops m d.ident = true → m = 0 ∨ m % 4 = 1 → p.outcome = some (.ok ())

theorem Reads.answers (h : l.Reads c queries stops n r done t w pci) (hdevices : c.devices.Perm l.devices) :
    l.Answers queries stops n r.players := by
  have hdistinct := distinct_of_seated h.runs.seated hdevices
  have hlength : w.results.length = done.length := by rw [h.reached.results, List.length_map]
  have hdone : queries.take w.results.length = done := by rw [hlength, ← h.split, List.take_left]
  constructor
  · obtain ⟨p, hp, hident⟩ := exists_player h.runs.seated hdevices List.mem_cons_self
    obtain ⟨hactor, hleaves⟩ := (h.roles p hp).of_master hdistinct hident
    have hfault : p.fault? = none := by
      rw [Player.fault?, hleaves]
      by_cases hn : l.span queries < n
      · rw [if_pos hn]
      · rw [if_neg hn]
    refine ⟨p, hp, hident, w.results, ?_, ?_, fun k hk => ?_, hleaves⟩
    · rw [hactor, hfault, Actor.results, Actor.results.report, List.append_nil]
    · rw [hdone, h.reached.results, List.forall₂_map_right_iff]
      exact List.forall₂_same.2 fun q _ => brings_result hdistinct q
    · have hedges := h.reached.le_done_iff (k := k) (by rwa [h.split])
      rw [h.split] at hedges
      rw [hlength, hedges, span]
      omega
  · intro d hd
    obtain ⟨p, hp, hident⟩ := exists_player h.runs.seated hdevices (List.mem_cons_of_mem _ hd)
    obtain ⟨g, hactor, -, hserved, hstays, htold⟩ := (h.roles p hp).of_target hdistinct hd hident
    refine ⟨p, hp, hident, g, hactor, fun hspan => ?_, hstays.imp_right fun ⟨hout, hnil⟩ =>
      ⟨hout, h.jobs_eq_nil_iff.1 hnil⟩, htold⟩
    have hnil := h.jobs_eq_nil_iff.2 hspan
    have hall := h.split
    rw [hnil, List.append_nil] at hall
    rw [hserved, h.reached.quiet hnil, hall]
    rfl

end Lineup

end Pci

namespace Rig

open Pci

/-- **Reads.** A master and some targets share a PCI bus, whatever the clock and as long as the time lasts. The targets are
told to stop when the master is done. -/
theorem answers_reads {c : BusConfig} {start : Bus} {l : Lineup} {queries : List Query} {actors : List (String × Actor)}
    {stops : Nat → Ident → Bool} {n : Nat} (hstart : Bus.ofConfig c = .ok start) (hpci : c.protocol = .pci)
    (hdevices : c.devices.Perm l.devices) (hactors : actors.Perm (l.actors queries)) (hvalid : ∀ q ∈ queries, q.Valid)
    (hstops : ∀ m < n, ∀ d ∈ l.targets, stops m d.ident = true →
      mastersDone ((joinAll start 0 actors).after stops m).players = true)
    (hfits : c.clock.walk n < UInt64.size) : l.Answers queries stops n ((joinAll start 0 actors).after stops n).players := by
  obtain ⟨pci, hreads⟩ := Lineup.reads_joinAll hstart hpci hdevices hactors hvalid stops
  obtain ⟨done, t, w, pci, hreads⟩ := hreads.after hdevices (fun _ => ident_lt hstart hpci)
    (Bus.fault?_eq_none (Bus.ofConfig_spec hstart).1) hfits hstops
  exact hreads.answers hdevices

/-! ### One target -/

def oneTarget : Lineup where
  master := ⟨"host", 0, true⟩
  targets := [⟨"card", 1, false⟩]
  word := fun _ => 305419896

/-- Two registers of the target, and a device that is not there. -/
def threeReads : List Query := [⟨1, 0⟩, ⟨1, 3⟩, ⟨5, 0⟩]

def stopLast (m : Nat) (_ : Ident) : Bool := m = 61

/-- The target answers two reads, and the third one is aborted. -/
theorem three_reads_are_answered :
    let players := ((joinAll (idlePciBus .standard oneTarget.devices) 0 (oneTarget.actors threeReads)).after stopLast
      62).players
    (∃ p ∈ players, p.actor.results p.fault? = [.ok 305419896, .ok 0, .ok 4294967295]) ∧
      ∃ p ∈ players, p.outcome = some (.ok ()) ∧ ∃ g, p.actor = .pciTarget g ∧ g.served = 2 := by
  have hdone : mastersDone ((joinAll (idlePciBus .standard oneTarget.devices) 0 (oneTarget.actors threeReads)).after
      stopLast 61).players = true := by
    decide +kernel
  have hstops : ∀ m < 62, ∀ d ∈ oneTarget.targets, stopLast m d.ident = true → mastersDone ((joinAll
      (idlePciBus .standard oneTarget.devices) 0 (oneTarget.actors threeReads)).after stopLast m).players = true := by
    intro m _ d _ hm
    obtain rfl : m = 61 := of_decide_eq_true hm
    exact hdone
  obtain ⟨⟨p, hp, -, results, hresults, hbrings, hall, -⟩, htargets⟩ :=
    answers_reads (c := pciBus .standard oneTarget.devices) (l := oneTarget) (by rfl) rfl (.refl _) (.refl _)
      (by decide : ∀ q ∈ threeReads, q.Valid) hstops (by decide)
  have hthree := (hall 3 (by decide)).2 (by decide)
  rw [List.take_of_length_le (show threeReads.length ≤ results.length from hthree)] at hbrings
  obtain ⟨q, hq, -, g, hactor, hserved, -, htold⟩ := htargets _ (List.mem_singleton_self _)
  refine ⟨⟨p, hp, ?_⟩, q, hq, htold 61 (by decide) rfl (by decide), g, hactor, hserved (by decide)⟩
  cases hbrings with
  | cons h₁ hbrings =>
    cases hbrings with
    | cons h₂ hbrings =>
      cases hbrings with
      | cons h₃ hbrings =>
        cases hbrings
        rw [hresults, h₁.word _ (List.mem_singleton_self _) rfl rfl, h₂.other _ (List.mem_singleton_self _) rfl (by decide),
          h₃.abort (by decide)]
        rfl

/-- Two reads do not return what the target holds. With a slow clock the time runs out within the first one, and the master
is cut off. And a target takes register 64 for register 0, since it is told the lowest six digits of the number only. -/
theorem reads_fall_short :
    (∃ p ∈ ((joinAll (idlePciBus slowestClock oneTarget.devices) 0 (oneTarget.actors [⟨1, 0⟩])).after (fun _ _ => false)
      5).players, p.actor.results p.fault? = [.error .disconnected]) ∧
    ∃ p ∈ ((joinAll (idlePciBus .standard oneTarget.devices) 0 (oneTarget.actors [⟨1, 64⟩])).after (fun _ _ => false)
      13).players, p.actor.results p.fault? = [.ok 305419896] := by
  decide +kernel

end Rig

end Lockstep
