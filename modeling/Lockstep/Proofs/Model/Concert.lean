import Lockstep.Proofs.Bus.Grant
import Lockstep.Proofs.Bus.SharedWires
import Lockstep.Proofs.Model.Round
import Lockstep.Proofs.Model.Traffic
/-!
# Players that follow the traffic

When all players on a PCI bus follow the traffic, each shared signal has one driver at most, so the wires carry what that
one drives (`Pci.resolve_of_sole`, `Pci.Concerted.carries`). Everybody sees these wires, and so everybody follows the
traffic again after the next edge (`Pci.Plays.edge`).
-/

namespace Lockstep

namespace Pci

/-! ### Concerted players -/

/-- A model that does what the traffic says, and that has been asked for something that makes sense. -/
inductive Plays (t : Traffic) (i : Ident) : Actor → Prop where
  | master (w : Worker Master Query) (follows : Master.Follows t i w) (valid : ∀ q ∈ w.jobs, q.Valid) :
      Plays t i (.pciMaster w)
  | target (g : Target) (follows : Target.Follows t i g) (bounded : g.id < 2 ^ 32) : Plays t i (.pciTarget g)

/-- All players on the bus do what the traffic says, and the master whose cycle is in progress is among them. -/
structure Concerted (t : Traffic) (players : List Player) : Prop where
  plays : ∀ p ∈ players, p.isOn = true → Plays t p.client.ident p.actor
  owner : ∀ i, t.owner = some i → ∃ p ∈ players, p.isOn = true ∧ p.client.ident = i ∧ p.actor.isMaster = true

variable {t t' : Traffic} {i : Ident} {players : List Player} {p : Player}

theorem Plays.owning {a : Actor} (h : Plays t i a) (hmaster : a.isMaster = true) (howner : t.owner = some i) :
    ∃ w, a = .pciMaster w ∧ w.jobs.head? = t.query? ∧ Lines w.model.drive .one t.frame t.irdy t.ad t.cbe ∧
      ∀ q ∈ w.jobs, q.Valid := by
  cases h with
  | master w follows valid =>
    cases follows with
    | resting other | requesting other => exact absurd howner other
    | owning own first cycle lines => exact ⟨w, rfl, first, lines, valid⟩
  | target => cases hmaster

theorem Traffic.exists_owner {q : Query} (h : t.query? = some q) : ∃ i, t.owner = some i := by
  cases t with
  | quiet => cases h
  | address i | data i | last i => exact ⟨i, rfl⟩

theorem Traffic.exists_query (h : t.owner = some i) : ∃ q, t.query? = some q := by
  cases t with
  | quiet => cases h
  | address _ q | data _ q | last _ q => exact ⟨q, rfl⟩

theorem Concerted.valid (h : Concerted t players) {q : Query} (hq : t.query? = some q) : q.Valid := by
  obtain ⟨i, howner⟩ := Traffic.exists_owner hq
  obtain ⟨p, hp, hon, rfl, hmaster⟩ := h.owner i howner
  obtain ⟨w, -, hfirst, -, hvalid⟩ := (h.plays p hp hon).owning hmaster howner
  exact hvalid q (List.mem_of_mem_head? (hfirst.trans hq))

theorem Concerted.spoken (h : Concerted t players) (stop : Ident → Bool) :
    Concerted t (players.map (Player.spoken stop)) := by
  refine ⟨fun q hq hon => ?_, fun i howner => ?_⟩
  · obtain ⟨p, hp, rfl⟩ := List.mem_map.1 hq
    rw [Player.client_spoken, Player.actor_spoken]
    exact h.plays p hp (Player.isOn_of_spoken hon)
  · obtain ⟨p, hp, hon, rfl, hmaster⟩ := h.owner i howner
    obtain ⟨w, hactor, hfirst, -⟩ := (h.plays p hp hon).owning hmaster howner
    obtain ⟨q, hq⟩ := Traffic.exists_query howner
    have hbusy : p.actor.isDone = false := by
      obtain ⟨jobs, hjobs⟩ := List.head?_eq_some_iff.1 (hfirst.trans hq)
      rw [hactor, Actor.isDone, hjobs]
      rfl
    have hstays : Rig.leaves stop p = false := by rw [Rig.leaves, hmaster, hbusy, if_pos rfl, Bool.and_false]
    refine ⟨_, List.mem_map_of_mem hp, ?_, by rw [Player.client_spoken], by rw [Player.actor_spoken, hmaster]⟩
    rw [Player.spoken, hon, hstays]
    exact hon

/-! ### The answer -/

/-- The answer that is on the wires: that of the target which the traffic asks, if it is on the bus. -/
structure Answering (t : Traffic) (players : List Player) (value : Option Nat) : Prop where
  given : ∀ p ∈ players, p.isOn = true → ∀ g q, p.actor = .pciTarget g → t.asks p.client.ident = some q →
    value = some (answer g.id q)
  source : ∀ n, value = some n → ∃ p ∈ players, p.isOn = true ∧ ∃ g q, p.actor = .pciTarget g ∧
    t.asks p.client.ident = some q ∧ n = answer g.id q

theorem Traffic.asks_eq_some {q : Query} (h : t.asks i = some q) :
    q.target = i.toNat ∧ ∃ j, t = .data j q 0 := by
  cases t with
  | data j q' clocks =>
    cases clocks with
    | zero =>
      rw [asks] at h
      split at h
      · next htarget =>
        cases h
        exact ⟨htarget, j, rfl⟩
      · cases h
    | succ clocks => cases h
  | quiet | address | last => cases h

theorem exists_answering (hidents : ∀ p ∈ players, ∀ q ∈ players, p.client.ident = q.client.ident → p = q) :
    ∃ value, Answering t players value := by
  by_cases hasked : ∃ p ∈ players, p.isOn = true ∧ ∃ g q, p.actor = .pciTarget g ∧ t.asks p.client.ident = some q
  · obtain ⟨p, hp, hon, g, q, hactor, hasks⟩ := hasked
    refine ⟨some (answer g.id q), fun p' hp' _ g' q' hactor' hasks' => ?_, fun n hn => ?_⟩
    · obtain ⟨htarget, j, hdata⟩ := Traffic.asks_eq_some hasks
      obtain ⟨htarget', j', hdata'⟩ := Traffic.asks_eq_some hasks'
      rw [hdata] at hdata'
      cases hdata'
      obtain rfl := hidents p hp p' hp' (UInt32.toNat_inj.1 (htarget.symm.trans htarget'))
      rw [hactor] at hactor'
      cases hactor'
      rfl
    · cases hn
      exact ⟨p, hp, hon, g, q, hactor, hasks, rfl⟩
  · exact ⟨none, fun p hp hon g q hactor hasks => absurd ⟨p, hp, hon, g, q, hactor, hasks⟩ hasked, fun n hn => by cases hn⟩

/-! ### What is on the wires -/

theorem resolve_of_sole {ps : Participants} (hmatched : Matched ps) {name : String} {width : Nat}
    (hwire : (name, width) ∈ sharedWires) {v : Bundle} (hwidth : v.width = width)
    (honly : ∀ s ∈ ps.values, s.drives name = v ∨ s.drives name = .released width)
    (hsome : v = .released width ∨ ∃ s ∈ ps.values, s.drives name = v) : resolve ps name width = v := by
  refine Bundle.ext_getD ((width_resolve _ _ _).trans hwidth.symm) fun n _ => ?_
  have hlevel : ∀ l ∈ (ps.values.map (·.drives name)).map (·.getD n), l ≠ .released → l = v.getD n := by
    intro l hl hne
    obtain ⟨w, hw, rfl⟩ := List.mem_map.1 hl
    obtain ⟨s, hs, rfl⟩ := List.mem_map.1 hw
    rcases honly s hs with heq | heq
    · rw [heq]
    · rw [heq, Bundle.getD_released] at hne
      exact absurd rfl hne
  have hresolves := hmatched.resolves hwire n
  generalize (resolve ps name width).getD n = level at hresolves
  cases hresolves with
  | undriven h =>
    rcases hsome with rfl | ⟨s, hs, rfl⟩
    · rw [Bundle.getD_released]
    · exact (h _ (List.mem_map_of_mem (List.mem_map_of_mem hs))).symm
  | agreed driven definite => exact hlevel level driven definite
  | contested hv hw driven driven' conflict => exact absurd ((hlevel _ hv driven).trans (hlevel _ hw driven').symm) conflict

variable {r : Rig} {devices : List Device} {ps : Participants} {value granted : Option Nat}

theorem drives_eq (h : r.Seated devices driven true) (hp : p ∈ r.players) {s : Slot}
    (hs : r.bus.participants.get? p.client.ident = some s) {name : String} {width : Nat}
    (hwire : (name, width) ∈ sharedWires) : s.drives name = p.wires name width := by
  obtain ⟨s', hs', hseat⟩ := h.seats p hp
  rw [hs] at hs'
  cases hs'
  exact (hseat.drives_eq (by rw [hseat.widths]; exact get?_driven hwire s.device)).1

theorem matched_of_seated (h : r.Seated devices driven true) : Matched r.bus.participants := by
  intro name width hwire s hs
  obtain ⟨i, hi⟩ := SortedMap.mem_values_iff.1 hs
  obtain ⟨p, -, -, hseat⟩ := h.player hi
  exact hseat.fits.width_drives (by rw [hseat.widths]; exact get?_driven hwire s.device)

theorem resolve_eq_of_sole (h : r.Seated devices driven true) {name : String} {width : Nat}
    (hwire : (name, width) ∈ sharedWires) {v : Bundle} (hwidth : v.width = width)
    (honly : ∀ p ∈ r.players, p.isOn = true → p.wires name width = v ∨ p.wires name width = .released width)
    (hsome : v = .released width ∨ ∃ p ∈ r.players, p.wires name width = v) :
    resolve r.bus.participants name width = v := by
  refine resolve_of_sole (matched_of_seated h) hwire hwidth (fun s hs => ?_) (hsome.imp_right ?_)
  · obtain ⟨i, hi⟩ := SortedMap.mem_values_iff.1 hs
    obtain ⟨p, hp, rfl, -⟩ := h.player hi
    rw [drives_eq h hp hi hwire]
    cases hon : p.isOn with
    | true => exact honly p hp hon
    | false =>
      exact .inr (p.wires_of_off hon name width)
  · rintro ⟨p, hp, hdrives⟩
    obtain ⟨s, hs, -⟩ := h.seats p hp
    exact ⟨s, SortedMap.mem_values_iff.2 ⟨_, hs⟩, by rw [drives_eq h hp hs hwire, hdrives]⟩

theorem Plays.master_wires {w : Worker Master Query} (h : Plays t i (.pciMaster w)) :
    (t.owner = some i → Lines w.model.drive .one t.frame t.irdy t.ad t.cbe) ∧
      (t.owner ≠ some i → ∃ req, Lines w.model.drive req .released .released (.released 64) (.released 8)) := by
  cases h with
  | master _ follows =>
    cases follows with
    | resting other jobs cycle lines => exact ⟨fun h => absurd h other, fun _ => ⟨_, lines⟩⟩
    | requesting other q first cycle lines => exact ⟨fun h => absurd h other, fun _ => ⟨_, lines⟩⟩
    | owning own first cycle lines => exact ⟨fun _ => lines, fun h => absurd own h⟩

theorem Plays.target_replies {g : Target} (h : Plays t i (.pciTarget g)) :
    Replies g.drive ((t.asks i).map (answer g.id)) := by
  cases h with
  | target _ follows => exact follows.replies

namespace Concerted

variable {name : String} {width : Nat} {v : Bundle}

theorem wires_eq (hseated : r.Seated devices driven true) (hp : p ∈ r.players) (hon : p.isOn = true) (name : String)
    (width : Nat) : p.wires name width = p.actor.drive.wires name width ∧ p.actor.drive.Within p.actor.reach := by
  obtain ⟨s, -, hseat⟩ := hseated.seats p hp
  exact ⟨by rw [Player.wires, Player.driving, if_pos hon], hseat.within⟩

theorem resolve_of_masters (h : Concerted t r.players) (hseated : r.Seated devices driven true)
    (hwire : (name, width) ∈ sharedWires) (hwidth : v.width = width)
    (htarget : ∀ i g, Plays t i (.pciTarget g) → g.drive.Within Target.reach → g.drive.wires name width = .released width)
    (hown : ∀ drive, Lines drive .one t.frame t.irdy t.ad t.cbe → drive.wires name width = v)
    (hother : ∀ drive req, Lines drive req .released .released (.released 64) (.released 8) →
      drive.wires name width = .released width)
    (hquiet : t.owner = none → v = .released width) : resolve r.bus.participants name width = v := by
  refine resolve_eq_of_sole hseated hwire hwidth (fun p hp hon => ?_) ?_
  · obtain ⟨hwires, hwithin⟩ := wires_eq hseated hp hon name width
    have hplays := h.plays p hp hon
    rw [hwires]
    cases hactor : p.actor with
    | pciMaster w =>
      rw [hactor] at hplays
      by_cases howner : t.owner = some p.client.ident
      · exact .inl (hown _ (hplays.master_wires.1 howner))
      · obtain ⟨req, hlines⟩ := hplays.master_wires.2 howner
        exact .inr (hother _ req hlines)
    | pciTarget g =>
      rw [hactor] at hwithin hplays
      exact .inr (htarget _ g hplays hwithin)
    | axi4Master w | axi4Memory m =>
      rw [hactor] at hplays
      cases hplays
  · cases howner : t.owner with
    | none => exact .inl (hquiet howner)
    | some i =>
      obtain ⟨p, hp, hon, rfl, hmaster⟩ := h.owner i howner
      obtain ⟨w, hactor, -, hlines, -⟩ := (h.plays p hp hon).owning hmaster howner
      refine .inr ⟨p, hp, ?_⟩
      rw [(wires_eq hseated hp hon name width).1, hactor]
      exact hown _ hlines

theorem resolve_of_targets (h : Concerted t r.players) (hseated : r.Seated devices driven true)
    (hanswering : Answering t r.players value) (hwire : (name, width) ∈ sharedWires) (wires : Option Nat → Bundle)
    (hwidth : (wires value).width = width) (hnone : wires none = .released width)
    (hmaster : ∀ i w, Plays t i (.pciMaster w) → w.model.drive.Within Master.reach →
      w.model.drive.wires name width = .released width)
    (hreplies : ∀ drive value, Replies drive value → drive.wires name width = wires value) :
    resolve r.bus.participants name width = wires value := by
  refine resolve_eq_of_sole hseated hwire hwidth (fun p hp hon => ?_) ?_
  · obtain ⟨hwires, hwithin⟩ := wires_eq hseated hp hon name width
    have hplays := h.plays p hp hon
    rw [hwires]
    cases hactor : p.actor with
    | pciMaster w =>
      rw [hactor] at hwithin hplays
      exact .inr (hmaster _ w hplays hwithin)
    | pciTarget g =>
      rw [hactor] at hplays
      have hwired := hreplies _ _ hplays.target_replies
      cases hasks : t.asks p.client.ident with
      | none =>
        rw [hasks] at hwired
        exact .inr (hwired.trans hnone)
      | some q =>
        rw [hasks] at hwired
        rw [hanswering.given p hp hon g q hactor hasks]
        exact .inl hwired
    | axi4Master w | axi4Memory m =>
      rw [hactor] at hplays
      cases hplays
  · cases hvalue : value with
    | none => exact .inl hnone
    | some n =>
      obtain ⟨p, hp, hon, g, q, hactor, hasks, rfl⟩ := hanswering.source n hvalue
      have hplays := h.plays p hp hon
      rw [hactor] at hplays
      have hwired := hreplies _ _ hplays.target_replies
      rw [hasks] at hwired
      refine .inr ⟨p, hp, ?_⟩
      rw [(wires_eq hseated hp hon name width).1, hactor]
      exact hwired

/-- **The wires.** Everything on the shared wires is what the traffic says. -/
theorem carries (h : Concerted t r.players) (hseated : r.Seated devices driven true)
    (hanswering : Answering t r.players value) : Carries t value r.bus.participants := by
  have hquiet : t.owner = none → t = .quiet := by
    intro hnone
    cases t with
    | quiet => rfl
    | address | data | last => cases hnone
  refine ⟨?_, ?_, ?_, ?_, ?_, ?_⟩
  · exact h.resolve_of_masters hseated (by decide) rfl (fun _ _ _ hwithin => hwithin.wires_eq (by decide) _)
      (fun _ hlines => hlines.frame) (fun _ _ hlines => hlines.frame) fun hnone => by rw [hquiet hnone]; rfl
  · exact h.resolve_of_masters hseated (by decide) rfl (fun _ _ _ hwithin => hwithin.wires_eq (by decide) _)
      (fun _ hlines => hlines.irdy) (fun _ _ hlines => hlines.irdy) fun hnone => by rw [hquiet hnone]; rfl
  · refine h.resolve_of_masters hseated (by decide) ?_ (fun _ _ _ hwithin => hwithin.wires_eq (by decide) _)
      (fun _ hlines => hlines.cbe) (fun _ _ hlines => hlines.cbe) fun hnone => by rw [hquiet hnone]; rfl
    cases t <;> rfl
  · exact h.resolve_of_targets hseated hanswering (by decide) (fun value => .ofLevel (readyLevel value)) rfl rfl
      (fun _ _ _ hwithin => hwithin.wires_eq (by decide) _) fun _ _ hreplies => hreplies.devsel
  · exact h.resolve_of_targets hseated hanswering (by decide) (fun value => .ofLevel (readyLevel value)) rfl rfl
      (fun _ _ _ hwithin => hwithin.wires_eq (by decide) _) fun _ _ hreplies => hreplies.trdy
  · by_cases haddress : ∃ i q, t = .address i q
    · -- nobody answers yet
      obtain ⟨i, q, rfl⟩ := haddress
      exact h.resolve_of_masters hseated (by decide) (width_lowPart _ _ _) (fun _ _ hplays _ => hplays.target_replies.ad)
        (fun _ hlines => hlines.ad) (fun _ _ hlines => hlines.ad) fun hnone => by cases hnone
    · -- the master has let go of the address wires
      have hwires : t.ad = .released 64 ∧ t.wiresAd value = replyWires value := by
        cases t with
        | address i q => exact absurd ⟨i, q, rfl⟩ haddress
        | quiet | data | last => exact ⟨rfl, rfl⟩
      rw [hwires.2]
      refine h.resolve_of_targets hseated hanswering (by decide) replyWires ?_ rfl (fun i w hplays _ => ?_)
        fun _ _ hreplies => hreplies.ad
      · cases value with
        | none => rfl
        | some n => exact width_lowPart n 32 64
      · by_cases howner : t.owner = some i
        · rw [(hplays.master_wires.1 howner).ad, hwires.1]
        · obtain ⟨req, hlines⟩ := hplays.master_wires.2 howner
          exact hlines.ad

end Concerted

/-! ### What everybody sees -/

theorem seen_released {wires : Bundle} {width : Nat} (h : wires.width = width) :
    seen wires (.released width) = wires := by
  have hwidth : wires.width = (Bundle.released width).width := h.trans (Bundle.width_released width).symm
  obtain ⟨v, hv, hvwidth⟩ := Bundle.exists_zip_eq_ok (f := Level.seenBy) hwidth
  have hv : wires.seenBy (.released width) = .ok v := hv
  rw [seen, hv]
  refine Bundle.ext_getD (hvwidth.trans hwidth.symm) fun n _ => ?_
  rw [Bundle.getD_of_seenBy_eq_ok hv, Bundle.getD_released, Level.seenBy]
  split
  · next heq => exact heq.symm
  · rfl

theorem sees (hseated : r.Seated devices driven true) (hmuted : ps.muted = r.bus.participants.muted) (pci : Pci)
    (level : Level) (hp : p ∈ r.players) (hon : p.isOn = true) :
    let seen := ((Engine.pci pci).deliver level ps).shown p.client.ident
    Sees seen r.bus.participants pci.arbiter.granted p.actor.drive p.client.ident ∧ seen.bit clockName = level := by
  obtain ⟨slot, hslot, hseat⟩ := hseated.seats p hp
  obtain ⟨s, hs, hsame⟩ := Participants.exists_of_muted_eq hmuted.symm hslot
  have hkept := Slot.kept_of_muted_eq hsame
  have hident : s.ident = p.client.ident := by rw [Slot.ident, ← hkept.device]; exact hseat.ident
  have hresolve : ∀ name width, resolve ps name width = resolve r.bus.participants name width :=
    resolve_of_muted_eq hmuted
  have hshown : ((Engine.pci pci).deliver level ps).shown p.client.ident =
      s.outgoing.insertMany (deliveries ps pci.arbiter.granted level s) := Engine.shown_deliver _ _ hs
  dsimp only
  refine ⟨⟨fun name width hwire hdrive => ?_, ?_, ?_⟩, ?_⟩
  · have hdrives : s.drives name = .released width := by
      rw [← hkept.drives, drives_eq hseated hp hslot hwire, (Concerted.wires_eq hseated hp hon name width).1, hdrive]
    rw [hshown, get?_deliveries hwire, hdrives, hresolve, seen_released (width_resolve _ _ _)]
  · have hmem : ("IDSEL", Bundle.ofLevel (idsel ps s.ident)) ∈ deliveries ps pci.arbiter.granted level s := by
      simp [deliveries]
    rw [hshown, Signals.bit_eq (get?_insertMany_deliveries hmem _), hident, idsel, idsel, hresolve]
    rfl
  · exact Signals.bit_eq (get?_grant pci level hs hident)
  · have hmem : (clockName, Bundle.ofLevel level) ∈ deliveries ps pci.arbiter.granted level s := by simp [deliveries]
    rw [hshown, Signals.bit_eq (get?_insertMany_deliveries hmem _)]
    rfl

/-! ### Edges -/

/-- A master asks for the bus, for the sake of a query. -/
def Requests (players : List Player) (i : Ident) (q : Query) : Prop :=
  ∃ p ∈ players, p.isOn = true ∧ p.client.ident = i ∧ ∃ w, p.actor = .pciMaster w ∧ w.model.cycle = .requesting q

/-- What comes of the work of a model at an edge: a master gets on with its queries, and a target counts its answers. -/
inductive Advances (t : Traffic) (i : Ident) : Actor → Actor → Prop where
  | master (w w' : Worker Master Query) (progress : Master.Progress w w' (t.result? i)) :
      Advances t i (.pciMaster w) (.pciMaster w')
  | target (g g' : Target) (id : g'.id = g.id) (served : g'.served = g.served + (t.asks i).toList.length) :
      Advances t i (.pciTarget g) (.pciTarget g')

/-- **An edge.** Whoever does what the traffic says does so after the next edge. -/
theorem Plays.edge {a : Actor} (h : Plays t i a) {seen : Signals} (hwithin : a.drive.Within a.reach)
    (hcarries : Carries t value ps) (hsees : Sees seen ps granted a.drive i) (hi : i.toNat < arbiterSlots)
    (hvalid : ∀ q, t.query? = some q → q.Valid) {requests : Ident → Query → Prop}
    (hnext : t.Next requests granted value t')
    (hself : ∀ w, a = .pciMaster w → ∀ q, requests i q ↔ w.model.cycle = .requesting q)
    (hvalue : ∀ n, value = some n → n < 2 ^ 32) :
    ∃ a', a.edge seen = .ok a' ∧ Plays t' i a' ∧ Advances t i a a' := by
  cases h with
  | master w follows valid =>
    obtain ⟨w', hedge, hfollows, hprogress⟩ := follows.edge hwithin hcarries hsees hnext (hself w rfl) hvalue
    refine ⟨.pciMaster w', by rw [Actor.edge, hedge]; rfl, .master w' hfollows fun q hq => valid q ?_,
      .master w w' hprogress⟩
    cases hresult : t.result? i with
    | none =>
      rw [hresult] at hprogress
      rwa [← hprogress.1]
    | some n =>
      rw [hresult] at hprogress
      rw [hprogress.1] at hq
      exact List.mem_of_mem_tail hq
  | target g follows bounded =>
    obtain ⟨g', hedge, hfollows, hid, hserved⟩ := follows.edge hwithin hcarries hsees hi hvalid hnext
    exact ⟨.pciTarget g', by rw [Actor.edge, hedge]; rfl, .target g' hfollows (hid ▸ bounded), .target g g' hid hserved⟩

/-! ### The engine -/

/-- The master that the engine keeps track of. It notices a cycle at the edge after the address. -/
def Traffic.tracked : Traffic → Option Ident
  | quiet | address _ _ => none
  | data i _ _ | last i _ _ => some i

/-- The engine knows of the traffic, and whoever has put an address on the wires holds the grant. -/
structure Tracks (t : Traffic) (pci : Pci) : Prop where
  master : pci.master = t.tracked
  grant : ∀ i q, t = .address i q → pci.arbiter.granted = some i.toNat

theorem Concerted.frame_wires (h : Concerted t r.players) (hseated : r.Seated devices driven true) (hp : p ∈ r.players) :
    p.wires "FRAME#" 1 = .ofLevel (if t.owner = some p.client.ident then t.frame else .released) := by
  by_cases howner : t.owner = some p.client.ident
  · obtain ⟨p', hp', hon, hident, hmaster⟩ := h.owner _ howner
    obtain rfl := hseated.eq_of_ident_eq hp' hp hident
    obtain ⟨w, hactor, -, hlines, -⟩ := (h.plays p' hp hon).owning hmaster howner
    rw [if_pos howner, (wires_eq hseated hp hon _ _).1, hactor]
    exact hlines.frame
  · rw [if_neg howner]
    cases hon : p.isOn with
    | false =>
      exact p.wires_of_off hon _ _
    | true =>
      obtain ⟨hwires, hwithin⟩ := wires_eq hseated hp hon "FRAME#" 1
      have hplays := h.plays p hp hon
      rw [hwires]
      cases hactor : p.actor with
      | pciMaster w =>
        rw [hactor] at hplays
        obtain ⟨req, hlines⟩ := hplays.master_wires.2 howner
        exact hlines.frame
      | pciTarget g =>
        rw [hactor] at hwithin
        exact Signals.Within.wires_eq hwithin (by decide : ∀ e ∈ Target.reach, e.1 ≠ "FRAME#") 1
      | axi4Master w | axi4Memory m =>
        rw [hactor] at hplays
        cases hplays

theorem drivesFrame_iff (hseated : r.Seated devices driven true) (h : Concerted t r.players) {s : Slot}
    (hs : r.bus.participants.get? i = some s) : s.drivesBit "FRAME#" = .zero ↔ ∃ q, t = .address i q := by
  obtain ⟨p, hp, rfl, hseat⟩ := hseated.player hs
  have hwidth : s.widths.get? "FRAME#" = some 1 := by rw [hseat.widths]; exact get?_driven (by decide) s.device
  rw [(hseat.drives_eq hwidth).2, h.frame_wires hseated hp]
  show (if t.owner = some p.client.ident then t.frame else .released) = .zero ↔ _
  by_cases howner : t.owner = some p.client.ident
  · rw [if_pos howner]
    cases t with
    | address j q =>
      cases howner
      exact ⟨fun _ => ⟨q, rfl⟩, fun _ => rfl⟩
    | quiet | data | last => exact ⟨fun h => (by cases h), fun ⟨_, h⟩ => (by cases h)⟩
  · rw [if_neg howner]
    refine ⟨fun h => (by cases h), fun ⟨q, hq⟩ => absurd ?_ howner⟩
    rw [hq]
    rfl

theorem frameDriver?_eq {q : Query} (hseated : r.Seated devices driven true)
    (h : Concerted (.address i q) r.players) : frameDriver? r.bus.participants = some i := by
  obtain ⟨p, hp, -, rfl, -⟩ := h.owner i rfl
  obtain ⟨s, hs, -⟩ := hseated.seats p hp
  have hdrives := (drivesFrame_iff hseated h hs).2 ⟨q, rfl⟩
  unfold frameDriver?
  cases hfind : r.bus.participants.find? fun s => s.drivesBit "FRAME#" = .zero with
  | none =>
    have hnone := List.find?_eq_none.1 hfind s (SortedMap.mem_values_iff.2 ⟨_, hs⟩)
    simp [hdrives] at hnone
  | some s' =>
    obtain ⟨j, hj⟩ := SortedMap.mem_values_iff.1 (List.mem_of_find?_eq_some hfind)
    have hfound := List.find?_some hfind
    obtain ⟨q', hq'⟩ := (drivesFrame_iff hseated h hj).1 (of_decide_eq_true hfound)
    cases hq'
    obtain ⟨-, hident⟩ := hseated.staffed.device hj
    exact congrArg some hident

/-- What the engine finds out at an edge, and takes note of. -/
def Traffic.notes (pci : Pci) : Traffic → Pci × List BusNotice
  | quiet | data _ _ _ => (pci, [])
  | address i _ => (⟨pci.arbiter.spend, some i⟩, [.became i])
  | last i _ _ => ({ pci with master := none }, [.released i])

theorem Tracks.trackOwner {pci : Pci} (h : Tracks t pci) (hcarries : Carries t value ps)
    (hdriver : ∀ i q, t = .address i q → frameDriver? ps = some i) : pci.trackOwner ps = t.notes pci := by
  have hframe : (resolve ps "FRAME#" 1).getD 0 = t.frame := by rw [hcarries.frame]; rfl
  have hirdy : (resolve ps "IRDY#" 1).getD 0 = t.irdy := by rw [hcarries.irdy]; rfl
  unfold Pci.trackOwner
  simp only [hframe, hirdy, h.master]
  cases t with
  | quiet => rfl
  | address i q =>
    simp only [hdriver i q rfl, Traffic.tracked, Traffic.frame, h.grant i q rfl]
    rfl
  | data i q clocks => rfl
  | last i q result => rfl

theorem Tracks.edge {pci : Pci} (h : Tracks t pci) (hcarries : Carries t value ps)
    (hdriver : ∀ i q, t = .address i q → frameDriver? ps = some i) {requests : Ident → Query → Prop}
    (hnext : t.Next requests (pci.risingEdge ps).1.arbiter.granted value t') : Tracks t' (pci.risingEdge ps).1 := by
  have hmaster : (pci.risingEdge ps).1.master = (pci.trackOwner ps).1.master := rfl
  rw [h.trackOwner hcarries hdriver] at hmaster
  have hfree : t.IsFree → (pci.risingEdge ps).1.master = none := by
    intro hfree
    rw [hmaster]
    cases t with
    | quiet => exact h.master
    | last => rfl
    | address | data => exact absurd hfree id
  cases hnext with
  | taken i q free grant =>
    refine ⟨hfree free, fun j q' heq => ?_⟩
    cases heq
    exact grant
  | rest free => exact ⟨hfree free, fun _ _ heq => by cases heq⟩
  | addressed => exact ⟨hmaster, fun _ _ heq => by cases heq⟩
  | answered | waited | aborted => exact ⟨hmaster.trans h.master, fun _ _ heq => by cases heq⟩

end Pci

end Lockstep
