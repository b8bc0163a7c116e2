import Lockstep.Proofs.Client.Reception
import Lockstep.Proofs.Server.History
/-!
# Clients and server agree

A bus whose devices are played by clients never meets a line that is malformed or out of turn, no call of a client is
answered by something the client has no use for, and every offer that returns leaves the client with the time, the
number of steps and the signals of the bus (`clients_agree`). This holds for every run of a network: whatever the
order in which the clients act and the server takes their events, however the bytes of the streams are cut, whenever
the buses are served, and whatever happens on other buses in the meantime.

Proof. At any time each station is in some stage of its conversation (`Network.Accord`). One thing happens at a time,
and each leads from stages to stages (`Network.Accord.step`):

* What a client or a stream does concerns its own station only, and is what its stage provides for.
* An event is announced for the connection of one station, and changes the bus in one slot only; to the other stations
  nothing happens (`Network.Accord.handle`).
* When a bus goes on, all stations that have a part in it have been waiting for it, and all receive their deliveries,
  or are cut off (`Network.Accord.serviceBus`).
* Moves of the server that are about other buses leave the bus, its connections and their streams alone
  (`Network.Accord.elsewhere`). A service pass consists of such moves and one service of the bus.
-/

namespace Lockstep

open Message Server

/-! ### Servers that have been configured -/

/-- The server has come to be what it is since it was configured, with the usual bound on lines. -/
def Server.InService (s : Server) : Prop :=
  ∃ configs notices start actions, ofConfigs configs maxLineLength = (some start, notices) ∧ Reaches start s actions

namespace Server.InService

variable {s : Server}

theorem move (h : s.InService) (m : Move) : (s.move m).1.InService := by
  obtain ⟨configs, notices, start, actions, hstart, hreaches⟩ := h
  exact ⟨configs, notices, start, _, hstart, hreaches.move m⟩

theorem consistent (h : s.InService) : s.Consistent := by
  obtain ⟨configs, notices, start, actions, hstart, hreaches⟩ := h
  exact hreaches.consistent (consistent_ofConfigs hstart)

theorem lineLimit_eq (h : s.InService) : s.lineLimit = maxLineLength := by
  obtain ⟨configs, notices, start, actions, hstart, hreaches⟩ := h
  refine (hreaches.lineLimit_eq (consistent_ofConfigs hstart)).trans ?_
  unfold ofConfigs at hstart
  dsimp only at hstart
  split at hstart
  · cases hstart
  · cases hstart
    rfl

theorem bus (h : s.InService) {n : Nat} {b : Bus} (hb : s.buses[n]? = some b) :
    b.Bounded ∧ ∃ devices, b.participants.Staffed devices := by
  obtain ⟨configs, notices, start, actions, hstart, hreaches⟩ := h
  obtain ⟨c, -, fresh, trace, hfresh, hrun⟩ := bus_history hstart hreaches hb
  exact ⟨hrun.bounded hfresh, c.devices, hrun.staffed hfresh⟩

end Server.InService

namespace Network

variable {n : Nat} {w : Network} {i : Ident} {st : Station}

theorem stations_update (w : Network) (i j : Ident) (st : Station) :
    (w.update i st).stations j = if j = i then st else w.stations j := rfl

theorem after_nil (w : Network) (s' : Server) : w.after (s', []) = ⟨s', w.stations⟩ := by
  rw [after, Network.mk.injEq]
  exact ⟨rfl, funext fun i => Station.receive_of_silent fun _ _ => ⟨rfl, rfl⟩⟩

theorem after_andThen (w : Network) (r : Outcome) (f : Server → Outcome) :
    w.after (r.andThen f) = (w.after r).after (f r.1) := by
  unfold after
  rw [Network.mk.injEq]
  exact ⟨rfl, funext fun i => Station.receive_append _ _⟩

/-! ### Keys -/

/-- Each stream has its own connection, and its reader announces events of this connection only. -/
structure Keyed (w : Network) : Prop where
  used : ∀ {i k}, (w.stations i).key = some k → k < w.server.nextKey
  apart : ∀ {i j k}, (w.stations i).key = some k → (w.stations j).key = some k → i = j
  owned : ∀ {i e}, e ∈ (w.stations i).events → ∃ k, (w.stations i).key = some k ∧ e.connection? = some k

theorem Keyed.update (h : w.Keyed)
    (hkey : ∀ k, st.key = some k → (w.stations i).key = some k ∨
      k < w.server.nextKey ∧ ∀ j, (w.stations j).key ≠ some k)
    (howned : ∀ e ∈ st.events, ∃ k, st.key = some k ∧ e.connection? = some k) : (w.update i st).Keyed := by
  refine ⟨fun {j k} hk => ?_, fun {j j' k} hk hk' => ?_, fun {j e} he => ?_⟩
  · rw [stations_update] at hk
    split at hk
    · exact (hkey k hk).elim h.used And.left
    · exact h.used hk
  · rw [stations_update] at hk hk'
    split at hk <;> split at hk'
    · next hj hj' => rw [hj, hj']
    · next hj _ => exact (hkey k hk).elim (fun hk => hj.trans (h.apart hk hk')) fun hnew => absurd hk' (hnew.2 j')
    · next _ hj' => exact (hkey k hk').elim (fun hk' => (h.apart hk hk').trans hj'.symm) fun hnew => absurd hk (hnew.2 j)
    · exact h.apart hk hk'
  · rw [stations_update] at he ⊢
    split at he
    · next hj =>
      rw [if_pos hj]
      exact howned e he
    · next hj =>
      rw [if_neg hj]
      exact h.owned he

theorem Keyed.after (h : w.Keyed) {r : Outcome} (hnext : w.server.nextKey ≤ r.1.nextKey) : (w.after r).Keyed := by
  have hkeys : ∀ j, ((w.after r).stations j).key = (w.stations j).key := fun j => Station.key_receive _ r.2
  refine ⟨fun {j k} hk => ?_, fun {j j' k} hk hk' => ?_, fun {j e} he => ?_⟩
  · rw [hkeys] at hk
    exact (h.used hk).trans_le hnext
  · rw [hkeys] at hk hk'
    exact h.apart hk hk'
  · rw [hkeys]
    change e ∈ ((w.stations j).receive r.2).events at he
    rw [Station.events_receive] at he
    exact h.owned he

/-! ### Agreement at a time -/

/-- All stations of bus `n` are in some stage of their conversation. -/
structure Accord (n : Nat) (w : Network) : Prop where
  inService : w.server.InService
  keyed : w.Keyed
  stage : ∃ b, w.server.buses[n]? = some b ∧ ∀ i, Stage w.server n b i (w.stations i)

theorem Accord.start {configs : List BusConfig} {start : Server} {notices : List ServerNotice}
    (h : ofConfigs configs maxLineLength = (some start, notices)) (hn : n < start.buses.length) :
    Accord n ⟨start, fun _ => {}⟩ := by
  have hin : start.InService := ⟨configs, notices, start, [], h, .start⟩
  have hkeyed : Keyed ⟨start, fun _ => {}⟩ := by constructor <;> nofun
  refine ⟨hin, hkeyed, start.buses[n], List.getElem?_eq_getElem hn, fun i => ?_⟩
  refine .away rfl ⟨rfl, rfl, rfl, rfl, nofun⟩ ⟨rfl, rfl, rfl⟩ fun slot hslot => ?_
  obtain ⟨c, -, hc⟩ := (ofConfigs_spec h).2.2 _ (List.getElem_mem hn)
  obtain ⟨-, engine, -, heq⟩ := Bus.ofConfig_spec hc
  rw [heq] at hslot ⊢
  obtain ⟨d, -, rfl, -⟩ := Bus.vacant_of_ofDevices hslot
  exact ⟨rfl, rfl, rfl, rfl⟩

theorem Accord.update (h : Accord n w) (hkey : st.key = (w.stations i).key)
    (howned : ∀ e ∈ st.events, ∃ k, st.key = some k ∧ e.connection? = some k)
    (hstage : ∀ b, w.server.buses[n]? = some b → Stage w.server n b i (w.stations i) → Stage w.server n b i st) :
    Accord n (w.update i st) := by
  obtain ⟨b, hb, hstages⟩ := h.stage
  refine ⟨h.inService, h.keyed.update (fun k hk => .inl (hkey ▸ hk)) howned, b, hb, fun j => ?_⟩
  rw [stations_update]
  split
  · next hj =>
    subst hj
    exact hstage b hb (hstages j)
  · exact hstages j

theorem Accord.bystander {m : Move} {s' : Server} {actions : List ServerAction} {b b' : Bus}
    (hmoved : w.server.Moved m s' actions) (h : Stage w.server n b i st)
    (hslot : b'.participants.get? i = b.participants.get? i) (hfinished : b'.finished = b.finished)
    (htime : b'.time = b.time) (hsteps : b'.steps = b.steps)
    (hkey : ∀ k, st.key = some k → s'.connections.get? k = w.server.connections.get? k ∧ sentTo k actions = []) :
    Stage s' n b' i (st.receive actions) := by
  have hsilent : ∀ k, st.key = some k → sentTo k actions = [] ∧ Session.closes k actions = false := by
    intro k hk
    obtain ⟨hkept, hsent⟩ := hkey k hk
    refine ⟨hsent, Bool.eq_false_iff.2 fun hcloses => ?_⟩
    obtain ⟨hlive, hgone⟩ := hmoved.closes_iff.1 hcloses
    exact hlive (hkept ▸ hgone)
  rw [Station.receive_of_silent hsilent]
  exact h.frame hslot hfinished htime hsteps fun k hk => (hkey k hk).1

theorem Accord.elsewhere (h : Accord n w) {m : Move} (hn : ¬ w.server.About n m) :
    Accord n (w.after (w.server.move m)) := by
  obtain ⟨b, hb, hstages⟩ := h.stage
  have hmoved := h.inService.consistent.moved m
  obtain ⟨hbus, hnext, hkept⟩ := hmoved.elsewhere h.inService.consistent hn
  refine ⟨h.inService.move m, h.keyed.after hnext, b, hbus.trans hb, fun i => ?_⟩
  refine bystander hmoved (hstages i) rfl rfl rfl rfl fun k hk => ?_
  exact hkept k (h.keyed.used hk) fun c hc => (hstages i).bus_eq hk hc

/-! ### Events of the stations -/

theorem Accord.accept (h : Accord n w) (peer : String) (dialled : (w.stations i).activity ≠ .away)
    (new : (w.stations i).key = none) :
    Accord n ((w.after (w.server.handle (.accepted n peer))).update i
      ((w.stations i).accepted w.server (w.server.handle (.accepted n peer)).1)) ∧
    Quiet (w.server.handle (.accepted n peer)).2 := by
  obtain ⟨b, hb, hstages⟩ := h.stage
  have hin := h.inService.move (.event (.accepted n peer))
  cases hstages i with
  | away activity => exact absurd activity dialled
  | greeting name options k c taken left h key => cases new.symm.trans key
  | admitted k c slot taken left down h => cases new.symm.trans h.key
  | hungUp k c slot activity key => cases new.symm.trans key
  | ended k ms h => cases new.symm.trans h.key
  | dialled name options hintroducing hnew =>
    obtain ⟨slot, hslot, -⟩ := hintroducing.named
    have hlive := (hintroducing.unused slot hslot).2.1
    have hopened : w.server.handle (.accepted n peer) = (w.server.opened n peer, []) := accept_of_live hb hlive peer
    change (w.server.handle (.accepted n peer)).1.InService at hin
    rw [hopened] at hin ⊢
    have hlisted : (w.server.opened n peer).connections.get? w.server.nextKey = some ⟨n, none, peer⟩ := by
      rw [get?_opened, if_pos rfl]
    have haccepted : (w.stations i).accepted w.server (w.server.opened n peer) =
        { w.stations i with key := some w.server.nextKey, framer := .start w.server.lineLimit } :=
      if_pos (SortedMap.contains_iff.2 ⟨_, hlisted⟩)
    have hfresh : ∀ j, (w.stations j).key ≠ some w.server.nextKey := fun j hj => Nat.lt_irrefl _ (h.keyed.used hj)
    rw [haccepted]
    refine ⟨⟨hin, (h.keyed.after (Nat.le_succ _)).update (fun k hk => .inr ?_) fun e he => ?_, b, hb, fun j => ?_⟩, quiet_nil⟩
    · obtain rfl := Option.some.inj hk
      rw [after_nil]
      exact ⟨Nat.lt_succ_self _, hfresh⟩
    · rw [hnew.events] at he
      cases he
    · rw [stations_update, after_nil]
      show Stage (w.server.opened n peer) n b j _
      split
      · next hj =>
        subst hj
        have hsilent := hintroducing.silent
        refine .greeting name options w.server.nextKey ⟨n, none, peer⟩ [] [.hello name options] ?_ rfl hlisted rfl rfl rfl
          ⟨hnew.events, hnew.up, h.inService.lineLimit_eq, by simpa using hintroducing.sendable⟩
        exact { hintroducing with silent := ⟨hsilent.uncut, hsilent.stays, hsilent.hears.congr rfl rfl⟩ }
      · refine (hstages j).frame rfl rfl rfl rfl fun k hk => ?_
        rw [get?_opened, if_neg (Nat.ne_of_lt (h.keyed.used hk))]

theorem Accord.handle (h : Accord n w) {e : ServerEvent} {events : List ServerEvent}
    (next : (w.stations i).events = e :: events) :
    Accord n ((w.update i { w.stations i with events }).after (w.server.handle e)) ∧ Quiet (w.server.handle e).2 := by
  obtain ⟨b, hb, hstages⟩ := h.stage
  have hs := h.inService.consistent
  obtain ⟨k, hk, about⟩ := h.keyed.owned (i := i) (e := e) (by simp [next])
  have hmoved := hs.moved (.event e)
  have hin := h.inService.move (.event e)
  change (w.server.handle e).1.InService at hin
  change w.server.Moved (.event e) (w.server.handle e).1 (w.server.handle e).2 at hmoved
  have howned : ∀ e' ∈ events, ∃ k, (w.stations i).key = some k ∧ e'.connection? = some k := fun e' he' =>
    h.keyed.owned (by rw [next]; exact List.mem_cons_of_mem e he')
  cases hc : w.server.connections.get? k with
  | none =>
    rw [handle_of_gone about hc, after_nil]
    refine ⟨h.update rfl howned fun b hb hstage => ?_, quiet_nil⟩
    obtain ⟨ms, hended⟩ := hstage.of_gone hk hc
    exact .ended k ms ⟨hk, hc, hended.silent, hended.hears.congr rfl rfl, hended.last⟩
  | some c =>
    have hbus : c.bus = n := (hstages i).bus_eq hk hc
    rw [← hbus] at hb
    obtain ⟨hbounded, devices, hstaffed⟩ := h.inService.bus hb
    have hmeets := (hstages i).meets hs (hbus ▸ hb) hbounded hstaffed hk hc next
    obtain ⟨hstate, notices, hactions⟩ := hs.handle_eq about hc hb
    obtain ⟨f, hown⟩ := hmeets.own
    have hget : ∀ j, (w.server.handle e).1.connections.get? j =
        if j = k then (b.exchange k c e).connection else w.server.connections.get? j := by
      intro j
      rw [hstate, get?_settle hc]
    have hsent : ∀ j, sentTo j (w.server.handle e).2 = if j = k then (b.exchange k c e).sent else [] := by
      intro j
      rw [hactions, sentTo_append, sentTo_notes, List.nil_append, sentTo_outward]
    have hb' : (w.server.handle e).1.buses[n]? = some (b.exchange k c e).bus := by
      rw [hstate, ← hbus]
      exact buses_setBus hb _
    have hkeyed : Keyed (w.update i { w.stations i with events }) := h.keyed.update (fun k hk => .inl hk) howned
    refine ⟨⟨hin, hkeyed.after hmoved.precedes.1, _, hb', fun j => ?_⟩, quiet_handle hc hb hmeets.orderly⟩
    show Stage (w.server.handle e).1 n _ j (((w.update i _).stations j).receive (w.server.handle e).2)
    rw [stations_update]
    split
    · next hj =>
      subst hj
      refine hmeets.stage (by rw [hget, if_pos rfl]) (by rw [hsent, if_pos rfl]) ?_
      rw [Bool.eq_iff_iff, hmoved.closes_iff, hc, hget, if_pos rfl]
      simp
    · next hj =>
      refine bystander hmoved (hstages j) ?_ ?_ ?_ ?_ fun k' hk' => ?_
      · rw [hown, Bus.get?_modifySlot, if_neg hj]
      · rw [hown]
        rfl
      · rw [hown]
        rfl
      · rw [hown]
        rfl
      · have hne : k' ≠ k := by
          rintro rfl
          exact hj (h.keyed.apart hk' hk)
        rw [hget, if_neg hne, hsent, if_neg hne]
        exact ⟨rfl, rfl⟩

/-! ### Service -/

theorem Accord.serviceBus (h : Accord n w) : Accord n (w.after (w.server.serviceBus n)) := by
  obtain ⟨b, hb, hstages⟩ := h.stage
  have hs := h.inService.consistent
  have hmoved := hs.moved (.serviceBus n)
  have hin := h.inService.move (.serviceBus n)
  change (w.server.serviceBus n).1.InService at hin
  change w.server.Moved (.serviceBus n) (w.server.serviceBus n).1 (w.server.serviceBus n).2 at hmoved
  have hkeyed := h.keyed.after hmoved.precedes.1
  have hstage : ∃ b', (w.server.serviceBus n).1.buses[n]? = some b' ∧
      ∀ i, Stage (w.server.serviceBus n).1 n b' i ((w.stations i).receive (w.server.serviceBus n).2) := by
    generalize (w.server.serviceBus n).1 = s' at hin hmoved
    generalize (w.server.serviceBus n).2 = actions at hmoved
    have hidle : ∀ i, (w.stations i).receive [] = w.stations i := fun i =>
      Station.receive_of_silent fun _ _ => ⟨rfl, rfl⟩
    cases hmoved with
    | ignored | waiting => exact ⟨b, hb, fun i => (hidle i).symm ▸ hstages i⟩
    | stepped _ b₀ ds notices hb₀ unfinished advanced =>
      obtain rfl := Option.some.inj (hb.symm.trans hb₀)
      have hb' : (w.server.setBus n b.advance.2.1).buses[n]? = some b.advance.2.1 := buses_setBus hb _
      have hbounded := (hin.bus hb').1
      exact ⟨_, hb', fun i => (hstages i).answer hs hb advanced hin.consistent hbounded notices⟩
    | ended _ b₀ b₁ notices closes hb₀ live why cut =>
      obtain rfl := Option.some.inj (hb.symm.trans hb₀)
      have hb' : (w.server.ended n b₁).buses[n]? = some b₁.tearDown.2.1 := buses_setBus hb _
      refine ⟨_, hb', fun i => ?_⟩
      rcases why with ⟨hfinished, rfl⟩ | ⟨-, rfl, cause, hfailed⟩
      · exact (hstages i).cutOff hs hb (Participants.allReady_of_allFinished hfinished) rfl notices cut
      · have hready := (Bus.ready_of_advance (b := b) (by rw [hfailed]; simp)).2
        exact (hstages i).cutOff hs hb hready (b.roster_perform .advance) notices cut
  exact ⟨hin, hkeyed, hstage⟩

theorem Accord.service (h : Accord n w) : Accord n (w.after w.server.service) := by
  have hpartway : ∀ m, Accord n (w.after (w.server.partway m)) := by
    intro m
    induction m with
    | zero =>
      show Accord n (w.after (w.server, []))
      rwa [after_nil]
    | succ m ih =>
      rw [partway_succ, after_andThen]
      by_cases hm : m = n
      · subst hm
        exact ih.serviceBus
      · have hapart : ¬ (w.after (w.server.partway m)).server.About n (.serviceBus m) := hm
        exact ih.elsewhere hapart
  exact hpartway _

end Network

/-! ### Agreement along a run -/

/-- What can be observed shows no disagreement. A client that has been answered agrees with the bus, which has not
stepped since, as it waits for this client. -/
def Observation.Agrees : Observation → Prop
  | .noted notice => ¬ notice.Blames
  | .connected _ result => ∀ e, result = .error e → ¬ e.Confused
  | .stepped i result client bus =>
    (∀ e, result = .error e → ¬ e.Confused) ∧
      (result = .ok () → ∃ slot, bus.participants.get? i = some slot ∧ client.time = bus.time ∧
        client.steps = bus.steps ∧ client.signals = slot.outgoing)
  | .left _ result => ∀ e, result = .error e → ¬ e.Confused

@[simp] theorem Station.key_connected (st : Station) (result : Except ClientError Attached) :
    (st.connected result).key = st.key := by
  cases result <;> rfl

@[simp] theorem Station.events_connected (st : Station) (result : Except ClientError Attached) :
    (st.connected result).events = st.events := by
  cases result <;> rfl

theorem connection?_of_mem_lineEvents {k : ConnectionKey} {f : Framer} {e : ServerEvent}
    (h : e ∈ (Session.lineEvents k f).1) : e.connection? = some k := by
  rcases List.mem_append.1 h with h | h
  · obtain ⟨line, -, rfl⟩ := List.mem_map.1 h
    rfl
  · obtain ⟨fault, -, rfl⟩ := List.mem_map.1 h
    rfl

namespace Network

variable {n : Nat} {w w' : Network} {observations : List Observation}

theorem agrees_observed {actions : List ServerAction} (h : Quiet actions) : ∀ o ∈ observed actions, o.Agrees := by
  intro o ho
  obtain ⟨notice, hnotice, rfl⟩ := List.mem_map.1 ho
  obtain ⟨a, ha, heq⟩ := List.mem_filterMap.1 hnotice
  refine h notice ?_
  cases a with
  | note =>
    cases heq
    exact ha
  | send | close => cases heq

/-- Whatever happens next, the stations and the server stay in accord, and nothing to the contrary is observed. -/
theorem Accord.step (h : Accord n w) (hstep : Step n w observations w') :
    Accord n w' ∧ ∀ o ∈ observations, o.Agrees := by
  have hnone : ∀ o ∈ ([] : List Observation), o.Agrees := List.forall_mem_nil _
  have howned : ∀ i, ∀ e ∈ (w.stations i).events, ∃ k, (w.stations i).key = some k ∧ e.connection? = some k :=
    fun i e he => h.keyed.owned he
  cases hstep with
  | connect i options b slot hb hs away sendable =>
    refine ⟨h.update rfl (howned i) fun b' hb' hstage => ?_, hnone⟩
    obtain rfl := Option.some.inj (hb.symm.trans hb')
    exact hstage.connect away hs sendable
  | accept i peer dialled new =>
    obtain ⟨haccord, hquiet⟩ := h.accept peer dialled new
    exact ⟨haccord, agrees_observed hquiet⟩
  | read i k count hk =>
    refine ⟨h.update rfl (fun e he => ?_) fun b hb hstage => hstage.read hk count, hnone⟩
    rcases List.mem_append.1 he with he | he
    · exact howned i e he
    · exact ⟨k, hk, connection?_of_mem_lineEvents he⟩
  | readEnd i k hk empty hungUp =>
    refine ⟨h.update rfl (fun e he => ?_) fun b hb hstage => hstage.readEnd hk hungUp, hnone⟩
    rcases List.mem_append.1 he with he | he
    · exact howned i e he
    · obtain rfl := List.mem_singleton.1 he
      exact ⟨k, hk, rfl⟩
  | handle i e events next =>
    obtain ⟨haccord, hquiet⟩ := h.handle next
    exact ⟨haccord, agrees_observed hquiet⟩
  | service => exact ⟨h.service, agrees_observed (quiet_partway _ _)⟩
  | elsewhere e apart =>
    have hapart : ¬ w.server.About n (.event e) := by
      show ¬ w.server.concerns n e = true
      rw [apart]
      exact Bool.false_ne_true
    exact ⟨h.elsewhere hapart, hnone⟩
  | arrive i count => exact ⟨h.update rfl (howned i) fun b hb hstage => hstage.arrive count, hnone⟩
  | connected i name options connecting decided =>
    obtain ⟨b, hb, hstages⟩ := h.stage
    have hconnected := (hstages i).connected connecting decided
    generalize (Attached.connect name options (w.stations i).incoming).1 = result at hconnected
    refine ⟨h.update (Station.key_connected _ _) ?_ fun b' hb' _ => ?_, List.forall_mem_singleton.2 fun e he => ?_⟩
    · rw [Station.key_connected, Station.events_connected]
      exact howned i
    · obtain rfl := Option.some.inj (hb.symm.trans hb')
      exact hconnected.1
    · cases result with
      | ok a => cases he
      | error e' =>
        cases he
        exact hconnected.2 e rfl
  | ready i client drive b slot hb hs idle fits =>
    refine ⟨h.update rfl (howned i) fun b' hb' hstage => ?_, hnone⟩
    obtain rfl := Option.some.inj (hb.symm.trans hb')
    exact hstage.ready (h.inService.bus hb).1 hs idle fits
  | stepped i client drive b r a hb offering decided returned =>
    obtain ⟨b', hb', hstages⟩ := h.stage
    obtain rfl := Option.some.inj (hb.symm.trans hb')
    obtain ⟨hstage, herrors, hanswer⟩ := (hstages i).stepped (h.inService.bus hb).1 offering decided returned
    refine ⟨h.update rfl (howned i) fun b' hb' _ => ?_, List.forall_mem_singleton.2 ⟨herrors, hanswer⟩⟩
    obtain rfl := Option.some.inj (hb.symm.trans hb')
    exact hstage
  | finish i client idle => exact ⟨h.update rfl (howned i) fun b hb hstage => hstage.finish idle, hnone⟩
  | left i client leaving decided =>
    obtain ⟨b, hb, hstages⟩ := h.stage
    have hok := ((hstages i).left leaving decided).2
    refine ⟨h.update rfl (howned i) fun b' hb' hstage => (hstage.left leaving decided).1,
      List.forall_mem_singleton.2 fun e he => ?_⟩
    cases hok.symm.trans he
  | hangUp i client idle => exact ⟨h.update rfl (howned i) fun b hb hstage => hstage.hangUp idle, hnone⟩

theorem Run.accord {start : Server} (hstart : Accord n ⟨start, fun _ => {}⟩) (h : Run n start observations w) :
    Accord n w ∧ ∀ o ∈ observations, o.Agrees := by
  induction h with
  | start => exact ⟨hstart, List.forall_mem_nil _⟩
  | step _ hstep ih =>
    obtain ⟨haccord, hagrees⟩ := ih.1.step hstep
    exact ⟨haccord, fun o ho => (List.mem_append.1 ho).elim (ih.2 o) (hagrees o)⟩

/-! ### A client alone -/

/-- A network in which only client 0 has done anything. -/
def lone (s : Server) (st : Station) : Network := ⟨s, fun i => if i = 0 then st else {}⟩

section Lone

variable {n : Nat} {start s s' : Server} {observations new : List Observation} {st st' : Station}
  {activity : Activity} {k : ConnectionKey} {incoming : Incoming} {m : Message}

theorem stations_lone (s : Server) (st : Station) : (lone s st).stations 0 = st := rfl

theorem update_lone (s : Server) (st st' : Station) : (lone s st).update 0 st' = lone s st' := by
  rw [update, lone, lone, Network.mk.injEq]
  refine ⟨rfl, funext fun i => ?_⟩
  by_cases hi : i = 0 <;> simp [hi]

theorem after_lone (s : Server) (st : Station) (r : Outcome) : (lone s st).after r = lone r.1 (st.receive r.2) := by
  rw [after, lone, lone, Network.mk.injEq]
  refine ⟨rfl, funext fun i => ?_⟩
  by_cases hi : i = 0
  · simp [hi]
  · simp [hi, Station.receive]

theorem Run.lone_step (h : Run n start observations (lone s st))
    (hstep : Step n (lone s st) new ((lone s st).update 0 st')) : Run n start (observations ++ new) (lone s st') := by
  rw [← update_lone s st st']
  exact h.step hstep

theorem Run.heard {sent : List Message} {actions : List ServerAction} {text : String}
    (h : Run n start observations (lone s { activity, up := stream [m], key := some k, incoming }))
    (hm : m.Sendable maxLineLength) (htext : m.text = text) (hs : s.handle (.line k text) = (s', actions))
    (hsent : sentTo k actions = sent) (hcloses : Session.closes k actions = false) :
    Run n start (observations ++ observed actions)
      (lone s' { activity, key := some k, down := stream sent, incoming }) := by
  subst htext
  have harrived : ((Framer.start maxLineLength).push (stream [m])).pending = stream [m] := rfl
  have hdrain := Framer.drain_of_arrived harrived fun m' hm' => by
    obtain rfl := List.mem_singleton.1 hm'
    exact hm
  have hst : Station.read { activity, up := stream [m], key := some k, incoming } k (stream [m]).length =
      { activity, key := some k, events := [.line k m.text], incoming } := by
    simp [Station.read, Session.lineEvents, hdrain]
  have hread := h.lone_step (.read 0 k (stream [m]).length rfl)
  change Run n start _ (lone s (Station.read { activity, up := stream [m], key := some k, incoming } k _)) at hread
  rw [hst, List.append_nil] at hread
  have hhandle := hread.step (.handle 0 (.line k m.text) [] rfl)
  change Run n start (observations ++ observed (s.handle (.line k m.text)).2)
    (((lone s _).update 0 { activity, key := some k, incoming }).after (s.handle (.line k m.text))) at hhandle
  rw [hs, update_lone, after_lone, Station.receive_of_key rfl, hsent, hcloses] at hhandle
  exact hhandle

theorem Run.told (h : Run n start observations (lone s { activity, key := some k, down := stream [m], incoming }))
    (hseen : incoming.seen = []) (hlimit : incoming.framer.limit = maxLineLength) (hm : m.Sendable maxLineLength) :
    ∃ i i', Run n start observations (lone s { activity, key := some k, incoming := i }) ∧
      i.next = (.ok m.wired, i') ∧ i'.seen = [] ∧ i'.framer.limit = maxLineLength := by
  have hst : Station.arrive { activity, key := some k, down := stream [m], incoming } (stream [m]).length =
      { activity, key := some k, incoming := { incoming with chunks := incoming.chunks ++ [stream [m]] } } := by
    simp [Station.arrive]
  have harrive := h.lone_step (.arrive 0 (stream [m]).length)
  change Run n start _ (lone s (Station.arrive { activity, key := some k, down := stream [m], incoming } _)) at harrive
  rw [hst, List.append_nil] at harrive
  have hall : Incoming.seen { incoming with chunks := incoming.chunks ++ [stream [m]] } ++ [] = stream [m] := by
    rw [Incoming.seen, List.flatten_append, List.flatten_singleton, ← List.append_assoc, List.append_nil]
    show incoming.seen ++ stream [m] = _
    rw [hseen, List.nil_append]
  have hsendable : ∀ m' ∈ [m], m'.Sendable incoming.framer.limit := by
    intro m' hm'
    obtain rfl := List.mem_singleton.1 hm'
    rwa [hlimit]
  obtain ⟨i', hlimit', ⟨-, hend, -⟩ | ⟨m', ms', hcons, hnext, hrest⟩⟩ := Incoming.next_of_stream hall hsendable
  · cases hend rfl
  · cases hcons
    rw [List.append_nil, stream_nil] at hrest
    exact ⟨_, i', harrive, hnext, hrest, hlimit'.trans hlimit⟩

theorem Run.welcomed {name : String} {options : Options} {ident : Ident} {rest : Incoming}
    (h : Run n start observations (lone s { activity := .connecting name options, key := some k, incoming }))
    (hnext : incoming.next = (.ok (.youAre ident), rest)) :
    Run n start (observations ++ [.connected 0 (.ok (.fresh name ident))])
      (lone s { activity := .idle (.fresh name ident), key := some k, incoming := rest }) := by
  have hdecided : incoming.next.1 ≠ .error .disconnected := by
    rw [hnext]
    intro heq
    cases heq
  have hanswer : (Attached.connect name options incoming).1 = .ok ⟨.fresh name ident, rest⟩ := by
    simp only [Attached.connect, hnext]
    rfl
  have hconnected := h.step (.connected 0 name options rfl (.inl hdecided))
  rw [stations_lone, hanswer, update_lone] at hconnected
  exact hconnected

theorem Run.offered {client : Client} {drive : Signals} {b : Bus} {slot : Slot}
    (h : Run n start observations (lone s { activity := .idle client, key := some k, incoming }))
    (hb : s.buses[n]? = some b) (hs : b.participants.get? 0 = some slot) (fits : slot.widths.fault? drive = none) :
    Run n start observations
      (lone s { activity := .offering client drive, up := stream [client.offer drive], key := some k, incoming }) := by
  have hready := h.step (.ready 0 client drive b slot hb hs rfl fits)
  rw [stations_lone, update_lone, List.append_nil] at hready
  exact hready

theorem Run.served {sent : List Message} {actions : List ServerAction}
    (h : Run n start observations (lone s { activity, key := some k, incoming })) (hs : s.service = (s', actions))
    (hsent : sentTo k actions = sent) (hcloses : Session.closes k actions = false) :
    Run n start (observations ++ observed actions)
      (lone s' { activity, key := some k, down := stream sent, incoming }) := by
  have hservice := h.step .service
  change Run n start (observations ++ observed s.service.2) ((lone s _).after s.service) at hservice
  rw [hs, after_lone, Station.receive_of_key rfl, hsent, hcloses] at hservice
  exact hservice

theorem Run.answered {client client' : Client} {drive : Signals} {b : Bus} {rest : Incoming}
    (h : Run n start observations (lone s { activity := .offering client drive, key := some k, incoming }))
    (hb : s.buses[n]? = some b) (hnext : incoming.next = (.ok m, rest)) (htake : client.take m = .ok client') :
    Run n start (observations ++ [.stepped 0 (.ok ()) client' b])
      (lone s { activity := .idle client', key := some k, incoming := rest }) := by
  have hdecided : incoming.next.1 ≠ .error .disconnected := by
    rw [hnext]
    intro heq
    cases heq
  have hanswer : (⟨client, incoming⟩ : Attached).ready drive = (.ok (), ⟨client', rest⟩, [client.offer drive]) := by
    simp only [Attached.ready, Attached.await, hnext, htake]
  have hstepped := h.step (.stepped 0 client drive b _ _ hb rfl (.inl hdecided) hanswer)
  rw [stations_lone, update_lone] at hstepped
  exact hstepped

end Lone

/-- **Clients and server agree.** If the devices of a bus are played by clients, then whatever happens, the server
notes nothing malformed or out of turn about them, no call returns an error that says so of the server, and every
offer that returns without an error leaves the client with the time and the number of steps of the bus, and with what
its slot is shown. -/
theorem clients_agree {configs : List BusConfig} {start : Server} {notices : List ServerNotice}
    (h : ofConfigs configs maxLineLength = (some start, notices)) (hn : n < start.buses.length)
    (hrun : Run n start observations w) : ∀ o ∈ observations, o.Agrees :=
  (hrun.accord (.start h hn)).2

/-- A PCI bus with nobody but the host on it. -/
def hostOnly : BusConfig := { Bus.hostAndCard with devices := [⟨"host", 0, true⟩] }

def hostServer : Server :=
  { idleServer with
    buses := [{ Bus.idleBus with config := hostOnly, participants := .ofDevices hostOnly.devices }] }

/-- The server of the host after the host has been admitted. -/
def hostAdmitted : Server := ((hostServer.opened 0 "peer").handle (.line 0 "HELLO host")).1

/-- The server of the host when its bus is about to step. -/
def hostReady : Server := (hostAdmitted.handle (.line 0 "READY 0e-12")).1

/-- The host connects and makes an offer, its bus steps, and the two agree. -/
theorem host_in_step : ofConfigs [hostOnly] maxLineLength = (some hostServer, []) ∧ 0 < hostServer.buses.length ∧
    ∃ observations w client bus, Run 0 hostServer observations w ∧
      .stepped 0 (.ok ()) client bus ∈ observations ∧ ∀ o ∈ observations, o.Agrees := by
  have hconfig : ofConfigs [hostOnly] maxLineLength = (some hostServer, []) := by cbv
  have hhello : (Message.hello "host" .empty).Sendable maxLineLength :=
    ⟨⟨⟨by decide, by simp [Text.isBlank]⟩, fun _ _ h => by cases h⟩, by decide⟩
  have hready : (Message.ready .zero .empty).Sendable maxLineLength :=
    Signals.Bounded.sendable_ready (fun _ _ h => by cases h) _
  have hslot : (Participants.ofDevices hostOnly.devices).get? 0 = some (.vacant ⟨"host", 0, true⟩) := by cbv
  have hexists : ∀ s : Server, (s.buses[0]?.bind fun b => b.participants.get? 0).isSome = true →
      ∃ b, s.buses[0]? = some b ∧ ∃ slot, b.participants.get? 0 = some slot := by
    intro s hsome
    obtain ⟨slot, hslot⟩ := Option.isSome_iff_exists.1 hsome
    obtain ⟨b, hb, hs⟩ := Option.bind_eq_some_iff.1 hslot
    exact ⟨b, hb, slot, hs⟩
  -- the host connects
  have h₁ : Run 0 hostServer [] (lone hostServer
      { activity := .connecting "host" .empty, up := stream [.hello "host" .empty] }) :=
    Run.start.step (.connect 0 .empty _ (.vacant ⟨"host", 0, true⟩) rfl hslot rfl hhello)
  have h₂ : Run 0 hostServer [] (lone (hostServer.opened 0 "peer")
      { activity := .connecting "host" .empty, up := stream [.hello "host" .empty], key := some 0 }) := by
    have haccept := h₁.step (.accept 0 "peer" (fun h => by cases h) rfl rfl)
    have hopened : hostServer.handle (.accepted 0 "peer") = (hostServer.opened 0 "peer", []) := by cbv
    change Run 0 hostServer (observed (hostServer.handle (.accepted 0 "peer")).2)
      (((lone hostServer _).after (hostServer.handle (.accepted 0 "peer"))).update 0 _) at haccept
    rw [hopened, after_lone, update_lone] at haccept
    exact haccept
  have hwelcome : sentTo 0 ((hostServer.opened 0 "peer").handle (.line 0 "HELLO host")).2 = [.youAre 0] := by cbv
  have hwelcomed : Session.closes 0 ((hostServer.opened 0 "peer").handle (.line 0 "HELLO host")).2 = false := by cbv
  have h₃ : Run 0 hostServer _ (lone hostAdmitted
      { activity := .connecting "host" .empty, key := some 0, down := stream [.youAre 0] }) :=
    h₂.heard hhello rfl rfl hwelcome hwelcomed
  obtain ⟨i, i', h₄, hnext, hseen, hlimit⟩ := h₃.told rfl rfl (sendable_youAre 0)
  have h₅ := h₄.welcomed hnext
  -- it makes an offer
  obtain ⟨b, hb, slot, hs⟩ := hexists hostAdmitted (by cbv)
  have h₆ : Run 0 hostServer _ (lone hostAdmitted
      { activity := .offering (.fresh "host" 0) .empty
        up := stream [.ready .zero .empty]
        key := some 0
        incoming := i' }) := h₅.offered hb hs rfl
  have hquiet : sentTo 0 (hostAdmitted.handle (.line 0 "READY 0e-12")).2 = [] := by cbv
  have hopen : Session.closes 0 (hostAdmitted.handle (.line 0 "READY 0e-12")).2 = false := by cbv
  have hoffer : ((Client.fresh "host" 0).offer .empty).text = "READY 0e-12" := rfl
  have h₇ : Run 0 hostServer _ (lone hostReady
      { activity := .offering (.fresh "host" 0) .empty, key := some 0, down := stream [], incoming := i' }) :=
    h₆.heard hready hoffer rfl hquiet hopen
  -- the bus steps
  obtain ⟨b', hb', slot', hs'⟩ := hexists hostReady.service.1 (by cbv)
  have hsent : sentTo 0 hostReady.service.2 = [.deliver b'.time slot'.outgoing] := by
    have hall : sentTo 0 hostReady.service.2 = (hostReady.service.1.buses[0]?.bind fun b =>
        (b.participants.get? 0).map fun slot => Message.deliver b.time slot.outgoing).toList := by cbv
    rw [hall, hb', Option.bind_some, hs']
    rfl
  have hstays : Session.closes 0 hostReady.service.2 = false := by cbv
  have h₈ := h₇.served rfl hsent hstays
  have hin := (h₈.accord (.start hconfig Nat.zero_lt_one)).1.inService
  have hdelivery := ((hin.bus hb').1.participants 0 slot' hs').shown.sendable_deliver b'.time
  obtain ⟨j, j', h₉, hnext', -⟩ := h₈.told hseen hlimit hdelivery
  have h₁₀ := h₉.answered hb' hnext' rfl
  exact ⟨hconfig, Nat.zero_lt_one, _, _, _, _, h₁₀, List.mem_append_right _ (List.mem_singleton.2 rfl),
    clients_agree hconfig Nat.zero_lt_one h₁₀⟩

end Network

end Lockstep
