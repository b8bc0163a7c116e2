import Lockstep.Proofs.Bus.Rekey
import Lockstep.Proofs.Server.Exchange
import Lockstep.Proofs.Server.Service
/-!
# Buses do not interfere

The buses of a server share its table of connections, the counter of their keys and the service passes, and yet none
of them notices the others. Take any run and leave out whatever concerns other buses than bus `n`, which are streams
accepted for them and events of their connections, but no service pass (`Server.alone`). Then bus `n` comes to the same
state and its connections are sent the same messages (`buses_do_not_interfere`), up to the keys: in the shorter run,
the connections of bus `n` are numbered in the order in which they were accepted (`rank`).

Proof. The full run is followed step by step by the shorter one (`Follows`): bus `n` of one server is the renamed bus
`n` of the other, and so are the entries of its connections. What concerns other buses moves the full server only, and
leaves all of this alone. An event of a connection of bus `n` comes to the same exchange in both
(`Bus.exchange_rekeyed`). A pass is compared bus by bus: the service of bus `n` computes the same on both sides
(`Bus.serviced_rekeyed`, `Bus.issued_rekeyed`), that of another bus has nothing to do with it, whatever becomes of it
there.
-/

namespace Lockstep

/-! ### Keys -/

/-- How many keys before `k` belong here. -/
def rank (foreign : Nat → Bool) (k : Nat) : Nat :=
  (List.range k).countP fun j => !foreign j

section Rank

variable {foreign : Nat → Bool} {j k : Nat}

theorem rank_succ_of_own (h : foreign k = false) : rank foreign (k + 1) = rank foreign k + 1 := by
  simp [rank, List.range_succ, h]

theorem rank_succ_of_foreign (h : foreign k = true) : rank foreign (k + 1) = rank foreign k := by
  simp [rank, List.range_succ, h]

theorem rank_mono (h : j ≤ k) : rank foreign j ≤ rank foreign k := by
  induction h with
  | refl => exact Nat.le_refl _
  | @step k _ ih =>
    cases hk : foreign k with
    | true => rwa [Nat.succ_eq_add_one, rank_succ_of_foreign hk]
    | false =>
      rw [Nat.succ_eq_add_one, rank_succ_of_own hk]
      omega

theorem rank_lt (hj : foreign j = false) (h : j < k) : rank foreign j < rank foreign k := by
  have hle : rank foreign (j + 1) ≤ rank foreign k := rank_mono h
  rw [rank_succ_of_own hj] at hle
  omega

theorem rank_lt_iff (hj : foreign j = false) : rank foreign j < rank foreign k ↔ j < k := by
  constructor
  · intro h
    by_contra hlt
    have hle : rank foreign k ≤ rank foreign j := rank_mono (Nat.le_of_not_lt hlt)
    omega
  · exact rank_lt hj

theorem rank_eq_iff (hj : foreign j = false) (hk : foreign k = false) : rank foreign j = rank foreign k ↔ j = k := by
  have hjk := rank_lt_iff (k := k) hj
  have hkj := rank_lt_iff (k := j) hk
  omega

end Rank

def ServerEvent.rekeyed (ρ : ConnectionKey → ConnectionKey) : ServerEvent → ServerEvent
  | .accepted index peer => .accepted index peer
  | .line k text => .line (ρ k) text
  | .malformed k cause => .malformed (ρ k) cause
  | .closed k => .closed (ρ k)

theorem ServerEvent.connection?_rekeyed (ρ : ConnectionKey → ConnectionKey) (e : ServerEvent) :
    (e.rekeyed ρ).connection? = e.connection?.map ρ := by
  cases e <;> rfl

def Exchange.rekeyed (ρ : ConnectionKey → ConnectionKey) (x : Exchange) : Exchange := { x with bus := x.bus.rekeyed ρ }

/-! ### A bus under other keys -/

namespace Bus

variable (ρ : ConnectionKey → ConnectionKey) (b : Bus)

theorem exchange_rekeyed (k : ConnectionKey) (c : Connection) (e : ServerEvent) :
    (b.rekeyed ρ).exchange (ρ k) c (e.rekeyed ρ) = (b.exchange k c e).rekeyed ρ := by
  have hlose : (b.rekeyed ρ).lose c = (b.lose c).rekeyed ρ := by
    unfold lose
    cases c.ident with
    | none => rfl
    | some i => exact (b.retire_rekeyed ρ i).symm
  cases e with
  | accepted | malformed | closed =>
    show (⟨(b.rekeyed ρ).lose c, none, []⟩ : Exchange) = _
    rw [hlose]
    rfl
  | line j text =>
    unfold exchange ServerEvent.rekeyed
    cases c.ident with
    | none =>
      dsimp only
      unfold greet
      cases Message.decode text with
      | error cause => rfl
      | ok m =>
        cases m with
        | youAre | nak | ready | deliver | finish => rfl
        | hello name options =>
          dsimp only
          rw [admits_rekeyed]
          cases b.admits name options with
          | error reason => rfl
          | ok found =>
            have hclaimed := b.modifySlot_rekeyed ρ (f := (·.claim k options found.2))
              (g := (·.claim (ρ k) options found.2)) (fun _ => rfl) found.1.ident
            simp only [Except.map, Exchange.rekeyed, hclaimed]
            rfl
    | some i =>
      dsimp only
      unfold heed
      rw [hear_rekeyed, ← b.retire_rekeyed]
      dsimp only
      split <;> rfl

theorem serviced_rekeyed : (b.rekeyed ρ).serviced = b.serviced.rekeyed ρ := by
  unfold serviced
  rw [show (b.rekeyed ρ).finished = b.finished from rfl,
    show (b.rekeyed ρ).allFinished = b.allFinished from b.participants.allFinished_rekeyed ρ, b.advance_rekeyed,
    b.advanced_rekeyed]
  split
  · rfl
  · split
    · exact b.tearDown_rekeyed ρ
    · cases b.advance.1 with
      | waiting | stepped => rfl
      | failed => exact b.advance.2.1.tearDown_rekeyed ρ

theorem issued_rekeyed : (b.rekeyed ρ).issued = b.issued.map (Delivery.rekeyed ρ) := by
  unfold issued
  rw [show (b.rekeyed ρ).finished = b.finished from rfl,
    show (b.rekeyed ρ).allFinished = b.allFinished from b.participants.allFinished_rekeyed ρ, b.advance_rekeyed]
  split
  · rfl
  · cases b.advance.1 <;> rfl

end Bus

namespace Server

variable {s s' t : Server} {n : Nat} {away : ConnectionKey → Bool} {k : ConnectionKey}

/-! ### Runs without the other buses -/

/-- Key `k` goes to a connection of another bus than `n` in the run. -/
def foreign (s : Server) (n : Nat) (steps : List Step) (k : ConnectionKey) : Bool :=
  steps.inits.any fun earlier => ((s.run earlier).1.connections.get? k).any fun c => c.bus ≠ n

/-- The event is a stream accepted for another bus than `n`, or about a connection of another bus. -/
def Elsewhere (n : Nat) (away : ConnectionKey → Bool) : ServerEvent → Prop
  | .accepted index _ => index ≠ n
  | .line k _ | .malformed k _ | .closed k => away k = true

instance (n : Nat) (away : ConnectionKey → Bool) : DecidablePred (Elsewhere n away) := fun e =>
  match e with
  | .accepted index _ => inferInstanceAs (Decidable (index ≠ n))
  | .line k _ | .malformed k _ | .closed k => inferInstanceAs (Decidable (away k = true))

/-- What is left of a step without other buses than `n`. -/
def Step.within (n : Nat) (away : ConnectionKey → Bool) : Step → Option Step
  | .service => some .service
  | .event e => if Elsewhere n away e then none else some (.event (e.rekeyed (rank away)))

/-- The run without what concerns other buses than `n`. -/
def alone (s : Server) (n : Nat) (steps : List Step) : List Step :=
  steps.filterMap (Step.within n (s.foreign n steps))

/-! ### Keys stay with their buses -/

theorem Moved.kept {m : Move} {actions : List ServerAction} (h : s.Moved m s' actions) (hk : k < s.nextKey)
    {c' : Connection} (hc' : s'.connections.get? k = some c') :
    ∃ c, s.connections.get? k = some c ∧ c.bus = c'.bus := by
  cases h with
  | ignored | waiting | offered | stepped => exact ⟨c', hc', rfl⟩
  | opened n peer =>
    rw [get?_opened, if_neg (Nat.ne_of_lt hk)] at hc'
    exact ⟨c', hc', rfl⟩
  | admitted j text c b name options slot =>
    rw [get?_admitted] at hc'
    split at hc'
    · obtain ⟨c₀, hc₀, rfl⟩ := Option.map_eq_some_iff.1 hc'
      exact ⟨c₀, hc₀, rfl⟩
    · exact ⟨c', hc', rfl⟩
  | refused | dropped =>
    rw [get?_forget] at hc'
    split at hc'
    · cases hc'
    · exact ⟨c', hc', rfl⟩
  | left | expelled =>
    rw [get?_retired] at hc'
    split at hc'
    · cases hc'
    · exact ⟨c', hc', rfl⟩
  | ended n b b' =>
    rw [get?_ended] at hc'
    exact ⟨c', (Option.filter_eq_some_iff.1 hc').1, rfl⟩

theorem Reaches.kept {actions : List ServerAction} (h : Reaches s s' actions) (hs : s.Consistent)
    (hk : k < s.nextKey) {c' : Connection} (hc' : s'.connections.get? k = some c') :
    ∃ c, s.connections.get? k = some c ∧ c.bus = c'.bus := by
  induction h generalizing c' with
  | start => exact ⟨c', hc', rfl⟩
  | move h m ih =>
    have hlt : k < _ := Nat.lt_of_lt_of_le hk (h.precedes hs).1
    obtain ⟨c₁, hc₁, hbus₁⟩ := ((h.consistent hs).moved m).kept hlt hc'
    obtain ⟨c, hc, hbus⟩ := ih hc₁
    exact ⟨c, hc, hbus.trans hbus₁⟩

theorem bus_eq_of_run {start : Server} (hs : start.Consistent) {earlier later : List Step} (h : earlier <+: later)
    {c c' : Connection} (hc : (start.run earlier).1.connections.get? k = some c)
    (hc' : (start.run later).1.connections.get? k = some c') : c.bus = c'.bus := by
  have hearlier := hs.run earlier
  obtain ⟨actions, hreaches⟩ := reaches_of_prefix start h
  obtain ⟨c₀, hc₀, hbus⟩ := hreaches.kept hearlier (hearlier.fresh hc) hc'
  rwa [← Option.some.inj (hc₀.symm.trans hc)]

theorem foreign_iff {start : Server} (hs : start.Consistent) {earlier steps : List Step} (h : earlier <+: steps)
    {c : Connection} (hc : (start.run earlier).1.connections.get? k = some c) :
    start.foreign n steps k = true ↔ c.bus ≠ n := by
  simp only [foreign, List.any_eq_true, List.mem_inits, Option.any_eq_true, decide_eq_true_eq]
  constructor
  · rintro ⟨other, hother, c', hc', hbus⟩
    rcases List.prefix_or_prefix_of_prefix h hother with hle | hle
    · rwa [bus_eq_of_run hs hle hc hc']
    · rwa [← bus_eq_of_run hs hle hc' hc]
  · intro hbus
    exact ⟨earlier, h, c, hc, hbus⟩

/-! ### A server and the same server with one bus in use -/

theorem Moved.length_buses {m : Move} {actions : List ServerAction} (h : s.Moved m s' actions) :
    s'.buses.length = s.buses.length := by
  cases h with
  | ignored | opened | refused | dropped | waiting => rfl
  | admitted | offered | left | expelled | stepped | ended => exact List.length_set

/-- The server `t` is what remains of the server `s` if nothing but its bus `n` is used. -/
structure Follows (n : Nat) (away : ConnectionKey → Bool) (s t : Server) : Prop where
  full : s.Consistent
  part : t.Consistent
  length : t.buses.length = s.buses.length
  bus : t.buses[n]? = (s.buses[n]?).map (Bus.rekeyed (rank away))
  key : t.nextKey = rank away s.nextKey
  connections : ∀ k, away k = false → t.connections.get? (rank away k) = s.connections.get? k
  /-- The keys that are away are those of connections of other buses. -/
  own : ∀ k c, s.connections.get? k = some c → (away k = true ↔ c.bus ≠ n)

/-- The outcomes of corresponding steps: what remains, and the same messages to everybody on bus `n`. -/
def Corresponds (n : Nat) (away : ConnectionKey → Bool) (r r' : Outcome) : Prop :=
  Follows n away r.1 r'.1 ∧ ∀ k, away k = false → sentTo (rank away k) r'.2 = sentTo k r.2

theorem Corresponds.andThen {r r' : Outcome} (h : Corresponds n away r r') {f g : Server → Outcome}
    (hfg : Follows n away r.1 r'.1 → Corresponds n away (f r.1) (g r'.1)) :
    Corresponds n away (r.andThen f) (r'.andThen g) := by
  obtain ⟨hfollows, hsent⟩ := hfg h.1
  refine ⟨hfollows, fun k hk => ?_⟩
  rw [Outcome.andThen_snd, Outcome.andThen_snd, sentTo_append, sentTo_append, h.2 k hk, hsent k hk]

theorem Consistent.serviceBus_elsewhere (hs : s.Consistent) {m : Nat}
    (hk : ∀ c, s.connections.get? k = some c → c.bus ≠ m) :
    (s.serviceBus m).1.connections.get? k = s.connections.get? k ∧ sentTo k (s.serviceBus m).2 = [] := by
  cases hb : s.buses[m]? with
  | none =>
    have hnone : s.serviceBus m = (s, []) := by simp [serviceBus, hb]
    rw [hnone]
    exact ⟨rfl, rfl⟩
  | some b =>
    obtain ⟨hconnections, -, hsent⟩ := hs.serviceBus_spec hb
    constructor
    · rw [hconnections]
      cases hc : s.connections.get? k with
      | none => rfl
      | some c => simp [Option.filter_some, hk c hc]
    · rw [hsent, sentTo, List.filterMap_map]
      refine List.filterMap_eq_nil_iff.2 fun d hd => if_neg ?_
      rintro rfl
      obtain ⟨c, hc, hbus⟩ := hs.bus_of_issued hb hd
      exact hk c hc hbus

namespace Follows

theorem own_moved (h : Follows n away s t) {m : Move} {actions : List ServerAction} (hm : s.Moved m s' actions)
    (hkey : s'.nextKey = s.nextKey) (k : ConnectionKey) (c' : Connection)
    (hc' : s'.connections.get? k = some c') : away k = true ↔ c'.bus ≠ n := by
  have hlt : k < s.nextKey := hkey ▸ (h.full.moved_to hm).fresh hc'
  obtain ⟨c, hc, hbus⟩ := hm.kept hlt hc'
  rw [← hbus]
  exact h.own k c hc

theorem bus_eq (h : Follows n away s t) (hk : away k = false) {c : Connection}
    (hc : s.connections.get? k = some c) : c.bus = n := by
  by_contra hne
  rw [(h.own k c hc).2 hne] at hk
  cases hk

/-! #### Events -/

theorem handle_away (h : Follows n away s t) {e : ServerEvent} (about : e.connection? = some k)
    (haway : away k = true) : Corresponds n away (s.handle e) (t, []) := by
  cases hc : s.connections.get? k with
  | none =>
    rw [handle_of_gone about hc]
    exact ⟨h, fun _ _ => rfl⟩
  | some c =>
    have hbus := (h.own k c hc).1 haway
    obtain ⟨b, hb, -⟩ := h.full.served hc
    have hmoved := h.full.moved (.event e)
    change s.Moved (.event e) (s.handle e).1 (s.handle e).2 at hmoved
    obtain ⟨hstate, notices, hactions⟩ := h.full.handle_eq about hc hb
    have hne : ∀ j, away j = false → j ≠ k := by
      rintro j hj rfl
      rw [haway] at hj
      cases hj
    have hkey : (s.handle e).1.nextKey = s.nextKey := by rw [hstate]; rfl
    refine ⟨⟨h.full.moved_to hmoved, h.part, h.length.trans hmoved.length_buses.symm, ?_, by rw [hkey, h.key],
      fun j hj => ?_, h.own_moved hmoved hkey⟩, fun j hj => ?_⟩
    · rw [h.bus, hstate]
      exact congrArg _ (buses_setBus_of_ne hbus s _).symm
    · rw [h.connections j hj, hstate, get?_settle hc, if_neg (hne j hj)]
    · rw [hactions, sentTo_append, sentTo_notes, sentTo_outward, if_neg (hne j hj)]
      rfl

theorem handle_own (h : Follows n away s t) {e : ServerEvent} (about : e.connection? = some k)
    (hown : away k = false) : Corresponds n away (s.handle e) (t.handle (e.rekeyed (rank away))) := by
  have about' : (e.rekeyed (rank away)).connection? = some (rank away k) := by
    rw [ServerEvent.connection?_rekeyed, about, Option.map_some]
  have hconnection := h.connections k hown
  cases hc : s.connections.get? k with
  | none =>
    rw [hc] at hconnection
    rw [handle_of_gone about hc, handle_of_gone about' hconnection]
    exact ⟨h, fun _ _ => rfl⟩
  | some c =>
    rw [hc] at hconnection
    obtain rfl := h.bus_eq hown hc
    obtain ⟨b, hb, -⟩ := h.full.served hc
    have hb' : t.buses[c.bus]? = some (b.rekeyed (rank away)) := by rw [h.bus, hb, Option.map_some]
    obtain ⟨hstate, notices, hactions⟩ := h.full.handle_eq about hc hb
    obtain ⟨hstate', notices', hactions'⟩ := h.part.handle_eq about' hconnection hb'
    rw [Bus.exchange_rekeyed] at hstate' hactions'
    have hmoved := h.full.moved (.event e)
    change s.Moved (.event e) (s.handle e).1 (s.handle e).2 at hmoved
    have hmoved' := h.part.moved (.event (e.rekeyed (rank away)))
    change t.Moved _ (t.handle (e.rekeyed (rank away))).1 (t.handle (e.rekeyed (rank away))).2 at hmoved'
    have hkey : (s.handle e).1.nextKey = s.nextKey := by rw [hstate]; rfl
    have hsame : ∀ j, away j = false → (rank away j = rank away k ↔ j = k) := fun j hj => rank_eq_iff hj hown
    refine ⟨⟨h.full.moved_to hmoved, h.part.moved_to hmoved', ?_, ?_, ?_, fun j hj => ?_, h.own_moved hmoved hkey⟩,
      fun j hj => ?_⟩
    · rw [hmoved.length_buses, hmoved'.length_buses, h.length]
    · rw [hstate, hstate']
      show (t.setBus c.bus _).buses[c.bus]? = ((s.setBus c.bus _).buses[c.bus]?).map _
      rw [buses_setBus hb, buses_setBus hb']
      rfl
    · rw [hkey, hstate']
      exact h.key
    · rw [hstate, hstate', get?_settle hc, get?_settle hconnection, h.connections j hj]
      simp only [hsame j hj]
      rfl
    · rw [hactions, hactions', sentTo_append, sentTo_append, sentTo_notes, sentTo_notes, sentTo_outward,
        sentTo_outward]
      simp only [hsame j hj]
      rfl

/-! #### Streams -/

theorem accept_away (h : Follows n away s t) {m : Nat} (hm : m ≠ n) (peer : String)
    (hown : ∀ k c, (s.accept m peer).1.connections.get? k = some c → (away k = true ↔ c.bus ≠ n)) :
    Corresponds n away (s.accept m peer) (t, []) := by
  by_cases hlive : ∃ b, s.buses[m]? = some b ∧ b.finished = false
  · obtain ⟨b, hb, hlive⟩ := hlive
    rw [accept_of_live hb hlive] at hown ⊢
    have haway : away s.nextKey = true :=
      (hown s.nextKey ⟨m, none, peer⟩ (by rw [get?_opened, if_pos rfl])).2 hm
    refine ⟨⟨h.full.opened hb hlive peer, h.part, h.length, h.bus, ?_, fun j hj => ?_, hown⟩, fun _ _ => rfl⟩
    · rw [h.key]
      exact (rank_succ_of_foreign haway).symm
    · have hne : j ≠ s.nextKey := by
        rintro rfl
        rw [haway] at hj
        cases hj
      rw [get?_opened, if_neg hne]
      exact h.connections j hj
  · have hgone : ∀ b, s.buses[m]? = some b → b.finished = true := fun b hb =>
      by_contra fun hf => hlive ⟨b, hb, by simpa using hf⟩
    rw [accept_of_not_live hgone]
    exact ⟨h, fun _ _ => rfl⟩

theorem accept_own (h : Follows n away s t) (peer : String)
    (hown : ∀ k c, (s.accept n peer).1.connections.get? k = some c → (away k = true ↔ c.bus ≠ n)) :
    Corresponds n away (s.accept n peer) (t.accept n peer) := by
  by_cases hlive : ∃ b, s.buses[n]? = some b ∧ b.finished = false
  · obtain ⟨b, hb, hlive⟩ := hlive
    have hb' : t.buses[n]? = some (b.rekeyed (rank away)) := by rw [h.bus, hb, Option.map_some]
    have hlive' : (b.rekeyed (rank away)).finished = false := hlive
    rw [accept_of_live hb hlive] at hown ⊢
    rw [accept_of_live hb' hlive']
    have hnext : away s.nextKey = false := by
      refine Bool.eq_false_iff.2 fun haway => ?_
      exact (hown s.nextKey ⟨n, none, peer⟩ (by rw [get?_opened, if_pos rfl])).1 haway rfl
    refine ⟨⟨h.full.opened hb hlive peer, h.part.opened hb' hlive' peer, h.length, h.bus, ?_, fun j hj => ?_, hown⟩,
      fun _ _ => rfl⟩
    · show t.nextKey + 1 = rank away (s.nextKey + 1)
      rw [h.key]
      exact (rank_succ_of_own hnext).symm
    · rw [get?_opened, get?_opened, h.key, h.connections j hj]
      simp only [rank_eq_iff hj hnext]
  · have hgone : ∀ b, s.buses[n]? = some b → b.finished = true := fun b hb =>
      by_contra fun hf => hlive ⟨b, hb, by simpa using hf⟩
    have hgone' : ∀ b, t.buses[n]? = some b → b.finished = true := by
      intro b' hb'
      rw [h.bus] at hb'
      obtain ⟨b, hb, rfl⟩ := Option.map_eq_some_iff.1 hb'
      exact hgone b hb
    rw [accept_of_not_live hgone, accept_of_not_live hgone']
    exact ⟨h, fun _ _ => rfl⟩

/-! #### Service passes -/

theorem serviceBus (h : Follows n away s t) (m : Nat) : Corresponds n away (s.serviceBus m) (t.serviceBus m) := by
  have hmoved := h.full.moved (.serviceBus m)
  change s.Moved _ (s.serviceBus m).1 (s.serviceBus m).2 at hmoved
  have hmoved' := h.part.moved (.serviceBus m)
  change t.Moved _ (t.serviceBus m).1 (t.serviceBus m).2 at hmoved'
  have hkey := h.full.nextKey_serviceBus m
  have hkey' := h.part.nextKey_serviceBus m
  -- what is left to show once the bus and its connections are known
  suffices hrest : (t.serviceBus m).1.buses[n]? = ((s.serviceBus m).1.buses[n]?).map (Bus.rekeyed (rank away)) ∧
      ∀ k, away k = false →
        (t.serviceBus m).1.connections.get? (rank away k) = (s.serviceBus m).1.connections.get? k ∧
        sentTo (rank away k) (t.serviceBus m).2 = sentTo k (s.serviceBus m).2 from
    ⟨⟨h.full.moved_to hmoved, h.part.moved_to hmoved', by rw [hmoved.length_buses, hmoved'.length_buses, h.length],
      hrest.1, by rw [hkey, hkey', h.key], fun k hk => (hrest.2 k hk).1, h.own_moved hmoved hkey⟩,
      fun k hk => (hrest.2 k hk).2⟩
  rw [h.part.buses_serviceBus, h.full.buses_serviceBus, h.bus]
  by_cases hm : n = m
  · subst hm
    rw [if_pos rfl, if_pos rfl]
    cases hb : s.buses[n]? with
    | none =>
      have hnone : s.serviceBus n = (s, []) := by simp [Server.serviceBus, hb]
      have hnone' : t.serviceBus n = (t, []) := by simp [Server.serviceBus, h.bus, hb]
      rw [hnone, hnone']
      exact ⟨rfl, fun k hk => ⟨h.connections k hk, rfl⟩⟩
    | some b =>
      have hb' : t.buses[n]? = some (b.rekeyed (rank away)) := by rw [h.bus, hb, Option.map_some]
      obtain ⟨hconnections, -, hsent⟩ := h.full.serviceBus_spec hb
      obtain ⟨hconnections', -, hsent'⟩ := h.part.serviceBus_spec hb'
      simp only [Option.map_some, Bus.serviced_rekeyed, true_and]
      intro k hk
      constructor
      · rw [hconnections, hconnections', h.connections k hk, Bus.serviced_rekeyed]
        rfl
      · rw [hsent, hsent', Bus.issued_rekeyed, List.map_map, sentTo, sentTo, List.filterMap_map, List.filterMap_map]
        refine List.filterMap_congr fun d hd => ?_
        obtain ⟨c, hc, hbus⟩ := h.full.bus_of_issued hb hd
        have hd : away d.1 = false := by
          refine Bool.eq_false_iff.2 fun haway => ?_
          exact (h.own d.1 c hc).1 haway hbus
        show (if rank away d.1 = rank away k then _ else _) = if d.1 = k then _ else _
        simp only [rank_eq_iff hd hk]
        rfl
  · rw [if_neg hm, if_neg hm]
    refine ⟨rfl, fun k hk => ?_⟩
    have helsewhere : ∀ c, s.connections.get? k = some c → c.bus ≠ m := fun c hc =>
      h.bus_eq hk hc ▸ hm
    obtain ⟨hconnection, hsent⟩ := h.full.serviceBus_elsewhere helsewhere
    rw [← h.connections k hk] at helsewhere
    obtain ⟨hconnection', hsent'⟩ := h.part.serviceBus_elsewhere helsewhere
    rw [hconnection, hconnection', hsent, hsent']
    exact ⟨h.connections k hk, rfl⟩

theorem partway (h : Follows n away s t) (m : Nat) : Corresponds n away (s.partway m) (t.partway m) := by
  induction m with
  | zero => exact ⟨h, fun _ _ => rfl⟩
  | succ m ih =>
    rw [partway_succ, partway_succ]
    exact ih.andThen fun h => h.serviceBus m

theorem service (h : Follows n away s t) : Corresponds n away s.service t.service := by
  rw [service_eq_partway, service_eq_partway, h.length]
  exact h.partway _

/-! #### Runs -/

theorem perform (h : Follows n away s t) (step : Step)
    (hown : ∀ k c, (s.perform step).1.connections.get? k = some c → (away k = true ↔ c.bus ≠ n)) :
    Corresponds n away (s.perform step) (t.run (step.within n away).toList) := by
  cases step with
  | service => exact h.service
  | event e =>
    show Corresponds n away (s.handle e)
      (t.run (if Elsewhere n away e then none else some (Step.event (e.rekeyed (rank away)))).toList)
    split
    · next helsewhere =>
      show Corresponds n away (s.handle e) (t, [])
      cases e with
      | accepted m peer => exact h.accept_away helsewhere peer hown
      | line k | malformed k | closed k => exact h.handle_away rfl helsewhere
    · next hhere =>
      show Corresponds n away (s.handle e) (t.handle _)
      cases e with
      | accepted m peer =>
        obtain rfl : m = n := not_not.1 hhere
        exact h.accept_own peer hown
      | line k | malformed k | closed k => exact h.handle_own rfl (by simpa [Elsewhere] using hhere)

theorem start (hs : s.Consistent) (hconnections : s.connections = .empty) (hkey : s.nextKey = 0)
    (hbuses : ∀ b ∈ s.buses, ∃ c, Bus.ofConfig c = .ok b) : Follows n away s s := by
  have hnone : ∀ k, s.connections.get? k = none := by
    intro k
    rw [hconnections]
    rfl
  refine ⟨hs, hs, rfl, ?_, ?_, fun k _ => by rw [hnone, hnone], fun k c hc => ?_⟩
  · cases hb : s.buses[n]? with
    | none => rfl
    | some b =>
      -- nobody is connected to a bus as it is configured
      obtain ⟨c, hc⟩ := hbuses b (List.mem_of_getElem? hb)
      refine congrArg some (Bus.eq_of_anonymous_eq (b.anonymous_rekeyed _).symm fun i k => ?_)
      rw [Bus.holds_rekeyed]
      refine ⟨fun h => absurd h (Bus.not_holds_ofConfig hc), ?_⟩
      rintro ⟨j, h, -⟩
      exact absurd h (Bus.not_holds_ofConfig hc)
  · rw [hkey]
    rfl
  · cases (hnone k).symm.trans hc

end Follows

theorem corresponds_run {start : Server} (hstart : Follows n away start start) (steps : List Step)
    (hown : ∀ earlier k c, earlier <+: steps → (start.run earlier).1.connections.get? k = some c →
      (away k = true ↔ c.bus ≠ n)) :
    Corresponds n away (start.run steps) (start.run (steps.filterMap (Step.within n away))) := by
  induction steps using List.reverseRecOn with
  | nil => exact ⟨hstart, fun _ _ => rfl⟩
  | append_singleton steps step ih =>
    have hbefore := ih fun earlier k c hearlier => hown earlier k c (hearlier.trans (List.prefix_append _ _))
    have hafter := hown (steps ++ [step])
    rw [run_concat] at hafter ⊢
    have hrest : (steps ++ [step]).filterMap (Step.within n away) =
        steps.filterMap (Step.within n away) ++ (step.within n away).toList := by
      rw [List.filterMap_append]
      cases hw : step.within n away <;> simp [hw]
    rw [hrest, run_append]
    exact hbefore.andThen fun h => h.perform step fun k c => hafter k c List.prefix_rfl

/-- What bus `n` of a server comes to without the other buses, in comparison with a run that used them all. -/
structure Undisturbed (start : Server) (n : Nat) (steps : List Step) : Prop where
  /-- The keys of connections of bus `n` are told apart from the others. -/
  own : ∀ earlier k c, earlier <+: steps → (start.run earlier).1.connections.get? k = some c →
    (start.foreign n steps k = false ↔ c.bus = n)
  /-- The connections of bus `n` are numbered in the order in which they were accepted. -/
  order : ∀ j k, start.foreign n steps j = false →
    (rank (start.foreign n steps) j < rank (start.foreign n steps) k ↔ j < k)
  count : (start.run (start.alone n steps)).1.nextKey = rank (start.foreign n steps) (start.run steps).1.nextKey
  messages : ∀ k, start.foreign n steps k = false →
    sentTo (rank (start.foreign n steps) k) (start.run (start.alone n steps)).2 = sentTo k (start.run steps).2
  connections : ∀ k, start.foreign n steps k = false →
    (start.run (start.alone n steps)).1.connections.get? (rank (start.foreign n steps) k) =
      (start.run steps).1.connections.get? k
  bus : (start.run (start.alone n steps)).1.buses[n]? =
    ((start.run steps).1.buses[n]?).map (Bus.rekeyed (rank (start.foreign n steps)))

/-- **Buses do not interfere.** Leaving out of a run whatever concerns other buses than bus `n` changes nothing for
bus `n`: it comes to the same state, and its connections are sent the same messages, each under its number in the order
of acceptance. -/
theorem buses_do_not_interfere {configs : List BusConfig} {limit : Nat} {start : Server}
    {notices : List ServerNotice} (h : ofConfigs configs limit = (some start, notices)) (steps : List Step) (n : Nat) :
    Undisturbed start n steps := by
  have hs := consistent_ofConfigs h
  obtain ⟨hconnections, hkey, hbuses⟩ := ofConfigs_spec h
  have hown : ∀ earlier k c, earlier <+: steps → (start.run earlier).1.connections.get? k = some c →
      (start.foreign n steps k = true ↔ c.bus ≠ n) := fun earlier k c hearlier hc => foreign_iff hs hearlier hc
  have hstart : Follows n (start.foreign n steps) start start :=
    .start hs hconnections hkey fun b hb => (hbuses b hb).imp fun _ hc => hc.2
  obtain ⟨hfollows, hsent⟩ := corresponds_run hstart steps hown
  refine ⟨fun earlier k c hearlier hc => ?_, fun j k hj => rank_lt_iff hj, hfollows.key, hsent,
    hfollows.connections, hfollows.bus⟩
  have hiff := hown earlier k c hearlier hc
  cases hf : start.foreign n steps k <;> simp_all

def spareConfig : BusConfig := { Bus.hostAndCard with name := "spare", address := .tcp "localhost" 1 }

def twoBuses : Server := { idleServer with buses := [Bus.idleBus, { Bus.idleBus with config := spareConfig }] }

theorem ofConfigs_twoBuses : ofConfigs [Bus.hostAndCard, spareConfig] 65536 = (some twoBuses, []) := by cbv

/-- Somebody connects to the second bus and sends nonsense, while the host of the first one is admitted. -/
def mixed : List Step :=
  [.event (.accepted 1 "stranger"), .event (.accepted 0 "peer"), .event (.line 0 "nonsense"),
    .event (.line 1 "HELLO host"), .service]

/-- The host is welcomed all the same, and is the first to connect to a bus that is left alone. -/
theorem host_undisturbed : ofConfigs [Bus.hostAndCard, spareConfig] 65536 = (some twoBuses, []) ∧
    sentTo 1 (twoBuses.run mixed).2 = [.youAre 0] ∧
    sentTo 0 (twoBuses.run (twoBuses.alone 0 mixed)).2 = [.youAre 0] := by
  have hown : twoBuses.foreign 0 mixed 1 = false := by cbv
  have hrank : rank (twoBuses.foreign 0 mixed) 1 = 0 := by cbv
  have hsent : sentTo 1 (twoBuses.run mixed).2 = [.youAre 0] := by cbv
  have hmessages := (buses_do_not_interfere ofConfigs_twoBuses mixed 0).messages 1 hown
  rw [hrank, hsent] at hmessages
  exact ⟨ofConfigs_twoBuses, hsent, hmessages⟩

end Server

end Lockstep
