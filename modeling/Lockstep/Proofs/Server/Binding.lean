import Lockstep.Proofs.Server.Move
/-!
# Connections and slots

Whatever happens to a server, its table of connections and the slots of its buses agree (`Server.Consistent`): a move
concerns one bus, and what it changes there it changes on both sides (`Consistent.moved`). Keys are given away in
increasing order, so no key comes back.

The server counts its keys in a word of 64 bits. That makes no difference as long as it is offered fewer than 2⁶⁴
streams, since every stream takes one key at most (`Consistent.nextKey_run_le`). What is said of keys that do not come
back is therefore said within this bound, and of the words that stand for them (`FreshKeys`).
-/

namespace Lockstep

def ServerEvent.isArrival : ServerEvent → Bool
  | .accepted .. => true
  | _ => false

namespace Server

variable {s s' : Server} {actions : List ServerAction}

theorem holds_setBus {n m : Nat} {b b' : Bus} {i : Ident} {k : ConnectionKey} (hb : s.buses[n]? = some b) :
    (s.setBus n b').Holds m i k ↔ if m = n then b'.Holds i k else s.Holds m i k := by
  unfold Holds
  split
  · next h =>
    subst h
    rw [buses_setBus hb]
    simp
  · next h => rw [buses_setBus_of_ne (Ne.symm h)]

namespace Consistent

theorem of_bus (hs : s.Consistent) {n : Nat} {b b' : Bus} (hb : s.buses[n]? = some b) (hsound : b'.Sound)
    (t : SortedMap ConnectionKey Connection) (next : ConnectionKey)
    (hfresh : ∀ k c, t.get? k = some c → k < next)
    (hothers : ∀ k c, c.bus ≠ n → (t.get? k = some c ↔ s.connections.get? k = some c))
    (hserved : ∀ k c, t.get? k = some c → c.bus = n →
      b'.finished = false ∧ ∀ i, c.ident = some i → b'.Holds i k)
    (hknown : ∀ i k, b'.Holds i k → ∃ c, t.get? k = some c ∧ c.bus = n ∧ c.ident = some i) :
    Consistent { s.setBus n b' with connections := t, nextKey := next } := by
  have hself := buses_setBus hb b'
  have hother : ∀ {m}, m ≠ n → (s.setBus n b').buses[m]? = s.buses[m]? := fun hm =>
    buses_setBus_of_ne (Ne.symm hm) s b'
  refine ⟨fun {m bm} h => ?_, fun {k c} h => hfresh k c h, fun {k c} h => ?_, fun {k c i} h hi => ?_,
    fun {m i k} h => ?_⟩
  · by_cases hm : m = n
    · subst hm
      cases hself.symm.trans h
      exact hsound
    · exact hs.sound ((hother hm).symm.trans h)
  · by_cases hm : c.bus = n
    · exact ⟨b', by rw [hm]; exact hself, (hserved k c h hm).1⟩
    · obtain ⟨bm, hbm, hlive⟩ := hs.served ((hothers k c hm).1 h)
      exact ⟨bm, (hother hm).trans hbm, hlive⟩
  · refine (holds_setBus hb).2 ?_
    split
    · next hm => exact (hserved k c h hm).2 i hi
    · next hm => exact hs.bound ((hothers k c hm).1 h) hi
  · have h' := (holds_setBus hb).1 h
    split at h'
    · next hm =>
      subst hm
      exact hknown i k h'
    · next hm =>
      obtain ⟨c, hc, hbus, hi⟩ := hs.known h'
      exact ⟨c, (hothers k c (hbus ▸ hm)).2 hc, hbus, hi⟩

theorem held (hs : s.Consistent) {k : ConnectionKey} {c : Connection} {b : Bus}
    (hc : s.connections.get? k = some c) (hb : s.buses[c.bus]? = some b) :
    b.finished = false ∧ ∀ i, c.ident = some i → b.Holds i k := by
  obtain ⟨b₀, hb₀, hlive⟩ := hs.served hc
  rw [hb] at hb₀
  cases hb₀
  refine ⟨hlive, fun i hi => ?_⟩
  obtain ⟨b₁, hb₁, hheld⟩ := hs.bound hc hi
  rw [hb] at hb₁
  cases hb₁
  exact hheld

theorem setBus (hs : s.Consistent) {n : Nat} {b b' : Bus} (hb : s.buses[n]? = some b) (hsound : b'.Sound)
    (hfinished : b'.finished = b.finished) (hholds : ∀ i k, b'.Holds i k ↔ b.Holds i k) :
    (s.setBus n b').Consistent := by
  refine hs.of_bus hb hsound _ _ (fun _ _ => hs.fresh) (fun _ _ _ => Iff.rfl) (fun k c hc hn => ?_)
    fun i k hk => hs.known ⟨b, hb, (hholds i k).1 hk⟩
  subst hn
  obtain ⟨hlive, hheld⟩ := hs.held hc hb
  exact ⟨hfinished.trans hlive, fun i hi => (hholds i k).2 (hheld i hi)⟩

theorem erase (hs : s.Consistent) {n : Nat} {k : ConnectionKey} {b b' : Bus} (hb : s.buses[n]? = some b)
    (hbus : ∀ c, s.connections.get? k = some c → c.bus = n) (hsound : b'.Sound)
    (hfinished : b'.finished = b.finished) (hholds : ∀ i j, b'.Holds i j ↔ b.Holds i j ∧ j ≠ k) :
    ((s.setBus n b').forget k).Consistent := by
  have hget : ∀ {j c}, (s.connections.erase k).get? j = some c ↔ j ≠ k ∧ s.connections.get? j = some c := by
    intro j c
    rw [SortedMap.get?_erase]
    split <;> simp_all
  refine hs.of_bus hb hsound (s.connections.erase k) s.nextKey ?_ ?_ ?_ ?_
  · intro j c h
    exact hs.fresh (hget.1 h).2
  · intro j c hn
    rw [hget]
    exact ⟨And.right, fun h => ⟨fun hj => hn (hbus c (hj ▸ h)), h⟩⟩
  · intro j c h hn
    subst hn
    obtain ⟨hj, hc⟩ := hget.1 h
    obtain ⟨hlive, hheld⟩ := hs.held hc hb
    exact ⟨hfinished.trans hlive, fun i hi => (hholds i j).2 ⟨hheld i hi, hj⟩⟩
  · intro i j h
    obtain ⟨hheld, hj⟩ := (hholds i j).1 h
    obtain ⟨c, hc, hn, hi⟩ := hs.known ⟨b, hb, hheld⟩
    exact ⟨c, hget.2 ⟨hj, hc⟩, hn, hi⟩

theorem forget (hs : s.Consistent) {k : ConnectionKey} {c : Connection} (hc : s.connections.get? k = some c)
    (hfree : c.ident = none) : (s.forget k).Consistent := by
  obtain ⟨b, hb, -⟩ := hs.served hc
  have hne : ∀ i j, b.Holds i j ↔ b.Holds i j ∧ j ≠ k := by
    refine fun i j => ⟨fun hj => ⟨hj, ?_⟩, And.left⟩
    rintro rfl
    obtain ⟨c', hc', -, hi⟩ := hs.known ⟨b, hb, hj⟩
    rw [hc] at hc'
    cases hc'
    cases hfree.symm.trans hi
  have := hs.erase hb (k := k) (fun c' hc' => by rw [hc] at hc'; cases hc'; rfl) (hs.sound hb) rfl hne
  rwa [setBus_self hb] at this

theorem retired (hs : s.Consistent) {k : ConnectionKey} {c : Connection} {b : Bus} {i : Ident}
    (hc : s.connections.get? k = some c) (hbound : c.ident = some i) (hb : s.buses[c.bus]? = some b) :
    (s.retired k c.bus b i).Consistent := by
  obtain ⟨slot, hslot, hk, hclaimed, -⟩ := hs.slot_of_bound hc hbound hb
  refine hs.erase hb (fun c' hc' => by rw [hc] at hc'; cases hc'; rfl) ((hs.sound hb).retire hslot hclaimed) rfl
    fun j k' => ?_
  rw [Bus.holds_retire]
  constructor
  · rintro ⟨hj, hheld⟩
    refine ⟨hheld, ?_⟩
    rintro rfl
    -- the connection is held by one slot only
    obtain ⟨c', hc', -, hj'⟩ := hs.known ⟨b, hb, hheld⟩
    rw [hc] at hc'
    cases hc'
    cases hbound.symm.trans hj'
    exact hj rfl
  · rintro ⟨hheld, hne⟩
    refine ⟨?_, hheld⟩
    rintro rfl
    obtain ⟨slot', hslot', hk'⟩ := hheld
    rw [hslot] at hslot'
    cases hslot'
    cases hk.symm.trans hk'
    exact hne rfl

theorem opened (hs : s.Consistent) {n : Nat} {b : Bus} (hb : s.buses[n]? = some b) (hlive : b.finished = false)
    (peer : String) : (s.opened n peer).Consistent := by
  have hget : ∀ {j c}, (s.connections.insert s.nextKey ⟨n, none, peer⟩).get? j = some c ↔
      j = s.nextKey ∧ c = ⟨n, none, peer⟩ ∨ s.connections.get? j = some c := by
    intro j c
    rw [SortedMap.get?_insert]
    split
    · next hj =>
      subst hj
      have hnone : s.connections.get? s.nextKey ≠ some c := fun h => absurd (hs.fresh h) (Nat.lt_irrefl _)
      simp [hnone, eq_comm]
    · next hj => simp [hj]
  have := hs.of_bus hb (hs.sound hb) (s.connections.insert s.nextKey ⟨n, none, peer⟩) (s.nextKey + 1)
    ?_ ?_ ?_ ?_
  · rwa [setBus_self hb] at this
  · intro j c h
    rcases hget.1 h with ⟨rfl, -⟩ | h
    · exact Nat.lt_succ_self _
    · exact Nat.lt_succ_of_lt (hs.fresh h)
  · intro j c hn
    rw [hget]
    constructor
    · rintro (⟨-, rfl⟩ | h)
      · exact absurd rfl hn
      · exact h
    · exact .inr
  · intro j c h hn
    rcases hget.1 h with ⟨-, rfl⟩ | hc
    · exact ⟨hlive, fun i hi => by cases hi⟩
    · exact hs.held hc (hn ▸ hb)
  · intro i j hheld
    obtain ⟨c, hc, hn, hi⟩ := hs.known ⟨b, hb, hheld⟩
    exact ⟨c, hget.2 (.inr hc), hn, hi⟩

theorem admitted (hs : s.Consistent) {k : ConnectionKey} {c : Connection} {b : Bus} {name : String}
    {options : Options} {slot : Slot} {widths : Widths} (hc : s.connections.get? k = some c)
    (hfree : c.ident = none) (hb : s.buses[c.bus]? = some b) (h : b.admits name options = .ok (slot, widths)) :
    (s.admitted k c.bus b slot.ident options widths).Consistent := by
  have hsound := hs.sound hb
  obtain ⟨hlive, hslot, -, hunclaimed, -⟩ := Bus.admits_spec hsound h
  have hholds : ∀ j k', (b.modifySlot slot.ident (·.claim k options widths)).Holds j k' ↔
      if j = slot.ident then k' = k else b.Holds j k' := by
    intro j k'
    rw [Bus.holds_modifySlot]
    split
    · next hj =>
      subst hj
      rw [hslot]
      simp [Slot.claim, eq_comm]
    · rfl
  have hvacant : ∀ k', ¬ b.Holds slot.ident k' := by
    rintro k' ⟨slot', hslot', hk'⟩
    rw [hslot] at hslot'
    cases hslot'
    cases ((hsound.slots hslot).vacant hunclaimed).2.2.symm.trans hk'
  have hget : ∀ {j c'}, (s.connections.modify k fun c => { c with ident := some slot.ident }).get? j = some c' ↔
      j = k ∧ c' = { c with ident := some slot.ident } ∨ j ≠ k ∧ s.connections.get? j = some c' := by
    intro j c'
    rw [SortedMap.get?_modify]
    split
    · next hj =>
      subst hj
      simp [hc, eq_comm]
    · next hj => simp [hj]
  refine hs.of_bus hb (hsound.claim h k) _ s.nextKey ?_ ?_ ?_ ?_
  · intro j c' h
    rcases hget.1 h with ⟨rfl, -⟩ | ⟨-, h⟩
    · exact hs.fresh hc
    · exact hs.fresh h
  · intro j c' hn
    rw [hget]
    constructor
    · rintro (⟨-, rfl⟩ | ⟨-, h⟩)
      · exact absurd rfl hn
      · exact h
    · refine fun h => .inr ⟨?_, h⟩
      rintro rfl
      rw [hc] at h
      cases h
      exact hn rfl
  · intro j c' h hn
    refine ⟨hlive, fun i hi => (hholds i j).2 ?_⟩
    rcases hget.1 h with ⟨rfl, rfl⟩ | ⟨-, hc'⟩
    · cases hi
      rw [if_pos rfl]
    · have hheld := (hs.held hc' (hn ▸ hb)).2 i hi
      have hi' : i ≠ slot.ident := by
        rintro rfl
        exact hvacant j hheld
      rwa [if_neg hi']
  · intro i j hheld
    have h' := (hholds i j).1 hheld
    split at h'
    · next hi =>
      subst hi h'
      exact ⟨_, hget.2 (.inl ⟨rfl, rfl⟩), rfl, rfl⟩
    · obtain ⟨c', hc', hn, hi⟩ := hs.known ⟨b, hb, h'⟩
      refine ⟨c', hget.2 (.inr ⟨?_, hc'⟩), hn, hi⟩
      rintro rfl
      rw [hc] at hc'
      cases hc'
      cases hfree.symm.trans hi

theorem ended (hs : s.Consistent) {n : Nat} {b b' : Bus} (hb : s.buses[n]? = some b) (hsound : b'.Sound) :
    (s.ended n b').Consistent := by
  have hget : ∀ {j c}, (s.connections.filter fun _ c => c.bus ≠ n).get? j = some c ↔
      s.connections.get? j = some c ∧ c.bus ≠ n := by
    intro j c
    rw [SortedMap.get?_filter]
    cases s.connections.get? j with
    | none => simp
    | some c' => by_cases hn : c'.bus = n <;> grind
  refine hs.of_bus hb hsound.tearDown _ s.nextKey ?_ ?_ ?_ ?_
  · intro j c h
    exact hs.fresh (hget.1 h).1
  · intro j c hn
    rw [hget]
    exact ⟨And.left, fun h => ⟨h, hn⟩⟩
  · intro j c h hn
    exact absurd hn (hget.1 h).2
  · rintro i j ⟨slot, hslot, hj⟩
    cases (hsound.tearDown.ended b'.finished_tearDown hslot).symm.trans hj

/-- Every move keeps the connections and the slots in agreement. -/
theorem moved_to (hs : s.Consistent) {m : Move} (h : s.Moved m s' actions) : s'.Consistent := by
  cases h with
  | ignored | waiting => exact hs
  | opened n peer b hb live => exact hs.opened hb live peer
  | admitted k text c b name options slot widths notices hc free hb decoded admits =>
    exact hs.admitted hc free hb admits
  | refused k text c b name options reason notices hc free => exact hs.forget hc free
  | dropped k e c notices about hc free => exact hs.forget hc free
  | offered k text c b i notices hc bound hb heard =>
    obtain ⟨slot, hslot, hk, hclaimed, -⟩ := hs.slot_of_bound hc bound hb
    rcases Bus.hear_spec hslot text with ⟨cause, -, heq⟩ | ⟨m, outcome, b', -, heq, hreceipt⟩
    · rw [heq] at heard
      cases heard
    · rw [heq] at heard ⊢
      cases heard
      have hsound := (hs.sound hb).receipt hslot hclaimed hreceipt
      cases hreceipt with
      | offered time signals =>
        refine hs.setBus hb hsound rfl fun j k' => ?_
        rw [Bus.holds_modifySlot]
        split
        · rfl
        · rfl
  | left k text c b i notices hc bound hb => exact hs.retired hc bound hb
  | expelled k e c b i notices about hc bound hb => exact hs.retired hc bound hb
  | stepped n b ds notices hb unfinished advanced =>
    refine hs.setBus hb ((hs.sound hb).advanced b.advance_spec) ?_ fun i k => b.advance_spec.holds_iff
    exact b.advance_spec.finished_eq
  | ended n b b' notices closes hb live why =>
    rcases why with ⟨-, rfl⟩ | ⟨-, rfl, -⟩
    · exact hs.ended hb (hs.sound hb)
    · exact hs.ended hb ((hs.sound hb).advanced b.advance_spec)

end Consistent

theorem Reaches.consistent (h : Reaches s s' actions) (hs : s.Consistent) : s'.Consistent := by
  induction h with
  | start => exact hs
  | move _ m ih => exact ih.moved_to (ih.moved m)

theorem Consistent.run (hs : s.Consistent) (steps : List Step) : (s.run steps).1.Consistent :=
  (Reaches.run s steps).consistent hs

/-! ### The start -/

theorem buildAll_spec {configs : List BusConfig} {others : List Bus} {b : Bus}
    (h : b ∈ (buildAll others configs).1) : b ∈ others ∨ ∃ c ∈ configs, Bus.ofConfig c = .ok b := by
  induction configs generalizing others with
  | nil => exact .inl h
  | cons c cs ih =>
    rw [buildAll] at h
    split at h
    · next b' hbuild =>
      rcases ih h with h | ⟨c', hc', h⟩
      · rcases List.mem_append.1 h with h | h
        · exact .inl h
        · obtain rfl := List.mem_singleton.1 h
          refine .inr ⟨c, by simp, ?_⟩
          unfold build at hbuild
          split at hbuild
          · cases hbuild
          · exact hbuild
      · exact .inr ⟨c', by simp [hc'], h⟩
    · rcases ih h with h | ⟨c', hc', h⟩
      · exact .inl h
      · exact .inr ⟨c', by simp [hc'], h⟩

theorem ofConfigs_spec {configs : List BusConfig} {limit : Nat} {notices : List ServerNotice}
    (h : ofConfigs configs limit = (some s, notices)) :
    s.connections = .empty ∧ s.nextKey = 0 ∧ ∀ b ∈ s.buses, ∃ c ∈ configs, Bus.ofConfig c = .ok b := by
  unfold ofConfigs at h
  dsimp only at h
  split at h
  · cases h
  · cases h
    refine ⟨rfl, rfl, fun b hb => ?_⟩
    exact (buildAll_spec hb).resolve_left List.not_mem_nil

theorem consistent_ofConfigs {configs : List BusConfig} {limit : Nat} {notices : List ServerNotice}
    (h : ofConfigs configs limit = (some s, notices)) : s.Consistent := by
  obtain ⟨hconnections, -, hbuses⟩ := ofConfigs_spec h
  have hnone : ∀ k, s.connections.get? k = none := by
    intro k
    rw [hconnections]
    rfl
  have hconfigured : ∀ {n : Nat} {b : Bus}, s.buses[n]? = some b → ∃ c ∈ configs, Bus.ofConfig c = .ok b :=
    fun hb => hbuses _ (List.mem_of_getElem? hb)
  refine ⟨fun hb => ?_, fun {k c} h => ?_, fun {k c} h => ?_, fun {k c i} h => ?_, ?_⟩
  · obtain ⟨c, -, hc⟩ := hconfigured hb
    exact Bus.sound_ofConfig hc
  · cases (hnone k).symm.trans h
  · cases (hnone k).symm.trans h
  · cases (hnone k).symm.trans h
  · rintro n i k ⟨b, hb, hheld⟩
    obtain ⟨c, -, hc⟩ := hconfigured hb
    exact absurd hheld (Bus.not_holds_ofConfig hc)

/-! ### Keys -/

/-- What was given away before `s` and is in use in `s'` is in use in `s`. -/
def Precedes (s s' : Server) : Prop :=
  s.nextKey ≤ s'.nextKey ∧
    ∀ k, k < s.nextKey → s'.connections.contains k = true → s.connections.contains k = true

theorem Precedes.refl (s : Server) : s.Precedes s := ⟨Nat.le_refl _, fun _ _ h => h⟩

theorem Precedes.trans {s s' s'' : Server} (h : s.Precedes s') (h' : s'.Precedes s'') : s.Precedes s'' :=
  ⟨Nat.le_trans h.1 h'.1, fun k hk hc => h.2 k hk (h'.2 k (Nat.lt_of_lt_of_le hk h.1) hc)⟩

theorem precedes_forget (s : Server) (k : ConnectionKey) : s.Precedes (s.forget k) := by
  refine ⟨Nat.le_refl _, fun j _ hj => ?_⟩
  rw [SortedMap.contains, get?_forget] at hj
  split at hj
  · cases hj
  · exact hj

theorem precedes_setBus (s : Server) (n : Nat) (b : Bus) : s.Precedes (s.setBus n b) := .refl s

theorem Moved.precedes {m : Move} (h : s.Moved m s' actions) : s.Precedes s' := by
  cases h with
  | ignored | waiting => exact .refl s
  | opened n peer =>
    refine ⟨Nat.le_succ _, fun k hk hc => ?_⟩
    rwa [SortedMap.contains, get?_opened, if_neg (Nat.ne_of_lt hk)] at hc
  | admitted k text c b name options slot =>
    refine ⟨Nat.le_refl _, fun j _ hj => ?_⟩
    rw [SortedMap.contains, get?_admitted] at hj
    rw [SortedMap.contains]
    split at hj <;> simpa using hj
  | refused k | dropped k => exact precedes_forget s k
  | offered | stepped => exact precedes_setBus s _ _
  | left k | expelled k => exact (precedes_setBus s _ _).trans (precedes_forget _ k)
  | ended n b b' =>
    refine ⟨Nat.le_refl _, fun k _ hk => ?_⟩
    rw [SortedMap.contains, get?_ended] at hk
    rw [SortedMap.contains]
    cases hc : s.connections.get? k with
    | none => rw [hc] at hk; cases hk
    | some c => rfl

theorem Reaches.precedes (h : Reaches s s' actions) (hs : s.Consistent) : s.Precedes s' := by
  induction h with
  | start => exact .refl s
  | move h m ih => exact ih.trans ((h.consistent hs).moved m).precedes

/-! ### Agreement along a run -/

/-- The table of connections and the slots of the buses say the same. -/
structure Agrees (s : Server) : Prop where
  /-- A connection knows its slot exactly if the slot knows the connection. -/
  both : ∀ k c i, s.connections.get? k = some c → (c.ident = some i ↔ s.Holds c.bus i k)
  /-- No two connections are bound to one slot. -/
  single : ∀ k k' c c' i, s.connections.get? k = some c → s.connections.get? k' = some c' → c.bus = c'.bus →
    c.ident = some i → c'.ident = some i → k = k'
  /-- Whoever has finished holds no connection, and nobody does on a bus that has been torn down. -/
  released : ∀ (n : Nat) (b : Bus) i slot, s.buses[n]? = some b → b.participants.get? i = some slot →
    slot.finished = true ∨ b.finished = true → slot.connection = none
  /-- No connection belongs to a bus that has been torn down. -/
  served : ∀ k c, s.connections.get? k = some c → ∃ b, s.buses[c.bus]? = some b ∧ b.finished = false

theorem Consistent.agrees (hs : s.Consistent) : s.Agrees := by
  refine ⟨fun k c i hc => ⟨fun hi => hs.bound hc hi, fun hheld => ?_⟩, fun k k' c c' i hc hc' hbus hi hi' => ?_,
    fun n b i slot hb hslot h => ?_, fun k c => hs.served⟩
  · obtain ⟨c', hc', -, hi⟩ := hs.known hheld
    rw [hc] at hc'
    cases hc'
    exact hi
  · obtain ⟨b, hb, slot, hslot, hk⟩ := hs.bound hc hi
    obtain ⟨b', hb', slot', hslot', hk'⟩ := hs.bound hc' hi'
    rw [← hbus, hb] at hb'
    cases hb'
    rw [hslot] at hslot'
    cases hslot'
    exact Option.some.inj (hk.symm.trans hk')
  · have hsound := hs.sound hb
    rcases h with hf | hf
    · exact (hsound.slots hslot).left hf
    · exact hsound.ended hf hslot

theorem reaches_of_prefix (start : Server) {earlier steps : List Step} (h : earlier <+: steps) :
    ∃ actions, Reaches (start.run earlier).1 (start.run steps).1 actions := by
  obtain ⟨more, rfl⟩ := h
  rw [run_append]
  exact ⟨_, Reaches.run _ more⟩

theorem Consistent.accept_cases (hs : s.Consistent) (index : Nat) (peer : String) :
    (s.accept index peer).1 = s ∨
      (s.accept index peer).1.connections = s.connections.insert s.nextKey ⟨index, none, peer⟩ := by
  have hmoved := hs.moved (.event (.accepted index peer))
  change Moved _ _ (s.accept index peer).1 _ at hmoved
  generalize (s.accept index peer).1 = s' at hmoved
  generalize (s.move (.event (.accepted index peer))).2 = actions at hmoved
  cases hmoved with
  | ignored => exact .inl rfl
  | opened => exact .inr rfl
  | dropped _ _ _ _ about => cases about
  | expelled _ _ _ _ _ _ about => cases about

/-! ### Keys along a run -/

def Move.isArrival : Move → Bool
  | .event e => e.isArrival
  | .serviceBus _ => false

def Step.isArrival : Step → Bool
  | .event e => e.isArrival
  | .service => false

/-- The number of streams that are offered. -/
def arrivals (steps : List Step) : Nat := steps.countP Step.isArrival

theorem arrivals_append (steps more : List Step) : arrivals (steps ++ more) = arrivals steps + arrivals more :=
  List.countP_append

theorem Moved.nextKey_le {m : Move} (h : s.Moved m s' actions) : s'.nextKey ≤ s.nextKey + m.isArrival.toNat := by
  cases h with
  | opened => exact Nat.le_refl _
  | _ => exact Nat.le_add_right _ _

namespace Consistent

variable {start : Server} {earlier steps : List Step} {k : ConnectionKey}

theorem nextKey_partway_le (hs : s.Consistent) (n : Nat) : (s.partway n).1.nextKey ≤ s.nextKey := by
  induction n with
  | zero => exact Nat.le_refl _
  | succ n ih =>
    rw [partway_succ]
    exact (((Reaches.partway s n).consistent hs).moved (.serviceBus n)).nextKey_le.trans ih

theorem nextKey_perform_le (hs : s.Consistent) (step : Step) :
    (s.perform step).1.nextKey ≤ s.nextKey + step.isArrival.toNat := by
  cases step with
  | event e => exact (hs.moved (.event e)).nextKey_le
  | service => exact hs.nextKey_partway_le _

/-- Every stream takes one key at most. -/
theorem nextKey_run_le (hs : start.Consistent) (steps : List Step) :
    (start.run steps).1.nextKey ≤ start.nextKey + arrivals steps := by
  induction steps using List.reverseRecOn with
  | nil => exact Nat.le_refl _
  | append_singleton steps step ih =>
    have hstep := (hs.run steps).nextKey_perform_le step
    have hone : arrivals [step] = step.isArrival.toNat := by
      cases h : step.isArrival <;> simp [arrivals, h]
    rw [run_concat, arrivals_append, hone, ← Nat.add_assoc]
    exact hstep.trans (Nat.add_le_add_right ih _)

theorem precedes_run (hs : start.Consistent) (h : earlier <+: steps) :
    (start.run earlier).1.Precedes (start.run steps).1 := by
  obtain ⟨actions, hreaches⟩ := reaches_of_prefix start h
  exact hreaches.precedes (hs.run earlier)

theorem used_before (hs : start.Consistent) (h : earlier <+: steps)
    (hk : (start.run earlier).1.connections.contains k = true) : k < (start.run steps).1.nextKey := by
  obtain ⟨c, hc⟩ := SortedMap.contains_iff.1 hk
  exact Nat.lt_of_lt_of_le ((hs.run earlier).fresh hc) (hs.precedes_run h).1

end Consistent

theorem toUInt64_ne {j k : Nat} (hj : j < UInt64.size) (hk : k < UInt64.size) (h : j ≠ k) :
    j.toUInt64 ≠ k.toUInt64 := by
  intro heq
  have hnat : (UInt64.ofNat j).toNat = (UInt64.ofNat k).toNat := congrArg UInt64.toNat heq
  rw [UInt64.toNat_ofNat_of_lt' hj, UInt64.toNat_ofNat_of_lt' hk] at hnat
  exact h hnat

/-- No key of a run that has performed `steps` comes back, though keys are kept in words of 64 bits. -/
structure FreshKeys (start : Server) (steps : List Step) : Prop where
  /-- Every stream that was offered has taken one key at most. -/
  counted : (start.run steps).1.nextKey ≤ arrivals steps
  used : ∀ k, (start.run steps).1.connections.contains k = true → k < (start.run steps).1.nextKey
  /-- A stream that is accepted now is filed under a key that was in no table before. -/
  accepted : arrivals steps < UInt64.size → ∀ index peer,
    ((start.run steps).1.accept index peer).1 = (start.run steps).1 ∨
    ∃ k, ((start.run steps).1.accept index peer).1.connections =
        (start.run steps).1.connections.insert k ⟨index, none, peer⟩ ∧ k < UInt64.size ∧
      ∀ earlier, earlier <+: steps → ∀ j, (start.run earlier).1.connections.contains j = true →
        j.toUInt64 ≠ k.toUInt64
  /-- The key of a connection that is gone stays out of use. -/
  gone : ∀ earlier more k, arrivals (steps ++ more) ≤ UInt64.size → earlier <+: steps →
    (start.run earlier).1.connections.contains k = true → (start.run steps).1.connections.contains k = false →
    ∀ j, (start.run (steps ++ more)).1.connections.contains j = true → j.toUInt64 ≠ k.toUInt64

theorem Consistent.freshKeys {start : Server} (hs : start.Consistent) (hzero : start.nextKey = 0)
    (steps : List Step) : FreshKeys start steps := by
  have hcounted : ∀ steps, (start.run steps).1.nextKey ≤ arrivals steps := by
    intro steps
    have hle := hs.nextKey_run_le steps
    rwa [hzero, Nat.zero_add] at hle
  refine ⟨hcounted steps, fun k hk => hs.used_before List.prefix_rfl hk, fun hroom index peer => ?_,
    fun earlier more k hroom hearlier hk hgone j hj heq => ?_⟩
  · refine ((hs.run steps).accept_cases index peer).imp_right fun haccept => ?_
    have hnext : (start.run steps).1.nextKey < UInt64.size := Nat.lt_of_le_of_lt (hcounted steps) hroom
    refine ⟨_, haccept, hnext, fun earlier hearlier j hj => ?_⟩
    have hlt := hs.used_before hearlier hj
    exact toUInt64_ne (hlt.trans hnext) hnext hlt.ne
  · have hlater : earlier <+: steps ++ more := hearlier.trans (List.prefix_append steps more)
    have hbound : (start.run (steps ++ more)).1.nextKey ≤ UInt64.size := (hcounted _).trans hroom
    have hklt := Nat.lt_of_lt_of_le (hs.used_before hlater hk) hbound
    have hjlt := Nat.lt_of_lt_of_le (hs.used_before List.prefix_rfl hj) hbound
    -- within the bound, the words are those of one key, and that key does not come back
    obtain rfl : j = k := by
      by_contra hne
      exact toUInt64_ne hjlt hklt hne heq
    rw [(hs.precedes_run (List.prefix_append steps more)).2 j (hs.used_before hearlier hk) hj] at hgone
    cases hgone

/-- **Connections and slots never drift apart.** After any run of a server as it was configured, the table of
connections and the slots of the buses agree, no key has come back, and whatever a service pass delivers goes to
connections that are in the table. -/
theorem connections_agree_with_slots {configs : List BusConfig} {limit : Nat} {start : Server}
    {notices : List ServerNotice} (h : ofConfigs configs limit = (some start, notices)) (steps : List Step) :
    (start.run steps).1.Agrees ∧ FreshKeys start steps ∧
    ∀ (n : Nat) (b : Bus) (ds : List Delivery), ((start.run steps).1.partway n).1.buses[n]? = some b →
      b.advance.1 = .stepped ds →
      (∀ d ∈ ds, ((start.run steps).1.partway n).1.connections.contains d.1 = true) ∧
      (((start.run steps).1.partway n).1.setBus n b.advance.2.1).sendAll ds = ds.map fun d => .send d.1 d.2 := by
  have hstart := consistent_ofConfigs h
  have hrun := hstart.run steps
  refine ⟨hrun.agrees, hstart.freshKeys (ofConfigs_spec h).2.1 steps, fun n b ds hb hadvance => ?_⟩
  have hpartway := (Reaches.partway (start.run steps).1 n).consistent hrun
  have hlive : ∀ d ∈ ds, ∃ c, ((start.run steps).1.partway n).1.connections.get? d.1 = some c := by
    intro d hd
    obtain ⟨c, -, hc, -⟩ := hpartway.delivered hb hadvance hd
    exact ⟨c, hc⟩
  exact ⟨fun d hd => SortedMap.contains_iff.2 (hlive d hd), sendAll_eq hlive⟩

/-- A server of the bus of a host and a card. -/
def idleServer : Server where
  lineLimit := 65536
  buses := [Bus.idleBus]
  connections := .empty
  nextKey := 0
  listening := false

theorem ofConfigs_hostAndCard : ofConfigs [Bus.hostAndCard] 65536 = (some idleServer, []) := by cbv

/-- The host has connected, and its slot knows of it. -/
theorem host_agrees : ∃ c,
    (idleServer.run [.event (.accepted 0 "peer"), .event (.line 0 "HELLO host")]).1.connections.get? 0 = some c ∧
    c.ident = some 0 ∧
    (idleServer.run [.event (.accepted 0 "peer"), .event (.line 0 "HELLO host")]).1.Holds c.bus 0 0 := by
  have hagrees := (connections_agree_with_slots ofConfigs_hostAndCard
    [.event (.accepted 0 "peer"), .event (.line 0 "HELLO host")]).1
  refine ⟨⟨0, some 0, "peer"⟩, by cbv, rfl, ?_⟩
  exact (hagrees.both 0 ⟨0, some 0, "peer"⟩ 0 (by cbv)).1 rfl

end Server

end Lockstep
