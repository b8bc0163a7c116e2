import Lockstep.Proofs.Bus.Delivery
import Lockstep.Proofs.Bus.Run
/-!
# The readiness barrier

A bus steps only when it waits for nobody, and a step answers every connected participant exactly once
(`StepsFrom`). Along a run, the READYs accepted from a connection and the UNTILs addressed to it therefore
alternate: `Account` is the balance of one connection, and `Run.account` carries it from operation to operation.

A bus takes the number of a connection as it is given. If two slots are claimed under one number, the READYs of
both count for it (`shared_connection_runs_ahead`); numbers that greet once have the balance of one slot.
-/

namespace Lockstep

namespace Bus

/-! ### What counts for a connection -/

/-- An accepted handshake of connection `k`. -/
def greets (k : ConnectionKey) : Bus × Operation → Bool
  | (b, .handshake k' name options) =>
    match (b.handshake k' name options).1 with
    | .ok _ => k' = k
    | .error _ => false
  | _ => false

def accepts (k : ConnectionKey) : Bus × Operation → Bool
  | (b, .line i text) =>
    match (b.hear i text).1 with
    | .ok (.ok .ready) => (b.participants.get? i).any fun slot => slot.connection = some k
    | _ => false
  | _ => false

def sends : Bus × Operation → List Delivery
  | (b, .advance) =>
    match b.advance.1 with
    | .stepped ds => ds
    | _ => []
  | _ => []

def admissions (k : ConnectionKey) (trace : Trace) : Nat := trace.countP (greets k)

def readies (k : ConnectionKey) (trace : Trace) : Nat := trace.countP (accepts k)

def untils (k : ConnectionKey) (trace : Trace) : Nat := (trace.flatMap sends).countP fun d => d.1 = k

section Counting

variable (k : ConnectionKey) (trace : Trace) (e : Bus × Operation)

theorem admissions_snoc : admissions k (trace ++ [e]) = admissions k trace + (greets k e).toNat := by
  cases h : greets k e <;> simp [admissions, List.countP_append, h]

theorem readies_snoc : readies k (trace ++ [e]) = readies k trace + (accepts k e).toNat := by
  cases h : accepts k e <;> simp [readies, List.countP_append, h]

theorem untils_snoc : untils k (trace ++ [e]) = untils k trace + (sends e).countP fun d => d.1 = k := by
  simp [untils]

end Counting

/-- The balance of a connection that was admitted at most once: how many READYs were accepted from it and how many
UNTILs were addressed to it. -/
structure Account (k : ConnectionKey) (b : Bus) (admissions readies untils : Nat) : Prop where
  /-- Who was never admitted has no slot and no balance. -/
  stranger : admissions = 0 → readies = 0 ∧ untils = 0 ∧ ∀ i, ¬ b.Holds i k
  single : ∀ i j, b.Holds i k → b.Holds j k → i = j
  /-- While the connection holds a slot, the slot is ready exactly if an UNTIL is due. -/
  bound : ∀ i slot, b.participants.get? i = some slot → slot.connection = some k →
    readies = untils + slot.ready.toNat
  balance : readies = untils ∨ readies = untils + 1

namespace Account

variable {k : ConnectionKey} {b b' : Bus} {a r u : Nat}

theorem single_of_back (h : Account k b a r u) (hback : ∀ i, b'.Holds i k → b.Holds i k) :
    ∀ i j, b'.Holds i k → b'.Holds j k → i = j :=
  fun i j hi hj => h.single i j (hback i hi) (hback j hj)

theorem of_slots (h : Account k b a r u)
    (hslots : ∀ i slot', b'.participants.get? i = some slot' → slot'.connection = some k →
      ∃ slot, b.participants.get? i = some slot ∧ slot.connection = some k ∧ slot'.ready = slot.ready) :
    Account k b' a r u := by
  have hback : ∀ i, b'.Holds i k → b.Holds i k := by
    rintro i ⟨slot', hs', hk'⟩
    obtain ⟨slot, hs, hk, -⟩ := hslots i slot' hs' hk'
    exact ⟨slot, hs, hk⟩
  refine ⟨fun h0 => ?_, h.single_of_back hback, ?_, h.balance⟩
  · obtain ⟨hr, hu, hno⟩ := h.stranger h0
    exact ⟨hr, hu, fun i hi => hno i (hback i hi)⟩
  · intro i slot' hs' hk'
    obtain ⟨slot, hs, hk, hready⟩ := hslots i slot' hs' hk'
    rw [hready]
    exact h.bound i slot hs hk

theorem modifySlot (h : Account k b a r u) {i : Ident} {f : Slot → Slot}
    (hf : ∀ s, b.participants.get? i = some s → (f s).connection = some k →
      s.connection = some k ∧ (f s).ready = s.ready) :
    Account k (b.modifySlot i f) a r u := by
  refine h.of_slots fun j slot' hs' hk' => ?_
  rw [get?_modifySlot] at hs'
  split at hs'
  · next hj =>
    subst hj
    obtain ⟨s, hs, rfl⟩ := Option.map_eq_some_iff.1 hs'
    exact ⟨s, hs, hf s hs hk'⟩
  · exact ⟨slot', hs', hk', rfl⟩

theorem retire (h : Account k b a r u) (i : Ident) : Account k (b.retire i) a r u :=
  h.modifySlot fun _ _ hk => by cases hk

theorem claim (h : Account k b 0 r u) {i : Ident} {slot : Slot} (hs : b.participants.get? i = some slot)
    (hready : slot.ready = false) (options : Options) (widths : Widths) :
    Account k (b.modifySlot i (·.claim k options widths)) 1 r u := by
  obtain ⟨hr, hu, hno⟩ := h.stranger rfl
  -- the claimed slot is the only one that holds the connection
  have honly : ∀ j slot', (b.modifySlot i (·.claim k options widths)).participants.get? j = some slot' →
      slot'.connection = some k → j = i ∧ slot' = slot.claim k options widths := by
    intro j slot' hs' hk'
    rw [get?_modifySlot] at hs'
    split at hs'
    · next hj =>
      subst hj
      rw [hs] at hs'
      exact ⟨rfl, (Option.some.inj hs').symm⟩
    · exact absurd ⟨slot', hs', hk'⟩ (hno j)
  refine ⟨fun h => absurd h Nat.one_ne_zero, ?_, ?_, .inl (by rw [hr, hu])⟩
  · rintro j j' ⟨s, hs₁, hk₁⟩ ⟨s', hs₂, hk₂⟩
    rw [(honly j s hs₁ hk₁).1, (honly j' s' hs₂ hk₂).1]
  · intro j slot' hs' hk'
    rw [(honly j slot' hs' hk').2]
    show r = u + slot.ready.toNat
    rw [hready, hr, hu]
    rfl

theorem offer (h : Account k b a r u) {i : Ident} {slot : Slot} (hs : b.participants.get? i = some slot)
    (hk : slot.connection = some k) (hready : slot.ready = false) (time : Time) (signals : Signals) :
    Account k (b.modifySlot i (·.offer time signals)) a (r + 1) u := by
  have heq : r = u := by
    have := h.bound i slot hs hk
    rw [hready] at this
    exact this
  have hback : ∀ j, (b.modifySlot i (·.offer time signals)).Holds j k → b.Holds j k := by
    rintro j ⟨slot', hs', hk'⟩
    rw [get?_modifySlot] at hs'
    split at hs'
    · next hj =>
      subst hj
      exact ⟨slot, hs, hk⟩
    · exact ⟨slot', hs', hk'⟩
  refine ⟨fun h0 => absurd ⟨slot, hs, hk⟩ ((h.stranger h0).2.2 i), h.single_of_back hback, ?_,
    .inr (by rw [heq])⟩
  intro j slot' hs' hk'
  have hj : j = i := h.single j i (hback j ⟨slot', hs', hk'⟩) ⟨slot, hs, hk⟩
  subst hj
  rw [get?_modifySlot, if_pos rfl, hs] at hs'
  cases hs'
  show r + 1 = u + 1
  rw [heq]

theorem step (h : Account k b a r u) (hb : b.Sound) {ds : List Delivery} (hadvance : b.advance.1 = .stepped ds) :
    Account k b.advance.2.1 a r (u + ds.countP fun d => d.1 = k) := by
  have hsteps := stepsFrom_of_stepped hadvance
  have hcount : (ds.countP fun d => d.1 = k) = b.participants.attached.countP fun x => x.2 = k := by
    rw [hsteps.outgoing, List.countP_map]
    rfl
  have hmem : ∀ {i}, (i, k) ∈ b.participants.attached ↔ b.Holds i k := by
    intro i
    rw [hsteps.attached]
    constructor
    · rintro ⟨slot, hs, -, hk⟩
      exact ⟨slot, hs, hk⟩
    · rintro ⟨slot, hs, hk⟩
      exact ⟨slot, hs, (hb.slots hs).unfinished_of_connection hk, hk⟩
  have hback : ∀ j, b.advance.2.1.Holds j k → b.Holds j k := fun j => b.advance_spec.holds_iff.1
  by_cases hheld : ∃ i, b.Holds i k
  · obtain ⟨i, hi⟩ := hheld
    have hone : (ds.countP fun d => d.1 = k) = 1 := by
      rw [hcount, List.countP_eq_length_filter,
        Participants.filter_attached (hmem.2 hi) fun j hj => h.single j i (hmem.1 hj) hi]
      rfl
    obtain ⟨slot, hs, hk⟩ := hi
    have hdue : r = u + 1 := by
      have hready : slot.ready = true :=
        (hsteps.complete i slot hs).resolve_right
          (by rw [(hb.slots hs).unfinished_of_connection hk]; exact Bool.false_ne_true)
      have := h.bound i slot hs hk
      rwa [hready] at this
    rw [hone]
    refine ⟨fun h0 => absurd ⟨slot, hs, hk⟩ ((h.stranger h0).2.2 i), h.single_of_back hback, ?_, .inl hdue⟩
    intro j slot' hs' hk'
    have hlive := ((hb.advanced b.advance_spec).slots hs').unfinished_of_connection hk'
    rw [hsteps.rearmed j slot' hs' hlive]
    exact hdue
  · have hzero : (ds.countP fun d => d.1 = k) = 0 := by
      rw [hcount, List.countP_eq_zero]
      rintro ⟨i, k'⟩ hi hk'
      obtain rfl : k' = k := by simpa using hk'
      exact hheld ⟨i, hmem.1 hi⟩
    rw [hzero]
    exact h.of_slots fun j slot' hs' hk' => absurd ⟨j, hback j ⟨slot', hs', hk'⟩⟩ hheld

end Account

/-! ### Runs -/

theorem account_ofConfig {c : BusConfig} {start : Bus} (h : ofConfig c = .ok start) (k : ConnectionKey) :
    Account k start 0 0 0 :=
  ⟨fun _ => ⟨rfl, rfl, fun _ => not_holds_ofConfig h⟩, fun _ _ hi => absurd hi (not_holds_ofConfig h),
    fun _ slot hs hk => absurd ⟨slot, hs, hk⟩ (not_holds_ofConfig h), .inl rfl⟩

theorem Account.perform {k : ConnectionKey} {b : Bus} {a r u : Nat} (h : Account k b a r u) (hb : b.Sound)
    (op : Operation) (hp : b.Permits op) (honce : a + (greets k (b, op)).toNat ≤ 1) :
    Account k (b.perform op) (a + (greets k (b, op)).toNat) (r + (accepts k (b, op)).toNat)
      (u + (sends (b, op)).countP fun d => d.1 = k) := by
  cases op with
  | handshake k' name options =>
    show Account k (b.handshake k' name options).2.1 (a + (greets k (b, .handshake k' name options)).toNat) r u
    rcases b.handshake_spec k' name options with ⟨reason, -, heq⟩ | ⟨slot, widths, hadmits, heq⟩
    · simp only [greets, heq]
      exact h
    · obtain ⟨-, hs, -, hfree, -⟩ := admits_spec hb hadmits
      simp only [greets, heq] at honce ⊢
      by_cases hk : k' = k
      · subst hk
        obtain rfl : a = 0 := by simpa using honce
        simpa using h.claim hs ((hb.slots hs).vacant hfree).1 options widths
      · have hother : Account k (b.modifySlot slot.ident (·.claim k' options widths)) a r u :=
          h.modifySlot fun s _ hk' => absurd (Option.some.inj hk') hk
        simpa [hk] using hother
  | line i text =>
    obtain ⟨slot, k', hs, hc, hk'⟩ := hp
    show Account k (b.hear i text).2 a (r + (accepts k (b, .line i text)).toNat) u
    rcases hear_spec hs text with ⟨cause, -, heq⟩ | ⟨m, outcome, b', -, heq, hreceipt⟩
    · simp only [accepts, heq]
      exact h
    · simp only [accepts, heq, hs]
      cases hreceipt with
      | left => exact h.retire i
      | violated => exact h.retire i
      | offered time signals unfinished unready =>
        by_cases hk : slot.connection = some k
        · simpa [hk] using h.offer hs hk unready time signals
        · have hother : Account k (b.modifySlot i (·.offer time signals)) a r u := by
            refine h.modifySlot fun s hs' hk₁ => ?_
            rw [hs] at hs'
            cases hs'
            exact absurd hk₁ hk
          simpa [hk] using hother
  | disconnect i =>
    obtain ⟨slot, hs, -⟩ := hp
    show Account k (b.disconnect i).2 a r u
    cases hf : slot.finished with
    | false =>
      rw [disconnect_of_live hs hf]
      exact h.retire i
    | true =>
      rw [disconnect_of_finished hs hf]
      exact h.modifySlot fun _ _ hk => by cases hk
  | advance =>
    show Account k b.advance.2.1 a r (u + (sends (b, .advance)).countP fun d => d.1 = k)
    cases houtcome : b.advance.1 with
    | stepped ds =>
      simp only [sends, houtcome]
      exact h.step hb houtcome
    | waiting =>
      simp only [sends, houtcome]
      have hspec := b.advance_spec
      rw [houtcome] at hspec
      generalize b.advance.2.1 = b' at hspec ⊢
      cases hspec
      exact h
    | failed cause =>
      simp only [sends, houtcome]
      have hspec := b.advance_spec
      rw [houtcome] at hspec
      generalize b.advance.2.1 = b' at hspec ⊢
      cases hspec with
      | failed _ engine ps clock assembled live ready shown timing =>
        refine h.of_slots fun j slot' hs' hk' => ?_
        obtain ⟨slot, hs, hm⟩ := Participants.exists_of_muted_eq shown hs'
        rw [Slot.eq_of_muted_eq hm] at hk' ⊢
        exact ⟨slot, hs, hk', rfl⟩
  | tearDown =>
    show Account k b.tearDown.2.1 a r u
    unfold Bus.tearDown
    split
    · exact h
    · refine h.of_slots fun j slot' hs' hk' => ?_
      rw [Participants.get?_each] at hs'
      obtain ⟨s, -, rfl⟩ := Option.map_eq_some_iff.1 hs'
      cases hk'

theorem Run.account {c : BusConfig} {start b : Bus} {trace : Trace} (hstart : ofConfig c = .ok start)
    (h : Run start trace b) (k : ConnectionKey) (honce : admissions k trace ≤ 1) :
    Account k b (admissions k trace) (readies k trace) (untils k trace) := by
  induction h with
  | nil => exact account_ofConfig hstart k
  | @snoc trace b h op hp ih =>
    rw [admissions_snoc] at honce
    rw [admissions_snoc, readies_snoc, untils_snoc]
    exact (ih (by omega)).perform (h.sound hstart) op hp honce

/-- The READYs accepted from connection `k` and the UNTILs addressed to it alternate: at most one READY is ahead, and
a READY that can be read is accepted exactly if none is. -/
def Alternates (k : ConnectionKey) (trace : Trace) (b : Bus) : Prop :=
  (readies k trace = untils k trace ∨ readies k trace = untils k trace + 1) ∧
  ∀ i slot text time signals, b.participants.get? i = some slot → slot.connection = some k →
    b.decode i text = .ok (.ready time signals) →
    ((b.hear i text).1 = .ok (.ok .ready) ↔ readies k trace = untils k trace)

/-- **The readiness barrier.** Every step answers a complete barrier with one UNTIL for each attached participant,
and for a connection that was admitted at most once, READYs and UNTILs alternate. -/
theorem barrier_and_alternation {c : BusConfig} {start b : Bus} {trace : Trace}
    (hstart : ofConfig c = .ok start) (h : Run start trace b) :
    (∀ ds, b.advance.1 = .stepped ds → StepsFrom b b.advance.2.1 ds) ∧
    ∀ k, admissions k trace ≤ 1 → Alternates k trace b := by
  refine ⟨fun ds hds => stepsFrom_of_stepped hds, fun k honce => ?_⟩
  have haccount := h.account hstart k honce
  refine ⟨haccount.balance, fun i slot text time signals hs hk hdecode => ?_⟩
  have hlive := ((h.sound hstart).slots hs).unfinished_of_connection hk
  have hbound := haccount.bound i slot hs hk
  rcases hear_spec hs text with ⟨cause, herror, -⟩ | ⟨m, outcome, b', hm, heq, hreceipt⟩
  · rw [hdecode] at herror
    cases herror
  · rw [hdecode] at hm
    cases hm
    rw [heq]
    cases hreceipt with
    | offered _ _ _ unready =>
      rw [unready] at hbound
      exact ⟨fun _ => hbound, fun _ => rfl⟩
    | violated _ _ _ unawaited =>
      have hready : slot.ready = true := by
        have := unawaited rfl
        rwa [Slot.isReady, hlive, Bool.or_false] at this
      rw [hready] at hbound
      refine ⟨fun h => absurd h (by simp), fun heven => ?_⟩
      have : readies k trace = untils k trace + 1 := hbound
      omega

theorem permits_line {b : Bus} {i : Ident} (text : String)
    (h : (b.participants.get? i).any (fun s => s.claimed && s.connection.isSome) = true) :
    b.Permits (.line i text) := by
  obtain ⟨slot, hs, hslot⟩ := (Option.any_eq_true _ _).1 h
  obtain ⟨hc, hk⟩ := Bool.and_eq_true_iff.1 hslot
  obtain ⟨k, hk⟩ := Option.isSome_iff_exists.1 hk
  exact ⟨slot, k, hs, hc, hk⟩

/-- The handshakes of the host on connection 7 and of the card on a connection of its choice. -/
def greetings (card : ConnectionKey) : Trace :=
  [(idleBus, .handshake 7 "host" .empty),
    (idleBus.perform (.handshake 7 "host" .empty), .handshake card "card" .empty)]

def greeted (card : ConnectionKey) : Bus :=
  (idleBus.perform (.handshake 7 "host" .empty)).perform (.handshake card "card" .empty)

theorem run_greeted (card : ConnectionKey) : Run idleBus (greetings card) (greeted card) :=
  (Run.nil.snoc (.handshake 7 "host" .empty) trivial).snoc (.handshake card "card" .empty) trivial

/-- The host is ready once, and no UNTIL has gone out yet. -/
theorem alternates_host : ∃ trace b, Run idleBus trace b ∧ admissions 7 trace ≤ 1 ∧ readies 7 trace = 1 ∧
    Alternates 7 trace b := by
  have hrun := (run_greeted 8).snoc (.line 0 "READY 0e-12") (permits_line _ (by cbv))
  have honce : admissions 7 (greetings 8 ++ [(greeted 8, .line 0 "READY 0e-12")]) ≤ 1 := by
    have : admissions 7 (greetings 8 ++ [(greeted 8, .line 0 "READY 0e-12")]) = 1 := by cbv
    exact Nat.le_of_eq this
  exact ⟨_, _, hrun, honce, by cbv, (barrier_and_alternation ofConfig_hostAndCard hrun).2 7 honce⟩

/-- If two devices greet under one number, two READYs of that number can be accepted before anything goes out. -/
theorem shared_connection_runs_ahead : ¬ ∀ (c : BusConfig) (start b : Bus) (trace : Trace) (k : ConnectionKey),
    ofConfig c = .ok start → Run start trace b →
      readies k trace = untils k trace ∨ readies k trace = untils k trace + 1 := by
  intro h
  have hhost := (run_greeted 7).snoc (.line 0 "READY 0e-12") (permits_line _ (by cbv))
  have hcard := hhost.snoc (.line 1 "READY 0e-12") (permits_line _ (by cbv))
  have hreadies : readies 7 (greetings 7 ++ [(greeted 7, .line 0 "READY 0e-12")] ++
      [((greeted 7).perform (.line 0 "READY 0e-12"), .line 1 "READY 0e-12")]) = 2 := by cbv
  have huntils : untils 7 (greetings 7 ++ [(greeted 7, .line 0 "READY 0e-12")] ++
      [((greeted 7).perform (.line 0 "READY 0e-12"), .line 1 "READY 0e-12")]) = 0 := by cbv
  have := h hostAndCard idleBus _ _ 7 ofConfig_hostAndCard hcard
  omega

end Bus

end Lockstep
