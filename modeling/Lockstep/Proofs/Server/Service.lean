import Lockstep.Proofs.Server.Binding
/-!
# Service passes

A service pass gives each bus one opportunity to step or to end. The buses do not notice each other: after the pass,
every bus is what its own service makes of it (`Bus.serviced`, `buses_service`). A bus that has been served is settled,
which means that it has been torn down or waits for somebody (`Bus.settled_serviced`), and there is nothing to do
for a settled bus. So no complete barrier is left behind by a pass, and a second pass does nothing
(`no_barrier_left_behind`).

The point is that a step disarms the barrier it went through. Before the step, somebody has not finished, for else the
bus would have been torn down; the step takes the readiness of that participant away, and nobody but the participant
itself can give it back.
-/

namespace Lockstep

namespace Participants

theorem allReady_eq_false_iff {ps : Participants} :
    ps.allReady = false ↔ ∃ i slot, ps.get? i = some slot ∧ slot.ready = false ∧ slot.finished = false := by
  rw [Bool.eq_false_iff, ne_eq, allReady_iff]
  simp [Slot.isReady]

theorem exists_unfinished {ps : Participants} (h : ps.allFinished = false) :
    ∃ i slot, ps.get? i = some slot ∧ slot.finished = false := by
  rw [Bool.eq_false_iff, ne_eq, allFinished_iff] at h
  simpa using h

theorem allFinished_eq_false_of_allReady {ps : Participants} (h : ps.allReady = false) : ps.allFinished = false := by
  refine Bool.eq_false_iff.2 fun hfinished => ?_
  rw [allReady_of_allFinished hfinished] at h
  cases h

end Participants

namespace Bus

def serviced (b : Bus) : Bus :=
  if b.finished then b
  else if b.allFinished then b.tearDown.2.1
  else match b.advance.1 with
    | .waiting | .stepped _ => b.advance.2.1
    | .failed _ => b.advance.2.1.tearDown.2.1

def issued (b : Bus) : List Delivery :=
  if b.finished || b.allFinished then []
  else match b.advance.1 with
    | .stepped ds => ds
    | _ => []

/-- The bus has been torn down, or waits for somebody. -/
def Settled (b : Bus) : Prop := b.finished = true ∨ b.allReady = false

/-- Somebody has to act before the bus can go on. -/
structure Waits (b : Bus) : Prop where
  someone : ∃ i slot, b.participants.get? i = some slot ∧ slot.ready = false ∧ slot.finished = false
  unfinished : ¬ ∀ i slot, b.participants.get? i = some slot → slot.finished = true

theorem Settled.waits {b : Bus} (h : b.Settled) (live : b.finished = false) : b.Waits := by
  have hready := h.resolve_left (by rw [live]; exact Bool.false_ne_true)
  refine ⟨Participants.allReady_eq_false_iff.1 hready, fun hall => ?_⟩
  have hfinished := Participants.allFinished_iff.2 hall
  rw [Participants.allFinished_eq_false_of_allReady hready] at hfinished
  cases hfinished

theorem Settled.advance_eq {b : Bus} (h : b.Settled) : b.advance = (.waiting, b, []) := by
  unfold advance
  rcases h with h | h
  · rw [h]
    rfl
  · rw [h, Bool.not_false, Bool.or_true, if_pos rfl]

theorem Settled.serviced_eq {b : Bus} (h : b.Settled) : b.serviced = b := by
  unfold serviced
  split
  · rfl
  · next hlive =>
    have hunfinished : b.allFinished = false := Participants.allFinished_eq_false_of_allReady (h.resolve_left hlive)
    rw [hunfinished, h.advance_eq]
    rfl

theorem Settled.issued_eq {b : Bus} (h : b.Settled) : b.issued = [] := by
  unfold issued
  rw [h.advance_eq]
  split <;> rfl

theorem serviced_of_stepped {b : Bus} {ds : List Delivery} (h : b.advance.1 = .stepped ds)
    (unfinished : b.allFinished = false) : b.serviced = b.advance.2.1 ∧ b.issued = ds := by
  have hlive := (ready_of_advance (b := b) (by rw [h]; simp)).1
  simp [serviced, issued, hlive, unfinished, h]

theorem serviced_of_ended {b b₁ : Bus} (live : b.finished = false)
    (why : b.allFinished = true ∧ b₁ = b ∨
      b.allFinished = false ∧ b₁ = b.advance.2.1 ∧ ∃ cause, b.advance.1 = .failed cause) :
    b.serviced = b₁.tearDown.2.1 ∧ b.issued = [] := by
  rcases why with ⟨hfinished, rfl⟩ | ⟨hunfinished, rfl, cause, hfailed⟩
  · simp [serviced, issued, live, hfinished]
  · simp [serviced, issued, live, hunfinished, hfailed]

theorem allReady_of_stepped {b : Bus} {ds : List Delivery} (h : b.advance.1 = .stepped ds)
    (unfinished : b.allFinished = false) : b.advance.2.1.allReady = false := by
  obtain ⟨i, slot, hslot, hlive⟩ := Participants.exists_unfinished unfinished
  have hspec := b.advance_spec
  have hrearmed := (stepsFrom_of_stepped h).rearmed
  rw [h] at hspec
  generalize b.advance.2.1 = b' at hspec hrearmed
  cases hspec with
  | stepped engine ps time live ready shown sum =>
    obtain ⟨slot', hslot', hm⟩ := Participants.exists_of_muted_eq shown.symm hslot
    have hlive' : slot'.finished = false := by
      rw [Slot.eq_of_muted_eq hm] at hlive
      exact hlive
    have hget : (ps.each (·.rearm)).get? i = some slot'.rearm := by
      rw [Participants.get?_each, hslot', Option.map_some]
    refine Participants.allReady_eq_false_iff.2 ⟨i, slot'.rearm, hget, ?_, ?_⟩
    · exact hrearmed i slot'.rearm hget (by rw [Slot.finished_rearm, hlive'])
    · rw [Slot.finished_rearm, hlive']

theorem settled_serviced (b : Bus) : b.serviced.Settled := by
  unfold serviced
  split
  · next hfinished => exact .inl hfinished
  · next hlive =>
    split
    · exact .inl b.finished_tearDown
    · next hunfinished =>
      cases houtcome : b.advance.1 with
      | failed cause => exact .inl (finished_tearDown _)
      | stepped ds => exact .inr (allReady_of_stepped houtcome (by simpa using hunfinished))
      | waiting =>
        have hspec := b.advance_spec
        rw [houtcome] at hspec
        dsimp only
        generalize b.advance.2.1 = b' at hspec
        cases hspec with
        | waiting h => exact h

theorem finished_serviced {b : Bus} (live : b.finished = false) :
    b.serviced.finished = true ↔ b.allFinished = true ∨ ∃ cause, b.advance.1 = .failed cause := by
  unfold serviced
  rw [if_neg (by rw [live]; exact Bool.false_ne_true)]
  cases hfinished : b.allFinished with
  | true => simp [finished_tearDown]
  | false =>
    have hkept : b.advance.2.1.finished = false := b.advance_spec.finished_eq.trans live
    cases houtcome : b.advance.1 with
    | failed cause => simp [finished_tearDown]
    | waiting | stepped => simp [hkept]

end Bus

namespace Server

variable {s s' : Server} {actions : List ServerAction}

/-! ### One pass -/

namespace Consistent

theorem buses_serviceBus (hs : s.Consistent) (n m : Nat) :
    (s.serviceBus n).1.buses[m]? = if m = n then (s.buses[m]?).map Bus.serviced else s.buses[m]? := by
  have hmoved := hs.moved (.serviceBus n)
  change s.Moved (.serviceBus n) (s.serviceBus n).1 (s.serviceBus n).2 at hmoved
  have hset : ∀ {b b' : Bus}, s.buses[n]? = some b → b' = b.serviced →
      (s.setBus n b').buses[m]? = if m = n then (s.buses[m]?).map Bus.serviced else s.buses[m]? := by
    rintro b b' hb rfl
    split
    · next hm => rw [hm, buses_setBus hb, hb, Option.map_some]
    · next hm => exact buses_setBus_of_ne (Ne.symm hm) s _
  have hsame : (∀ b, s.buses[n]? = some b → b.serviced = b) →
      s.buses[m]? = if m = n then (s.buses[m]?).map Bus.serviced else s.buses[m]? := by
    intro h
    split
    · next hm =>
      rw [hm]
      cases hb : s.buses[n]? with
      | none => rfl
      | some b => rw [Option.map_some, h b hb]
    · rfl
  generalize (s.serviceBus n).1 = s' at hmoved
  generalize (s.serviceBus n).2 = actions at hmoved
  cases hmoved with
  | ignored _ h =>
    refine hsame fun b hb => ?_
    have hsettled : b.Settled := .inl (h b hb)
    exact hsettled.serviced_eq
  | waiting _ b hb live unready =>
    refine hsame fun b' hb' => ?_
    obtain rfl := Option.some.inj (hb.symm.trans hb')
    have hsettled : b.Settled := .inr unready
    exact hsettled.serviced_eq
  | stepped _ b ds notices hb unfinished advanced =>
    exact hset hb (Bus.serviced_of_stepped advanced unfinished).1.symm
  | ended _ b b' notices closes hb live why => exact hset hb (Bus.serviced_of_ended live why).1.symm

/-- The service of a bus sends what the bus issues, and cuts its connections off if it ends. -/
theorem serviceBus_spec (hs : s.Consistent) {n : Nat} {b : Bus} (hb : s.buses[n]? = some b) :
    (∀ k, (s.serviceBus n).1.connections.get? k =
      (s.connections.get? k).filter fun c => c.bus ≠ n || !b.serviced.finished) ∧
    (s.serviceBus n).1.nextKey = s.nextKey ∧
    ∀ k, sentTo k (s.serviceBus n).2 = sentTo k (b.issued.map fun d => .send d.1 d.2) := by
  have hmoved := hs.moved (.serviceBus n)
  change s.Moved (.serviceBus n) (s.serviceBus n).1 (s.serviceBus n).2 at hmoved
  have hbus : ∀ {b'}, s.buses[n]? = some b' → b' = b := fun hb' => Option.some.inj (hb'.symm.trans hb)
  have hkept : b.serviced.finished = false → ∀ k, s.connections.get? k =
      (s.connections.get? k).filter fun c => c.bus ≠ n || !b.serviced.finished := by
    intro hlive k
    rw [hlive]
    cases s.connections.get? k <;> simp [Option.filter_some]
  generalize (s.serviceBus n).1 = s' at hmoved
  generalize (s.serviceBus n).2 = actions at hmoved
  cases hmoved with
  | ignored _ h =>
    have hfinished := h b hb
    refine ⟨fun k => ?_, rfl, fun k => by simp [Bus.issued, hfinished]⟩
    -- nobody is connected to a bus that has been torn down
    cases hc : s.connections.get? k with
    | none => rfl
    | some c =>
      have hne : c.bus ≠ n := by
        rintro rfl
        rw [(hs.held hc hb).1] at hfinished
        cases hfinished
      simp [Option.filter_some, hne]
  | waiting _ b' hb' live unready =>
    obtain rfl := hbus hb'
    have hsettled : b'.Settled := .inr unready
    refine ⟨hkept (by rw [hsettled.serviced_eq, live]), rfl, fun k => ?_⟩
    rw [hsettled.issued_eq]
    rfl
  | stepped _ b' ds notices hb' unfinished advanced =>
    obtain rfl := hbus hb'
    have hlive := (Bus.ready_of_advance (b := b') (by rw [advanced]; simp)).1
    obtain ⟨hserviced, hissued⟩ := Bus.serviced_of_stepped advanced unfinished
    refine ⟨hkept (by rw [hserviced, b'.advance_spec.finished_eq, hlive]), rfl, fun k => ?_⟩
    rw [hissued, sentTo_append, sentTo_notes, List.nil_append]
  | ended _ b' b₁ notices closes hb' live why =>
    obtain rfl := hbus hb'
    obtain ⟨hserviced, hissued⟩ := Bus.serviced_of_ended live why
    refine ⟨fun k => ?_, rfl, fun k => ?_⟩
    · rw [get?_ended, hserviced, Bus.finished_tearDown]
      simp
    · rw [hissued, sentTo_append, sentTo_notes, sentTo_closes]
      rfl

theorem nextKey_serviceBus (hs : s.Consistent) (n : Nat) : (s.serviceBus n).1.nextKey = s.nextKey := by
  cases hb : s.buses[n]? with
  | none => simp [serviceBus, hb]
  | some b => exact (hs.serviceBus_spec hb).2.1

theorem bus_of_issued (hs : s.Consistent) {n : Nat} {b : Bus} (hb : s.buses[n]? = some b) {d : Delivery}
    (hd : d ∈ b.issued) : ∃ c, s.connections.get? d.1 = some c ∧ c.bus = n := by
  unfold Bus.issued at hd
  split at hd
  · cases hd
  · split at hd
    · next ds advanced =>
      obtain ⟨c, i, hc, hbus, -⟩ := hs.delivered hb advanced hd
      exact ⟨c, hc, hbus⟩
    · cases hd

theorem buses_partway (hs : s.Consistent) (n m : Nat) :
    (s.partway n).1.buses[m]? = if m < n then (s.buses[m]?).map Bus.serviced else s.buses[m]? := by
  induction n with
  | zero => rfl
  | succ n ih =>
    have hpartway := (Reaches.partway s n).consistent hs
    rw [partway_succ, Outcome.andThen_fst, hpartway.buses_serviceBus, ih]
    by_cases hm : m = n
    · rw [if_pos hm, if_neg (by omega), if_pos (by omega)]
    · rw [if_neg hm]
      by_cases hlt : m < n
      · rw [if_pos hlt, if_pos (by omega)]
      · rw [if_neg hlt, if_neg (by omega)]

theorem buses_service (hs : s.Consistent) : s.service.1.buses = s.buses.map Bus.serviced := by
  refine List.ext_getElem? fun m => ?_
  rw [service_eq_partway, hs.buses_partway, List.getElem?_map]
  split
  · rfl
  · next hm => rw [List.getElem?_eq_none (Nat.le_of_not_lt hm), Option.map_none]

end Consistent

/-! ### A second pass -/

theorem serviceBus_of_settled {n : Nat} (h : ∀ b, s.buses[n]? = some b → b.Settled) : s.serviceBus n = (s, []) := by
  unfold serviceBus
  cases hb : s.buses[n]? with
  | none => rfl
  | some b =>
    have hsettled := h b hb
    cases hlive : b.finished with
    | true => simp [hlive]
    | false =>
      have hready := hsettled.resolve_left (by rw [hlive]; exact Bool.false_ne_true)
      have hunfinished : b.allFinished = false := Participants.allFinished_eq_false_of_allReady hready
      simp only [hlive, hunfinished, hsettled.advance_eq, setBus_self hb]
      rfl

theorem service_of_settled (h : ∀ (n : Nat) (b : Bus), s.buses[n]? = some b → b.Settled) : s.service = (s, []) := by
  have hpartway : ∀ n, s.partway n = (s, []) := by
    intro n
    induction n with
    | zero => rfl
    | succ n ih =>
      rw [partway_succ, ih, Outcome.andThen, serviceBus_of_settled (h n)]
      rfl
  exact hpartway _

theorem Consistent.settled_service (hs : s.Consistent) {n : Nat} {b : Bus} (hb : s.service.1.buses[n]? = some b) :
    b.Settled := by
  rw [hs.buses_service, List.getElem?_map] at hb
  obtain ⟨b₀, -, rfl⟩ := Option.map_eq_some_iff.1 hb
  exact b₀.settled_serviced

/-! ### After the end -/

/-- A bus that has been torn down is out of reach: nobody is connected to it, and nobody can connect any more. -/
theorem Consistent.moved_ended (hs : s.Consistent) {m : Move} (h : s.Moved m s' actions) {n : Nat} {b : Bus}
    (hb : s.buses[n]? = some b) (hfinished : b.finished = true) : s'.buses[n]? = some b := by
  have hset : ∀ {m : Nat} {b₁ : Bus} (b' : Bus), s.buses[m]? = some b₁ → b₁.finished = false →
      (s.setBus m b').buses[n]? = some b := by
    intro m b₁ b' hb₁ hlive
    have hne : m ≠ n := by
      rintro rfl
      cases hb.symm.trans hb₁
      rw [hfinished] at hlive
      cases hlive
    rw [buses_setBus_of_ne hne, hb]
  cases h with
  | ignored | opened | refused | dropped | waiting => exact hb
  | admitted k text c b₁ name options slot widths notices hc free hb₁ => exact hset _ hb₁ (hs.held hc hb₁).1
  | offered k text c b₁ i notices hc bound hb₁ => exact hset _ hb₁ (hs.held hc hb₁).1
  | left k text c b₁ i notices hc bound hb₁ => exact hset _ hb₁ (hs.held hc hb₁).1
  | expelled k e c b₁ i notices about hc bound hb₁ => exact hset _ hb₁ (hs.held hc hb₁).1
  | stepped m b₁ ds notices hb₁ unfinished advanced =>
    exact hset _ hb₁ (Bus.ready_of_advance (b := b₁) (by rw [advanced]; simp)).1
  | ended m b₁ b' notices closes hb₁ live => exact hset _ hb₁ live

theorem Reaches.ended (h : Reaches s s' actions) (hs : s.Consistent) {n : Nat} {b : Bus}
    (hb : s.buses[n]? = some b) (hfinished : b.finished = true) : s'.buses[n]? = some b := by
  induction h with
  | start => exact hb
  | move h m ih => exact (h.consistent hs).moved_ended ((h.consistent hs).moved m) ih hfinished

/-- **No complete barrier is left behind.** After any run of a server as it was configured, a service pass leaves
every bus that it does not tear down waiting for somebody, so that a second pass sends nothing and changes nothing. A
pass tears a bus down exactly if everybody on it had finished or it could not go on, and a bus that has been torn down
stays as it is, whatever happens later. -/
theorem no_barrier_left_behind {configs : List BusConfig} {limit : Nat} {start : Server}
    {notices : List ServerNotice} (h : ofConfigs configs limit = (some start, notices)) (steps : List Step) :
    (∀ (n : Nat) (b : Bus), (start.run steps).1.service.1.buses[n]? = some b → b.finished = false → b.Waits) ∧
    (start.run steps).1.service.1.service = ((start.run steps).1.service.1, []) ∧
    (∀ (n : Nat) (b : Bus), (start.run steps).1.buses[n]? = some b → b.finished = false →
      ∃ b', (start.run steps).1.service.1.buses[n]? = some b' ∧ (b'.finished = true ↔
        (∀ i slot, b.participants.get? i = some slot → slot.finished = true) ∨
          ∃ cause, b.advance.1 = .failed cause)) ∧
    ∀ (n : Nat) (b : Bus), (start.run steps).1.buses[n]? = some b → b.finished = true →
      ∀ more, (start.run (steps ++ more)).1.buses[n]? = some b := by
  have hs := (consistent_ofConfigs h).run steps
  refine ⟨fun n b hb live => (hs.settled_service hb).waits live, ?_, fun n b hb live => ?_,
    fun n b hb hfinished more => ?_⟩
  · exact service_of_settled fun n b hb => hs.settled_service hb
  · refine ⟨b.serviced, ?_, ?_⟩
    · rw [hs.buses_service, List.getElem?_map, hb, Option.map_some]
    · rw [Bus.finished_serviced live, Bus.allFinished, Participants.allFinished_iff]
  · rw [run_append, Outcome.andThen_fst]
    exact (Reaches.run _ more).ended hs hb hfinished

/-- The host has connected and offers its signals; the bus goes on waiting for the card, however often it is served. -/
theorem waits_for_card : ofConfigs [Bus.hostAndCard] 65536 = (some idleServer, []) ∧
    ∃ b, (idleServer.run [.event (.accepted 0 "peer"), .event (.line 0 "HELLO host"),
        .event (.line 0 "READY 0e-12")]).1.service.1.buses[0]? = some b ∧ b.finished = false ∧ b.Waits ∧
      (idleServer.run [.event (.accepted 0 "peer"), .event (.line 0 "HELLO host"),
          .event (.line 0 "READY 0e-12")]).1.service.1.service =
        ((idleServer.run [.event (.accepted 0 "peer"), .event (.line 0 "HELLO host"),
          .event (.line 0 "READY 0e-12")]).1.service.1, []) := by
  obtain ⟨hwaits, hagain, -⟩ := no_barrier_left_behind ofConfigs_hostAndCard
    [.event (.accepted 0 "peer"), .event (.line 0 "HELLO host"), .event (.line 0 "READY 0e-12")]
  have hlive : ((idleServer.run [.event (.accepted 0 "peer"), .event (.line 0 "HELLO host"),
      .event (.line 0 "READY 0e-12")]).1.service.1.buses[0]?).map Bus.finished = some false := by cbv
  obtain ⟨b, hb, hfinished⟩ := Option.map_eq_some_iff.1 hlive
  exact ⟨ofConfigs_hostAndCard, b, hb, hfinished, hwaits 0 b hb hfinished, hagain⟩

end Server

end Lockstep
