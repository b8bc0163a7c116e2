import Lockstep.Proofs.Bus.Anonymous
import Lockstep.Proofs.Bus.Relayed
/-!
# A link apart from the clock of its device

The host of a point-to-point link steers the clock of the device by what it offers on `CLOCK_MODE`. Nothing else of the
bus depends on it. So we leave out of the slots what is offered there and what is shown of the clock
(`Bus.unclocked`), and show that two courses that differ in the modes that the host offers look the same apart from that
(`Bus.Course.unclocked_eq`).

Handshakes, lines and disconnections change one slot, and what is left out of it does not decide anything. A step goes
through the engine: the table of a link relays data only (`Engine.RelaysData`), and the clock is shown under a name that
is left out.
-/

namespace Lockstep

/-! ### Slots -/

namespace Slot

/-- A slot apart from the clock mode that is offered and the clock that is shown. -/
def unclocked (s : Slot) : Slot :=
  { s with driven := s.driven.erase "CLOCK_MODE", outgoing := s.outgoing.erase PointToPoint.clockName }

variable {s s' : Slot}

theorem kept_of_unclocked_eq (h : s'.unclocked = s.unclocked) :
    s' = { s with driven := s'.driven, outgoing := s'.outgoing } := by
  cases s
  cases s'
  simp only [unclocked, mk.injEq] at h ⊢
  simp [h]

theorem get?_driven_of_unclocked_eq (h : s'.unclocked = s.unclocked) {name : String} (hname : name ≠ "CLOCK_MODE") :
    s'.driven.get? name = s.driven.get? name := by
  have herased : s'.driven.erase "CLOCK_MODE" = s.driven.erase "CLOCK_MODE" := congrArg driven h
  have hget := congrArg (fun m => SortedMap.get? m name) herased
  simpa only [SortedMap.get?_erase, if_neg hname] using hget

theorem get?_outgoing_of_unclocked_eq (h : s'.unclocked = s.unclocked) {name : String}
    (hname : name ≠ PointToPoint.clockName) : s'.outgoing.get? name = s.outgoing.get? name := by
  have herased : s'.outgoing.erase PointToPoint.clockName = s.outgoing.erase PointToPoint.clockName :=
    congrArg outgoing h
  have hget := congrArg (fun m => SortedMap.get? m name) herased
  simpa only [SortedMap.get?_erase, if_neg hname] using hget

/-- What is kept of a slot is all but two of its fields, and those up to one name each. -/
theorem unclocked_eq_of (hrest : s' = { s with driven := s'.driven, outgoing := s'.outgoing })
    (hdriven : ∀ name, name ≠ "CLOCK_MODE" → s'.driven.get? name = s.driven.get? name)
    (houtgoing : ∀ name, name ≠ PointToPoint.clockName → s'.outgoing.get? name = s.outgoing.get? name) :
    s'.unclocked = s.unclocked := by
  have hdriven : s'.driven.erase "CLOCK_MODE" = s.driven.erase "CLOCK_MODE" := by
    refine SortedMap.ext_get? fun name => ?_
    rw [SortedMap.get?_erase, SortedMap.get?_erase]
    split
    · rfl
    · next hname => exact hdriven name hname
  have houtgoing : s'.outgoing.erase PointToPoint.clockName = s.outgoing.erase PointToPoint.clockName := by
    refine SortedMap.ext_get? fun name => ?_
    rw [SortedMap.get?_erase, SortedMap.get?_erase]
    split
    · rfl
    · next hname => exact houtgoing name hname
  unfold unclocked
  rw [hdriven, houtgoing, hrest]

theorem unclocked_claim (h : s'.unclocked = s.unclocked) (k : ConnectionKey) (options : Options) (widths : Widths) :
    (s'.claim k options widths).unclocked = (s.claim k options widths).unclocked := by
  refine unclocked_eq_of ?_ (fun _ _ => rfl) fun _ hname => get?_outgoing_of_unclocked_eq h hname
  rw [kept_of_unclocked_eq h]
  rfl

theorem unclocked_offer (h : s'.unclocked = s.unclocked) (time : Time) {signals signals' : Signals}
    (hsignals : ∀ name, name ≠ "CLOCK_MODE" → signals'.get? name = signals.get? name) :
    (s'.offer time signals').unclocked = (s.offer time signals).unclocked := by
  refine unclocked_eq_of ?_ (fun name hname => ?_) fun _ hname => get?_outgoing_of_unclocked_eq h hname
  · rw [kept_of_unclocked_eq h]
    rfl
  · show (signals'.over s'.driven).get? name = (signals.over s.driven).get? name
    rw [Signals.get?_over, Signals.get?_over, hsignals name hname, get?_driven_of_unclocked_eq h hname]

theorem unclocked_park (h : s'.unclocked = s.unclocked) : s'.park.unclocked = s.park.unclocked := by
  refine unclocked_eq_of ?_ (fun name hname => ?_) fun _ hname => get?_outgoing_of_unclocked_eq h hname
  · rw [kept_of_unclocked_eq h]
    rfl
  · simp only [park, SortedMap.get?_mapValues, get?_driven_of_unclocked_eq h hname]

theorem unclocked_unbind (h : s'.unclocked = s.unclocked) : s'.unbind.unclocked = s.unbind.unclocked :=
  congrArg unbind h

theorem unclocked_rearm (h : s'.unclocked = s.unclocked) : s'.rearm.unclocked = s.rearm.unclocked := by
  have hcommutes : ∀ s : Slot, s.rearm.unclocked = s.unclocked.rearm := by
    intro s
    unfold rearm
    cases hf : s.finished <;> simp [unclocked, hf]
  rw [hcommutes, h, hcommutes]

theorem unclocked_sendAll (h : s'.unclocked = s.unclocked) {vs vs' : List (String × Bundle)}
    (hsent : vs'.filter (·.1 ≠ PointToPoint.clockName) = vs.filter (·.1 ≠ PointToPoint.clockName)) :
    (s'.sendAll vs').unclocked = (s.sendAll vs).unclocked := by
  have hcommutes : ∀ (s : Slot) (vs : List (String × Bundle)),
      (s.sendAll vs).unclocked = s.unclocked.sendAll (vs.filter (·.1 ≠ PointToPoint.clockName)) := by
    intro s vs
    induction vs generalizing s with
    | nil => rfl
    | cons v vs ih =>
      rw [sendAll_cons, ih]
      by_cases hv : v.1 = PointToPoint.clockName
      · rw [List.filter_cons_of_neg (by simpa using hv)]
        congr 1
        simp only [send, unclocked, hv, SortedMap.erase_insert, if_pos]
      · rw [List.filter_cons_of_pos (by simpa using hv), sendAll_cons]
        congr 1
        simp only [send, unclocked, SortedMap.erase_insert, if_neg hv]
  rw [hcommutes, h, hsent, hcommutes]

end Slot

/-! ### Participants -/

namespace Participants

/-- The slots apart from the clock modes that are offered and the clock that is shown. -/
def unclocked (ps : Participants) : Participants := ps.each (·.unclocked)

theorem get?_unclocked (ps : Participants) (i : Ident) : ps.unclocked.get? i = (ps.get? i).map (·.unclocked) :=
  get?_each _ _ _

variable {ps ps' : Participants}

theorem slots_of_unclocked_eq (h : ps'.unclocked = ps.unclocked) (i : Ident) :
    (ps'.get? i).map (·.unclocked) = (ps.get? i).map (·.unclocked) := by
  rw [← get?_unclocked, h, get?_unclocked]

theorem exists_of_unclocked_eq (h : ps'.unclocked = ps.unclocked) {i : Ident} {slot : Slot}
    (hslot : ps.get? i = some slot) : ∃ slot', ps'.get? i = some slot' ∧ slot'.unclocked = slot.unclocked := by
  have hget := slots_of_unclocked_eq h i
  rw [hslot] at hget
  exact Option.map_eq_some_iff.1 hget

theorem get?_eq_none_of_unclocked_eq (h : ps'.unclocked = ps.unclocked) {i : Ident} (hslot : ps.get? i = none) :
    ps'.get? i = none := by
  have hget := slots_of_unclocked_eq h i
  rw [hslot] at hget
  exact Option.map_eq_none_iff.1 hget

theorem unclocked_mapValues (h : ps'.unclocked = ps.unclocked) {f f' : Ident → Slot → Slot}
    (hf : ∀ i s s', s'.unclocked = s.unclocked → (f' i s').unclocked = (f i s).unclocked) :
    unclocked (ps'.mapValues f') = unclocked (ps.mapValues f) := by
  refine SortedMap.ext_get? fun i => ?_
  simp only [get?_unclocked, SortedMap.get?_mapValues, Option.map_map]
  cases hs : ps.get? i with
  | none => rw [get?_eq_none_of_unclocked_eq h hs]; rfl
  | some s =>
    obtain ⟨s', hs', hsame⟩ := exists_of_unclocked_eq h hs
    rw [hs']
    exact congrArg some (hf i s s' hsame)

theorem unclocked_each (h : ps'.unclocked = ps.unclocked) {f : Slot → Slot}
    (hf : ∀ s s' : Slot, s'.unclocked = s.unclocked → (f s').unclocked = (f s).unclocked) :
    (ps'.each f).unclocked = (ps.each f).unclocked := unclocked_mapValues h fun _ => hf

theorem unclocked_modify (h : ps'.unclocked = ps.unclocked) {f f' : Slot → Slot}
    (hf : ∀ s s' : Slot, s'.unclocked = s.unclocked → (f' s').unclocked = (f s).unclocked) (i : Ident) :
    unclocked (ps'.modify i f') = unclocked (ps.modify i f) := by
  refine unclocked_mapValues h fun j s s' hsame => ?_
  split
  · exact hf s s' hsame
  · exact hsame

theorem attached_of_unclocked_eq (h : ps'.unclocked = ps.unclocked) : ps'.attached = ps.attached := by
  have hunclocked : ∀ qs : Participants, qs.unclocked.attached = qs.attached :=
    attached_each (fun _ => rfl) fun _ => rfl
  rw [← hunclocked ps', h, hunclocked]

theorem get?_shown_of_unclocked_eq (h : ps'.unclocked = ps.unclocked) (i : Ident) {name : String}
    (hname : name ≠ PointToPoint.clockName) : (ps'.shown i).get? name = (ps.shown i).get? name := by
  unfold shown
  cases hs : ps.get? i with
  | none => rw [get?_eq_none_of_unclocked_eq h hs]
  | some s =>
    obtain ⟨s', hs', hsame⟩ := exists_of_unclocked_eq h hs
    rw [hs']
    exact Slot.get?_outgoing_of_unclocked_eq hsame hname

end Participants

/-! ### The engine of a link -/

namespace Engine

/-- The engine of a link that relays the data of both ends and nothing else. -/
inductive RelaysData : Engine → Prop where
  | unwired (bus : Options) : RelaysData (.pointToPoint bus none)
  | wired (bus : Options) (link : Link) (toDevice toHost : Nat) :
      RelaysData (.pointToPoint bus (some ⟨link, PointToPoint.table toDevice toHost⟩))

variable {e : Engine} {ps ps' : Participants}

theorem RelaysData.entering_eq (h : e.RelaysData) (phase : Phase) (ps : Participants) : e.entering phase ps = e := by
  cases h <;> cases phase <;> rfl

theorem RelaysData.wrapUp (h : e.RelaysData) {e' : Engine} {notice : BusNotice}
    (hwrapped : e.wrapUp ps = .ok (e', notice)) : e'.RelaysData := by
  have hall : ∀ bus wiring, (pointToPoint bus wiring).wrapUp ps = .ok (e', notice) → e'.RelaysData := by
    intro bus wiring hwrapped
    obtain ⟨⟨w, noted⟩, hwire, heq⟩ := exists_of_map_eq_ok hwrapped
    cases heq
    obtain ⟨link, -, hwire⟩ := exists_of_bind_eq_ok hwire
    split at hwire
    · cases hwire
    · cases hwire
    · obtain ⟨⟨t, n⟩, hagreed, hwire⟩ := exists_of_bind_eq_ok hwire
      cases hwire
      obtain ⟨wh, -, hagreed⟩ := exists_of_bind_eq_ok hagreed
      obtain ⟨wd, -, hagreed⟩ := exists_of_bind_eq_ok hagreed
      obtain ⟨_, -, hagreed⟩ := exists_of_bind_eq_ok hagreed
      obtain ⟨_, -, hagreed⟩ := exists_of_bind_eq_ok hagreed
      cases hagreed
      exact .wired bus link _ _
  cases h <;> exact hall _ _ hwrapped

theorem wrapUp_of_unclocked_eq (e : Engine) (hsame : ps'.unclocked = ps.unclocked) :
    e.wrapUp ps' = e.wrapUp ps := by
  have hunclocked : ∀ qs : Participants, e.wrapUp qs.unclocked = e.wrapUp qs :=
    wrapUp_each (f := Slot.unclocked) (fun _ => rfl) (fun _ => rfl) e
  rw [← hunclocked, hsame, hunclocked]

theorem RelaysData.display_eq (h : e.RelaysData) (hsame : ps'.unclocked = ps.unclocked) (level : Level) (i : Ident)
    (s s' : Slot) :
    (e.display level ps' i s').filter (·.1 ≠ PointToPoint.clockName) =
      (e.display level ps i s).filter (·.1 ≠ PointToPoint.clockName) := by
  have hclocked : ∀ link qs, (PointToPoint.clocked link level qs i).filter (·.1 ≠ PointToPoint.clockName) = [] := by
    intro link qs
    unfold PointToPoint.clocked
    split <;> split <;> simp
  cases h with
  | unwired => rfl
  | wired bus link toDevice toHost =>
    -- Both rows of the table read `DATA_O`, which is kept of every slot.
    have hvalue : ∀ r ∈ (PointToPoint.table toDevice toHost).signals, r.value link ps' = r.value link ps := by
      intro r hr
      have hsource : r.source = "DATA_O" := by
        have hmem := List.mem_of_mem_filter hr
        simp only [List.mem_cons, List.not_mem_nil, or_false] at hmem
        rcases hmem with rfl | rfl <;> rfl
      unfold RelaySignal.value
      rw [hsource]
      cases hs : ps.get? (link.driver r.direction) with
      | none => rw [Participants.get?_eq_none_of_unclocked_eq hsame hs]
      | some s =>
        obtain ⟨s', hs', hslot⟩ := Participants.exists_of_unclocked_eq hsame hs
        have hdata : "DATA_O" ≠ "CLOCK_MODE" := by decide
        have hdriven := Slot.get?_driven_of_unclocked_eq hslot hdata
        rw [hs']
        dsimp only [Slot.drives]
        rw [hdriven, Slot.kept_of_unclocked_eq hslot]
    have haddressed : (PointToPoint.table toDevice toHost).addressed link ps' i =
        (PointToPoint.table toDevice toHost).addressed link ps i := by
      refine List.map_congr_left fun r hr => ?_
      rw [hvalue r (List.mem_of_mem_filter hr)]
    simp only [display, List.filter_append, hclocked, haddressed]

theorem RelaysData.deliver_unclocked (h : e.RelaysData) (hsame : ps'.unclocked = ps.unclocked) (level : Level) :
    (e.deliver level ps').unclocked = (e.deliver level ps).unclocked := by
  rw [deliver_eq, deliver_eq]
  exact Participants.unclocked_mapValues hsame fun i s s' hslot =>
    Slot.unclocked_sendAll hslot (h.display_eq hsame level i s s')

end Engine

/-! ### A bus -/

namespace Bus

/-- The bus apart from the clock modes that are offered and the clock that is shown. -/
def unclocked (b : Bus) : Bus := { b with participants := b.participants.unclocked }

variable {b b' : Bus}

theorem slots_of_unclocked_eq (h : b'.unclocked = b.unclocked) :
    b'.participants.unclocked = b.participants.unclocked := congrArg participants h

theorem kept_of_unclocked_eq (h : b'.unclocked = b.unclocked) : b' = { b with participants := b'.participants } := by
  cases b
  cases b'
  simp only [unclocked, mk.injEq] at h ⊢
  simp [h]

theorem unclocked_modifySlot (h : b'.unclocked = b.unclocked) {f f' : Slot → Slot}
    (hf : ∀ s s' : Slot, s'.unclocked = s.unclocked → (f' s').unclocked = (f s).unclocked) (i : Ident) :
    (b'.modifySlot i f').unclocked = (b.modifySlot i f).unclocked := by
  rw [kept_of_unclocked_eq h]
  exact congrArg (fun qs => { b with participants := qs })
    (Participants.unclocked_modify (slots_of_unclocked_eq h) hf i)

theorem unclocked_retire (h : b'.unclocked = b.unclocked) (i : Ident) :
    (b'.retire i).unclocked = (b.retire i).unclocked :=
  unclocked_modifySlot h (fun _ _ hslot => Slot.unclocked_unbind (Slot.unclocked_park hslot)) i

theorem unclocked_handshake (h : b'.unclocked = b.unclocked) (k : ConnectionKey) (name : String) (options : Options) :
    (b'.handshake k name options).2.1.unclocked = (b.handshake k name options).2.1.unclocked := by
  have hunclocked : ∀ b : Bus, b.unclocked.admits name options =
      (b.admits name options).map fun found => (found.1.unclocked, found.2) := fun b =>
    admits_each (f := Slot.unclocked) (fun _ => rfl) (fun _ => rfl) b name options
  have hadmits := (hunclocked b').symm.trans ((congrArg (·.admits name options) h).trans (hunclocked b))
  rcases b.handshake_spec k name options with ⟨_, ha, heq⟩ | ⟨s, widths, ha, heq⟩
  · rcases b'.handshake_spec k name options with ⟨_, ha', heq'⟩ | ⟨s', widths', ha', heq'⟩
    · rw [heq, heq']
      exact h
    · rw [ha, ha'] at hadmits
      cases hadmits
  · rcases b'.handshake_spec k name options with ⟨_, ha', heq'⟩ | ⟨s', widths', ha', heq'⟩
    · rw [ha, ha'] at hadmits
      cases hadmits
    · rw [ha, ha'] at hadmits
      obtain ⟨hslot, rfl⟩ : s'.unclocked = s.unclocked ∧ widths' = widths := Prod.mk.inj (Except.ok.inj hadmits)
      have hident : s'.ident = s.ident := by rw [Slot.kept_of_unclocked_eq hslot]; rfl
      rw [heq, heq', hident]
      exact unclocked_modifySlot h (fun _ _ hslot => Slot.unclocked_claim hslot k options widths') s.ident

theorem decode_of_unclocked_eq (h : b'.unclocked = b.unclocked) (i : Ident) (text : String) :
    b'.decode i text = b.decode i text := by
  have hunclocked : ∀ b : Bus, b.unclocked.decode i text = b.decode i text := fun b =>
    decode_each (f := Slot.unclocked) (fun _ => rfl) b i text
  rw [← hunclocked, h, hunclocked]

theorem unclocked_ready (h : b'.unclocked = b.unclocked) (i : Ident) (time : Time) {signals signals' : Signals}
    (hsignals : ∀ name, name ≠ "CLOCK_MODE" → signals'.get? name = signals.get? name) :
    (b'.receive i (.ready time signals')).2.1.unclocked = (b.receive i (.ready time signals)).2.1.unclocked := by
  unfold receive
  cases hs : b.participants.get? i with
  | none =>
    rw [Participants.get?_eq_none_of_unclocked_eq (slots_of_unclocked_eq h) hs]
    exact h
  | some s =>
    obtain ⟨s', hs', hslot⟩ := Participants.exists_of_unclocked_eq (slots_of_unclocked_eq h) hs
    have hjudge : judge s' (.ready time signals') = judge s (.ready time signals) := by
      rw [Slot.kept_of_unclocked_eq hslot]
      rfl
    rw [hs']
    dsimp only
    rw [hjudge]
    cases judge s (.ready time signals) with
    | error reason => exact unclocked_retire h i
    | ok outcome =>
      cases outcome with
      | ready => exact unclocked_modifySlot h (fun _ _ hslot => Slot.unclocked_offer hslot time hsignals) i
      | finished => exact unclocked_retire h i

theorem unclocked_receive (h : b'.unclocked = b.unclocked) (i : Ident) (m : Message) :
    (b'.receive i m).2.1.unclocked = (b.receive i m).2.1.unclocked := by
  cases m with
  | ready time signals => exact unclocked_ready h i time fun _ _ => rfl
  | hello | youAre | nak | deliver | finish =>
    unfold receive
    cases hs : b.participants.get? i with
    | none =>
      rw [Participants.get?_eq_none_of_unclocked_eq (slots_of_unclocked_eq h) hs]
      exact h
    | some s =>
      obtain ⟨s', hs', -⟩ := Participants.exists_of_unclocked_eq (slots_of_unclocked_eq h) hs
      rw [hs']
      exact unclocked_retire h i

theorem unclocked_hear (h : b'.unclocked = b.unclocked) (i : Ident) (text : String) :
    (b'.hear i text).2.unclocked = (b.hear i text).2.unclocked := by
  unfold hear
  rw [decode_of_unclocked_eq h]
  cases b.decode i text with
  | error cause => exact h
  | ok m => exact unclocked_receive h i m

theorem unclocked_disconnect (h : b'.unclocked = b.unclocked) (i : Ident) :
    (b'.disconnect i).2.unclocked = (b.disconnect i).2.unclocked := by
  unfold disconnect
  cases hs : b.participants.get? i with
  | none =>
    rw [Participants.get?_eq_none_of_unclocked_eq (slots_of_unclocked_eq h) hs]
    exact h
  | some s =>
    obtain ⟨s', hs', hslot⟩ := Participants.exists_of_unclocked_eq (slots_of_unclocked_eq h) hs
    have hfinished : s'.finished = s.finished := by rw [Slot.kept_of_unclocked_eq hslot]
    rw [hs']
    dsimp only
    rw [hfinished]
    split
    · exact unclocked_modifySlot h (fun _ _ hslot => Slot.unclocked_unbind hslot) i
    · exact unclocked_retire h i

theorem unclocked_tearDown (h : b'.unclocked = b.unclocked) :
    b'.tearDown.2.1.unclocked = b.tearDown.2.1.unclocked := by
  have heach := Participants.unclocked_each (slots_of_unclocked_eq h) fun _ _ hslot => Slot.unclocked_unbind hslot
  have hfinished : b'.finished = b.finished := by rw [kept_of_unclocked_eq h]
  unfold tearDown
  rw [hfinished]
  split
  · exact h
  · show unclocked { b' with finished := true, participants := b'.participants.each (·.unbind) } = _
    rw [kept_of_unclocked_eq h]
    exact congrArg (fun qs => { b with finished := true, participants := qs }) heach

/-! ### Steps -/

theorem Prepared.relaysData {engine : Engine} {ps : Participants} (h : b.Prepared engine ps)
    (hrelays : b.engine.RelaysData) : engine.RelaysData := by
  cases h with
  | running => exact hrelays
  | fresh _ agreed => exact hrelays.wrapUp agreed

theorem Prepared.unclocked {engine : Engine} {ps : Participants} (h : b.Prepared engine ps)
    (hrelays : b.engine.RelaysData) (hsame : b'.unclocked = b.unclocked) :
    ∃ ps' : Participants, b'.Prepared engine ps' ∧ ps'.unclocked = ps.unclocked := by
  have hslots := slots_of_unclocked_eq hsame
  have hassembled : b'.assembled = b.assembled := by rw [kept_of_unclocked_eq hsame]
  have hengine : b'.engine = b.engine := by rw [kept_of_unclocked_eq hsame]
  have hclock : b'.clock = b.clock := by rw [kept_of_unclocked_eq hsame]
  cases h with
  | running assembled =>
    refine ⟨b'.participants, ?_, hslots⟩
    rw [← hengine]
    exact .running (hassembled.trans assembled)
  | fresh unassembled agreed =>
    have hagreed := (Engine.wrapUp_of_unclocked_eq b.engine hslots).trans agreed
    refine ⟨_, .fresh (hassembled.trans unassembled) (hengine ▸ hagreed), ?_⟩
    rw [hclock]
    exact (hrelays.wrapUp agreed).deliver_unclocked hslots _

theorem Attempt.unclocked {outcome : Advance} {c : Bus} (h : b.Attempt outcome c) (hrelays : b.engine.RelaysData)
    (hsame : b'.unclocked = b.unclocked) :
    ∃ outcome' c', b'.Attempt outcome' c' ∧ outcome'.anonymous = outcome.anonymous ∧ c'.unclocked = c.unclocked := by
  have hslots := slots_of_unclocked_eq hsame
  -- The other bus is this one with other slots. It comes to the same case, and only the slots have to be compared.
  obtain ⟨qs, rfl⟩ : ∃ qs : Participants, b' = { b with participants := qs } := ⟨_, kept_of_unclocked_eq hsame⟩
  have hready : qs.allReady = b.allReady := by
    have hunclocked : ∀ qs : Participants, qs.unclocked.allReady = qs.allReady :=
      Participants.allReady_each (f := Slot.unclocked) fun _ => rfl
    rw [allReady, ← hunclocked, hslots, hunclocked]
  cases h with
  | waiting waits => exact ⟨_, _, .waiting (waits.imp_right hready.trans), rfl, hsame⟩
  | refused cause live ready unassembled refusal =>
    refine ⟨_, _, .refused cause live (hready.trans ready) unassembled ?_, rfl, hsame⟩
    rw [← refusal]
    exact Engine.wrapUp_of_unclocked_eq _ hslots
  | late cause engine ps live ready prepared overflow =>
    obtain ⟨ps', hprepared, hps⟩ := prepared.unclocked hrelays hsame
    refine ⟨_, _, .late cause engine ps' live (hready.trans ready) hprepared overflow, rfl, ?_⟩
    exact congrArg (fun qs => { b with engine, participants := qs, clock := b.clock.advance, assembled := true }) hps
  | stepped engine ps time live ready prepared sum =>
    obtain ⟨ps', hprepared, hps⟩ := prepared.unclocked hrelays hsame
    have hengine := prepared.relaysData hrelays
    have hsent : ∀ ds ds', (Advance.stepped ds).anonymous = (Advance.stepped ds').anonymous := fun _ _ => rfl
    refine ⟨_, _, .stepped engine ps' time live (hready.trans ready) hprepared sum, hsent _ _, ?_⟩
    dsimp only
    rw [hengine.entering_eq, hengine.entering_eq]
    have hshown := Participants.unclocked_each (hengine.deliver_unclocked hps b.clock.phase.next.level)
      fun _ _ hslot => Slot.unclocked_rearm hslot
    exact congrArg (fun qs =>
      { b with engine, participants := qs, clock := b.clock.advance, time, assembled := true, steps := b.steps + 1 })
      hshown

theorem unclocked_advance (hrelays : b.engine.RelaysData) (hsame : b'.unclocked = b.unclocked) :
    b'.advance.1.anonymous = b.advance.1.anonymous ∧ b'.advance.2.1.unclocked = b.advance.2.1.unclocked := by
  obtain ⟨outcome', c', hattempt, houtcome, hc⟩ := b.attempt_spec.unclocked hrelays hsame
  obtain ⟨heq, hbus⟩ := hattempt.unique b'.attempt_spec
  rw [heq, hbus]
  exact ⟨houtcome, hc⟩

theorem Answers.unclocked (hrelays : b.engine.RelaysData) (hsame : b'.unclocked = b.unclocked) {i : Ident} {time : Time}
    {signals : Signals} (hanswers : b.Answers i time signals) : ∃ signals', b'.Answers i time signals' ∧
      ∀ name, name ≠ PointToPoint.clockName → signals'.get? name = signals.get? name := by
  obtain ⟨houtcome, hbus⟩ := unclocked_advance hrelays hsame
  obtain ⟨ds, k, hds, hmem⟩ := hanswers
  rw [(stepsFrom_of_stepped hds).outgoing] at hmem
  obtain ⟨hattached, heq⟩ := mem_zip_map.1 hmem
  obtain ⟨rfl, rfl⟩ := Message.deliver.inj (Prod.mk.inj heq).2
  obtain ⟨ds', hds'⟩ : ∃ ds', b'.advance.1 = .stepped ds' := by
    rw [hds] at houtcome
    cases hstep : b'.advance.1 with
    | stepped ds' => exact ⟨ds', rfl⟩
    | waiting | failed =>
      rw [hstep] at houtcome
      cases houtcome
  rw [← Participants.attached_of_unclocked_eq (slots_of_unclocked_eq hsame)] at hattached
  have htime : b'.advance.2.1.time = b.advance.2.1.time := by rw [kept_of_unclocked_eq hbus]
  exact ⟨_, htime ▸ answers_of_attached hds' hattached, fun name hname =>
    Participants.get?_shown_of_unclocked_eq (slots_of_unclocked_eq hbus) i hname⟩

/-! ### Two courses -/

/-- Two operations are the same, or they are two offers of participant `i` that differ in the clock mode at most. -/
inductive Steers (i : Ident) : Bus × Operation → Bus × Operation → Prop where
  | same (b b' : Bus) (op : Operation) : Steers i (b, op) (b', op)
  | offers {b b' : Bus} {text text' : String} {time : Time} {signals signals' : Signals}
      (read : b.decode i text = .ok (.ready time signals)) (read' : b'.decode i text' = .ok (.ready time signals'))
      (agree : ∀ name, name ≠ "CLOCK_MODE" → signals'.get? name = signals.get? name) :
      Steers i (b, .line i text) (b', .line i text')

theorem relaysData_perform (hrelays : b.engine.RelaysData) (op : Operation) : (b.perform op).engine.RelaysData := by
  by_cases hop : op = .advance
  · subst hop
    have hattempt := b.attempt_spec
    show b.advance.2.1.engine.RelaysData
    generalize b.advance.2.1 = c at hattempt
    generalize b.advance.1 = outcome at hattempt
    cases hattempt with
    | waiting | refused => exact hrelays
    | late _ _ _ _ _ prepared => exact prepared.relaysData hrelays
    | stepped _ _ _ _ _ prepared =>
      have hengine := prepared.relaysData hrelays
      exact (hengine.entering_eq _ _).symm ▸ hengine
  · rw [(b.still_perform hop).engine]
    exact hrelays

theorem unclocked_perform (hrelays : b.engine.RelaysData) (hsame : b'.unclocked = b.unclocked) {i : Ident}
    {op op' : Operation} (hsteers : Steers i (b, op) (b', op')) :
    (b'.perform op').unclocked = (b.perform op).unclocked := by
  cases hsteers with
  | offers read read' agree =>
    simp only [perform, hear, read, read']
    exact unclocked_ready hsame i _ agree
  | same =>
    cases op with
    | handshake k name options => exact unclocked_handshake hsame k name options
    | line j text => exact unclocked_hear hsame j text
    | disconnect j => exact unclocked_disconnect hsame j
    | advance => exact (unclocked_advance hrelays hsame).2
    | tearDown => exact unclocked_tearDown hsame

variable {c : BusConfig} {start : Bus} {trace trace' : Trace}

theorem relaysData_ofConfig (hstart : ofConfig c = .ok start) (hp2p : c.protocol = .pointToPoint) :
    start.engine.RelaysData := by
  obtain ⟨-, engine, hengine, rfl⟩ := ofConfig_spec hstart
  rw [Engine.ofConfig, hp2p] at hengine
  obtain ⟨_, -, rfl⟩ := exists_of_map_eq_ok hengine
  exact .unwired _

theorem Course.relaysData (hstart : ofConfig c = .ok start) (hp2p : c.protocol = .pointToPoint)
    (h : Course start trace b) : b.engine.RelaysData := by
  induction h with
  | nil => exact relaysData_ofConfig hstart hp2p
  | snoc _ op ih => exact relaysData_perform ih op

/-- **Steering the clock steers nothing else.** Two courses of a link in which the host offers different clock modes,
and which are the same otherwise, come to buses that differ in these modes and in the clock that is shown at most. -/
theorem Course.unclocked_eq (hstart : ofConfig c = .ok start) (hp2p : c.protocol = .pointToPoint)
    (h : Course start trace b) (h' : Course start trace' b') {i : Ident}
    (hsteers : List.Forall₂ (Steers i) trace trace') : b'.unclocked = b.unclocked := by
  induction h generalizing trace' b' with
  | nil =>
    cases hsteers
    rw [h'.eq_of_nil]
  | @snoc trace b h op ih =>
    -- Courses grow at the end, but `Forall₂` comes apart at the head.
    obtain ⟨earlier, e, rfl, hearlier, hlast⟩ : ∃ earlier e, trace' = earlier ++ [e] ∧
        List.Forall₂ (Steers i) trace earlier ∧ Steers i (b, op) e := by
      have hreversed := List.forall₂_reverse_iff.2 hsteers
      rw [List.reverse_append] at hreversed
      obtain ⟨e, earlier, hlast, hearlier, htrace⟩ := List.forall₂_cons_left_iff.1 hreversed
      refine ⟨earlier.reverse, e, ?_, ?_, hlast⟩
      · rw [← trace'.reverse_reverse, htrace, List.reverse_cons]
      · exact List.forall₂_reverse_iff.1 (by simpa using hearlier)
    obtain ⟨hbefore, hperformed⟩ := h'.of_snoc
    rw [hperformed]
    exact unclocked_perform (h.relaysData hstart hp2p) (ih hbefore hearlier) hlast

end Bus

end Lockstep
