import Lockstep.Proofs.Bus.Offers
import Lockstep.Proofs.Engine.Wires
/-!
# Admission

A handshake admits a participant exactly if the bus runs, one of its devices goes by the name, nobody has claimed that
device before, and the engine that was configured accepts the options. It changes one slot or nothing, so whoever is
rejected can try again (`Bus.admits_once`).

That a slot is claimed once is counted along a course: a handshake that succeeds is the only operation that claims a
slot, and nothing sets a slot free again (`Course.countP_claims`). Whoever has left stays away (`Course.gone`).
-/

namespace Lockstep.Bus

variable {c : BusConfig} {start b b' : Bus} {trace later : Trace} {i : Ident}

/-! ### One course after another -/

theorem Course.trans (h : Course start trace b) (h' : Course b later b') : Course start (trace ++ later) b' := by
  induction h' with
  | nil => rwa [List.append_nil]
  | snoc _ op ih =>
    rw [← List.append_assoc]
    exact ih.snoc op

theorem orderly_append : Orderly (trace ++ later) ↔ Orderly trace ∧ Orderly later := by
  simp [Orderly, or_imp, forall_and]

/-! ### Claims -/

def claims (i : Ident) : Bus × Operation → Bool
  | (b, .handshake k name options) =>
    match (b.handshake k name options).1 with
    | .ok j => j = i
    | .error _ => false
  | _ => false

/-- Somebody has claimed the slot of device `i`. -/
def taken (b : Bus) (i : Ident) : Bool := (b.participants.get? i).any (·.claimed)

theorem taken_eq {slot : Slot} (hs : b.participants.get? i = some slot) : b.taken i = slot.claimed := by
  rw [taken, hs, Option.any_some]

theorem claims_eq_false {op : Operation} (h : ∀ k name options, op ≠ .handshake k name options) :
    claims i (b, op) = false := by
  cases op with
  | handshake k name options => exact absurd rfl (h k name options)
  | line | disconnect | advance | tearDown => rfl

/-- Only a handshake claims a slot, and no operation sets one free. -/
theorem taken_perform_of_ne (hb : b.Sound) {op : Operation} (huses : b.Uses op)
    (h : ∀ k name options, op ≠ .handshake k name options) : (b.perform op).taken i = b.taken i := by
  cases hs : b.participants.get? i with
  | none =>
    have hs' : (b.perform op).participants.get? i = none := by
      refine Option.eq_none_iff_forall_ne_some.2 fun slot' hs' => ?_
      obtain ⟨slot, hslot, -⟩ := exists_change hb huses hs'
      rw [hs] at hslot
      cases hslot
    rw [taken, hs', taken, hs]
  | some slot =>
    obtain ⟨slot', hs', hchange⟩ := change_perform hb huses hs
    rw [taken_eq hs', taken_eq hs]
    cases hchange with
    | admitted greeting => exact absurd greeting (h _ _ _)
    | offered => rfl
    | left => rfl
    | kept _ _ same => exact same.claimed

theorem toNat_taken_perform (hb : b.Sound) {op : Operation} (huses : b.Uses op) :
    ((b.perform op).taken i).toNat = (b.taken i).toNat + (claims i (b, op)).toNat := by
  cases op with
  | handshake k name options =>
    rcases b.handshake_spec k name options with ⟨reason, -, heq⟩ | ⟨slot, widths, hadmits, heq⟩
    · simp only [perform, claims, heq]
      rfl
    · obtain ⟨-, hs, -, hfree, -⟩ := admits_spec hb hadmits
      simp only [perform, claims, heq]
      -- the slot that is claimed was free, and the others stay as they are
      by_cases hi : slot.ident = i
      · subst hi
        rw [taken_eq hs, hfree, taken_eq (get?_modifySlot_self hs _)]
        simp [Slot.claim]
      · simp [taken, get?_modifySlot, hi, Ne.symm hi]
  | line | disconnect | advance | tearDown =>
    rw [taken_perform_of_ne hb huses (by simp), claims_eq_false (by simp)]
    rfl

theorem countP_claims_snoc (trace : Trace) (e : Bus × Operation) :
    (trace ++ [e]).countP (claims i) = trace.countP (claims i) + (claims i e).toNat := by
  cases h : claims i e <;> simp [List.countP_append, h]

theorem Course.countP_claims (hstart : ofConfig c = .ok start) (h : Course start trace b) (horderly : Orderly trace)
    (i : Ident) : trace.countP (claims i) = (b.taken i).toNat := by
  induction h with
  | nil =>
    cases hs : start.participants.get? i with
    | none => rw [taken, hs]; rfl
    | some slot =>
      obtain ⟨-, engine, -, rfl⟩ := ofConfig_spec hstart
      obtain ⟨d, -, rfl, -⟩ := vacant_of_ofDevices hs
      rw [taken_eq hs]
      rfl
  | @snoc trace b h op ih =>
    obtain ⟨hbefore, huses⟩ := orderly_snoc.1 horderly
    rw [countP_claims_snoc, ih hbefore, toNat_taken_perform (h.sound hstart hbefore) huses]

theorem Course.taken_eq_false_iff (hstart : ofConfig c = .ok start) (h : Course start trace b) (horderly : Orderly trace) :
    b.taken i = false ↔ ∀ e ∈ trace, claims i e = false := by
  have hcount := h.countP_claims hstart horderly i
  rw [← Bool.toNat_eq_zero, ← hcount, List.countP_eq_zero]
  simp

/-! ### Handshakes -/

section Handshake

variable {k : ConnectionKey} {name : String} {options : Options}

theorem handshake_of_ok (hb : b.Sound) (h : (b.handshake k name options).1 = .ok i) :
    ∃ slot widths, b.finished = false ∧ b.participants.get? i = some slot ∧ slot.name = name ∧ slot.claimed = false ∧
      b.engine.driven slot.device options = .ok widths ∧
      b.perform (.handshake k name options) = b.modifySlot i (·.claim k options widths) := by
  rcases b.handshake_spec k name options with ⟨reason, -, heq⟩ | ⟨slot, widths, hadmits, heq⟩
  · rw [heq] at h
    cases h
  · obtain ⟨hlive, hs, hname, hfree, hdriven⟩ := admits_spec hb hadmits
    rw [heq] at h
    cases h
    rw [perform, heq]
    exact ⟨slot, widths, hlive, hs, hname, hfree, hdriven, rfl⟩

theorem handshake_of_error {cause : ParticipantError} (h : (b.handshake k name options).1 = .error cause) :
    b.handshake k name options = (.error cause, b, []) := by
  rcases b.handshake_spec k name options with ⟨reason, -, heq⟩ | ⟨slot, widths, -, heq⟩
  · rw [heq] at h ⊢
    cases h
    rfl
  · rw [heq] at h
    cases h

theorem Course.handshake_eq_ok_iff (hstart : ofConfig c = .ok start) (h : Course start trace b)
    (horderly : Orderly trace) : (b.handshake k name options).1 = .ok i ↔
      b.finished = false ∧ ∃ d ∈ c.devices, d.name = name ∧ d.ident = i ∧ (∀ e ∈ trace, claims i e = false) ∧
        ∃ widths, start.engine.driven d options = .ok widths := by
  have hstaffed := h.staffed hstart
  rw [← h.taken_eq_false_iff hstart horderly]
  constructor
  · intro hok
    obtain ⟨slot, widths, hlive, hs, hname, hfree, hdriven, -⟩ := handshake_of_ok (h.sound hstart horderly) hok
    obtain ⟨hd, hident⟩ := hstaffed.device hs
    rw [h.kin.driven_eq] at hdriven
    exact ⟨hlive, slot.device, hd, hname, hident, (taken_eq hs).trans hfree, widths, hdriven⟩
  · rintro ⟨hlive, d, hd, rfl, rfl, hfree, widths, hdriven⟩
    obtain ⟨slot, hs, rfl⟩ := hstaffed.slot hd
    rw [taken_eq hs] at hfree
    have hadmits : b.admits slot.device.name options = .ok (slot, widths) := by
      rw [admits, hstaffed.named?_eq hd, hs]
      simp [hlive, hfree, h.kin.driven_eq, hdriven]
    rw [handshake, hadmits]
    rfl

/-- What a handshake that succeeds makes of a bus. -/
structure Admission (start b b' : Bus) (k : ConnectionKey) (name : String) (options : Options) (i : Ident) : Prop where
  /-- The slot of the device is claimed for the connection, and everything the participant may drive starts released. -/
  slot : ∃ slot slot' widths, b.participants.get? i = some slot ∧ b'.participants.get? i = some slot' ∧
    slot.name = name ∧ slot.claimed = false ∧ start.engine.driven slot.device options = .ok widths ∧
    slot' = { slot with
      claimed := true, connection := some k, options := options, widths := widths, driven := slot'.driven } ∧
    ∀ signal, slot'.driven.get? signal = (widths.get? signal).map .released
  others : ∀ j, j ≠ i → b'.participants.get? j = b.participants.get? j
  rest : b' = { b with participants := b'.participants }

theorem Course.admission (hstart : ofConfig c = .ok start) (h : Course start trace b) (horderly : Orderly trace)
    (hok : (b.handshake k name options).1 = .ok i) :
    Admission start b (b.perform (.handshake k name options)) k name options i := by
  obtain ⟨slot, widths, -, hs, hname, hfree, hdriven, hclaim⟩ := handshake_of_ok (h.sound hstart horderly) hok
  rw [h.kin.driven_eq] at hdriven
  rw [hclaim]
  refine ⟨⟨slot, _, widths, hs, get?_modifySlot_self hs _, hname, hfree, hdriven, rfl, fun signal => ?_⟩,
    fun j hj => ?_, rfl⟩
  · exact SortedMap.get?_mapValues _ _ _
  · rw [get?_modifySlot, if_neg hj]

end Handshake

/-! ### Those who have left -/

theorem Change.finished_eq {slot slot' : Slot} {op : Operation} (hb : b.Sound) (hs : b.participants.get? i = some slot)
    (h : b.Change i slot op slot') (hfinished : slot.finished = true) : slot'.finished = true := by
  cases h with
  | admitted greeting admits =>
    obtain ⟨-, -, -, hfree, -⟩ := admits_spec hb admits
    rw [((hb.slots hs).vacant hfree).2.1] at hfinished
    cases hfinished
  | offered time signals accepted fits stays unfinished =>
    rw [unfinished] at hfinished
    cases hfinished
  | left => rfl
  | kept _ _ same => exact same.finished.trans hfinished

theorem Course.exists_finished (hb : b.Sound) (h : Course b later b') (horderly : Orderly later) {slot : Slot}
    (hs : b.participants.get? i = some slot) (hfinished : slot.finished = true) :
    b'.Sound ∧ ∃ slot', b'.participants.get? i = some slot' ∧ slot'.finished = true := by
  induction h with
  | nil => exact ⟨hb, slot, hs, hfinished⟩
  | @snoc later b' h op ih =>
    obtain ⟨hbefore, huses⟩ := orderly_snoc.1 horderly
    obtain ⟨hsound, slot', hs', hfinished'⟩ := ih hbefore
    obtain ⟨slot'', hs'', hchange⟩ := change_perform hsound huses hs'
    exact ⟨hsound.perform huses, slot'', hs'', hchange.finished_eq hsound hs' hfinished'⟩

theorem drives_of_released {s : Slot} (h : s.driven = s.widths.filled .released) (name : String) :
    s.drives name = .released ((s.widths.get? name).getD 1) ∧ s.drivesBit name = .released := by
  have hdriven : s.driven.get? name = (s.widths.get? name).map .released := by
    rw [h]
    exact SortedMap.get?_mapValues _ _ _
  rw [Slot.drives, Slot.drivesBit, Signals.bit, hdriven]
  cases s.widths.get? name with
  | none => exact ⟨rfl, rfl⟩
  | some width => exact ⟨rfl, Bundle.getD_released width 0⟩

theorem not_answers_of_finished {slot : Slot} (hs : b.participants.get? i = some slot) (hfinished : slot.finished = true)
    (time : Time) (signals : Signals) : ¬ b.Answers i time signals := by
  rintro ⟨ds, k, -, hmem⟩
  obtain ⟨slot', hs', hunfinished, -⟩ := Participants.mem_attached.1 (List.of_mem_zip hmem).1
  rw [hs] at hs'
  cases hs'
  rw [hfinished] at hunfinished
  cases hunfinished

/-- The bus does not wait for participant `i` any more and sends it nothing, and it drives nothing. -/
structure Gone (b : Bus) (i : Ident) (s : Slot) : Prop where
  finished : s.finished = true
  ready : s.isReady = true
  unbound : s.connection = none
  drives : ∀ name, s.drives name = .released ((s.widths.get? name).getD 1) ∧ s.drivesBit name = .released
  unanswered : ∀ time signals, ¬ b.Answers i time signals

theorem Course.gone (hstart : ofConfig c = .ok start) (h : Course start trace b) (horderly : Orderly trace) {slot : Slot}
    (hs : b.participants.get? i = some slot) (hfinished : slot.finished = true) : b.Gone i slot := by
  have hrecalls := h.recalls hstart horderly i slot hs
  refine ⟨hfinished, ?_, ((h.sound hstart horderly).slots hs).left hfinished, ?_, not_answers_of_finished hs hfinished⟩
  · rw [Slot.isReady, hfinished, Bool.or_true]
  · -- the history says what the participant drives, and retiring overrules whatever it offered before
    refine drives_of_released (SortedMap.ext_get? fun name => ?_)
    rw [hrecalls.driven, Widths.filled, SortedMap.get?_mapValues]
    simp only [drive_of_retired (hrecalls.finished ▸ hfinished)]
    rfl

/-! ### Admission -/

/-- What is due of the handshakes of a bus that has been through a course. -/
structure AdmitsOnce (c : BusConfig) (start : Bus) (trace : Trace) (b : Bus) : Prop where
  admitted : ∀ k name options i, (b.handshake k name options).1 = .ok i ↔
    b.finished = false ∧ ∃ d ∈ c.devices, d.name = name ∧ d.ident = i ∧ (∀ e ∈ trace, claims i e = false) ∧
      ∃ widths, start.engine.driven d options = .ok widths
  success : ∀ k name options i, (b.handshake k name options).1 = .ok i →
    Admission start b (b.perform (.handshake k name options)) k name options i
  failure : ∀ k name options cause, (b.handshake k name options).1 = .error cause →
    b.handshake k name options = (.error cause, b, [])
  /-- Whoever has been rejected is admitted once the options are right. -/
  retry : ∀ k k' options options' cause, ∀ d ∈ c.devices, b.finished = false → (∀ e ∈ trace, claims d.ident e = false) →
    (b.handshake k d.name options).1 = .error cause → (∃ widths, start.engine.driven d options' = .ok widths) →
    ((b.perform (.handshake k d.name options)).handshake k' d.name options').1 = .ok d.ident
  once : ∀ i, trace.countP (claims i) ≤ 1
  /-- Whoever has left is gone whatever happens next. -/
  gone : ∀ i slot, b.participants.get? i = some slot → slot.finished = true → ∀ later b', Course b later b' →
    Orderly later → ∃ slot', b'.participants.get? i = some slot' ∧ b'.Gone i slot'

/-- **Admission.** A bus admits each of its devices at most once, whole or not at all. -/
theorem admits_once (hstart : ofConfig c = .ok start) (h : Course start trace b) (horderly : Orderly trace) :
    AdmitsOnce c start trace b where
  admitted k name options i := h.handshake_eq_ok_iff hstart horderly
  success k name options i := h.admission hstart horderly
  failure k name options cause := handshake_of_error
  retry k k' options options' cause d hd hlive hfree hrejected haccepts := by
    rw [perform, handshake_of_error hrejected]
    exact (h.handshake_eq_ok_iff hstart horderly).2 ⟨hlive, d, hd, rfl, rfl, hfree, haccepts⟩
  once i := by
    rw [h.countP_claims hstart horderly]
    exact Bool.toNat_le _
  gone i slot hs hfinished later b' hlater horderly' := by
    obtain ⟨-, slot', hs', hfinished'⟩ := hlater.exists_finished (h.sound hstart horderly) horderly' hs hfinished
    exact ⟨slot', hs', (h.trans hlater).gone hstart (orderly_append.2 ⟨horderly, horderly'⟩) hs' hfinished'⟩

def hostOnly : List Operation := [.handshake 7 "host" .empty, .line 0 "FINISH"]

/-- The card asks for more wires than a line can carry and is admitted all the same once it asks for what there is; the
host that has left stays away when the link starts. -/
theorem card_retries :
    (((hostOnly.foldl perform idleLink).perform (.handshake 8 "card" (.ofList [("WIDTH_O", "4294967295")]))).handshake
      9 "card" .empty).1 = .ok 1 ∧
    ∃ slot, ([.handshake 9 "card" .empty, .line 1 "READY 0e-12", .advance].foldl perform
      (hostOnly.foldl perform idleLink)).participants.get? 0 = some slot ∧ slot.isReady = true ∧
      slot.drivesBit "DATA_O" = .released := by
  have hadmits := admits_once ofConfig_oneWire (course_traced idleLink hostOnly) (orderly_of_all (by cbv))
  have hfree : ((idleLink.traced hostOnly).all fun e => !claims 1 e) = true := by cbv
  constructor
  · exact hadmits.retry 8 9 (.ofList [("WIDTH_O", "4294967295")]) .empty
      (.rejected "link" "card" (.engine (.invalidOption "WIDTH_O" "4294967295" .tooWide))) ⟨"card", 1, false⟩ (by decide)
      (by cbv) (fun e he => by simpa using List.all_eq_true.1 hfree e he) (by cbv) ⟨.ofList [("DATA_O", 1)], by cbv⟩
  · obtain ⟨slot, hs, hfinished⟩ :
        ∃ slot, (hostOnly.foldl perform idleLink).participants.get? 0 = some slot ∧ slot.finished = true :=
      (Option.any_eq_true _ _).1 (by cbv)
    obtain ⟨slot', hs', hgone⟩ := hadmits.gone 0 slot hs hfinished _ _
      (course_traced _ [.handshake 9 "card" .empty, .line 1 "READY 0e-12", .advance]) (orderly_of_all (by cbv))
    exact ⟨slot', hs', hgone.ready, (hgone.drives "DATA_O").2⟩

end Lockstep.Bus
