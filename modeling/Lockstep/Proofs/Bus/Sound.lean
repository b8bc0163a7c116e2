import Lockstep.Proofs.Bus.Step
import Lockstep.Proofs.Time
/-!
# Sound buses

`Bus.Sound` is what holds of a bus from its configuration on, whatever its participants do: every slot is filed
under its own number, a slot that nobody claimed is untouched, a participant that left holds no connection, a bus
that was torn down holds none at all, and time is counted in picoseconds by a clock that never stands still. Each
operation keeps it, as long as only claimed slots are used (`Bus.Sound.modifySlot` and the lemmas after it).

`receive_spec` and `disconnect_of_live` say what the messages and the disappearance of a participant come to.
-/

namespace Lockstep

/-! ### Slots -/

/-- What holds of a slot at all times: untouched until it is claimed, unbound once its participant has left. -/
structure Slot.Sound (s : Slot) : Prop where
  vacant : s.claimed = false → s.ready = false ∧ s.finished = false ∧ s.connection = none
  left : s.finished = true → s.connection = none

namespace Slot

theorem sound_vacant (d : Device) : (vacant d).Sound := ⟨fun _ => ⟨rfl, rfl, rfl⟩, fun h => by cases h⟩

theorem Sound.of_muted_eq {s s' : Slot} (hs : s.Sound) (h : s'.muted = s.muted) : s'.Sound := by
  rw [eq_of_muted_eq h]
  exact ⟨hs.vacant, hs.left⟩

theorem Sound.claimed_of_connection {s : Slot} (hs : s.Sound) {k : ConnectionKey}
    (h : s.connection = some k) : s.claimed = true := by
  cases hc : s.claimed with
  | true => rfl
  | false =>
    rw [(hs.vacant hc).2.2] at h
    cases h

theorem Sound.unfinished_of_connection {s : Slot} (hs : s.Sound) {k : ConnectionKey}
    (h : s.connection = some k) : s.finished = false := by
  cases hf : s.finished with
  | false => rfl
  | true =>
    rw [hs.left hf] at h
    cases h

theorem Sound.claim {s : Slot} (hs : s.Sound) (hfree : s.claimed = false) (k : ConnectionKey)
    (options : Options) (widths : Widths) : (s.claim k options widths).Sound := by
  refine ⟨(fun h => by cases h), fun hf => ?_⟩
  have hlive : s.finished = false := (hs.vacant hfree).2.1
  cases hlive.symm.trans hf

theorem Sound.offer {s : Slot} (hs : s.Sound) (hc : s.claimed = true) (time : Time) (signals : Signals) :
    (s.offer time signals).Sound := by
  refine ⟨fun h => ?_, hs.left⟩
  cases hc.symm.trans h

theorem sound_park_unbind {s : Slot} (hc : s.claimed = true) : s.park.unbind.Sound := by
  refine ⟨fun h => ?_, fun _ => rfl⟩
  cases hc.symm.trans h

theorem Sound.unbind {s : Slot} (hs : s.Sound) : s.unbind.Sound :=
  ⟨fun h => ⟨(hs.vacant h).1, (hs.vacant h).2.1, rfl⟩, fun _ => rfl⟩

theorem Sound.rearm {s : Slot} (hs : s.Sound) : s.rearm.Sound := by
  unfold Slot.rearm
  split
  · exact hs
  · exact ⟨fun h => ⟨rfl, (hs.vacant h).2⟩, hs.left⟩

@[simp] theorem connection_rearm (s : Slot) : s.rearm.connection = s.connection := by
  unfold rearm
  split <;> rfl

@[simp] theorem finished_rearm (s : Slot) : s.rearm.finished = s.finished := by
  unfold rearm
  split <;> rfl

@[simp] theorem device_rearm (s : Slot) : s.rearm.device = s.device := by
  unfold rearm
  split <;> rfl

@[simp] theorem claimed_rearm (s : Slot) : s.rearm.claimed = s.claimed := by
  unfold rearm
  split <;> rfl

@[simp] theorem outgoing_rearm (s : Slot) : s.rearm.outgoing = s.outgoing := by
  unfold rearm
  split <;> rfl

theorem ready_rearm {s : Slot} (h : s.finished = false) : s.rearm.ready = false := by
  rw [rearm, h]
  rfl

end Slot

namespace Bus

/-- What holds of a bus at all times. -/
structure Sound (b : Bus) : Prop where
  /-- Slots are filed under the numbers of their devices. -/
  ident : ∀ {i slot}, b.participants.get? i = some slot → slot.ident = i
  slots : ∀ {i slot}, b.participants.get? i = some slot → slot.Sound
  /-- Nobody is connected to a bus that has been torn down. -/
  ended : ∀ {i slot}, b.finished = true → b.participants.get? i = some slot → slot.connection = none
  timing : b.clock.timing.fault? = none
  picoseconds : b.time.exponent = Time.picosecondExponent

/-! ### A bus as it is configured -/

theorem fault?_eq_none {c : BusConfig} (h : c.fault? = none) : c.clock.fault? = none := by
  unfold BusConfig.fault? at h
  split at h
  · cases h
  · split at h
    · cases h
    · next hclock => exact hclock

theorem ofConfig_spec {c : BusConfig} {b : Bus} (h : ofConfig c = .ok b) :
    c.fault? = none ∧ ∃ engine, Engine.ofConfig c = .ok engine ∧ b = {
      config := c
      participants := .ofDevices c.devices
      engine
      clock := .start c.clock
      time := .zero
      assembled := false
      finished := false
      steps := 0 } := by
  unfold ofConfig at h
  split at h
  · cases h
  · next hc =>
    split at h
    · cases h
    · next engine he =>
      cases h
      exact ⟨hc, engine, he, rfl⟩

theorem vacant_of_ofDevices {ds : List Device} {i : Ident} {slot : Slot}
    (h : (Participants.ofDevices ds).get? i = some slot) : ∃ d ∈ ds, slot = .vacant d ∧ d.ident = i := by
  obtain ⟨d, hd, heq⟩ := List.mem_map.1 (SortedMap.mem_of_get?_ofList h)
  cases heq
  exact ⟨d, hd, rfl, rfl⟩

theorem sound_ofConfig {c : BusConfig} {b : Bus} (h : ofConfig c = .ok b) : b.Sound := by
  obtain ⟨hc, engine, -, rfl⟩ := ofConfig_spec h
  refine ⟨fun {i slot} hs => ?_, fun {i slot} hs => ?_, (fun h => by cases h),
    fault?_eq_none hc, rfl⟩
  · obtain ⟨d, -, rfl, hd⟩ := vacant_of_ofDevices hs
    exact hd
  · obtain ⟨d, -, rfl, -⟩ := vacant_of_ofDevices hs
    exact Slot.sound_vacant d

/-! ### Changing one slot -/

theorem get?_modifySlot (b : Bus) (i j : Ident) (f : Slot → Slot) :
    (b.modifySlot i f).participants.get? j =
      if j = i then (b.participants.get? j).map f else b.participants.get? j :=
  SortedMap.get?_modify _ _ _ _

theorem modifySlot_modifySlot (b : Bus) (i : Ident) (f g : Slot → Slot) :
    (b.modifySlot i f).modifySlot i g = b.modifySlot i fun s => g (f s) := by
  rw [modifySlot, modifySlot, SortedMap.modify_modify]
  rfl

theorem modifySlot_id (b : Bus) (i : Ident) : (b.modifySlot i fun s => s) = b := by
  rw [modifySlot, SortedMap.modify_id]

theorem modifySlot_congr {b : Bus} {i : Ident} {f g : Slot → Slot}
    (h : ∀ s, b.participants.get? i = some s → f s = g s) : b.modifySlot i f = b.modifySlot i g := by
  rw [modifySlot, SortedMap.modify_congr h, modifySlot]

theorem Sound.modifySlot {b : Bus} (hb : b.Sound) {i : Ident} {f : Slot → Slot}
    (hdevice : ∀ s, (f s).device = s.device)
    (hslot : ∀ s, b.participants.get? i = some s → s.Sound → (f s).Sound)
    (hended : b.finished = true → ∀ s, s.connection = none → (f s).connection = none) :
    (b.modifySlot i f).Sound := by
  -- each clause looks at slot `j`, which is the changed one or one of the others
  have hcases : ∀ {j slot}, (b.modifySlot i f).participants.get? j = some slot →
      (∃ s, j = i ∧ b.participants.get? j = some s ∧ slot = f s) ∨ b.participants.get? j = some slot := by
    intro j slot h
    rw [get?_modifySlot] at h
    split at h
    · next hj =>
      obtain ⟨s, hs, rfl⟩ := Option.map_eq_some_iff.1 h
      exact .inl ⟨s, hj, hs, rfl⟩
    · exact .inr h
  refine ⟨fun h => ?_, fun h => ?_, fun hf h => ?_, hb.timing, hb.picoseconds⟩
  · rcases hcases h with ⟨s, -, hs, rfl⟩ | hs
    · rw [Slot.ident, hdevice]
      exact hb.ident hs
    · exact hb.ident hs
  · rcases hcases h with ⟨s, rfl, hs, rfl⟩ | hs
    · exact hslot s hs (hb.slots hs)
    · exact hb.slots hs
  · rcases hcases h with ⟨s, -, hs, rfl⟩ | hs
    · exact hended hf s (hb.ended hf hs)
    · exact hb.ended hf hs

def Holds (b : Bus) (i : Ident) (k : ConnectionKey) : Prop :=
  ∃ slot, b.participants.get? i = some slot ∧ slot.connection = some k

theorem not_holds_ofConfig {c : BusConfig} {b : Bus} (h : ofConfig c = .ok b) {i : Ident} {k : ConnectionKey} :
    ¬ b.Holds i k := by
  rintro ⟨slot, hslot, hk⟩
  obtain ⟨-, engine, -, rfl⟩ := ofConfig_spec h
  obtain ⟨d, -, rfl, -⟩ := vacant_of_ofDevices hslot
  cases hk

theorem holds_modifySlot {b : Bus} {i j : Ident} {f : Slot → Slot} {k : ConnectionKey} :
    (b.modifySlot i f).Holds j k ↔
      if j = i then ∃ slot, b.participants.get? j = some slot ∧ (f slot).connection = some k else b.Holds j k := by
  rw [Holds, get?_modifySlot]
  split
  · simp only [Option.map_eq_some_iff]
    constructor
    · rintro ⟨_, ⟨s, hs, rfl⟩, hk⟩
      exact ⟨s, hs, hk⟩
    · rintro ⟨s, hs, hk⟩
      exact ⟨_, ⟨s, hs, rfl⟩, hk⟩
  · rfl

theorem holds_retire {b : Bus} {i j : Ident} {k : ConnectionKey} :
    (b.retire i).Holds j k ↔ j ≠ i ∧ b.Holds j k := by
  rw [retire, holds_modifySlot]
  split
  · next hj =>
    constructor
    · rintro ⟨s, -, hk⟩
      cases hk
    · rintro ⟨hne, -⟩
      exact absurd hj hne
  · next hj => exact ⟨fun h => ⟨hj, h⟩, And.right⟩

/-! ### Handshakes -/

theorem of_admits_eq_ok {b : Bus} {name : String} {options : Options} {slot : Slot} {widths : Widths}
    (h : b.admits name options = .ok (slot, widths)) :
    b.finished = false ∧ b.participants.named? name = some slot ∧ slot.claimed = false ∧
      b.engine.driven slot.device options = .ok widths := by
  unfold admits at h
  split at h
  · cases h
  · next hlive =>
    split at h
    · cases h
    · next s hs =>
      split at h
      · cases h
      · next hfree =>
        split at h
        · cases h
        · next w hw =>
          cases h
          exact ⟨by simpa using hlive, hs, by simpa using hfree, hw⟩

theorem admits_spec {b : Bus} (hb : b.Sound) {name : String} {options : Options} {slot : Slot} {widths : Widths}
    (h : b.admits name options = .ok (slot, widths)) :
    b.finished = false ∧ b.participants.get? slot.ident = some slot ∧ slot.name = name ∧
      slot.claimed = false ∧ b.engine.driven slot.device options = .ok widths := by
  obtain ⟨hlive, hs, hfree, hdriven⟩ := of_admits_eq_ok h
  obtain ⟨i, hi⟩ := SortedMap.mem_values_iff.1 (List.mem_of_find?_eq_some hs)
  have hname : slot.name = name := by simpa using List.find?_some hs
  rw [← hb.ident hi] at hi
  exact ⟨hlive, hi, hname, hfree, hdriven⟩

theorem Sound.claim {b : Bus} (hb : b.Sound) {name : String} {options : Options} {slot : Slot}
    {widths : Widths} (h : b.admits name options = .ok (slot, widths)) (k : ConnectionKey) :
    (b.modifySlot slot.ident (·.claim k options widths)).Sound := by
  obtain ⟨hlive, hslot, -, hfree, -⟩ := admits_spec hb h
  refine hb.modifySlot (fun _ => rfl) (fun s hs hsound => ?_) fun hf => ?_
  · rw [hslot] at hs
    cases hs
    exact hsound.claim hfree _ _ _
  · rw [hlive] at hf
    cases hf

/-! ### Messages -/

theorem Sound.retire {b : Bus} (hb : b.Sound) {i : Ident} {slot : Slot}
    (hs : b.participants.get? i = some slot) (hc : slot.claimed = true) : (b.retire i).Sound := by
  refine hb.modifySlot (fun _ => rfl) (fun s hs' _ => ?_) fun _ _ _ => rfl
  rw [hs] at hs'
  cases hs'
  exact Slot.sound_park_unbind hc

theorem Sound.offer {b : Bus} (hb : b.Sound) {i : Ident} {slot : Slot}
    (hs : b.participants.get? i = some slot) (hc : slot.claimed = true) (time : Time) (signals : Signals) :
    (b.modifySlot i (·.offer time signals)).Sound := by
  refine hb.modifySlot (fun _ => rfl) (fun s hs' hsound => ?_) fun _ s hcon => hcon
  rw [hs] at hs'
  cases hs'
  exact hsound.offer hc _ _

/-- What a message of a participant comes to. -/
inductive Receipt (b : Bus) (i : Ident) (slot : Slot) : Message → Except ParticipantError Received → Bus → Prop
  | offered (time : Time) (signals : Signals) (unfinished : slot.finished = false)
      (unready : slot.ready = false) :
      Receipt b i slot (.ready time signals) (.ok .ready) (b.modifySlot i (·.offer time signals))
  | left : Receipt b i slot .finish (.ok .finished) (b.retire i)
  /-- A message out of turn: a READY that was not awaited, or neither a READY nor a FINISH. -/
  | violated (m : Message) (reason : Violation) (other : m ≠ .finish)
      (unawaited : m.command = .ready → slot.isReady = true) :
      Receipt b i slot m (.error (.violation b.name slot.name reason)) (b.retire i)

theorem Receipt.time_eq {b b' : Bus} {i : Ident} {slot : Slot} {m : Message}
    {outcome : Except ParticipantError Received} (h : b.Receipt i slot m outcome b') : b'.time = b.time := by
  cases h <;> rfl

theorem receive_spec {b : Bus} {i : Ident} {slot : Slot} (hs : b.participants.get? i = some slot)
    (m : Message) : b.Receipt i slot m (b.receive i m).1 (b.receive i m).2.1 := by
  unfold receive
  rw [hs]
  cases m with
  | ready time signals =>
    cases hf : slot.finished with
    | true =>
      simp only [judge, hf, if_true]
      exact .violated _ _ (by simp) fun _ => by simp [Slot.isReady, hf]
    | false =>
      cases hr : slot.ready with
      | true =>
        simp only [judge, hf, Slot.isReady, hr]
        exact .violated _ _ (by simp) fun _ => by simp [Slot.isReady, hr]
      | false =>
        simp only [judge, hf, Slot.isReady, hr]
        exact .offered _ _ hf hr
  | finish => exact .left
  | hello _ _ | youAre _ | nak | deliver _ _ => exact .violated _ _ (by simp) fun h => by cases h

theorem disconnect_of_live {b : Bus} {i : Ident} {slot : Slot} (hs : b.participants.get? i = some slot)
    (hf : slot.finished = false) :
    b.disconnect i = (some (.disconnected b.name slot.name), b.retire i) := by
  simp [disconnect, hs, hf]

theorem disconnect_of_finished {b : Bus} {i : Ident} {slot : Slot} (hs : b.participants.get? i = some slot)
    (hf : slot.finished = true) : b.disconnect i = (none, b.modifySlot i (·.unbind)) := by
  simp [disconnect, hs, hf]

theorem disconnect_retire {b : Bus} {i : Ident} {slot : Slot} (hs : b.participants.get? i = some slot) :
    ((b.retire i).disconnect i).2 = b.retire i := by
  have hget : (b.retire i).participants.get? i = some slot.park.unbind := by
    rw [retire, get?_modifySlot, if_pos rfl, hs]
    rfl
  rw [disconnect_of_finished hget rfl]
  exact modifySlot_modifySlot _ _ _ _

theorem Sound.disconnect {b : Bus} (hb : b.Sound) {i : Ident} {slot : Slot}
    (hs : b.participants.get? i = some slot) (hc : slot.claimed = true) : (b.disconnect i).2.Sound := by
  cases hf : slot.finished with
  | false =>
    rw [disconnect_of_live hs hf]
    exact hb.retire hs hc
  | true =>
    rw [disconnect_of_finished hs hf]
    exact hb.modifySlot (fun _ => rfl) (fun s _ h => h.unbind) fun _ _ _ => rfl

/-! ### Steps -/

theorem Sound.of_shown {b b' : Bus} (hb : b.Sound) (hshown : b'.participants.muted = b.participants.muted)
    (hfinished : b'.finished = b.finished) (htiming : b'.clock.timing = b.clock.timing)
    (htime : b'.time.exponent = Time.picosecondExponent) : b'.Sound := by
  refine ⟨fun h => ?_, fun h => ?_, fun hf h => ?_, htiming ▸ hb.timing, htime⟩
  · obtain ⟨slot, hslot, hm⟩ := Participants.exists_of_muted_eq hshown h
    rw [Slot.eq_of_muted_eq hm]
    have hident : slot.ident = _ := hb.ident hslot
    exact hident
  · obtain ⟨slot, hslot, hm⟩ := Participants.exists_of_muted_eq hshown h
    exact (hb.slots hslot).of_muted_eq hm
  · obtain ⟨slot, hslot, hm⟩ := Participants.exists_of_muted_eq hshown h
    rw [Slot.eq_of_muted_eq hm]
    have hconnection : slot.connection = none := hb.ended (hfinished ▸ hf) hslot
    exact hconnection

theorem Sound.rearm {b : Bus} (hb : b.Sound) :
    Sound { b with participants := b.participants.each (·.rearm) } := by
  refine ⟨fun h => ?_, fun h => ?_, fun hf h => ?_, hb.timing, hb.picoseconds⟩
  all_goals
    simp only [Participants.get?_each, Option.map_eq_some_iff] at h
    obtain ⟨slot, hslot, rfl⟩ := h
  · rw [Slot.ident, Slot.device_rearm]
    exact hb.ident hslot
  · exact (hb.slots hslot).rearm
  · rw [Slot.connection_rearm]
    exact hb.ended hf hslot

theorem Sound.add_elapsed {b : Bus} (hb : b.Sound) {time : Time}
    (h : b.time.add b.clock.advance.elapsed = .ok time) :
    time.exponent = Time.picosecondExponent ∧ b.time.mantissa.toNat < time.mantissa.toNat := by
  have hpos := ClockTiming.span_pos hb.timing b.clock.phase.next
  rw [Clock.elapsed_advance] at h
  obtain ⟨hexp, hsum⟩ := Time.add_picoseconds hb.picoseconds hpos h
  exact ⟨hexp, by omega⟩

theorem Sound.advanced {b b' : Bus} {outcome : Advance} (hb : b.Sound) (h : b.Advanced outcome b') :
    b'.Sound := by
  cases h with
  | waiting => exact hb
  | failed cause engine ps clock assembled live ready shown timing =>
    exact hb.of_shown shown rfl timing hb.picoseconds
  | stepped engine ps time live ready shown sum =>
    have hsound : Sound { b with engine, time, participants := ps, clock := b.clock.advance, assembled := true,
                                 steps := b.steps + 1 } :=
      hb.of_shown shown rfl rfl (hb.add_elapsed sum).1
    exact hsound.rearm

theorem Advanced.holds_iff {b b' : Bus} {outcome : Advance} (h : b.Advanced outcome b') {i : Ident}
    {k : ConnectionKey} : b'.Holds i k ↔ b.Holds i k := by
  have hmuted : ∀ {ps ps' : Participants}, ps'.muted = ps.muted →
      ∀ slot', ps'.get? i = some slot' → slot'.connection = some k →
        ∃ slot, ps.get? i = some slot ∧ slot.connection = some k := by
    intro ps ps' hshown slot' hs' hk
    obtain ⟨slot, hs, hm⟩ := Participants.exists_of_muted_eq hshown hs'
    rw [Slot.eq_of_muted_eq hm] at hk
    exact ⟨slot, hs, hk⟩
  cases h with
  | waiting => rfl
  | failed cause engine ps clock assembled live ready shown timing =>
    constructor
    · rintro ⟨slot', hs', hk⟩
      exact hmuted shown slot' hs' hk
    · rintro ⟨slot, hs, hk⟩
      exact hmuted shown.symm slot hs hk
  | stepped engine ps time live ready shown sum =>
    have hrearm : ∀ {slot}, (ps.each (·.rearm)).get? i = some slot ↔
        ∃ s, ps.get? i = some s ∧ s.rearm = slot := by
      intro slot
      rw [Participants.get?_each, Option.map_eq_some_iff]
    constructor
    · rintro ⟨slot', hs', hk⟩
      obtain ⟨s, hs, rfl⟩ := hrearm.1 hs'
      rw [Slot.connection_rearm] at hk
      exact hmuted shown s hs hk
    · rintro ⟨slot, hs, hk⟩
      obtain ⟨s, hs', hk'⟩ := hmuted shown.symm slot hs hk
      exact ⟨s.rearm, hrearm.2 ⟨s, hs', rfl⟩, by rwa [Slot.connection_rearm]⟩

theorem Advanced.of_slot {b b' : Bus} {outcome : Advance} (h : b.Advanced outcome b') {i : Ident} {slot' : Slot}
    (hslot : b'.participants.get? i = some slot') : ∃ slot, b.participants.get? i = some slot ∧
      slot'.claimed = slot.claimed ∧ slot'.finished = slot.finished ∧ slot'.connection = slot.connection := by
  have hmuted : ∀ {ps : Participants} {s : Slot}, ps.muted = b.participants.muted → ps.get? i = some s →
      ∃ slot, b.participants.get? i = some slot ∧ s.claimed = slot.claimed ∧ s.finished = slot.finished ∧
        s.connection = slot.connection := by
    intro ps s hshown hs
    obtain ⟨slot, hslot, hm⟩ := Participants.exists_of_muted_eq hshown hs
    rw [Slot.eq_of_muted_eq hm]
    exact ⟨slot, hslot, rfl, rfl, rfl⟩
  cases h with
  | waiting => exact ⟨slot', hslot, rfl, rfl, rfl⟩
  | failed cause engine ps clock assembled live ready shown timing => exact hmuted shown hslot
  | stepped engine ps time live ready shown sum =>
    rw [Participants.get?_each] at hslot
    obtain ⟨s, hs, rfl⟩ := Option.map_eq_some_iff.1 hslot
    rw [Slot.claimed_rearm, Slot.finished_rearm, Slot.connection_rearm]
    exact hmuted shown hs

theorem Advanced.finished_eq {b b' : Bus} {outcome : Advance} (h : b.Advanced outcome b') :
    b'.finished = b.finished := by
  cases h <;> rfl

/-! ### The end -/

theorem finished_tearDown (b : Bus) : b.tearDown.2.1.finished = true := by
  unfold Bus.tearDown
  split
  · next h => exact h
  · rfl

theorem time_tearDown (b : Bus) : b.tearDown.2.1.time = b.time := by
  unfold Bus.tearDown
  split <;> rfl

theorem Sound.tearDown {b : Bus} (hb : b.Sound) : b.tearDown.2.1.Sound := by
  unfold Bus.tearDown
  split
  · exact hb
  · refine ⟨fun h => ?_, fun h => ?_, fun _ h => ?_, hb.timing, hb.picoseconds⟩
    all_goals
      simp only [Participants.get?_each, Option.map_eq_some_iff] at h
      obtain ⟨slot, hslot, rfl⟩ := h
    · have hident : slot.ident = _ := hb.ident hslot
      exact hident
    · exact (hb.slots hslot).unbind
    · rfl

end Bus

end Lockstep
