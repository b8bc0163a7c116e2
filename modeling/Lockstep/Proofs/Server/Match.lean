import Lockstep.Proofs.Bus.Roster
import Lockstep.Proofs.Server.Play
import Mathlib.Logic.Relation
/-!
# A play without keys

What the participants of one bus are sent does not depend on the keys of their connections, nor on anything else that
the server does. A `Match` keeps only the bus without its connections and the places of the participants. Its moves
are the acts of participants, which concern one slot each, and the service of the bus.

Acts of different participants commute. A bus steps only when nobody is expected to act (`Standing`), so an act and a
step never compete. Hence whatever two sequences of moves lead to, there is a match that both can go on to
(`Match.joinable`), and what somebody has received in one of them is the beginning of what it has received there.
-/

namespace Lockstep

namespace Slot

/-- What a handshake does to a free slot, and the reply. -/
def greet (engine : Engine) (slot : Slot) (options : Options) : Slot × List Message :=
  match engine.driven slot.device options with
  | .ok widths => ((slot.claim 0 options widths).unbind, [.youAre slot.ident])
  | .error _ => (slot, [.nak])

/-- What a line of its participant does to a claimed slot, and the reply. -/
def hear (slot : Slot) (text : String) : Slot × List Message :=
  match Message.decode text with
  | .ok (.ready time signals) =>
    if slot.widths.fault? signals = none ∧ slot.isReady = false then (slot.offer time signals, [])
    else (slot.park.unbind, [])
  | .ok .finish => (slot.park.unbind, [.finish])
  | _ => (slot.park.unbind, [])

/-- What a turn of its participant does to a slot, and the reply. -/
def take (engine : Engine) (slot : Slot) : Turn → Slot × List Message
  | .line text =>
    if slot.claimed then slot.hear text
    else match Message.decode text with
      | .ok (.hello _ options) => slot.greet engine options
      | _ => (slot, [])
  | .malformed _ | .close => (slot.park.unbind, [])

/-- A slot that nobody has claimed. -/
structure Vacant (slot : Slot) : Prop where
  unclaimed : slot.claimed = false
  unready : slot.ready = false
  unfinished : slot.finished = false

theorem Vacant.isReady_eq_false {slot : Slot} (h : slot.Vacant) : slot.isReady = false := by
  rw [isReady, h.unready, h.unfinished]
  rfl

end Slot

/-- How the place of a participant fits its slot. -/
inductive Standing (slot : Slot) (seat : Seat Unit) : Prop where
  | away (hc : seat.connection = none) (turns : seat.turns = 0) (received : seat.received = [])
      (vacant : slot.Vacant)
  | arrived (hc : seat.connection = some ()) (turns : seat.turns = 0) (received : seat.received = [])
      (vacant : slot.Vacant)
  | rejected (hc : seat.connection = some ()) (turns : seat.turns = 1) (received : seat.received = [.nak])
      (vacant : slot.Vacant)
  /-- The participant is expected to take a turn. -/
  | owing (hc : seat.connection = some ()) (before : List Message) (m : Message)
      (received : seat.received = before ++ [m]) (turns : seat.turns = before.length + 1) (invites : m.invites = true)
      (claimed : slot.claimed = true) (unready : slot.ready = false) (unfinished : slot.finished = false)
  /-- The participant has made its offer for the next step. -/
  | offered (hc : seat.connection = some ()) (turns : seat.turns = seat.received.length + 1)
      (claimed : slot.claimed = true) (ready : slot.ready = true) (unfinished : slot.finished = false)
  | gone (hc : seat.connection = some ()) (turns : seat.turns ≠ 0)
      (silent : ∀ m, seat.received[seat.turns - 1]? = some m → m.invites = false)
      (claimed : slot.claimed = true) (finished : slot.finished = true)

namespace Seat

/-- The next act of a participant: it connects, or takes the turn that is due. -/
def act (engine : Engine) {name : String} (player : Play.Player name) (slot : Slot) (seat : Seat Unit) :
    Slot × Seat Unit :=
  match seat.connection with
  | none => (slot, { seat with connection := some () })
  | some _ =>
    match seat.next? player with
    | none => (slot, seat)
    | some turn => ((slot.take engine turn).1, seat.took (slot.take engine turn).2)

/-- The place after a step, if the participant has not left. -/
def deliver (time : Time) (slot : Slot) (seat : Seat Unit) : Seat Unit :=
  if slot.finished then seat else { seat with received := seat.received ++ [.deliver time slot.outgoing] }

end Seat

/-- A bus without connections, and the places of its participants. -/
structure Match (devices : List Device) where
  bus : Bus
  seats : Member devices → Seat Unit

namespace Match

variable {devices : List Device}

inductive Move (devices : List Device) where
  | act (d : Member devices)
  | service

variable (players : ∀ d : Member devices, Play.Player d.val.name)

def act (x : Match devices) (d : Member devices) : Match devices :=
  match x.bus.participants.get? d.val.ident with
  | none => x
  | some slot =>
    let r := (x.seats d).act x.bus.engine (players d) slot
    ⟨x.bus.modifySlot d.val.ident fun _ => r.1, Function.update x.seats d r.2⟩

/-- Everybody who has not left receives what its slot shows. -/
def deliver (x : Match devices) (b : Bus) : Match devices :=
  ⟨b, fun d =>
    match b.participants.get? d.val.ident with
    | none => x.seats d
    | some slot => (x.seats d).deliver b.time slot⟩

def service (x : Match devices) : Match devices :=
  if x.bus.finished then x
  else if x.bus.allFinished then ⟨x.bus.tearDown.2.1, x.seats⟩
  else match x.bus.advance.1 with
    | .waiting => x
    | .stepped _ => x.deliver x.bus.advance.2.1
    | .failed _ => ⟨x.bus.advance.2.1.tearDown.2.1, x.seats⟩

def move (x : Match devices) : Move devices → Match devices
  | .act d => x.act players d
  | .service => x.service

end Match

/-! ### How places fit slots -/

namespace Standing

variable {slot slot' : Slot} {seat : Seat Unit} {name : String}

theorem of_flags (h : Standing slot seat) (hclaimed : slot'.claimed = slot.claimed)
    (hready : slot'.ready = slot.ready) (hfinished : slot'.finished = slot.finished) : Standing slot' seat := by
  have hvacant : slot.Vacant → slot'.Vacant := fun h =>
    ⟨hclaimed.trans h.unclaimed, hready.trans h.unready, hfinished.trans h.unfinished⟩
  cases h with
  | away hc turns received vacant => exact .away hc turns received (hvacant vacant)
  | arrived hc turns received vacant => exact .arrived hc turns received (hvacant vacant)
  | rejected hc turns received vacant => exact .rejected hc turns received (hvacant vacant)
  | owing hc before m received turns invites claimed unready unfinished =>
    exact .owing hc before m received turns invites (hclaimed.trans claimed) (hready.trans unready)
      (hfinished.trans unfinished)
  | offered hc turns claimed ready unfinished =>
    exact .offered hc turns (hclaimed.trans claimed) (hready.trans ready) (hfinished.trans unfinished)
  | gone hc turns silent claimed finished =>
    exact .gone hc turns silent (hclaimed.trans claimed) (hfinished.trans finished)

theorem next?_owing (player : Play.Player name) {before : List Message} {m : Message}
    (received : seat.received = before ++ [m]) (turns : seat.turns = before.length + 1) (invites : m.invites = true) :
    seat.next? player = some (player.turn seat.received) := by
  have htake : (before ++ [m]).take (before.length + 1) = before ++ [m] := List.take_of_length_le (by simp)
  unfold Seat.next?
  rw [turns, received]
  simp [invites, htake]

theorem next?_gone (player : Play.Player name) (turns : seat.turns ≠ 0)
    (silent : ∀ m, seat.received[seat.turns - 1]? = some m → m.invites = false) : seat.next? player = none := by
  unfold Seat.next?
  split
  · next h => exact absurd h turns
  · next n h =>
    have hn : seat.turns - 1 = n := by omega
    rw [hn] at silent
    split
    · next m hm => rw [silent m hm]; rfl
    · rfl

theorem next?_rejected (player : Play.Player name) (turns : seat.turns = 1) (received : seat.received = [.nak]) :
    seat.next? player = none :=
  next?_gone player (by omega) fun m hm => by
    rw [turns, received] at hm
    cases hm
    rfl

theorem next?_offered (player : Play.Player name) (turns : seat.turns = seat.received.length + 1) :
    seat.next? player = none :=
  next?_gone player (by omega) fun m hm => by
    rw [turns, Nat.add_sub_cancel, List.getElem?_eq_none (Nat.le_refl _)] at hm
    cases hm

theorem unready_of_act (h : Standing slot seat) (player : Play.Player name)
    (hact : seat.connection = none ∨ seat.next? player ≠ none) : slot.isReady = false := by
  cases h with
  | away _ _ _ vacant | arrived _ _ _ vacant | rejected _ _ _ vacant => exact vacant.isReady_eq_false
  | owing hc before m received turns invites claimed unready unfinished =>
    rw [Slot.isReady, unready, unfinished]
    rfl
  | offered hc turns =>
    rcases hact with hact | hact
    · cases hc.symm.trans hact
    · exact absurd (next?_offered player turns) hact
  | gone hc turns silent =>
    rcases hact with hact | hact
    · cases hc.symm.trans hact
    · exact absurd (next?_gone player turns silent) hact

theorem admitted_of_ready (h : Standing slot seat) (hready : slot.isReady = true) :
    seat.connection = some () ∧ seat.turns ≠ 0 ∧ slot.claimed = true := by
  cases h with
  | away _ _ _ vacant | arrived _ _ _ vacant | rejected _ _ _ vacant =>
    cases vacant.isReady_eq_false.symm.trans hready
  | owing hc before m received turns invites claimed => exact ⟨hc, by omega, claimed⟩
  | offered hc turns claimed => exact ⟨hc, by omega, claimed⟩
  | gone hc turns silent claimed => exact ⟨hc, turns, claimed⟩

theorem retired (hc : seat.connection = some ()) (turns : seat.turns = seat.received.length)
    (claimed : slot.claimed = true) : Standing slot.park.unbind (seat.took []) := by
  refine .gone hc (Nat.succ_ne_zero _) (fun m hm => ?_) claimed rfl
  rw [Seat.took, List.append_nil] at hm
  simp [turns] at hm

theorem act (h : Standing slot seat) (engine : Engine) (player : Play.Player name) :
    Standing (seat.act engine player slot).1 (seat.act engine player slot).2 := by
  unfold Seat.act
  cases h with
  | away hc turns received vacant =>
    rw [hc]
    exact .arrived rfl turns received vacant
  | arrived hc turns received vacant =>
    have hnext : seat.next? player = some (.line player.greeting) := by rw [Seat.next?, turns]
    simp only [hc, hnext, Slot.take, vacant.unclaimed, Bool.false_eq_true, if_false, player.greets]
    unfold Slot.greet
    split
    · next widths _ =>
      exact .owing hc [] (.youAre slot.ident) (by simp [Seat.took, received]) (by simp [Seat.took, turns]) rfl rfl
        vacant.unready vacant.unfinished
    · exact .rejected hc (by simp [Seat.took, turns]) (by simp [Seat.took, received]) vacant
  | rejected hc turns received vacant =>
    simp only [hc, next?_rejected player turns received]
    exact .rejected hc turns received vacant
  | owing hc before m received turns invites claimed unready unfinished =>
    have hturns : seat.turns = seat.received.length := by simp [turns, received]
    simp only [hc, next?_owing player received turns invites]
    cases player.turn seat.received with
    | malformed cause => exact retired hc hturns claimed
    | close => exact retired hc hturns claimed
    | line text =>
      simp only [Slot.take, claimed, if_true]
      unfold Slot.hear
      split
      · split
        · exact .offered hc (by simp [Seat.took, hturns]) claimed rfl unfinished
        · exact retired hc hturns claimed
      · refine .gone hc (Nat.succ_ne_zero _) (fun m hm => ?_) claimed rfl
        simp only [Seat.took, Nat.add_sub_cancel, hturns] at hm
        simp at hm
        rw [← hm]
        rfl
      · exact retired hc hturns claimed
  | offered hc turns claimed ready unfinished =>
    simp only [hc, next?_offered player turns]
    exact .offered hc turns claimed ready unfinished
  | gone hc turns silent claimed finished =>
    simp only [hc, next?_gone player turns silent]
    exact .gone hc turns silent claimed finished

theorem deliver (h : Standing slot seat) (hready : slot.isReady = true) (hmuted : slot'.muted = slot.muted)
    (time : Time) : Standing slot'.rearm (seat.deliver time slot'.rearm) := by
  have hflags : slot'.claimed = slot.claimed ∧ slot'.ready = slot.ready ∧ slot'.finished = slot.finished := by
    rw [Slot.eq_of_muted_eq hmuted]
    exact ⟨rfl, rfl, rfl⟩
  cases h with
  | away _ _ _ vacant | arrived _ _ _ vacant | rejected _ _ _ vacant =>
    cases vacant.isReady_eq_false.symm.trans hready
  | owing hc before m received turns invites claimed unready unfinished =>
    rw [Slot.isReady, unready, unfinished] at hready
    cases hready
  | offered hc turns claimed ready unfinished =>
    have hlive : slot'.finished = false := hflags.2.2.trans unfinished
    have hdeliver : seat.deliver time slot'.rearm =
        { seat with received := seat.received ++ [.deliver time slot'.rearm.outgoing] } := by
      rw [Seat.deliver, Slot.finished_rearm, hlive]
      rfl
    rw [hdeliver]
    exact .owing hc seat.received _ rfl turns rfl (by rw [Slot.claimed_rearm, hflags.1, claimed])
      (Slot.ready_rearm hlive) (by rw [Slot.finished_rearm, hlive])
  | gone hc turns silent claimed finished =>
    have hleft : slot'.finished = true := hflags.2.2.trans finished
    have hdeliver : seat.deliver time slot'.rearm = seat := by
      rw [Seat.deliver, Slot.finished_rearm, hleft]
      rfl
    rw [hdeliver]
    exact .gone hc turns silent (by rw [Slot.claimed_rearm, hflags.1, claimed]) (by rw [Slot.finished_rearm, hleft])

end Standing

theorem Slot.device_take (engine : Engine) (slot : Slot) (turn : Turn) :
    (slot.take engine turn).1.device = slot.device := by
  cases turn with
  | malformed | close => rfl
  | line text =>
    unfold Slot.take
    dsimp only
    split
    · unfold Slot.hear
      split
      · split <;> rfl
      · rfl
      · rfl
    · split
      · unfold Slot.greet
        split <;> rfl
      · rfl

theorem Seat.device_act (engine : Engine) {name : String} (player : Play.Player name) (slot : Slot)
    (seat : Seat Unit) : (seat.act engine player slot).1.device = slot.device := by
  unfold Seat.act
  split
  · rfl
  · split
    · rfl
    · exact Slot.device_take _ _ _

theorem Seat.prefix_act (engine : Engine) {name : String} (player : Play.Player name) (slot : Slot)
    (seat : Seat Unit) : seat.received <+: (seat.act engine player slot).2.received := by
  unfold Seat.act
  split
  · exact List.prefix_rfl
  · split
    · exact List.prefix_rfl
    · exact List.prefix_append _ _

theorem Seat.prefix_deliver (time : Time) (slot : Slot) (seat : Seat Unit) :
    seat.received <+: (seat.deliver time slot).received := by
  unfold Seat.deliver
  split
  · exact List.prefix_rfl
  · exact List.prefix_append _ _

namespace Match

variable {devices : List Device} (players : ∀ d : Member devices, Play.Player d.val.name)

/-! ### Invariants -/

/-- What holds of a match at all times. -/
structure Sound (x : Match devices) : Prop where
  staffed : Participants.Staffed devices x.bus.participants
  standing : ∀ (d : Member devices) slot, x.bus.participants.get? d.val.ident = some slot → Standing slot (x.seats d)
  /-- A bus ends only when it waits for nobody. -/
  ended : x.bus.finished = true → x.bus.allReady = true

variable {x : Match devices}

theorem Sound.slot (hx : x.Sound) (d : Member devices) :
    ∃ slot, x.bus.participants.get? d.val.ident = some slot ∧ Standing slot (x.seats d) := by
  obtain ⟨slot, hslot, -⟩ := hx.staffed.slot d.property
  exact ⟨slot, hslot, hx.standing d slot hslot⟩

theorem Sound.ident_ne (hx : x.Sound) {d d' : Member devices} (h : d ≠ d') : d.val.ident ≠ d'.val.ident :=
  fun heq => h (Subtype.ext (hx.staffed.eq_of_ident_eq d.property d'.property heq))

theorem act_eq (x : Match devices) {d : Member devices} {slot : Slot}
    (hslot : x.bus.participants.get? d.val.ident = some slot) :
    x.act players d = ⟨x.bus.modifySlot d.val.ident fun _ => ((x.seats d).act x.bus.engine (players d) slot).1,
      Function.update x.seats d ((x.seats d).act x.bus.engine (players d) slot).2⟩ := by
  rw [act, hslot]

theorem act_eq_self {d : Member devices} (hidle : ¬ ((x.seats d).connection = none ∨
    (x.seats d).next? (players d) ≠ none)) : x.act players d = x := by
  cases hslot : x.bus.participants.get? d.val.ident with
  | none => rw [act, hslot]
  | some slot =>
    obtain ⟨hc, hnext⟩ : (x.seats d).connection ≠ none ∧ (x.seats d).next? (players d) = none := by
      simpa [not_or] using hidle
    have hact : (x.seats d).act x.bus.engine (players d) slot = (slot, x.seats d) := by
      obtain ⟨k, hk⟩ := Option.ne_none_iff_exists'.1 hc
      rw [Seat.act, hk, hnext]
    have hbus : (x.bus.modifySlot d.val.ident fun _ => slot) = x.bus := by
      have hself : (x.bus.modifySlot d.val.ident fun _ => slot) = x.bus.modifySlot d.val.ident fun s => s :=
        Bus.modifySlot_congr fun s hs => Option.some.inj (hslot.symm.trans hs)
      rw [hself, Bus.modifySlot_id]
    rw [act_eq players x hslot, hact]
    simp only [hbus, Function.update_eq_self]

theorem service_of_unready (h : x.bus.allReady = false) : x.service = x := by
  have hfinished : x.bus.allFinished = false := by
    refine Bool.eq_false_iff.2 fun hall => ?_
    cases h.symm.trans (Participants.allReady_of_allFinished hall)
  have hwaiting : x.bus.advance.1 = .waiting := by
    rw [Bus.advance, h]
    simp
  rw [service, hfinished, hwaiting]
  simp

theorem Sound.service_eq_self (hx : x.Sound) {d : Member devices} (hacts : (x.seats d).connection = none ∨
    (x.seats d).next? (players d) ≠ none) : x.service = x := by
  obtain ⟨slot, hslot, hstanding⟩ := hx.slot d
  have hunready := hstanding.unready_of_act (players d) hacts
  refine service_of_unready (Bool.eq_false_iff.2 fun h => ?_)
  rw [Participants.allReady_iff.1 h _ _ hslot] at hunready
  cases hunready

theorem Sound.act (hx : x.Sound) (d : Member devices) : (x.act players d).Sound := by
  by_cases hacts : (x.seats d).connection = none ∨ (x.seats d).next? (players d) ≠ none
  · obtain ⟨slot, hslot, hstanding⟩ := hx.slot d
    rw [act_eq players x hslot]
    refine ⟨?_, fun d' slot' hslot' => ?_, fun hfinished => ?_⟩
    · refine hx.staffed.of_roster_eq (Participants.roster_modify fun s hs => ?_)
      rw [hslot] at hs
      cases hs
      exact Seat.device_act _ _ _ _
    · dsimp only at hslot' ⊢
      rw [Bus.get?_modifySlot] at hslot'
      by_cases hd : d' = d
      · subst hd
        rw [if_pos rfl, hslot] at hslot'
        cases hslot'
        rw [Function.update_self]
        exact hstanding.act _ _
      · rw [if_neg (hx.ident_ne hd)] at hslot'
        rw [Function.update_of_ne hd]
        exact hx.standing d' slot' hslot'
    · -- nobody acts on a bus that has ended
      have hready := Participants.allReady_iff.1 (hx.ended hfinished) _ _ hslot
      rw [hstanding.unready_of_act (players d) hacts] at hready
      cases hready
  · rw [act_eq_self players hacts]
    exact hx

theorem participants_tearDown {b : Bus} (h : b.finished = false) :
    b.tearDown.2.1.participants = b.participants.anonymous := by
  rw [Bus.tearDown, h]
  rfl

theorem sound_tearDown {b : Bus} {seats : Member devices → Seat Unit}
    (hstaffed : Participants.Staffed devices b.participants)
    (hstanding : ∀ (d : Member devices) slot, b.participants.get? d.val.ident = some slot → Standing slot (seats d))
    (hlive : b.finished = false) (hready : b.allReady = true) : Sound ⟨b.tearDown.2.1, seats⟩ := by
  have hps := participants_tearDown hlive
  refine ⟨?_, fun d slot hslot => ?_, fun _ => ?_⟩
  · dsimp only
    rw [hps]
    exact hstaffed.of_roster_eq b.participants.roster_anonymous
  · dsimp only at hslot
    rw [hps, Participants.get?_anonymous] at hslot
    obtain ⟨s, hs, rfl⟩ := Option.map_eq_some_iff.1 hslot
    exact (hstanding d s hs).of_flags rfl rfl rfl
  · show b.tearDown.2.1.participants.allReady = true
    rw [hps, Participants.allReady_anonymous]
    exact hready

theorem Sound.service (hx : x.Sound) : x.service.Sound := by
  unfold Match.service
  split
  · exact hx
  · next hfinished =>
    have hlive : x.bus.finished = false := by simpa using hfinished
    split
    · next hall => exact sound_tearDown hx.staffed hx.standing hlive (Participants.allReady_of_allFinished hall)
    · have hspec := x.bus.advance_spec
      cases houtcome : x.bus.advance.1 with
      | waiting => exact hx
      | stepped ds =>
        rw [houtcome] at hspec
        dsimp only
        generalize x.bus.advance.2.1 = b' at hspec
        cases hspec with
        | stepped engine ps time live ready shown sum =>
          refine ⟨?_, fun d slot hslot => ?_, fun hf => ?_⟩
          · refine hx.staffed.of_roster_eq ?_
            exact (Participants.roster_each Slot.device_rearm ps).trans (Participants.roster_of_muted_eq shown)
          · unfold Match.deliver at hslot ⊢
            dsimp only at hslot ⊢
            rw [hslot]
            dsimp only
            rw [Participants.get?_each] at hslot
            obtain ⟨s', hs', rfl⟩ := Option.map_eq_some_iff.1 hslot
            obtain ⟨s, hs, hmuted⟩ := Participants.exists_of_muted_eq shown hs'
            exact (hx.standing d s hs).deliver (Participants.allReady_iff.1 ready _ _ hs) hmuted time
          · cases hlive.symm.trans hf
      | failed cause =>
        rw [houtcome] at hspec
        dsimp only
        generalize x.bus.advance.2.1 = b' at hspec
        cases hspec with
        | failed _ engine ps clock assembled live ready shown timing =>
          refine sound_tearDown (hx.staffed.of_roster_eq (Participants.roster_of_muted_eq shown))
            (fun d slot hslot => ?_) hlive ?_
          · obtain ⟨s, hs, hmuted⟩ := Participants.exists_of_muted_eq shown hslot
            refine (hx.standing d s hs).of_flags ?_ ?_ ?_ <;> rw [Slot.eq_of_muted_eq hmuted]
          · show ps.allReady = true
            rw [← ps.allReady_muted, shown, Participants.allReady_muted]
            exact ready

theorem Sound.move (hx : x.Sound) (m : Move devices) : (x.move players m).Sound := by
  cases m with
  | act d => exact hx.act players d
  | service => exact hx.service

/-! ### Confluence -/

theorem Sound.act_act_comm (hx : x.Sound) {d d' : Member devices} (h : d ≠ d') :
    (x.act players d).act players d' = (x.act players d').act players d := by
  obtain ⟨slot, hslot, -⟩ := hx.slot d
  obtain ⟨slot', hslot', -⟩ := hx.slot d'
  have hne := hx.ident_ne h
  have hfirst : (x.act players d).bus.participants.get? d'.val.ident = some slot' := by
    rw [act_eq players x hslot]
    dsimp only
    rw [Bus.get?_modifySlot, if_neg (Ne.symm hne), hslot']
  have hsecond : (x.act players d').bus.participants.get? d.val.ident = some slot := by
    rw [act_eq players x hslot']
    dsimp only
    rw [Bus.get?_modifySlot, if_neg hne, hslot]
  rw [act_eq players _ hfirst, act_eq players _ hsecond, act_eq players x hslot, act_eq players x hslot']
  simp only [Bus.modifySlot, Function.update_of_ne h, Function.update_of_ne (Ne.symm h)]
  rw [SortedMap.modify_modify_comm _ hne, Function.update_comm h]

/-- Two moves from one match lead to matches that one more move can join. -/
theorem Sound.diamond (hx : x.Sound) (m m' : Move devices) :
    ∃ y, (x.move players m = y ∨ ∃ a, (x.move players m).move players a = y) ∧
      (x.move players m' = y ∨ ∃ a, (x.move players m').move players a = y) := by
  -- an act and a step of the bus: one of the two does nothing
  have hservice : ∀ d, x.act players d = x ∨ x.service = x := by
    intro d
    by_cases hacts : (x.seats d).connection = none ∨ (x.seats d).next? (players d) ≠ none
    · exact .inr (hx.service_eq_self players hacts)
    · exact .inl (act_eq_self players hacts)
  cases m with
  | service =>
    cases m' with
    | service => exact ⟨_, .inl rfl, .inl rfl⟩
    | act d =>
      rcases hservice d with h | h
      · exact ⟨x.service, .inl rfl, .inr ⟨.service, congrArg Match.service h⟩⟩
      · exact ⟨x.act players d, .inr ⟨.act d, congrArg (Match.act players · d) h⟩, .inl rfl⟩
  | act d =>
    cases m' with
    | service =>
      rcases hservice d with h | h
      · exact ⟨x.service, .inr ⟨.service, congrArg Match.service h⟩, .inl rfl⟩
      · exact ⟨x.act players d, .inl rfl, .inr ⟨.act d, congrArg (Match.act players · d) h⟩⟩
    | act d' =>
      by_cases hd : d = d'
      · subst hd
        exact ⟨_, .inl rfl, .inl rfl⟩
      · exact ⟨(x.act players d).act players d', .inr ⟨.act d', rfl⟩,
          .inr ⟨.act d, (hx.act_act_comm players hd).symm⟩⟩

/-- A sound match goes on to another one by a move. -/
def Goes (x y : Match devices) : Prop := x.Sound ∧ ∃ m, x.move players m = y

def run (x : Match devices) (moves : List (Move devices)) : Match devices :=
  moves.foldl (fun x m => x.move players m) x

theorem Sound.goes_run (hx : x.Sound) (moves : List (Move devices)) :
    Relation.ReflTransGen (Goes players) x (x.run players moves) := by
  induction moves generalizing x with
  | nil => exact .refl
  | cons m moves ih => exact .head ⟨hx, m, rfl⟩ (ih (hx.move players m))

theorem joinable {y z : Match devices} (hy : Relation.ReflTransGen (Goes players) x y)
    (hz : Relation.ReflTransGen (Goes players) x z) : Relation.Join (Relation.ReflTransGen (Goes players)) y z := by
  refine Relation.church_rosser (fun a b c hb hc => ?_) hy hz
  obtain ⟨ha, m, rfl⟩ := hb
  obtain ⟨-, m', rfl⟩ := hc
  obtain ⟨d, hd, hd'⟩ := ha.diamond players m m'
  refine ⟨d, ?_, ?_⟩
  · rcases hd with rfl | ⟨m₁, rfl⟩
    · exact .refl
    · exact .single ⟨ha.move players m, m₁, rfl⟩
  · rcases hd' with rfl | ⟨m₁, rfl⟩
    · exact .refl
    · exact .single ⟨ha.move players m', m₁, rfl⟩

theorem Goes.prefix_received {x y : Match devices} (h : Goes players x y) (d : Member devices) :
    (x.seats d).received <+: (y.seats d).received := by
  obtain ⟨hx, m, rfl⟩ := h
  cases m with
  | act d' =>
    obtain ⟨slot, hslot, -⟩ := hx.slot d'
    rw [Match.move, act_eq players x hslot]
    by_cases hd : d = d'
    · subst hd
      dsimp only
      rw [Function.update_self]
      exact Seat.prefix_act _ _ _ _
    · simp [Function.update_of_ne hd]
  | service =>
    rw [Match.move, service]
    split
    · exact List.prefix_rfl
    · split
      · exact List.prefix_rfl
      · split
        · exact List.prefix_rfl
        · unfold deliver
          dsimp only
          split
          · exact List.prefix_rfl
          · exact Seat.prefix_deliver _ _ _
        · exact List.prefix_rfl

theorem prefix_received_of_goes {x y : Match devices} (h : Relation.ReflTransGen (Goes players) x y)
    (d : Member devices) : (x.seats d).received <+: (y.seats d).received := by
  induction h with
  | refl => exact List.prefix_rfl
  | tail _ hstep ih => exact ih.trans (hstep.prefix_received players d)

theorem Sound.comparable (hx : x.Sound) (moves moves' : List (Move devices)) (d : Member devices) :
    ((x.run players moves).seats d).received <+: ((x.run players moves').seats d).received ∨
      ((x.run players moves').seats d).received <+: ((x.run players moves).seats d).received := by
  obtain ⟨z, hy, hy'⟩ := joinable players (hx.goes_run players moves) (hx.goes_run players moves')
  exact List.prefix_or_prefix_of_prefix (prefix_received_of_goes players hy d)
    (prefix_received_of_goes players hy' d)

end Match

end Lockstep
