import Lockstep.Proofs.Bus.Failure
import Lockstep.Proofs.Bus.Roster
/-!
# The order of arrival

Between two steps participants do not get in each other's way. Whatever a device does then is a matter of the bus and of
the slot of this device: the answer follows from the slot, and only the slot changes (`Alike.respond`). So each device
is answered as if there were nobody else (`Alike.alone`), and neither the answers nor the slots that are left behind
tell who came first (`Bus.order_of_arrival`).

Nothing is asked of the devices here. They may shake hands twice, offer out of turn, send what cannot be read and come
back after they have left.
-/

namespace Lockstep.Bus

open Participants

/-! ### Arrivals -/

/-- What a device may do between two steps, whether it makes sense or not. -/
inductive Approach where
  | handshake (connection : ConnectionKey) (options : Options)
  | line (text : String)
  | disconnect
deriving DecidableEq

def Approach.operation (d : Device) : Approach → Operation
  | .handshake connection options => .handshake connection d.name options
  | .line text => .line d.ident text
  | .disconnect => .disconnect d.ident

/-- What comes of it. -/
inductive Response where
  | greeted (outcome : Except ParticipantError Ident)
  | heard (outcome : Except LineError (Except ParticipantError Received))
  | parted (outcome : Option ParticipantError)

def response (b : Bus) (d : Device) : Approach → Response
  | .handshake connection options => .greeted (b.handshake connection d.name options).1
  | .line text => .heard (b.hear d.ident text).1
  | .disconnect => .parted (b.disconnect d.ident).1

/-- What some devices do, in the order in which it arrives. -/
abbrev Arrivals := List (Device × Approach)

def after (b : Bus) (es : Arrivals) : Bus := es.foldl (fun b e => b.perform (e.2.operation e.1)) b

/-- All responses, each with the device that gets it. -/
def responses (b : Bus) : Arrivals → List (Device × Response)
  | [] => []
  | e :: es => (e.1, b.response e.1 e.2) :: (b.perform (e.2.operation e.1)).responses es

def own {α : Type} (d : Device) (es : List (Device × α)) : List α :=
  es.filterMap fun e => if e.1 = d then some e.2 else none

/-- An interleaving of what the devices do: each does its own things in their order, and nobody else does anything. -/
structure Interleaves (devices : List Device) (family : Device → List Approach) (es : Arrivals) : Prop where
  known : ∀ e ∈ es, e.1 ∈ devices
  own : ∀ d ∈ devices, own d es = family d

section Own

variable {α : Type} {d d' : Device} (a : α) (es : List (Device × α))

theorem own_cons_self : own d ((d, a) :: es) = a :: own d es := by
  simp [own]

theorem own_cons_of_ne (h : d' ≠ d) : own d ((d', a) :: es) = own d es := by
  simp [own, h]

end Own

/-! ### Only the own slot counts -/

variable {c : BusConfig} {start b b' b'' : Bus} {devices : List Device} {d : Device}

/-- Two buses that are the same for a device: they differ in the slots of others at most. -/
structure Alike (d : Device) (b b' : Bus) : Prop where
  slot : b'.participants.get? d.ident = b.participants.get? d.ident
  rest : b' = { b with participants := b'.participants }

namespace Alike

theorem refl (d : Device) (b : Bus) : Alike d b b := ⟨rfl, rfl⟩

theorem symm (h : Alike d b b') : Alike d b' b := ⟨h.slot.symm, by rw [h.rest]⟩

theorem trans (h : Alike d b b') (h' : Alike d b' b'') : Alike d b b'' := by
  refine ⟨h'.slot.trans h.slot, ?_⟩
  rw [h'.rest, h.rest]

theorem name_eq (h : Alike d b b') : b'.name = b.name := by
  rw [h.rest]
  rfl

theorem modifySlot (h : Alike d b b') (f : Slot → Slot) :
    Alike d (b.modifySlot d.ident f) (b'.modifySlot d.ident f) := by
  refine ⟨?_, ?_⟩
  · rw [get?_modifySlot, if_pos rfl, get?_modifySlot, if_pos rfl, h.slot]
  · rw [Bus.modifySlot, h.rest]
    rfl

theorem elsewhere (h : Alike d b b') {i : Ident} (hi : d.ident ≠ i) (f : Slot → Slot) :
    Alike d (b.modifySlot i f) b' := by
  refine ⟨?_, ?_⟩
  · rw [get?_modifySlot, if_neg hi, h.slot]
  · rw [h.rest]
    rfl

end Alike

theorem Alike.receive (h : Alike d b b') {slot : Slot} (hs : b.participants.get? d.ident = some slot) (m : Message) :
    (b'.receive d.ident m).1 = (b.receive d.ident m).1 ∧ ∃ f : Slot → Slot,
      (b.receive d.ident m).2.1 = b.modifySlot d.ident f ∧ (b'.receive d.ident m).2.1 = b'.modifySlot d.ident f := by
  have hs' : b'.participants.get? d.ident = some slot := h.slot.trans hs
  simp only [Bus.receive, hs, hs', h.name_eq]
  cases judge slot m with
  | error reason => exact ⟨rfl, _, rfl, rfl⟩
  | ok received =>
    cases received with
    | finished => exact ⟨rfl, _, rfl, rfl⟩
    | ready => cases m <;> exact ⟨rfl, _, rfl, rfl⟩

theorem Alike.decode_eq (h : Alike d b b') (text : String) : b'.decode d.ident text = b.decode d.ident text := by
  simp only [decode, checkOffer, h.slot]

/-- **Only the own slot counts.** What a device does has the same response on two buses that are alike for it, and
changes nothing but its slot. -/
theorem Alike.respond (h : Alike d b b') (hb : Staffed devices b.participants) (hb' : Staffed devices b'.participants)
    (hd : d ∈ devices) (a : Approach) : b'.response d a = b.response d a ∧ ∃ f : Slot → Slot,
      b.perform (a.operation d) = b.modifySlot d.ident f ∧ b'.perform (a.operation d) = b'.modifySlot d.ident f := by
  obtain ⟨slot, hs, hdevice⟩ := hb.slot hd
  have hunchanged : ∀ b : Bus, b = b.modifySlot d.ident fun s => s := fun b => (b.modifySlot_id d.ident).symm
  cases a with
  | handshake k options =>
    have hadmits : b'.admits d.name options = b.admits d.name options := by
      have hfinished : b'.finished = b.finished := by rw [h.rest]
      have hengine : b'.engine = b.engine := by rw [h.rest]
      have hnamed : b'.participants.named? d.name = b.participants.named? d.name := by
        rw [hb'.named?_eq hd, hb.named?_eq hd, h.slot]
      rw [admits, hfinished, hengine, hnamed, admits]
    simp only [response, Approach.operation, perform, Bus.handshake, hadmits, h.name_eq]
    cases hfound : b.admits d.name options with
    | error reason => exact ⟨rfl, _, hunchanged b, hunchanged b'⟩
    | ok found =>
      -- the slot that goes by the name of the device is its own
      obtain ⟨-, hnamed, -⟩ := of_admits_eq_ok hfound
      rw [hb.named?_eq hd, hs] at hnamed
      have hident : found.1.ident = d.ident := by rw [← Option.some.inj hnamed, Slot.ident, hdevice]
      dsimp only
      rw [hident]
      exact ⟨rfl, _, rfl, rfl⟩
  | line text =>
    simp only [response, Approach.operation, perform, hear, h.decode_eq text]
    cases b.decode d.ident text with
    | error cause => exact ⟨rfl, _, hunchanged b, hunchanged b'⟩
    | ok m =>
      obtain ⟨hsame, f, hf, hf'⟩ := h.receive hs m
      exact ⟨congrArg (fun o => Response.heard (.ok o)) hsame, f, hf, hf'⟩
  | disconnect =>
    simp only [response, Approach.operation, perform, Bus.disconnect, h.slot, hs, h.name_eq]
    cases slot.finished with
    | true => exact ⟨rfl, _, rfl, rfl⟩
    | false => exact ⟨rfl, _, rfl, rfl⟩

/-! ### Whoever comes first -/

theorem staffed_perform {b : Bus} (hb : Staffed devices b.participants) (op : Operation) :
    Staffed devices (b.perform op).participants := hb.of_roster_eq (roster_perform b op)

theorem Alike.respond_elsewhere (h : Alike d b b') (hb : Staffed devices b.participants) (hd : d ∈ devices)
    {e : Device} (he : e ∈ devices) (hne : e ≠ d) (a : Approach) : Alike d (b.perform (a.operation e)) b' := by
  obtain ⟨-, f, hf, -⟩ := (Alike.refl e b).respond hb hb he a
  rw [hf]
  exact h.elsewhere (fun heq => hne (hb.eq_of_ident_eq he hd heq.symm)) f

/-- **Alone.** A device gets the responses that it would get if it alone did something, and has the same slot
afterwards. -/
theorem Alike.alone {es : Arrivals} (h : Alike d b b') (hb : Staffed devices b.participants)
    (hb' : Staffed devices b'.participants) (hd : d ∈ devices) (hknown : ∀ e ∈ es, e.1 ∈ devices) :
    own d (b.responses es) = own d (b'.responses ((own d es).map (Prod.mk d))) ∧
      Alike d (b.after es) (b'.after ((own d es).map (Prod.mk d))) := by
  induction es generalizing b b' with
  | nil => exact ⟨rfl, h⟩
  | cons e es ih =>
    obtain ⟨d', a⟩ := e
    obtain ⟨hd', hothers⟩ := List.forall_mem_cons.1 hknown
    by_cases hown : d' = d
    · subst hown
      obtain ⟨hsame, f, hf, hf'⟩ := h.respond hb hb' hd a
      have hnext : Alike d' (b.perform (a.operation d')) (b'.perform (a.operation d')) := by
        rw [hf, hf']
        exact h.modifySlot f
      obtain ⟨hresponses, hafter⟩ := ih hnext (staffed_perform hb _) (staffed_perform hb' _) hothers
      rw [own_cons_self, List.map_cons, responses, responses, own_cons_self, own_cons_self, hresponses, hsame]
      exact ⟨rfl, hafter⟩
    · obtain ⟨hresponses, hafter⟩ := ih (h.respond_elsewhere hb hd hd' hown a) (staffed_perform hb _) hb' hothers
      rw [own_cons_of_ne _ _ hown, responses, own_cons_of_ne _ _ hown]
      exact ⟨hresponses, hafter⟩

theorem staffed_after {es : Arrivals} (hb : Staffed devices b.participants) :
    Staffed devices (b.after es).participants := by
  induction es generalizing b with
  | nil => exact hb
  | cons e es ih => exact ih (staffed_perform hb _)

theorem eq_of_alike (hb : Staffed devices b.participants) (hb' : Staffed devices b'.participants)
    (hrest : b' = { b with participants := b'.participants }) (h : ∀ d ∈ devices, Alike d b b') : b' = b := by
  have hparticipants : b'.participants = b.participants := by
    refine SortedMap.ext_get? fun i => ?_
    cases hs : b.participants.get? i with
    | some slot =>
      obtain ⟨hmem, rfl⟩ := hb.device hs
      rw [← hs]
      exact (h _ hmem).slot
    | none =>
      refine Option.eq_none_iff_forall_ne_some.2 fun slot hs' => ?_
      obtain ⟨hmem, rfl⟩ := hb'.device hs'
      have hsame : b'.participants.get? slot.ident = b.participants.get? slot.ident := (h _ hmem).slot
      rw [hs', hs] at hsame
      cases hsame
  rw [hrest, hparticipants]

theorem rest_after {es : Arrivals} (hb : Staffed devices b.participants) (hknown : ∀ e ∈ es, e.1 ∈ devices) :
    b.after es = { b with participants := (b.after es).participants } := by
  induction es generalizing b with
  | nil => rfl
  | cons e es ih =>
    obtain ⟨he, hothers⟩ := List.forall_mem_cons.1 hknown
    obtain ⟨-, f, hf, -⟩ := (Alike.refl e.1 b).respond hb hb he e.2
    have hrest := ih (staffed_perform hb (e.2.operation e.1)) hothers
    have hfirst : b.after (e :: es) = (b.modifySlot e.1.ident f).after es := by
      rw [after, List.foldl_cons, hf]
      rfl
    rw [hf] at hrest
    rw [hfirst]
    exact hrest

theorem staffed_calls (hstart : ofConfig c = .ok start) (calls : List Call) :
    Staffed c.devices (calls.foldl call start).participants := by
  have hroster : ∀ (calls : List Call) (b : Bus),
      (calls.foldl call b).participants.roster = b.participants.roster := by
    intro calls
    induction calls with
    | nil => exact fun b => rfl
    | cons x calls ih =>
      intro b
      refine (ih (b.call x)).trans ?_
      cases x with
      | operate op => exact roster_perform b op
      | receive i m => exact roster_receive b i m
  exact (Course.nil.staffed hstart).of_roster_eq (hroster calls start)

/-- **The order of arrival does not matter.** Two interleavings of what the devices of a bus do between two steps have
the same responses and leave the same bus behind, so the same UNTILs follow. -/
theorem order_of_arrival (hstart : ofConfig c = .ok start) (calls : List Call) {family : Device → List Approach}
    {es es' : Arrivals} (h : Interleaves c.devices family es) (h' : Interleaves c.devices family es') :
    (∀ d ∈ c.devices, own d ((calls.foldl call start).responses es) = own d ((calls.foldl call start).responses es')) ∧
      (calls.foldl call start).after es = (calls.foldl call start).after es' ∧
      ((calls.foldl call start).after es).advance = ((calls.foldl call start).after es').advance := by
  have hstaffed := staffed_calls hstart calls
  generalize calls.foldl call start = b at hstaffed
  -- both are compared with the device alone
  have halike : ∀ d ∈ c.devices, own d (b.responses es) = own d (b.responses es') ∧
      Alike d (b.after es') (b.after es) := by
    intro d hd
    obtain ⟨hresponses, hafter⟩ := (Alike.refl d b).alone hstaffed hstaffed hd h.known
    obtain ⟨hresponses', hafter'⟩ := (Alike.refl d b).alone hstaffed hstaffed hd h'.known
    rw [h.own d hd] at hresponses hafter
    rw [h'.own d hd] at hresponses' hafter'
    exact ⟨hresponses.trans hresponses'.symm, hafter'.trans hafter.symm⟩
  have hrest : b.after es = { b.after es' with participants := (b.after es).participants } := by
    rw [rest_after hstaffed h.known, rest_after hstaffed h'.known]
  have hsame := eq_of_alike (staffed_after hstaffed) (staffed_after hstaffed) hrest fun d hd => (halike d hd).2
  exact ⟨fun d hd => (halike d hd).1, hsame, by rw [hsame]⟩

/-- The host offers twice and tries to come back, and the card shakes hands again, offers and is lost. -/
def unruly (d : Device) : List Approach :=
  if d.host then [.line "READY 0e-12 DATA_O=1", .line "READY 0e-12", .handshake 9 .empty]
  else [.handshake 9 .empty, .line "READY 0e-12", .disconnect]

def hostFirst : Arrivals := oneWire.devices.flatMap fun d => (unruly d).map (Prod.mk d)

def byTurns : Arrivals :=
  ((unruly ⟨"card", 1, false⟩).zip (unruly ⟨"host", 0, true⟩)).flatMap fun (card, host) =>
    [(⟨"card", 1, false⟩, card), (⟨"host", 0, true⟩, host)]

/-- On a link to which both have connected it makes no difference. -/
theorem unruly_in_any_order :
    let b := (linkGreetings.map Call.operate).foldl call idleLink
    own ⟨"host", 0, true⟩ (b.responses hostFirst) = own ⟨"host", 0, true⟩ (b.responses byTurns) ∧
      b.after hostFirst = b.after byTurns ∧ hostFirst ≠ byTurns := by
  have hfirst : Interleaves oneWire.devices unruly hostFirst := ⟨by decide, by decide⟩
  have hturns : Interleaves oneWire.devices unruly byTurns := ⟨by decide, by decide⟩
  obtain ⟨hresponses, hafter, -⟩ := order_of_arrival ofConfig_oneWire (linkGreetings.map Call.operate) hfirst hturns
  exact ⟨hresponses ⟨"host", 0, true⟩ (by decide), hafter, by decide⟩

end Lockstep.Bus
