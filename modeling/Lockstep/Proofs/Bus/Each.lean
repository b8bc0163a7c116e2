import Lockstep.Proofs.Bus.Step
/-!
# A change of every slot

Some changes of the slots leave out or rename what a bus does not look at: the connections, or the clock that is shown.
Here is what follows for any function of slots that keeps the fields in question. Who is found by a name or a role does
not change (`Participants.find?_each`, `Link.find_each`), nor does what participants agree on (`Engine.wrapUp_each`), whom
a handshake admits (`Bus.admits_each`) and how lines are read (`Bus.decode_each`).
-/

namespace Lockstep

variable {f : Slot → Slot}

namespace Participants

theorem each_each_comm {g : Slot → Slot} (h : ∀ s, g (f s) = f (g s)) (ps : Participants) :
    (ps.each f).each g = (ps.each g).each f := by
  rw [each_each, each_each]
  congr 1
  funext s
  exact h s

theorem each_modify {g g' : Slot → Slot} (h : ∀ s, f (g s) = g' (f s)) (ps : Participants) (i : Ident) :
    each (ps.modify i g) f = SortedMap.modify (ps.each f) i g' := SortedMap.mapValues_modify h

theorem find?_each {p : Slot → Bool} (h : ∀ s, p (f s) = p s) (ps : Participants) :
    (ps.each f).find? p = (ps.find? p).map f := by
  rw [find?, values_each, List.find?_map, find?]
  congr 2
  funext s
  exact h s

theorem allReady_each (h : ∀ s, (f s).isReady = s.isReady) (ps : Participants) : (ps.each f).allReady = ps.allReady := by
  rw [allReady, values_each, List.all_map, allReady]
  congr 1
  funext s
  exact h s

theorem allFinished_each (h : ∀ s, (f s).finished = s.finished) (ps : Participants) :
    (ps.each f).allFinished = ps.allFinished := by
  rw [allFinished, values_each, List.all_map, allFinished]
  congr 1
  funext s
  exact h s

theorem size_each (ps : Participants) : SortedMap.size (ps.each f) = ps.size := by
  simp [each, SortedMap.mapValues, SortedMap.size]

section Device

variable (hdevice : ∀ s, (f s).device = s.device) (ps : Participants)
include hdevice

theorem named?_each (name : String) : (ps.each f).named? name = (ps.named? name).map f := by
  refine find?_each (fun s => ?_) ps
  rw [Slot.name, hdevice]
  rfl

theorem host?_each : (ps.each f).host? = ps.host? := by
  rw [host?, find?_each (fun s => by rw [Slot.isHost, hdevice]; rfl), Option.map_map, host?]
  congr 1
  funext s
  exact congrArg Device.ident (hdevice s)

theorem device?_each : (ps.each f).device? = ps.device? := by
  rw [device?, find?_each (fun s => by rw [Slot.isHost, hdevice]; rfl), Option.map_map, device?]
  congr 1
  funext s
  exact congrArg Device.ident (hdevice s)

end Device

end Participants

/-! ### Agreement -/

theorem Link.find_each (hdevice : ∀ s, (f s).device = s.device) (ps : Participants) :
    Link.find (ps.each f) = Link.find ps := by
  rw [Link.find, Participants.host?_each hdevice, Participants.device?_each hdevice, Link.find]

namespace Engine

variable (hdevice : ∀ s, (f s).device = s.device)
include hdevice

theorem wire_each {connect : Slot → Slot → Except EngineError (RelayTable × BusNotice)}
    (h : ∀ s t, connect (f s) (f t) = connect s t) (ps : Participants) : wire connect (ps.each f) = wire connect ps := by
  unfold wire
  rw [Link.find_each hdevice]
  congr 1
  funext link
  rw [ps.get?_each, ps.get?_each]
  cases ps.get? link.host with
  | none => rfl
  | some host =>
    cases ps.get? link.device with
    | none => rfl
    | some device =>
      simp only [Option.map_some]
      rw [h]

theorem wrapUp_each (hoptions : ∀ s, (f s).options = s.options) (e : Engine) (ps : Participants) :
    e.wrapUp (ps.each f) = e.wrapUp ps := by
  have hname : ∀ s, (f s).name = s.name := fun s => congrArg Device.name (hdevice s)
  cases e with
  | pointToPoint bus wiring =>
    simp only [wrapUp]
    rw [wire_each hdevice fun s t => by simp only [PointToPoint.connect, hdevice, hoptions, hname]]
  | axi4 bus wiring =>
    simp only [wrapUp]
    rw [wire_each hdevice fun s t => by simp only [Axi4.connect, hoptions, hname]]
  | pcieTlp bus wiring =>
    simp only [wrapUp]
    rw [wire_each hdevice fun s t => by simp only [PcieTlp.connect, hoptions, hname]]
  | pci p => simp only [wrapUp, Participants.size_each]

end Engine

/-! ### Handshakes and lines -/

namespace Bus

theorem admits_each (hdevice : ∀ s, (f s).device = s.device) (hclaimed : ∀ s, (f s).claimed = s.claimed) (b : Bus)
    (name : String) (options : Options) :
    admits { b with participants := b.participants.each f } name options =
      (b.admits name options).map fun found => (f found.1, found.2) := by
  unfold admits
  simp only [Participants.named?_each hdevice]
  split
  · rfl
  · cases b.participants.named? name with
    | none => rfl
    | some slot =>
      simp only [Option.map_some, hdevice, hclaimed]
      split
      · rfl
      · cases b.engine.driven slot.device options <;> rfl

theorem decode_each (hwidths : ∀ s, (f s).widths = s.widths) (b : Bus) (i : Ident) (text : String) :
    decode { b with participants := b.participants.each f } i text = b.decode i text := by
  have hcheck : ∀ m, checkOffer { b with participants := b.participants.each f } i m = b.checkOffer i m := by
    intro m
    unfold checkOffer
    rw [Participants.get?_each]
    cases m with
    | ready time signals =>
      cases b.participants.get? i with
      | none => rfl
      | some slot => simp only [Option.map_some, hwidths]
    | hello | youAre | nak | deliver | finish => rfl
  unfold decode
  congr 1
  funext m
  exact hcheck m

end Bus

end Lockstep
