import Lockstep.Proofs.Bus.Terms
import Lockstep.Proofs.Engine.Options
/-!
# Handshakes without options

A device that announces no options takes what the bus configures. The engines with defaults have resolved that when
they were configured, so they let every such device in (`Axi4.widths_of_check`, `PcieTlp.width_of_check`). A
point-to-point link has been looked at only for numbers (`PointToPoint.legible_of_check`): a width that is missing, that
is zero, or that no line can carry is found out when a device asks for it, and the handshake of every device that does
is refused (`Bus.bare_handshake`).
-/

namespace Lockstep

/-! ### What has been checked before -/

namespace PointToPoint

variable {bus : Options}

theorem exists_number_of_check (h : check bus = .ok ()) {key text : String} (hkey : key ∈ [inputKey, outputKey])
    (htext : bus.get? key = some text) : ∃ n, Text.naturalBelow? UInt64.size text.toList = some n := by
  have hread : (readUnsigned key text UInt64.size).map (fun _ => ()) = .ok () := by
    obtain ⟨_, hinput, h⟩ := exists_of_bind_eq_ok h
    obtain ⟨_, houtput, -⟩ := exists_of_bind_eq_ok h
    rcases List.mem_pair.1 hkey with rfl | rfl
    · simpa only [htext] using hinput
    · simpa only [htext] using houtput
  obtain ⟨n, hn, -⟩ := exists_of_map_eq_ok hread
  unfold readUnsigned at hn
  split at hn
  · next m hm => exact ⟨m, hm⟩
  · cases hn

theorem legible_of_check (h : check bus = .ok ()) (host : Bool) :
    (inputOption host).Legible .empty bus ∧ (outputOption host).Legible .empty bus := by
  cases host with
  | true => exact ⟨fun _ => exists_number_of_check h (by decide), fun _ => exists_number_of_check h (by decide)⟩
  | false => exact ⟨fun _ => exists_number_of_check h (by decide), fun _ => exists_number_of_check h (by decide)⟩

/-- What the bus configures as the input of a device. -/
def configuredInput (device : Device) (bus : Options) : Option Nat := (inputOption device.host).value? .empty bus

/-- What the bus configures as the output of a device. -/
def configuredOutput (device : Device) (bus : Options) : Option Nat := (outputOption device.host).value? .empty bus

/-- What becomes of a device that takes what the bus configures, the input first. -/
inductive Bare {α : Type} (device : Device) (bus : Options) : Except EngineError α → Prop where
  | noInput (input : configuredInput device bus = none) : Bare device bus (.error (.missingOption device.name inputKey))
  | wideInput {m : Nat} (input : configuredInput device bus = some m) (wide : maxSignalWidth < m) :
      Bare device bus (.error (.invalidOption inputKey (toString m) .tooWide))
  | noOutput {m : Nat} (input : configuredInput device bus = some m) (narrow : m ≤ maxSignalWidth)
      (output : configuredOutput device bus = none) : Bare device bus (.error (.missingOption device.name outputKey))
  | wideOutput {m n : Nat} (input : configuredInput device bus = some m) (narrow : m ≤ maxSignalWidth)
      (output : configuredOutput device bus = some n) (wide : maxSignalWidth < n) :
      Bare device bus (.error (.invalidOption outputKey (toString n) .tooWide))
  | zeroInput {n : Nat} (input : configuredInput device bus = some 0) (output : configuredOutput device bus = some n) :
      Bare device bus (.error (.invalidOption inputKey "0" .notPositive))
  | zeroOutput {m : Nat} (input : configuredInput device bus = some m) (output : configuredOutput device bus = some 0) :
      Bare device bus (.error (.invalidOption outputKey "0" .notPositive))
  | granted (r : α) {m n : Nat} (input : configuredInput device bus = some m)
      (output : configuredOutput device bus = some n) (wired : 0 < m ∧ 0 < n)
      (narrow : m ≤ maxSignalWidth ∧ n ≤ maxSignalWidth) : Bare device bus (.ok r)

theorem bare_widths (h : check bus = .ok ()) (device : Device) : Bare device bus (widths device .empty bus) := by
  obtain ⟨hinput, houtput⟩ := legible_of_check h device.host
  cases hm : configuredInput device bus with
  | none =>
    rw [widths, WidthOption.resolve_of_none hinput hm]
    exact .noInput hm
  | some m =>
    rw [widths, WidthOption.resolve_of_some hm]
    split
    · next hwide => exact .wideInput hm hwide
    · next hnarrow =>
      cases hn : configuredOutput device bus with
      | none =>
        rw [WidthOption.resolve_of_none houtput hn]
        exact .noOutput hm (Nat.le_of_not_lt hnarrow) hn
      | some n =>
        rw [WidthOption.resolve_of_some hn]
        split
        · next hwide => exact .wideOutput hm (Nat.le_of_not_lt hnarrow) hn hwide
        · next hnarrow' =>
          show Bare device bus (Widths.checked ⟨m, n⟩)
          unfold Widths.checked
          split
          · next hzero =>
            obtain rfl : m = 0 := hzero
            exact .zeroInput hm hn
          · next hpos =>
            split
            · next hzero =>
              obtain rfl : n = 0 := hzero
              exact .zeroOutput hm hn
            · next hpos' =>
              exact .granted _ hm hn ⟨Nat.pos_of_ne_zero hpos, Nat.pos_of_ne_zero hpos'⟩
                ⟨Nat.le_of_not_lt hnarrow, Nat.le_of_not_lt hnarrow'⟩

theorem Bare.bind {α β : Type} {device : Device} {x : Except EngineError α} (h : Bare device bus x)
    {f : α → Except EngineError β} (hf : ∀ a, ∃ r, f a = .ok r) : Bare device bus (x >>= f) := by
  cases h with
  | noInput input => exact .noInput input
  | wideInput input wide => exact .wideInput input wide
  | noOutput input narrow output => exact .noOutput input narrow output
  | wideOutput input narrow output wide => exact .wideOutput input narrow output wide
  | zeroInput input output => exact .zeroInput input output
  | zeroOutput input output => exact .zeroOutput input output
  | granted a input output wired narrow =>
    obtain ⟨r, hr⟩ := hf a
    show Bare device bus (f a)
    rw [hr]
    exact .granted r input output wired narrow

theorem bare_driven (h : check bus = .ok ()) (device : Device) : Bare device bus (driven device .empty bus) :=
  (bare_widths h device).bind fun _ => ⟨_, rfl⟩

end PointToPoint

namespace Axi4

theorem widths_of_check {name : String} {bus : Options} (h : check name bus = .ok ()) (device : String) :
    ∃ w, widths device .empty bus = .ok w := by
  obtain ⟨w, hw, -⟩ := exists_of_map_eq_ok h
  obtain ⟨data, hdata, hw⟩ := exists_of_bind_eq_ok hw
  obtain ⟨address, haddress, hw⟩ := exists_of_bind_eq_ok hw
  obtain ⟨id, hid, hw⟩ := exists_of_bind_eq_ok hw
  refine ⟨w, ?_⟩
  rw [widths, WidthOption.resolve_of_ok hdata, WidthOption.resolve_of_ok haddress, WidthOption.resolve_of_ok hid]
  exact hw

end Axi4

namespace PcieTlp

theorem width_of_check {name : String} {bus : Options} (h : check name bus = .ok ()) (device : String) :
    ∃ w, width device .empty bus = .ok w := by
  obtain ⟨w, hw, -⟩ := exists_of_map_eq_ok h
  obtain ⟨w', hresolved, hw⟩ := exists_of_bind_eq_ok hw
  refine ⟨w, ?_⟩
  rw [width, WidthOption.resolve_of_ok hresolved]
  exact hw

end PcieTlp

namespace Bus

variable {c : BusConfig} {start b : Bus} {trace : Trace} {d : Device}

/-- A point-to-point bus configures a width that its devices cannot have. The input is looked at first. -/
def Misconfigures (c : BusConfig) (d : Device) : Prop :=
  (∃ m, PointToPoint.configuredInput d c.options = some m ∧ maxSignalWidth < m) ∨
    ∃ m n, PointToPoint.configuredInput d c.options = some m ∧ PointToPoint.configuredOutput d c.options = some n ∧
      (m = 0 ∨ n = 0 ∨ maxSignalWidth < n)

/-- What is due of a device that announces no options. -/
structure BareHandshake (c : BusConfig) (b : Bus) (d : Device) : Prop where
  outcome : (∃ widths, b.engine.driven d .empty = .ok widths) ∨ c.protocol = .pointToPoint ∧
    ((PointToPoint.configuredInput d c.options = none ∧
        b.engine.driven d .empty = .error (.missingOption d.name PointToPoint.inputKey)) ∨
      (PointToPoint.configuredOutput d c.options = none ∧
        b.engine.driven d .empty = .error (.missingOption d.name PointToPoint.outputKey)) ∨
      ∃ key text fault, b.engine.driven d .empty = .error (.invalidOption key text fault))
  invalid : (∃ key text fault, b.engine.driven d .empty = .error (.invalidOption key text fault)) ↔
    c.protocol = .pointToPoint ∧ Misconfigures c d
  /-- Nothing else is rejected for the sake of its options. -/
  rejected : ∀ k cause, (b.handshake k d.name .empty).1 = .error (.rejected b.name d.name (.engine cause)) →
    b.engine.driven d .empty = .error cause

theorem driven_of_rejected (hstaffed : Participants.Staffed c.devices b.participants) (hd : d ∈ c.devices)
    {k : ConnectionKey} {options : Options} {cause : EngineError}
    (h : (b.handshake k d.name options).1 = .error (.rejected b.name d.name (.engine cause))) :
    b.engine.driven d options = .error cause := by
  obtain ⟨slot, hs, hdevice⟩ := hstaffed.slot hd
  rcases b.handshake_spec k d.name options with ⟨reason, hadmits, heq⟩ | ⟨found, widths, -, heq⟩
  · rw [heq] at h
    cases h
    unfold admits at hadmits
    rw [hstaffed.named?_eq hd, hs] at hadmits
    dsimp only at hadmits
    split at hadmits
    · cases hadmits
    · split at hadmits
      · cases hadmits
      · split at hadmits
        · next hrefusal =>
          cases hadmits
          rwa [hdevice] at hrefusal
        · cases hadmits
  · rw [heq] at h
    cases h

/-- Only a point-to-point bus has not resolved the widths that it configures when it is configured. -/
theorem driven_of_unannounced (hstart : ofConfig c = .ok start) (d : Device) :
    (c.protocol = .pointToPoint ∧ PointToPoint.Bare d c.options (start.engine.driven d .empty)) ∨
      c.protocol ≠ .pointToPoint ∧ ∃ widths, start.engine.driven d .empty = .ok widths := by
  obtain ⟨-, engine, hengine, rfl⟩ := ofConfig_spec hstart
  unfold Engine.ofConfig at hengine
  split at hengine
  · next hprotocol =>
    obtain ⟨_, hcheck, rfl⟩ := exists_of_map_eq_ok hengine
    exact .inl ⟨hprotocol, PointToPoint.bare_driven hcheck d⟩
  · next hprotocol =>
    obtain ⟨_, hcheck, rfl⟩ := exists_of_map_eq_ok hengine
    obtain ⟨w, hw⟩ := Axi4.widths_of_check hcheck d.name
    exact .inr ⟨by simp [hprotocol], _, by rw [Engine.driven, Axi4.driven, hw]; rfl⟩
  · next hprotocol =>
    obtain ⟨_, hcheck, rfl⟩ := exists_of_map_eq_ok hengine
    obtain ⟨w, hw⟩ := PcieTlp.width_of_check hcheck d.name
    exact .inr ⟨by simp [hprotocol], _, by rw [Engine.driven, PcieTlp.driven, hw]; rfl⟩
  · next hprotocol =>
    obtain ⟨_, -, rfl⟩ := exists_of_map_eq_ok hengine
    exact .inr ⟨by simp [hprotocol], _, rfl⟩

/-- **Handshakes without options.** A device of a bus that announces none is let in, unless it is an end of a
point-to-point link for which the bus configures no width or a width that no device can have. -/
theorem bare_handshake (hstart : ofConfig c = .ok start) (h : Course start trace b) (hd : d ∈ c.devices) :
    BareHandshake c b d := by
  refine ⟨?_, ?_, fun k cause => driven_of_rejected (h.staffed hstart) hd⟩
  all_goals rw [h.kin.driven_eq]
  · rcases driven_of_unannounced hstart d with ⟨hprotocol, hbare⟩ | ⟨-, hok⟩
    · generalize start.engine.driven d .empty = result at hbare
      cases hbare with
      | granted r => exact .inl ⟨r, rfl⟩
      | noInput input => exact .inr ⟨hprotocol, .inl ⟨input, rfl⟩⟩
      | noOutput _ _ output => exact .inr ⟨hprotocol, .inr (.inl ⟨output, rfl⟩)⟩
      | wideInput | wideOutput | zeroInput | zeroOutput => exact .inr ⟨hprotocol, .inr (.inr ⟨_, _, _, rfl⟩)⟩
    · exact .inl hok
  · rcases driven_of_unannounced hstart d with ⟨hprotocol, hbare⟩ | ⟨hprotocol, widths, hok⟩
    · rw [and_iff_right hprotocol, Misconfigures]
      generalize start.engine.driven d .empty = result at hbare
      cases hbare with
      | noInput input => simp [input]
      | wideInput input wide => simp [input, wide]
      | noOutput input narrow output => simp [input, output, narrow]
      | wideOutput input narrow output wide => simp [input, output, wide]
      | zeroInput input output => simp [input, output]
      | zeroOutput input output => simp [input, output]
      | granted r input output wired narrow =>
        simp only [reduceCtorEq, exists_false, input, output, Option.some.injEq, exists_eq_left', false_iff]
        omega
    · simp [hok, hprotocol]

/-- A link without wires to the host. -/
def deadLink : BusConfig := { oneWire with
  clock := .standard
  options := .ofList [(PointToPoint.inputKey, "0"), (PointToPoint.outputKey, "8")] }

/-- The link without wires before anybody has connected. -/
def idleDeadLink : Bus := { idleLink with
  config := deadLink
  engine := .pointToPoint deadLink.options none
  clock := .start .standard }

theorem ofConfig_deadLink : ofConfig deadLink = .ok idleDeadLink := by cbv

/-- The link is accepted as it is, and then neither of its devices can have it. -/
theorem nobody_joins_dead_link :
    (∃ key text fault, idleDeadLink.engine.driven ⟨"host", 0, true⟩ .empty = .error (.invalidOption key text fault)) ∧
    ∃ key text fault, idleDeadLink.engine.driven ⟨"card", 1, false⟩ .empty = .error (.invalidOption key text fault) := by
  constructor
  · exact (bare_handshake ofConfig_deadLink .nil (.head _)).invalid.2 ⟨rfl, .inr ⟨0, 8, by cbv, by cbv, .inl rfl⟩⟩
  · exact (bare_handshake ofConfig_deadLink .nil (.tail _ (.head _))).invalid.2
      ⟨rfl, .inr ⟨8, 0, by cbv, by cbv, .inr (.inl rfl)⟩⟩

/-- So a device is refused for an option that it has not announced. -/
theorem dead_link_refuses_host : ¬ ∀ (c : BusConfig) (start b : Bus) (trace : Trace) (d : Device),
    ofConfig c = .ok start → Course start trace b → d ∈ c.devices → ∀ k key text fault,
      (b.handshake k d.name .empty).1 ≠ .error (.rejected b.name d.name (.engine (.invalidOption key text fault))) := by
  intro h
  exact h deadLink idleDeadLink idleDeadLink [] ⟨"host", 0, true⟩ ofConfig_deadLink .nil (by decide) 7
    PointToPoint.inputKey "0" .notPositive (by cbv)

end Bus

end Lockstep
