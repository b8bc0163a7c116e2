import Lockstep.Proofs.Engine.Tables
/-!
# What options come to

A width is looked up in three places: what the device announces, what the bus configures, and a default
(`WidthOption.value?`). Who the device is makes no difference to it. An engine resolves the widths of a device at its
handshake, and those of both ends of a link once more when it compares them. Whoever got through its handshake has
values for everything that is compared (`Engine.compares_wrapUp`), so nothing but a disagreement is left to fail
(`Compares.exists_ok_iff`), and the first one is reported (`Compares.error_iff`).
-/

namespace Lockstep

/-! ### One option -/

namespace WidthOption

variable {o : WidthOption} {device : String} {announced bus : Options} {n : Nat}

def value? (o : WidthOption) (announced bus : Options) : Option Nat :=
  match o.text? announced bus with
  | some text => Text.naturalBelow? UInt64.size text.toList
  | none => o.fallback

theorem requested_eq_ok_iff : o.requested device announced bus = .ok n ↔ o.value? announced bus = some n := by
  unfold requested value?
  cases o.text? announced bus with
  | none => cases o.fallback <;> simp
  | some text =>
    simp only [readUnsigned]
    cases Text.naturalBelow? UInt64.size text.toList <;> simp

theorem resolve_eq_ok_iff :
    o.resolve device announced bus = .ok n ↔ o.value? announced bus = some n ∧ n ≤ maxSignalWidth := by
  constructor
  · intro h
    obtain ⟨m, hm, h'⟩ := exists_of_bind_eq_ok h
    split at h'
    · cases h'
    · cases h'
      exact ⟨requested_eq_ok_iff.1 hm, resolve_le h⟩
  · rintro ⟨hvalue, hle⟩
    rw [resolve, requested_eq_ok_iff.2 hvalue]
    show (if maxSignalWidth < n then _ else _) = _
    rw [if_neg (Nat.not_lt.2 hle)]
    rfl

theorem resolve_of_ok (h : o.resolve device announced bus = .ok n) (device' : String) :
    o.resolve device' announced bus = .ok n := resolve_eq_ok_iff.2 (resolve_eq_ok_iff.1 h)

/-- The text of an option, if there is one, is a number. -/
def Legible (o : WidthOption) (announced bus : Options) : Prop :=
  ∀ text, o.text? announced bus = some text → ∃ n, Text.naturalBelow? UInt64.size text.toList = some n

theorem resolve_of_none (h : o.Legible announced bus) (hvalue : o.value? announced bus = none) (device : String) :
    o.resolve device announced bus = .error (.missingOption device o.key) := by
  have hmissing : o.requested device announced bus = .error (.missingOption device o.key) := by
    unfold value? at hvalue
    unfold requested
    cases htext : o.text? announced bus with
    | some text =>
      obtain ⟨n, hn⟩ := h text htext
      rw [htext] at hvalue
      cases hn.symm.trans hvalue
    | none =>
      rw [htext] at hvalue
      dsimp only at hvalue ⊢
      rw [hvalue]
  rw [resolve, hmissing]
  rfl

theorem resolve_of_some (hvalue : o.value? announced bus = some n) (device : String) :
    o.resolve device announced bus =
      if maxSignalWidth < n then .error (.invalidOption o.key (toString n) .tooWide) else .ok n := by
  rw [resolve, requested_eq_ok_iff.2 hvalue]
  rfl

end WidthOption

/-! ### What the ends of a link compare -/

/-- An option of the host and the one of the card that must come to the same, under the name for both. -/
structure Comparison where
  key : String
  host : WidthOption
  card : WidthOption

/-- What a host and a card must agree on, in order. What one end of a point-to-point link puts out, the other takes
in. -/
def Protocol.comparisons : Protocol → List Comparison
  | .pointToPoint => [⟨PointToPoint.outputKey, PointToPoint.outputOption true, PointToPoint.inputOption false⟩,
      ⟨PointToPoint.inputKey, PointToPoint.inputOption true, PointToPoint.outputOption false⟩]
  | .axi4 => [Axi4.dataOption, Axi4.addressOption, Axi4.idOption].map fun o => ⟨o.key, o, o⟩
  | .pcieTlp => [⟨PcieTlp.widthOption.key, PcieTlp.widthOption, PcieTlp.widthOption⟩]
  | .pci => []

namespace Comparison

variable {q : Comparison} {host card : Slot} {bus : Options} {m n : Nat}

def Agrees (q : Comparison) (host card : Slot) (bus : Options) : Prop :=
  q.host.value? host.options bus = q.card.value? card.options bus

/-- Both ends come to something at all. -/
def Valued (q : Comparison) (host card : Slot) (bus : Options) : Prop :=
  ∃ m n, q.host.value? host.options bus = some m ∧ q.card.value? card.options bus = some n

/-- What is reported of two ends that do not agree. -/
def fault? (q : Comparison) (host card : Slot) (bus : Options) : Option EngineError :=
  match q.host.value? host.options bus, q.card.value? card.options bus with
  | some m, some n => if m = n then none else some (.optionMismatch q.key (host.name, m) (card.name, n))
  | _, _ => none

theorem fault?_eq_none_iff (h : q.Valued host card bus) : q.fault? host card bus = none ↔ q.Agrees host card bus := by
  obtain ⟨m, n, hm, hn⟩ := h
  simp [fault?, Agrees, hm, hn]

theorem fault?_eq_some_iff {cause : EngineError} : q.fault? host card bus = some cause ↔
    ∃ m n, q.host.value? host.options bus = some m ∧ q.card.value? card.options bus = some n ∧ m ≠ n ∧
      cause = .optionMismatch q.key (host.name, m) (card.name, n) := by
  unfold fault?
  constructor
  · intro h
    split at h
    · next m n hm hn =>
      split at h
      · cases h
      · next hne => exact ⟨m, n, hm, hn, hne, (Option.some.inj h).symm⟩
    · cases h
  · rintro ⟨m, n, hm, hn, hne, rfl⟩
    simp [hm, hn, hne]

end Comparison

/-- The bus says the same of both ends, so they agree on whatever neither of them announces. -/
theorem Protocol.agrees_of_unannounced {p : Protocol} {q : Comparison} (hq : q ∈ p.comparisons) {host card : Slot}
    (hhost : host.options.get? q.host.key = none) (hcard : card.options.get? q.card.key = none) (bus : Options) :
    q.Agrees host card bus := by
  have hmirrored : ∀ q ∈ p.comparisons, q.host.busKey = q.card.busKey ∧ q.host.fallback = q.card.fallback := by
    cases p <;> decide
  obtain ⟨hkey, hfallback⟩ := hmirrored q hq
  rw [Comparison.Agrees, WidthOption.value?, WidthOption.text?, hhost, hkey, hfallback, WidthOption.value?,
    WidthOption.text?, hcard]

/-- The error reports the first of some options on which two ends do not agree. -/
def FirstDiscord (host card : Slot) (bus : Options) (qs : List Comparison) (cause : EngineError) : Prop :=
  ∃ earlier q later m n, qs = earlier ++ q :: later ∧ (∀ p ∈ earlier, p.Agrees host card bus) ∧
    q.host.value? host.options bus = some m ∧ q.card.value? card.options bus = some n ∧ m ≠ n ∧
    cause = .optionMismatch q.key (host.name, m) (card.name, n)

/-- Two ends that have values for all options are compared one option after the other. -/
structure Compares {α : Type} (host card : Slot) (bus : Options) (qs : List Comparison) (result : Except EngineError α) :
    Prop where
  valued : ∀ q ∈ qs, q.Valued host card bus
  refused : ∀ cause, result = .error cause ↔ qs.findSome? (·.fault? host card bus) = some cause

namespace Compares

variable {α : Type} {host card : Slot} {bus : Options} {qs : List Comparison} {result : Except EngineError α}

theorem nil (r : α) : Compares host card bus [] (.ok r : Except EngineError α) :=
  ⟨fun _ hq => absurd hq List.not_mem_nil, fun cause => by simp⟩

theorem cons (h : Compares host card bus qs result) {q : Comparison} {m n : Nat}
    (hm : q.host.value? host.options bus = some m) (hn : q.card.value? card.options bus = some n) :
    Compares host card bus (q :: qs) (agree q.key (host.name, m) (card.name, n) >>= fun _ => result) := by
  refine ⟨List.forall_mem_cons.2 ⟨⟨m, n, hm, hn⟩, h.valued⟩, fun cause => ?_⟩
  by_cases hmn : m = n
  · have hfault : q.fault? host card bus = none := by simp [Comparison.fault?, hm, hn, hmn]
    rw [agree, if_pos hmn, List.findSome?_cons, hfault]
    exact h.refused cause
  · have hfault : q.fault? host card bus = some (.optionMismatch q.key (host.name, m) (card.name, n)) := by
      simp [Comparison.fault?, hm, hn, hmn]
    rw [agree, if_neg hmn, List.findSome?_cons, hfault]
    show Except.error _ = Except.error cause ↔ _
    rw [Except.error.injEq, Option.some.injEq]

theorem map {β : Type} (h : Compares host card bus qs result) (f : α → β) :
    Compares host card bus qs (result.map f) := by
  refine ⟨h.valued, fun cause => ?_⟩
  rw [← h.refused]
  cases result <;> simp [Except.map]

theorem exists_ok_iff (h : Compares host card bus qs result) :
    (∃ r, result = .ok r) ↔ ∀ q ∈ qs, q.Agrees host card bus := by
  have hnone : qs.findSome? (·.fault? host card bus) = none ↔ ∀ q ∈ qs, q.Agrees host card bus :=
    List.findSome?_eq_none_iff.trans (forall₂_congr fun q hq => Comparison.fault?_eq_none_iff (h.valued q hq))
  rw [← hnone]
  cases hresult : result with
  | ok r => exact iff_of_true ⟨r, rfl⟩ (Option.eq_none_iff_forall_ne_some.2 fun cause hcause => by
      rw [← h.refused, hresult] at hcause
      cases hcause)
  | error cause =>
    rw [(h.refused cause).1 hresult]
    simp

theorem error_iff (h : Compares host card bus qs result) {cause : EngineError} :
    result = .error cause ↔ FirstDiscord host card bus qs cause := by
  have hagrees : ∀ {earlier q later}, qs = earlier ++ q :: later → ∀ p ∈ earlier,
      (p.fault? host card bus = none ↔ p.Agrees host card bus) := by
    rintro earlier q later rfl p hp
    exact Comparison.fault?_eq_none_iff (h.valued p (by simp [hp]))
  rw [h.refused, List.findSome?_eq_some_iff]
  constructor
  · rintro ⟨earlier, q, later, hqs, hfault, hearlier⟩
    obtain ⟨m, n, hm, hn, hne, hcause⟩ := Comparison.fault?_eq_some_iff.1 hfault
    exact ⟨earlier, q, later, m, n, hqs, fun p hp => (hagrees hqs p hp).1 (hearlier p hp), hm, hn, hne, hcause⟩
  · rintro ⟨earlier, q, later, m, n, hqs, hearlier, hm, hn, hne, hcause⟩
    exact ⟨earlier, q, later, hqs, Comparison.fault?_eq_some_iff.2 ⟨m, n, hm, hn, hne, hcause⟩,
      fun p hp => (hagrees hqs p hp).2 (hearlier p hp)⟩

end Compares

/-! ### The comparison of an engine -/

section Connect

variable {host card : Slot} {bus : Options}

namespace PointToPoint

theorem values_of_widths {device : Device} {announced : Options} {w : Widths}
    (h : widths device announced bus = .ok w) : (inputOption device.host).value? announced bus = some w.input ∧
      (outputOption device.host).value? announced bus = some w.output := by
  obtain ⟨input, hinput, h⟩ := exists_of_bind_eq_ok h
  obtain ⟨output, houtput, h⟩ := exists_of_bind_eq_ok h
  simp only [Widths.checked] at h
  split at h
  · cases h
  · split at h
    · cases h
    · cases h
      exact ⟨(WidthOption.resolve_eq_ok_iff.1 hinput).1, (WidthOption.resolve_eq_ok_iff.1 houtput).1⟩

theorem compares_connect {wh wc : Widths} (hh : widths host.device host.options bus = .ok wh)
    (hc : widths card.device card.options bus = .ok wc) (hhost : host.isHost = true) (hcard : card.isHost = false) :
    Compares host card bus (Protocol.comparisons .pointToPoint) (connect host card bus) := by
  obtain ⟨hinput, houtput⟩ := values_of_widths hh
  obtain ⟨hinput', houtput'⟩ := values_of_widths hc
  rw [show host.device.host = true from hhost] at hinput houtput
  rw [show card.device.host = false from hcard] at hinput' houtput'
  rw [connect, hh, hc]
  exact ((Compares.nil _).cons hinput houtput').cons houtput hinput'

end PointToPoint

namespace Axi4

theorem values_of_widths {device : String} {announced : Options} {w : Widths} (h : widths device announced bus = .ok w) :
    dataOption.value? announced bus = some w.data ∧ addressOption.value? announced bus = some w.address ∧
      idOption.value? announced bus = some w.id := by
  obtain ⟨data, hdata, h⟩ := exists_of_bind_eq_ok h
  obtain ⟨address, haddress, h⟩ := exists_of_bind_eq_ok h
  obtain ⟨id, hid, h⟩ := exists_of_bind_eq_ok h
  simp only [Widths.checked] at h
  split at h
  · cases h
  · split at h
    · cases h
    · cases h
      exact ⟨(WidthOption.resolve_eq_ok_iff.1 hdata).1, (WidthOption.resolve_eq_ok_iff.1 haddress).1,
        (WidthOption.resolve_eq_ok_iff.1 hid).1⟩

theorem compares_connect {wm ws : Widths} (hm : widths host.name host.options bus = .ok wm)
    (hs : widths card.name card.options bus = .ok ws) :
    Compares host card bus (Protocol.comparisons .axi4) (connect host card bus) := by
  obtain ⟨hdata, haddress, hid⟩ := values_of_widths hm
  obtain ⟨hdata', haddress', hid'⟩ := values_of_widths hs
  rw [connect, hm, hs]
  exact (((Compares.nil _).cons hid hid').cons haddress haddress').cons hdata hdata'

end Axi4

namespace PcieTlp

theorem value_of_width {device : String} {announced : Options} {w : Nat} (h : width device announced bus = .ok w) :
    widthOption.value? announced bus = some w := by
  obtain ⟨w', hw, h⟩ := exists_of_bind_eq_ok h
  split at h
  · cases h
    exact (WidthOption.resolve_eq_ok_iff.1 hw).1
  · cases h

theorem compares_connect {root endpoint : Nat} (hr : width host.name host.options bus = .ok root)
    (he : width card.name card.options bus = .ok endpoint) :
    Compares host card bus (Protocol.comparisons .pcieTlp) (connect host card bus) := by
  rw [connect, hr, he]
  exact (Compares.nil _).cons (value_of_width hr) (value_of_width he)

end PcieTlp

end Connect

namespace Engine

/-- The options of the bus that an engine was configured with. The wires of a PCI bus do not depend on any. -/
def options : Engine → Options
  | .pointToPoint bus _ | .axi4 bus _ | .pcieTlp bus _ => bus
  | .pci _ => .empty

theorem Kin.options_eq {e e' : Engine} (h : e.Kin e') : e'.options = e.options := by cases h <;> rfl

theorem options_ofConfig {c : BusConfig} {e : Engine} (h : ofConfig c = .ok e) (hpaired : c.protocol.isPaired = true) :
    e.options = c.options := by
  unfold ofConfig at h
  split at h
  · obtain ⟨_, -, rfl⟩ := exists_of_map_eq_ok h
    rfl
  · obtain ⟨_, -, rfl⟩ := exists_of_map_eq_ok h
    rfl
  · obtain ⟨_, -, rfl⟩ := exists_of_map_eq_ok h
    rfl
  · next hpci =>
    rw [hpci] at hpaired
    cases hpaired

theorem wire_eq {connect : Slot → Slot → Except EngineError (RelayTable × BusNotice)} {ps : Participants} {link : Link}
    (hlink : Link.find ps = .ok link) {host card : Slot} (hhost : ps.get? link.host = some host)
    (hcard : ps.get? link.device = some card) :
    wire connect ps = (connect host card).map fun r => (⟨link, r.1⟩, r.2) := by
  simp only [wire, hlink, bind, Except.bind, hhost, hcard]
  cases connect host card <;> rfl

/-- **What an engine compares.** With two ends that have got through their handshakes an engine comes to an agreement if
their options do. -/
theorem compares_wrapUp {e : Engine} {ps : Participants} (hpaired : e.protocol.isPaired = true) {link : Link}
    (hlink : Link.find ps = .ok link) {host card : Slot} (hhost : ps.get? link.host = some host)
    (hcard : ps.get? link.device = some card) (hhostFlag : host.isHost = true) (hcardFlag : card.isHost = false)
    {drives drives' : Widths} (hdriven : e.driven host.device host.options = .ok drives)
    (hdriven' : e.driven card.device card.options = .ok drives') :
    Compares host card e.options e.protocol.comparisons (e.wrapUp ps) := by
  cases e with
  | pointToPoint bus wiring =>
    obtain ⟨wh, hh, -⟩ := exists_of_bind_eq_ok hdriven
    obtain ⟨wc, hc, -⟩ := exists_of_bind_eq_ok hdriven'
    rw [wrapUp, wire_eq hlink hhost hcard]
    exact ((PointToPoint.compares_connect hh hc hhostFlag hcardFlag).map _).map _
  | axi4 bus wiring =>
    obtain ⟨wm, hm, -⟩ := exists_of_map_eq_ok hdriven
    obtain ⟨ws, hs, -⟩ := exists_of_map_eq_ok hdriven'
    rw [wrapUp, wire_eq hlink hhost hcard]
    exact ((Axi4.compares_connect hm hs).map _).map _
  | pcieTlp bus wiring =>
    obtain ⟨root, hr, -⟩ := exists_of_map_eq_ok hdriven
    obtain ⟨endpoint, he, -⟩ := exists_of_map_eq_ok hdriven'
    rw [wrapUp, wire_eq hlink hhost hcard]
    exact ((PcieTlp.compares_connect hr he).map _).map _
  | pci p => cases hpaired

end Engine

end Lockstep
