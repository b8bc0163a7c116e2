import Lockstep.Proofs.Bus.Grant
import Lockstep.Proofs.Engine.Rotation
/-!
# Who takes an idle bus

`FRAME#` is a shared wire, so several participants may assert it at a time. When a rising edge finds an idle bus with
`FRAME#` asserted, the participant of the lowest number among them becomes bus master
(`Pci.frameDriver?_eq_some_iff`), whoever has been granted the bus. So a grantee that begins a transaction takes the bus,
and uses its grant, only if nobody of a lower number asserts `FRAME#` as well. Otherwise the arbiter does not get to know
of its transaction, and the grantee keeps its grant as long as it requests the bus (`Pci.contest_of_grantee`).
-/

namespace Lockstep

namespace Pci

open Participants (Staffed)

def assertsFrame (ps : Participants) (i : Ident) : Bool := (ps.get? i).any fun slot => slot.drivesBit "FRAME#" = .zero

variable {c : BusConfig} {devices : List Device} {p : Pci} {ps : Participants} {i g : Ident}

theorem assertsFrame_iff : assertsFrame ps i = true ↔ ∃ slot, ps.get? i = some slot ∧ slot.drivesBit "FRAME#" = .zero := by
  simp [assertsFrame, Option.any_eq_true]

/-! ### The participant that takes the bus -/

theorem least_of_frameDriver? (hstaffed : Staffed devices ps) (h : frameDriver? ps = some i) :
    assertsFrame ps i = true ∧ ∀ j, assertsFrame ps j = true → i ≤ j := by
  obtain ⟨slot, hfind, hident⟩ := Option.map_eq_some_iff.1 h
  obtain ⟨k, hslot, hasserts, hleast⟩ := SortedMap.exists_of_find?_values hfind
  have hk : k = i := (hstaffed.device hslot).2.symm.trans hident
  subst hk
  refine ⟨assertsFrame_iff.2 ⟨slot, hslot, of_decide_eq_true hasserts⟩, fun j hj => ?_⟩
  obtain ⟨s, hs, hframe⟩ := assertsFrame_iff.1 hj
  rcases hleast j s hs (decide_eq_true hframe) with rfl | hlt
  · exact UInt32.le_refl _
  · exact UInt32.le_of_lt hlt

theorem exists_frameDriver? (h : assertsFrame ps i = true) : ∃ k, frameDriver? ps = some k := by
  obtain ⟨slot, hslot, hframe⟩ := assertsFrame_iff.1 h
  cases hdriver : frameDriver? ps with
  | none =>
    rw [frameDriver?, Option.map_eq_none_iff] at hdriver
    have hreleased := List.find?_eq_none.1 hdriver slot (SortedMap.mem_values_iff.2 ⟨i, hslot⟩)
    exact absurd (decide_eq_true hframe) hreleased
  | some k => exact ⟨k, rfl⟩

theorem frameDriver?_eq_some_iff (hstaffed : Staffed devices ps) :
    frameDriver? ps = some i ↔ assertsFrame ps i = true ∧ ∀ j, assertsFrame ps j = true → i ≤ j := by
  refine ⟨least_of_frameDriver? hstaffed, fun ⟨hasserts, hleast⟩ => ?_⟩
  obtain ⟨k, hdriver⟩ := exists_frameDriver? hasserts
  obtain ⟨hk, hfirst⟩ := least_of_frameDriver? hstaffed hdriver
  rw [hdriver, UInt32.le_antisymm (hfirst i hasserts) (hleast k hk)]

theorem trackOwner_of_frameDriver? (hfree : p.master = none) (hframe : (resolve ps "FRAME#" 1).getD 0 = .zero)
    (hdriver : frameDriver? ps = some i) :
    (p.trackOwner ps).1 = ⟨if p.arbiter.granted = some i.toNat then p.arbiter.spend else p.arbiter, some i⟩ := by
  simp only [trackOwner, hfree, hframe, hdriver, ne_eq, not_true_eq_false, if_false]
  by_cases hgranted : p.arbiter.granted = some i.toNat
  · rw [if_pos hgranted, if_pos hgranted]
  · rw [if_neg hgranted, if_neg hgranted]

theorem exists_granted_risingEdge (hstaffed : Staffed devices ps) (hsmall : ∀ d ∈ devices, d.ident ≤ pciMaxIdent)
    (hused : (p.trackOwner ps).1.arbiter = p.arbiter.spend) (hgranted : p.arbiter.granted = some g.toNat) (hne : i ≠ g)
    (hasks : asksForBus ps i = true) :
    ∃ next, next ≠ g ∧ asksForBus ps next = true ∧ (p.risingEdge ps).1.arbiter.granted = some next.toNat := by
  have hother : i.toNat ≠ g.toNat := fun heq => hne (UInt32.toNat_inj.1 heq)
  have hrequest := (requesting_toNat_iff hstaffed hsmall).2 hasks
  obtain ⟨n, hn, hrequest, hpassed⟩ := Arbiter.granted_arbitrate_spend hgranted hrequest hother
  obtain ⟨next, hnext, rfl⟩ := (requesting_iff_asksForBus hstaffed hsmall).1 hrequest
  refine ⟨next, fun heq => hn (congrArg _ heq), hnext, ?_⟩
  show ((p.trackOwner ps).1.arbiter.arbitrate (requestMask ps)).granted = _
  rw [hused]
  exact hpassed

/-- What an edge makes of an idle bus when its grantee `g` asserts `FRAME#`. -/
structure Contest (p : Pci) (ps : Participants) (g : Ident) : Prop where
  /-- The grantee becomes bus master, and its grant has been used, exactly if nobody of a lower number asserts `FRAME#`. -/
  takes : ((p.trackOwner ps).1.master = some g ∧ (p.trackOwner ps).1.arbiter.spent = true) ↔
    ∀ i, assertsFrame ps i = true → g ≤ i
  /-- Then somebody else is granted the bus at the same edge, if anybody else requests it. -/
  passes : (∀ i, assertsFrame ps i = true → g ≤ i) → ∀ i, i ≠ g → asksForBus ps i = true →
    ∃ next, next ≠ g ∧ asksForBus ps next = true ∧ (p.risingEdge ps).1.arbiter.granted = some next.toNat
  /-- Otherwise the participant of the lowest number becomes bus master, and the arbiter does not get to know of it. A
  grantee that still requests the bus keeps its grant unless it has used it before. -/
  loses : ∀ i, i < g → assertsFrame ps i = true → (∀ j, assertsFrame ps j = true → i ≤ j) →
    (p.trackOwner ps).1 = ⟨p.arbiter, some i⟩ ∧
    (asksForBus ps g = true → p.arbiter.spent = false → (p.risingEdge ps).1.arbiter.granted = some g.toNat)

/-- **Taking the bus.** A grantee that asserts `FRAME#` takes an idle bus only ahead of higher numbers. -/
theorem contest_of_grantee (hfault : c.fault? = none) (hpci : c.protocol = .pci) (hstaffed : Staffed c.devices ps)
    (hfree : p.master = none) (hframe : (resolve ps "FRAME#" 1).getD 0 = .zero)
    (hgranted : p.arbiter.granted = some g.toNat) (hasserts : assertsFrame ps g = true) : Contest p ps g := by
  have hsmall : ∀ d ∈ c.devices, d.ident ≤ pciMaxIdent := fun _ hd => BusConfig.ident_le hfault hpci hd
  have htakes : (∀ i, assertsFrame ps i = true → g ≤ i) → (p.trackOwner ps).1 = ⟨p.arbiter.spend, some g⟩ := by
    intro hleast
    rw [trackOwner_of_frameDriver? hfree hframe ((frameDriver?_eq_some_iff hstaffed).2 ⟨hasserts, hleast⟩),
      if_pos hgranted]
  refine ⟨⟨?_, ?_⟩, ?_, ?_⟩
  · rintro ⟨hmaster, -⟩
    obtain ⟨k, hdriver⟩ := exists_frameDriver? hasserts
    rw [trackOwner_of_frameDriver? hfree hframe hdriver] at hmaster
    cases hmaster
    exact (least_of_frameDriver? hstaffed hdriver).2
  · intro hleast
    rw [htakes hleast]
    exact ⟨rfl, rfl⟩
  · intro hleast i hne hasks
    exact exists_granted_risingEdge hstaffed hsmall (congrArg Pci.arbiter (htakes hleast)) hgranted hne hasks
  · intro i hlt hi hleast
    have hne : i ≠ g := UInt32.ne_of_lt hlt
    have hungranted : p.arbiter.granted ≠ some i.toNat := by
      rw [hgranted]
      exact fun heq => hne (UInt32.toNat_inj.1 (Option.some.inj heq)).symm
    have hloses : (p.trackOwner ps).1 = ⟨p.arbiter, some i⟩ := by
      rw [trackOwner_of_frameDriver? hfree hframe ((frameDriver?_eq_some_iff hstaffed).2 ⟨hi, hleast⟩),
        if_neg hungranted]
    refine ⟨hloses, fun hasks hunspent => ?_⟩
    refine granted_risingEdge hgranted ((requesting_toNat_iff hstaffed hsmall).2 hasks) ?_
    rintro (hspent | ⟨-, hmaster⟩)
    · rw [hspent] at hunspent
      cases hunspent
    · change (p.trackOwner ps).1.master = some g at hmaster
      rw [hloses] at hmaster
      exact hne (Option.some.inj hmaster)

end Pci

namespace Bus

/-! ### Two that begin at a time -/

def hostAndCards : BusConfig where
  name := "pci"
  address := .tcp "localhost" 0
  protocol := .pci
  clock := .standard
  devices := [⟨"host", 0, true⟩, ⟨"card", 1, false⟩, ⟨"disk", 2, false⟩]
  options := .empty

/-- The bus of a host and two cards before anybody has connected. -/
def idleTrio : Bus where
  config := hostAndCards
  participants := .ofDevices hostAndCards.devices
  engine := .pci ⟨.start .none 4 0, none⟩
  clock := .start .standard
  time := .zero
  assembled := false
  finished := false
  steps := 0

theorem ofConfig_hostAndCards : ofConfig hostAndCards = .ok idleTrio := by cbv

/-- Everybody offers something for the next step. -/
def offers (host card disk : String) : List Operation :=
  [.line 0 ("READY 0e-12" ++ host), .line 1 ("READY 0e-12" ++ card), .line 2 ("READY 0e-12" ++ disk)]

/-- The first edge grants the bus to the card. The card then begins a transaction while the disk requests the bus. The
host may begin a transaction as well, or the disk. The next step is the second edge. -/
def collision (host disk : String) : List Operation :=
  [.handshake 7 "host" .empty, .handshake 8 "card" .empty, .handshake 9 "disk" .empty] ++
    offers "" " REQ#=0" "" ++ [.advance] ++ offers host " FRAME#=0" (" REQ#=0" ++ disk) ++ [.advance] ++
    offers "" "" "" ++ [.advance] ++ offers "" "" "" ++ [.advance] ++ offers "" "" ""

/-- The engine between the two edges: the card is granted the bus. -/
def cardGranted : Pci := ⟨{ Arbiter.start .none 4 0 with granted := some 1 }, none⟩

/-- Ahead of the disk the card takes the bus, and the grant goes to the disk. -/
theorem card_before_disk : let ps := ((collision "" " FRAME#=0").foldl perform idleTrio).participants
    Pci.Contest cardGranted ps 1 ∧ Pci.assertsFrame ps 2 = true ∧
      (cardGranted.risingEdge ps).1.master = some 1 ∧ (cardGranted.risingEdge ps).1.arbiter.granted = some 2 := by
  have hstaffed := (course_traced idleTrio (collision "" " FRAME#=0")).staffed ofConfig_hostAndCards
  exact ⟨Pci.contest_of_grantee (ofConfig_spec ofConfig_hostAndCards).1 rfl hstaffed rfl (by cbv) rfl (by cbv),
    by cbv, by cbv, by cbv⟩

/-- If the host begins a transaction together with the card, it becomes bus master, and the grant of the card has not
been used. -/
theorem lower_number_takes_bus : ¬ ∀ (c : BusConfig) (start b : Bus) (trace : Trace) (p : Pci) (g : Ident),
    ofConfig c = .ok start → Course start trace b → b.engine = .pci p → b.clock.phase.next = .rising → p.master = none →
    (Pci.resolve b.participants "FRAME#" 1).getD 0 = .zero → p.arbiter.granted = some g.toNat →
    Pci.assertsFrame b.participants g = true →
      (p.trackOwner b.participants).1.master = some g ∧ (p.trackOwner b.participants).1.arbiter.spent = true := by
  intro h
  have htaken := h hostAndCards idleTrio _ _ cardGranted 1 ofConfig_hostAndCards
    (course_traced idleTrio (collision " FRAME#=0" "")) (by cbv) (by cbv) rfl (by cbv) rfl (by cbv)
  have hmaster : (cardGranted.trackOwner
      ((collision " FRAME#=0" "").foldl perform idleTrio).participants).1.master = some 0 := by cbv
  rw [hmaster] at htaken
  exact absurd htaken.1 (by decide)

end Bus

end Lockstep
