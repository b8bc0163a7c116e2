import Mathlib
import Lockstep.Proofs.Engine.Display
/-!
# Arbitration

What one rising edge of a PCI bus does to its arbiter. `Arbiter.edge_spec` lists the cases: the grantee keeps a grant
that it has not used, the next device that requests is granted the bus, or nobody requests, and then the grant lingers or
is recalled. Before that the engine looks who has the bus (`Pci.ownership_spec`), and whoever becomes bus master under
its grant has used it. Together they say where the grant of an edge comes from (`Pci.granted_of_risingEdge`), how it may
have been used (`Pci.spent_of_risingEdge`), and when it stays (`Pci.granted_risingEdge`).
-/

namespace Lockstep

namespace Arbiter

theorem mem_order {granted : Option Nat} {n : Nat} : n ∈ order granted ↔ n < arbiterSlots := by
  -- whoever is asked first, all are asked
  suffices hall : ∀ first, n ∈ (List.range arbiterSlots).map (fun offset => (first + offset) % arbiterSlots) ↔
      n < arbiterSlots from hall _
  intro first
  simp only [List.mem_map, List.mem_range, arbiterSlots]
  constructor
  · rintro ⟨offset, -, rfl⟩
    omega
  · intro hn
    exact ⟨(n + 16 - first % 16) % 16, by omega, by omega⟩

theorem pick?_eq_none_iff {granted : Option Nat} {requests : UInt16} :
    pick? granted requests = none ↔ ∀ n < arbiterSlots, requesting requests n = false := by
  simp [pick?, List.find?_eq_none, mem_order]

theorem requesting_of_pick? {granted : Option Nat} {requests : UInt16} {n : Nat}
    (h : pick? granted requests = some n) : requesting requests n = true := List.find?_some h

theorem keeps_iff {a : Arbiter} {requests : UInt16} :
    a.keeps requests = true ↔ ∃ n, a.granted = some n ∧ requesting requests n = true ∧ a.spent = false := by
  unfold keeps
  cases a.granted <;> simp

/-- What one edge makes of an arbiter. -/
inductive Edge (a : Arbiter) (requests : UInt16) : Arbiter → Prop where
  /-- The grantee requests and has not used its grant. -/
  | kept (h : a.keeps requests = true) : Edge a requests { a with idle := 0 }
  /-- The next device that requests is granted the bus. -/
  | passed (n : Nat) (h : a.keeps requests = false) (picked : pick? a.granted requests = some n) :
      Edge a requests { a with granted := some n, spent := false, idle := 0 }
  /-- Nobody requests, and the grant stays for now. -/
  | lingered (idle : Nat) (quiet : ∀ n < arbiterSlots, requesting requests n = false) : Edge a requests { a with idle }
  /-- Nobody requests, and the grant is recalled. -/
  | recalled (recallAfter : Nat) (random : Generator) (quiet : ∀ n < arbiterSlots, requesting requests n = false) :
      Edge a requests { a with granted := none, spent := false, idle := 0, recallAfter, random }

theorem edge_spec (a : Arbiter) (requests : UInt16) : Edge a requests (a.arbitrate requests) := by
  unfold arbitrate
  split
  · next h => exact .kept h
  · next h =>
    have hkeeps : a.keeps requests = false := by simpa using h
    split
    · next n hpick => exact .passed n hkeeps hpick
    · next hpick =>
      have hquiet := pick?_eq_none_iff.1 hpick
      unfold idleClock
      split
      · split
        · exact .lingered _ hquiet
        · exact .recalled _ _ hquiet
      · exact .lingered a.idle hquiet

end Arbiter

namespace Pci

/-! ### Requests -/

theorem toNat_bit {i : Ident} (h : i ≤ pciMaxIdent) : ((1 : UInt16) <<< i.toUInt16).toNat = 2 ^ i.toNat := by
  have hsmall : i.toNat ≤ 15 := h
  rw [UInt16.toNat_shiftLeft, UInt32.toNat_toUInt16, Nat.mod_eq_of_lt (a := i.toNat) (by omega),
    Nat.mod_eq_of_lt (a := i.toNat) (by omega)]
  show 1 <<< i.toNat % 2 ^ 16 = _
  rw [Nat.one_shiftLeft, Nat.mod_eq_of_lt (Nat.pow_lt_pow_right (by omega) (by omega))]

theorem requesting_or {i : Ident} (h : i ≤ pciMaxIdent) (m : UInt16) (n : Nat) :
    Arbiter.requesting (m ||| ((1 : UInt16) <<< i.toUInt16)) n = true ↔
      Arbiter.requesting m n = true ∨ i.toNat = n := by
  rw [Arbiter.requesting, UInt16.toNat_or, toNat_bit h, Nat.testBit_or, Nat.testBit_two_pow, Arbiter.requesting]
  simp

theorem requesting_foldl (slots : List Slot) (m : UInt16) (hslots : ∀ s ∈ slots, s.ident ≤ pciMaxIdent) (n : Nat) :
    Arbiter.requesting (slots.foldl (fun m s => m ||| ((1 : UInt16) <<< s.ident.toUInt16)) m) n = true ↔
      Arbiter.requesting m n = true ∨ ∃ s ∈ slots, s.ident.toNat = n := by
  induction slots generalizing m with
  | nil => simp
  | cons s slots ih =>
    have hs := hslots s (by simp)
    rw [List.foldl_cons, ih _ fun s' hs' => hslots s' (by simp [hs']), requesting_or hs]
    simp [or_assoc]

theorem requesting_requestMask {ps : Participants} (h : ∀ s ∈ ps.values, s.ident ≤ pciMaxIdent) {n : Nat} :
    Arbiter.requesting (requestMask ps) n = true ↔ ∃ s ∈ ps.values, requests s = true ∧ s.ident.toNat = n := by
  rw [requestMask, requesting_foldl _ _ fun s hs => h s (List.mem_of_mem_filter hs)]
  simp [Arbiter.requesting, and_assoc]

/-! ### Ownership -/

/-- What one edge finds out about the bus master. -/
inductive Ownership (p : Pci) : Pci → Prop where
  | same : Ownership p p
  | released : Ownership p { p with master := none }
  /-- The grantee becomes bus master. -/
  | took (i : Ident) (free : p.master = none) (granted : p.arbiter.granted = some i.toNat) :
      Ownership p ⟨p.arbiter.spend, some i⟩
  | tookUngranted (i : Ident) (free : p.master = none) (ungranted : p.arbiter.granted ≠ some i.toNat) :
      Ownership p ⟨p.arbiter, some i⟩

theorem ownership_spec (p : Pci) (ps : Participants) : Ownership p (p.trackOwner ps).1 := by
  unfold trackOwner
  dsimp only
  split
  · split
    · exact .released
    · exact .same
  · next hfree =>
    split
    · exact .same
    · split
      · exact .same
      · next i _ =>
        split
        · next hgranted => exact .took i hfree hgranted
        · next hgranted => exact .tookUngranted i hfree hgranted

theorem Ownership.granted_eq {p p' : Pci} (h : Ownership p p') : p'.arbiter.granted = p.arbiter.granted := by
  cases h <;> rfl

/-- Device `i` becomes bus master between two states of a bus. -/
def Becomes (p p' : Pci) (i : Ident) : Prop := p.master ≠ some i ∧ p'.master = some i

theorem Ownership.spent_iff {p p' : Pci} (h : Ownership p p') {i : Ident} (hgranted : p.arbiter.granted = some i.toNat) :
    p'.arbiter.spent = true ↔ p.arbiter.spent = true ∨ p.Becomes p' i := by
  cases h with
  | same => simp [Becomes]
  | released => simp [Becomes]
  | took j hfree hj =>
    rw [hgranted] at hj
    obtain rfl : i = j := UInt32.toNat_inj.1 (Option.some.inj hj)
    simp [Becomes, Arbiter.spend, hfree]
  | tookUngranted j hfree hj =>
    have hne : j ≠ i := by
      rintro rfl
      exact hj hgranted
    simp [Becomes, hne]

/-! ### One edge -/

variable {p : Pci} {ps : Participants} {i : Ident}

theorem arbiter_risingEdge (p : Pci) (ps : Participants) : ∃ a : Arbiter,
    (p.risingEdge ps).1.arbiter = a.arbitrate (requestMask ps) ∧ a.granted = p.arbiter.granted ∧
    ∀ {i : Ident}, p.arbiter.granted = some i.toNat →
      (a.spent = true ↔ p.arbiter.spent = true ∨ p.Becomes (p.risingEdge ps).1 i) :=
  ⟨(p.trackOwner ps).1.arbiter, rfl, (p.ownership_spec ps).granted_eq, fun h => (p.ownership_spec ps).spent_iff h⟩

theorem granted_of_risingEdge (h : (p.risingEdge ps).1.arbiter.granted = some i.toNat) :
    p.arbiter.granted = some i.toNat ∨ Arbiter.requesting (requestMask ps) i.toNat = true := by
  obtain ⟨a, heq, hgranted, -⟩ := p.arbiter_risingEdge ps
  have hedge := a.edge_spec (requestMask ps)
  rw [heq] at h
  generalize a.arbitrate (requestMask ps) = a' at h hedge
  rw [← hgranted]
  cases hedge with
  | kept => exact .inl h
  | passed n _ hpick =>
    cases h
    exact .inr (Arbiter.requesting_of_pick? hpick)
  | lingered => exact .inl h
  | recalled => cases h

theorem spent_of_risingEdge (h : (p.risingEdge ps).1.arbiter.granted = some i.toNat)
    (hspent : (p.risingEdge ps).1.arbiter.spent = true) :
    p.arbiter.granted = some i.toNat ∧ (p.arbiter.spent = true ∨ p.Becomes (p.risingEdge ps).1 i) := by
  obtain ⟨a, heq, hgranted, hused⟩ := p.arbiter_risingEdge ps
  have hedge := a.edge_spec (requestMask ps)
  rw [heq] at h hspent
  generalize a.arbitrate (requestMask ps) = a' at h hspent hedge
  cases hedge with
  | kept hkeeps =>
    obtain ⟨_, -, -, hunspent⟩ := Arbiter.keeps_iff.1 hkeeps
    rw [show a.spent = true from hspent] at hunspent
    cases hunspent
  | passed => cases hspent
  | lingered =>
    have hbefore : p.arbiter.granted = some i.toNat := hgranted.symm.trans h
    exact ⟨hbefore, (hused hbefore).1 hspent⟩
  | recalled => cases hspent

theorem granted_risingEdge (h : p.arbiter.granted = some i.toNat)
    (hrequest : Arbiter.requesting (requestMask ps) i.toNat = true)
    (hunused : ¬ (p.arbiter.spent = true ∨ p.Becomes (p.risingEdge ps).1 i)) :
    (p.risingEdge ps).1.arbiter.granted = some i.toNat := by
  obtain ⟨a, heq, hgranted, hused⟩ := p.arbiter_risingEdge ps
  have hunspent : a.spent = false := by
    rw [← hused h] at hunused
    simpa using hunused
  have hkeeps : a.keeps (requestMask ps) = true := Arbiter.keeps_iff.2 ⟨_, hgranted.trans h, hrequest, hunspent⟩
  rw [heq, Arbiter.arbitrate, if_pos hkeeps]
  exact hgranted.trans h

end Pci

end Lockstep
