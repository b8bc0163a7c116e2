import Lockstep.Engine.Pci
import Mathlib.Data.List.Induction
/-!
# Wires with several drivers

A shared wire is released if nobody drives it, has the level on which all who drive it agree, and is unknown if they do
not agree (`Level.Resolves`). Blending the drives in turn comes to this, wire by wire and in whatever order
(`Bundle.getD_blendAll`, `Bundle.blendAll_perm`), as long as all drives are equally wide. Otherwise the engine puts
unknown wires in their place, and then nothing of the kind is true.

Whoever drives a wire is shown it less its own contribution. Nothing is lost by that, since a wire that differs from a
drive of it is undriven by that drive or unknown (`Level.Resolves.blend_seenBy`).
-/

namespace Lockstep

/-! ### One wire -/

namespace Level

/-- The level of a wire with a list of drivers. -/
inductive Resolves (ds : List Level) : Level → Prop where
  | undriven (h : ∀ d ∈ ds, d = .released) : Resolves ds .released
  | agreed {v : Level} (driven : v ∈ ds) (definite : v ≠ .released) (h : ∀ d ∈ ds, d ≠ .released → d = v) :
      Resolves ds v
  | contested {v w : Level} (hv : v ∈ ds) (hw : w ∈ ds) (driven : v ≠ .released) (driven' : w ≠ .released)
      (conflict : v ≠ w) : Resolves ds .unknown

theorem blend_of_ne {a b : Level} (ha : a ≠ .released) (hb : b ≠ .released) (h : a ≠ b) : a.blend b = .unknown := by
  cases a <;> cases b <;> first | rfl | contradiction

theorem blend_self (a : Level) : a.blend a = a := by cases a <;> rfl

theorem unknown_blend (a : Level) : Level.unknown.blend a = .unknown := by cases a <;> rfl

theorem Resolves.congr {ds ds' : List Level} {wire : Level} (h : Resolves ds wire) (hsame : ∀ d, d ∈ ds' ↔ d ∈ ds) :
    Resolves ds' wire := by
  cases h with
  | undriven h => exact .undriven fun d hd => h d ((hsame d).1 hd)
  | agreed driven definite h => exact .agreed ((hsame _).2 driven) definite fun d hd => h d ((hsame d).1 hd)
  | contested hv hw driven driven' conflict =>
    exact .contested ((hsame _).2 hv) ((hsame _).2 hw) driven driven' conflict

theorem Resolves.snoc {ds : List Level} {wire : Level} (h : Resolves ds wire) (d : Level) :
    Resolves (ds ++ [d]) (wire.blend d) := by
  by_cases hd : d = .released
  · subst hd
    rw [blend_released]
    cases h with
    | undriven h =>
      refine .undriven fun d' hd' => ?_
      rcases List.mem_append.1 hd' with hd' | hd'
      · exact h d' hd'
      · exact List.mem_singleton.1 hd'
    | agreed driven definite h =>
      refine .agreed (List.mem_append_left _ driven) definite fun d' hd' hne => ?_
      rcases List.mem_append.1 hd' with hd' | hd'
      · exact h d' hd' hne
      · exact absurd (List.mem_singleton.1 hd') hne
    | contested hv hw driven driven' conflict =>
      exact .contested (List.mem_append_left _ hv) (List.mem_append_left _ hw) driven driven' conflict
  · have hlast : d ∈ ds ++ [d] := by simp
    cases h with
    | undriven h =>
      rw [released_blend]
      refine .agreed hlast hd fun d' hd' hne => ?_
      rcases List.mem_append.1 hd' with hd' | hd'
      · exact absurd (h d' hd') hne
      · exact List.mem_singleton.1 hd'
    | agreed driven definite h =>
      by_cases hsame : wire = d
      · subst hsame
        rw [blend_self]
        refine .agreed hlast hd fun d' hd' hne => ?_
        rcases List.mem_append.1 hd' with hd' | hd'
        · exact h d' hd' hne
        · exact List.mem_singleton.1 hd'
      · rw [blend_of_ne definite hd hsame]
        exact .contested (List.mem_append_left _ driven) hlast definite hd hsame
    | contested hv hw driven driven' conflict =>
      rw [unknown_blend]
      exact .contested (List.mem_append_left _ hv) (List.mem_append_left _ hw) driven driven' conflict

theorem resolves_foldl (ds : List Level) : Resolves ds (ds.foldl blend .released) := by
  induction ds using List.reverseRecOn with
  | nil => exact .undriven fun d hd => absurd hd List.not_mem_nil
  | append_singleton ds d ih =>
    rw [List.foldl_append]
    exact ih.snoc d

theorem foldl_blend_perm {ds ds' : List Level} (h : ds.Perm ds') (a : Level) :
    ds.foldl blend a = ds'.foldl blend a := by
  refine h.foldl_eq' (fun x _ y _ z => ?_) a
  rw [blend_assoc, blend_comm x y, ← blend_assoc]

theorem Resolves.blend_seenBy {ds : List Level} {wire : Level} (h : Resolves ds wire) {own : Level} (hown : own ∈ ds) :
    own.blend (wire.seenBy own) = wire := by
  unfold seenBy
  by_cases hsame : wire = own
  · rw [if_pos hsame, blend_released, hsame]
  · rw [if_neg hsame]
    cases h with
    | undriven h => exact absurd (h own hown).symm hsame
    | agreed _ _ h =>
      have hundriven : own = .released := by
        by_contra hne
        exact hsame (h own hown hne).symm
      rw [hundriven, released_blend]
    | contested => rw [blend_comm, unknown_blend]

end Level

/-! ### Bundles -/

namespace Bundle

theorem getD_released (width n : Nat) : (released width).getD n = .released := by
  rw [getD, get?, released, filled, List.getElem?_replicate]
  split <;> rfl

theorem getD_of_width_le {v : Bundle} {n : Nat} (h : v.width ≤ n) : v.getD n = .released := by
  rw [getD, get?, List.getElem?_eq_none h]
  rfl

theorem ext_getD {v w : Bundle} (hwidth : v.width = w.width) (h : ∀ n < v.width, v.getD n = w.getD n) : v = w := by
  obtain ⟨vs⟩ := v
  obtain ⟨ws⟩ := w
  rw [Bundle.mk.injEq]
  refine List.ext_getElem hwidth fun n hv hw => ?_
  have hwire := h n hv
  simpa [getD, get?, List.getElem?_eq_getElem hv, List.getElem?_eq_getElem hw] using hwire

theorem getD_of_zip_eq_ok {f : Level → Level → Level} (hf : f .released .released = .released) {v w u : Bundle}
    (h : zip f v w = .ok u) (n : Nat) : u.getD n = f (v.getD n) (w.getD n) := by
  obtain ⟨hwidth, rfl⟩ := zip_eq_ok_iff.1 h
  by_cases hn : n < v.width
  · have hv : n < v.bits.length := hn
    have hw : n < w.bits.length := Nat.lt_of_lt_of_eq hn hwidth
    simp [getD, get?, List.getElem?_zipWith, List.getElem?_eq_getElem hv, List.getElem?_eq_getElem hw]
  · have hv : v.width ≤ n := Nat.le_of_not_lt hn
    have hu : (Bundle.mk (List.zipWith f v.bits w.bits)).width ≤ n := by
      rw [width_eq_of_zip_eq_ok h]
      exact hv
    rw [getD_of_width_le hu, getD_of_width_le hv, getD_of_width_le (hwidth ▸ hv), hf]

theorem getD_of_blend_eq_ok {v w u : Bundle} (h : v.blend w = .ok u) (n : Nat) :
    u.getD n = (v.getD n).blend (w.getD n) := getD_of_zip_eq_ok rfl h n

theorem getD_of_seenBy_eq_ok {v w u : Bundle} (h : v.seenBy w = .ok u) (n : Nat) :
    u.getD n = (v.getD n).seenBy (w.getD n) := getD_of_zip_eq_ok rfl h n

theorem exists_zip_eq_ok {f : Level → Level → Level} {v w : Bundle} (h : v.width = w.width) :
    ∃ u, zip f v w = .ok u ∧ u.width = w.width :=
  ⟨_, zip_eq_ok_iff.2 ⟨h, rfl⟩, by rw [width_eq_of_zip_eq_ok (zip_eq_ok_iff.2 ⟨h, rfl⟩), h]⟩

/-! ### Blending several drives -/

/-- The wires on which a list of drives comes together. A drive that is not as wide as the others makes them unknown. -/
def blendAll (width : Nat) (drives : List Bundle) : Bundle :=
  drives.foldl (fun wires v =>
    match wires.blend v with
    | .ok w => w
    | .error _ => .filled width .unknown) (.released width)

variable {width : Nat} {drives : List Bundle}

theorem foldlM_blend (h : ∀ v ∈ drives, v.width = width) :
    drives.foldlM blend (released width) = .ok (blendAll width drives) ∧ (blendAll width drives).width = width ∧
      ∀ n, (blendAll width drives).getD n = (drives.map (·.getD n)).foldl Level.blend .released := by
  unfold blendAll
  suffices hall : ∀ wires : Bundle, wires.width = width →
      ∃ result, drives.foldlM blend wires = .ok result ∧ drives.foldl (fun wires v =>
        match wires.blend v with
        | .ok w => w
        | .error _ => .filled width .unknown) wires = result ∧ result.width = width ∧
      ∀ n, result.getD n = (drives.map (·.getD n)).foldl Level.blend (wires.getD n) by
    obtain ⟨result, hfoldlM, hfoldl, hwidth, hwires⟩ := hall (released width) (width_released width)
    rw [hfoldl]
    exact ⟨hfoldlM, hwidth, fun n => by rw [hwires, getD_released]⟩
  induction drives with
  | nil => exact fun wires hwires => ⟨wires, rfl, rfl, hwires, fun n => rfl⟩
  | cons v drives ih =>
    intro wires hwires
    have hv : wires.width = v.width := hwires.trans (h v (by simp)).symm
    obtain ⟨blended, hblend, hwidth⟩ := exists_zip_eq_ok (f := Level.blend) hv
    have hblend : wires.blend v = .ok blended := hblend
    obtain ⟨result, hfoldlM, hfoldl, hresult, hgetD⟩ :=
      ih (fun v' hv' => h v' (by simp [hv'])) blended (hwidth.trans (h v (by simp)))
    refine ⟨result, ?_, ?_, hresult, fun n => ?_⟩
    · rw [List.foldlM_cons, hblend]
      exact hfoldlM
    · rw [List.foldl_cons, hblend]
      exact hfoldl
    · rw [hgetD, List.map_cons, List.foldl_cons, getD_of_blend_eq_ok hblend]

theorem width_blendAll (h : ∀ v ∈ drives, v.width = width) : (blendAll width drives).width = width :=
  (foldlM_blend h).2.1

theorem getD_blendAll (h : ∀ v ∈ drives, v.width = width) (n : Nat) :
    (blendAll width drives).getD n = (drives.map (·.getD n)).foldl Level.blend .released := (foldlM_blend h).2.2 n

theorem resolves_blendAll (h : ∀ v ∈ drives, v.width = width) (n : Nat) :
    Level.Resolves (drives.map (·.getD n)) ((blendAll width drives).getD n) := by
  rw [getD_blendAll h]
  exact Level.resolves_foldl _

theorem blendAll_perm {drives' : List Bundle} (hperm : drives'.Perm drives) (h : ∀ v ∈ drives, v.width = width) :
    blendAll width drives' = blendAll width drives := by
  have h' : ∀ v ∈ drives', v.width = width := fun v hv => h v (hperm.mem_iff.1 hv)
  refine ext_getD ((width_blendAll h').trans (width_blendAll h).symm) fun n _ => ?_
  rw [getD_blendAll h', getD_blendAll h]
  exact Level.foldl_blend_perm (hperm.map _) _

end Bundle

/-! ### The shared wires -/

namespace Pci

theorem resolve_eq (ps : Participants) (name : String) (width : Nat) :
    resolve ps name width = .blendAll width (ps.values.map (·.drives name)) := by
  rw [resolve, Bundle.blendAll]
  refine Eq.trans ?_ List.foldl_map.symm
  rfl

/-- Every participant drives every shared signal with as many wires as it has. -/
def Matched (ps : Participants) : Prop :=
  ∀ name width, (name, width) ∈ sharedWires → ∀ slot ∈ ps.values, (slot.drives name).width = width

variable {ps : Participants} {name : String} {width : Nat}

theorem Matched.width_mem (h : Matched ps) (hwire : (name, width) ∈ sharedWires) :
    ∀ v ∈ ps.values.map (·.drives name), v.width = width := by
  intro v hv
  obtain ⟨slot, hslot, rfl⟩ := List.mem_map.1 hv
  exact h name width hwire slot hslot

theorem Matched.foldlM_eq (h : Matched ps) (hwire : (name, width) ∈ sharedWires) :
    (ps.values.map (·.drives name)).foldlM Bundle.blend (.released width) = .ok (resolve ps name width) := by
  rw [resolve_eq]
  exact (Bundle.foldlM_blend (h.width_mem hwire)).1

theorem Matched.resolves (h : Matched ps) (hwire : (name, width) ∈ sharedWires) (n : Nat) :
    Level.Resolves ((ps.values.map (·.drives name)).map (·.getD n)) ((resolve ps name width).getD n) := by
  rw [resolve_eq]
  exact Bundle.resolves_blendAll (h.width_mem hwire) n

theorem Matched.blendAll_eq (h : Matched ps) (hwire : (name, width) ∈ sharedWires) {slots : List Slot}
    (hperm : slots.Perm ps.values) : .blendAll width (slots.map (·.drives name)) = resolve ps name width := by
  rw [resolve_eq]
  exact Bundle.blendAll_perm (hperm.map _) (h.width_mem hwire)

variable {slot : Slot}

theorem Matched.seenBy_eq (h : Matched ps) (hwire : (name, width) ∈ sharedWires) (hslot : slot ∈ ps.values) :
    (resolve ps name width).seenBy (slot.drives name) = .ok (seen (resolve ps name width) (slot.drives name)) := by
  have hwidth : (resolve ps name width).width = (slot.drives name).width := by
    rw [h name width hwire slot hslot, resolve_eq, Bundle.width_blendAll (h.width_mem hwire)]
  obtain ⟨v, hv, -⟩ := Bundle.exists_zip_eq_ok (f := Level.seenBy) hwidth
  have hv : (resolve ps name width).seenBy (slot.drives name) = .ok v := hv
  rw [seen, hv]

theorem Matched.blend_seen (h : Matched ps) (hwire : (name, width) ∈ sharedWires) (hslot : slot ∈ ps.values) :
    (slot.drives name).blend (seen (resolve ps name width) (slot.drives name)) = .ok (resolve ps name width) := by
  have hseen := h.seenBy_eq hwire hslot
  have hwidth : (slot.drives name).width = (seen (resolve ps name width) (slot.drives name)).width := by
    rw [Bundle.width_eq_of_zip_eq_ok hseen, resolve_eq, Bundle.width_blendAll (h.width_mem hwire),
      h name width hwire slot hslot]
  obtain ⟨wires, hblend, hblended⟩ := Bundle.exists_zip_eq_ok (f := Level.blend) hwidth
  have hblend : (slot.drives name).blend _ = .ok wires := hblend
  rw [hblend]
  congr 1
  refine Bundle.ext_getD ?_ fun n _ => ?_
  · rw [hblended, Bundle.width_eq_of_zip_eq_ok hseen]
  · rw [Bundle.getD_of_blend_eq_ok hblend, Bundle.getD_of_seenBy_eq_ok hseen]
    exact (h.resolves hwire n).blend_seenBy (List.mem_map_of_mem (List.mem_map_of_mem hslot))

end Pci

end Lockstep
