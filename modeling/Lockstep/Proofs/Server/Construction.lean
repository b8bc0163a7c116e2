import Lockstep.Proofs.Bus.Sound
import Lockstep.Server
import Mathlib.Data.List.Induction
/-!
# Which buses a server serves

A server is built from a list of configurations, one after the other. A configuration that makes sense is kept, unless
one that has been kept before has the same name or listens at the same place (`Server.Retained`). One that is not kept
leaves no trace, so it is never in the way of another one. `Server.serves_what_fits` says that the buses of a server are
those of the configurations that are kept, and that there is no server only if none of the configurations makes sense.
-/

namespace Lockstep

/-! ### Conflicts -/

theorem Address.anyPort_of_samePlace {a b : Address} (h : a.samePlace b = true) : b.anyPort = a.anyPort := by
  cases a <;> cases b <;> simp_all [samePlace, anyPort]

theorem Address.collides_iff {a b : Address} : a.collides b = true ↔ a.samePlace b = true ∧ a.anyPort = false := by
  unfold collides
  by_cases h : a.samePlace b = true
  · rw [anyPort_of_samePlace h]
    cases a.anyPort <;> simp [h]
  · simp [h]

namespace BusConfig

/-- Taken by itself, the configuration makes sense. -/
def Valid (c : BusConfig) : Prop := ∃ b, Bus.ofConfig c = .ok b

/-- Two buses have the same name, or they listen at the same place and not on any free port. -/
def Conflicts (c d : BusConfig) : Prop :=
  c.name = d.name ∨ c.address.samePlace d.address = true ∧ c.address.anyPort = false

end BusConfig

namespace Server

/-- What is kept of a list of configurations, in order: each one that makes sense and conflicts with none that is kept
before it. -/
inductive Retained : List BusConfig → List BusConfig → Prop where
  | nil : Retained [] []
  | kept {configs kept : List BusConfig} {c : BusConfig} (h : Retained configs kept) (valid : c.Valid)
      (free : ∀ d ∈ kept, ¬ d.Conflicts c) : Retained (configs ++ [c]) (kept ++ [c])
  | dropped {configs kept : List BusConfig} {c : BusConfig} (h : Retained configs kept)
      (fault : ¬ (c.Valid ∧ ∀ d ∈ kept, ¬ d.Conflicts c)) : Retained (configs ++ [c]) kept

variable {configs kept kept' : List BusConfig} {c : BusConfig}

namespace Retained

theorem sublist (h : Retained configs kept) : kept.Sublist configs := by
  induction h with
  | nil => exact .slnil
  | kept _ _ _ ih => exact ih.append (.refl _)
  | dropped _ _ ih => exact ih.trans (List.sublist_append_left _ _)

theorem pairwise (h : Retained configs kept) : kept.Pairwise fun c d => ¬ c.Conflicts d := by
  induction h with
  | nil => exact .nil
  | kept _ _ free ih =>
    refine List.pairwise_append.2 ⟨ih, List.pairwise_singleton _ _, fun d hd c hc => ?_⟩
    rw [List.mem_singleton.1 hc]
    exact free d hd
  | dropped _ _ ih => exact ih

/-- If nothing is kept, nothing makes sense: the first configuration that does is kept. -/
theorem eq_nil_iff (h : Retained configs kept) : kept = [] ↔ ∀ c ∈ configs, ¬ c.Valid := by
  induction h with
  | nil => simp
  | kept _ valid _ ih =>
    simp only [List.append_eq_nil_iff, List.cons_ne_self, and_false, false_iff, not_forall]
    exact ⟨_, List.mem_append_right _ List.mem_cons_self, not_not.2 valid⟩
  | @dropped configs kept c _ fault ih =>
    rw [ih]
    constructor
    · intro hinvalid d hd
      rcases List.mem_append.1 hd with hd | hd
      · exact hinvalid d hd
      · rw [List.mem_singleton.1 hd]
        rw [ih.2 hinvalid] at fault
        exact fun hvalid => fault ⟨hvalid, fun d hd => absurd hd List.not_mem_nil⟩
    · exact fun hinvalid d hd => hinvalid d (List.mem_append_left _ hd)

theorem eq_nil (h : Retained [] kept) : kept = [] := List.sublist_nil.1 h.sublist

theorem of_snoc (h : Retained (configs ++ [c]) kept) : ∃ before, Retained configs before ∧
    ((c.Valid ∧ ∀ d ∈ before, ¬ d.Conflicts c) ∧ kept = before ++ [c] ∨
      ¬ (c.Valid ∧ ∀ d ∈ before, ¬ d.Conflicts c) ∧ kept = before) := by
  generalize hall : configs ++ [c] = all at h
  cases h with
  | nil => simp at hall
  | kept h valid free =>
    obtain ⟨rfl, rfl⟩ := List.append_singleton_inj.1 hall
    exact ⟨_, h, .inl ⟨⟨valid, free⟩, rfl⟩⟩
  | dropped h fault =>
    obtain ⟨rfl, rfl⟩ := List.append_singleton_inj.1 hall
    exact ⟨_, h, .inr ⟨fault, rfl⟩⟩

theorem unique (h : Retained configs kept) (h' : Retained configs kept') : kept' = kept := by
  induction h generalizing kept' with
  | nil => exact h'.eq_nil
  | kept _ valid free ih =>
    obtain ⟨before, hbefore, ⟨-, heq⟩ | ⟨hfault, -⟩⟩ := h'.of_snoc
    · rw [heq, ih hbefore]
    · rw [ih hbefore] at hfault
      exact absurd ⟨valid, free⟩ hfault
  | dropped _ fault ih =>
    obtain ⟨before, hbefore, ⟨hfits, -⟩ | ⟨-, heq⟩⟩ := h'.of_snoc
    · rw [ih hbefore] at hfits
      exact absurd hfits fault
    · rw [heq, ih hbefore]

end Retained

/-! ### Building one after the other -/

variable {others : List Bus}

theorem clash?_eq_none_iff :
    clash? others c = none ↔ ∀ d ∈ others.map Bus.config, ¬ d.Conflicts c := by
  simp only [clash?, List.findSome?_eq_none_iff, List.forall_mem_map, BusConfig.Conflicts]
  refine forall₂_congr fun b _ => ?_
  show (if b.config.name = c.name then _ else if b.config.address.collides c.address then _ else none) = none ↔ _
  rw [← Address.collides_iff]
  split
  · next hname => simp [hname]
  · next hname => split <;> simp_all

theorem config_of_ofConfig {b : Bus} (h : Bus.ofConfig c = .ok b) : b.config = c := by
  obtain ⟨-, engine, -, rfl⟩ := Bus.ofConfig_spec h
  rfl

theorem build_eq_ok_iff {b : Bus} : build others c = .ok b ↔
    (∀ d ∈ others.map Bus.config, ¬ d.Conflicts c) ∧ Bus.ofConfig c = .ok b := by
  rw [← clash?_eq_none_iff, build]
  cases clash? others c <;> simp

theorem buildAll_append (others : List Bus) (configs later : List BusConfig) :
    (buildAll others (configs ++ later)).1 = (buildAll (buildAll others configs).1 later).1 := by
  induction configs generalizing others with
  | nil => rfl
  | cons c configs ih =>
    rw [List.cons_append, buildAll, buildAll]
    cases build others c with
    | ok b => exact ih _
    | error e => exact ih _

theorem retained_buildAll (configs : List BusConfig) :
    Retained configs ((buildAll [] configs).1.map Bus.config) ∧
      ∀ b ∈ (buildAll [] configs).1, Bus.ofConfig b.config = .ok b := by
  -- From the end, since what becomes of a configuration depends on what is kept before it.
  induction configs using List.reverseRecOn with
  | nil => exact ⟨.nil, fun b hb => absurd hb List.not_mem_nil⟩
  | append_singleton configs c ih =>
    obtain ⟨hretained, hbuses⟩ := ih
    rw [buildAll_append]
    generalize (buildAll [] configs).1 = buses at hretained hbuses
    cases hbuild : build buses c with
    | ok b =>
      obtain ⟨hfree, hb⟩ := build_eq_ok_iff.1 hbuild
      have hconfig := config_of_ofConfig hb
      have hall : (buildAll buses [c]).1 = buses ++ [b] := by rw [buildAll, hbuild]; rfl
      rw [hall, List.map_append, List.map_singleton, hconfig]
      refine ⟨hretained.kept ⟨b, hb⟩ hfree, fun b' hb' => ?_⟩
      rcases List.mem_append.1 hb' with hb' | hb'
      · exact hbuses b' hb'
      · rw [List.mem_singleton.1 hb', hconfig, hb]
    | error e =>
      have hall : (buildAll buses [c]).1 = buses := by rw [buildAll, hbuild]; rfl
      rw [hall]
      refine ⟨hretained.dropped ?_, hbuses⟩
      rintro ⟨⟨b, hb⟩, hfree⟩
      rw [build_eq_ok_iff.2 ⟨hfree, hb⟩] at hbuild
      cases hbuild

/-! ### The buses of a server -/

/-- The buses that are served, none if there is no server. -/
def served (result : Option Server) : List Bus := result.elim [] (·.buses)

theorem served_ofConfigs (configs : List BusConfig) (limit : Nat) :
    served (ofConfigs configs limit).1 = (buildAll [] configs).1 := by
  unfold ofConfigs
  dsimp only
  split
  · next hempty => exact (List.isEmpty_iff.1 hempty).symm
  · rfl

/-- What a server that is built from some configurations serves. -/
structure ServesWhatFits (configs : List BusConfig) (limit : Nat) (result : Option Server) : Prop where
  /-- The buses are those of the configurations that are kept, as they were configured. -/
  retained : Retained configs ((served result).map Bus.config)
  only : ∀ kept, Retained configs kept → kept = (served result).map Bus.config
  configured : ∀ b ∈ served result, Bus.ofConfig b.config = .ok b
  ordered : ((served result).map Bus.config).Sublist configs
  /-- A configuration that is not kept makes no difference to the others. -/
  harmless : ∀ before c after kept, configs = before ++ c :: after → Retained before kept →
    ¬ (c.Valid ∧ ∀ d ∈ kept, ¬ d.Conflicts c) → served (ofConfigs (before ++ after) limit).1 = served result
  distinct : (served result).Pairwise fun b b' => b.name ≠ b'.name ∧
    (b.address.samePlace b'.address = true → b.address.anyPort = true)
  /-- There is no server exactly if no configuration makes sense. -/
  none_iff : result = none ↔ ∀ c ∈ configs, ¬ c.Valid

/-- **Construction.** A server serves the buses that fit, whatever else was configured. -/
theorem serves_what_fits (configs : List BusConfig) (limit : Nat) :
    ServesWhatFits configs limit (ofConfigs configs limit).1 := by
  obtain ⟨hretained, hconfigured⟩ := retained_buildAll configs
  rw [← served_ofConfigs configs limit] at hretained hconfigured
  refine ⟨hretained, fun kept h => hretained.unique h, hconfigured, hretained.sublist, ?_, ?_, ?_⟩
  · rintro before c after kept rfl hbefore hfault
    obtain ⟨hkept, -⟩ := retained_buildAll before
    obtain rfl := hbefore.unique hkept
    have hdropped : (buildAll (buildAll [] before).1 (c :: after)).1 = (buildAll (buildAll [] before).1 after).1 := by
      cases hbuild : build (buildAll [] before).1 c with
      | ok b =>
        obtain ⟨hfree, hb⟩ := build_eq_ok_iff.1 hbuild
        exact absurd ⟨⟨b, hb⟩, hfree⟩ hfault
      | error e => rw [buildAll, hbuild]
    rw [served_ofConfigs, served_ofConfigs, buildAll_append, buildAll_append, hdropped]
  · refine (List.pairwise_map.1 hretained.pairwise).imp fun {b b'} hfree => ?_
    refine ⟨fun hname => hfree (.inl hname), fun hsame => ?_⟩
    by_contra hfixed
    exact hfree (.inr ⟨hsame, eq_false_of_ne_true hfixed⟩)
  · rw [← hretained.eq_nil_iff, List.map_eq_nil_iff, served_ofConfigs]
    unfold ofConfigs
    dsimp only
    split
    · next hempty => simp [List.isEmpty_iff.1 hempty]
    · next hempty => simpa using hempty

end Server

end Lockstep
