import Lockstep.Proofs.Bus.Sound
import Mathlib.Data.List.Basic
/-!
# What a step delivers

A bus steps only when it waits for nobody, and the step answers every participant that is still connected exactly
once, in the order of their numbers. Nothing goes to anybody else (`Bus.stepsFrom_of_stepped`).
-/

namespace Lockstep

namespace Participants

/-- The unfinished participants that hold a connection, in the order of their numbers. -/
def attached (ps : Participants) : List (Ident × ConnectionKey) :=
  ps.entries.filterMap fun e => if e.2.finished then none else e.2.connection.map fun k => (e.1, k)

def shown (ps : Participants) (i : Ident) : Signals := ((ps.get? i).map (·.outgoing)).getD .empty

theorem mem_attached {ps : Participants} {i : Ident} {k : ConnectionKey} :
    (i, k) ∈ ps.attached ↔
      ∃ slot, ps.get? i = some slot ∧ slot.finished = false ∧ slot.connection = some k := by
  simp only [attached, List.mem_filterMap]
  constructor
  · rintro ⟨⟨j, slot⟩, hmem, h⟩
    split at h
    · cases h
    · next hf =>
      obtain ⟨k', hk', heq⟩ := Option.map_eq_some_iff.1 h
      cases heq
      exact ⟨slot, SortedMap.mem_entries_iff.1 hmem, by simpa using hf, hk'⟩
  · rintro ⟨slot, hs, hf, hk⟩
    exact ⟨(i, slot), SortedMap.mem_entries_iff.2 hs, by simp [hf, hk]⟩

theorem pairwise_attached (ps : Participants) : ps.attached.Pairwise fun x y => x.1 < y.1 := by
  refine List.pairwise_filterMap.2 (ps.sorted.imp ?_)
  intro e e' hlt a ha a' ha'
  have hfst : ∀ {e : Ident × Slot} {a : Ident × ConnectionKey},
      (if e.2.finished then none else e.2.connection.map fun k => (e.1, k)) = some a → a.1 = e.1 := by
    intro e a h
    split at h
    · cases h
    · obtain ⟨k, -, rfl⟩ := Option.map_eq_some_iff.1 h
      rfl
  rw [hfst ha, hfst ha']
  exact hlt

theorem attached_each {f : Slot → Slot} (hf : ∀ s, (f s).finished = s.finished)
    (hc : ∀ s, (f s).connection = s.connection) (ps : Participants) : (ps.each f).attached = ps.attached := by
  simp [attached, each, SortedMap.mapValues, List.filterMap_map, hf, hc]

theorem attached_of_muted_eq {ps ps' : Participants} (h : ps'.muted = ps.muted) : ps'.attached = ps.attached := by
  have hmuted : ∀ qs : Participants, qs.muted.attached = qs.attached :=
    attached_each (fun _ => rfl) fun _ => rfl
  rw [← hmuted ps', h, hmuted]

theorem shown_each {f : Slot → Slot} (h : ∀ s, (f s).outgoing = s.outgoing) (ps : Participants) (i : Ident) :
    (ps.each f).shown i = ps.shown i := by
  rw [shown, get?_each, shown]
  cases ps.get? i <;> simp [h]

theorem deliveries_eq (time : Time) (ps : Participants) :
    Bus.deliveries time ps = ps.attached.map fun a => (a.2, .deliver time (ps.shown a.1)) := by
  unfold Bus.deliveries attached SortedMap.values
  rw [List.filterMap_map, List.map_filterMap]
  refine List.filterMap_congr fun e he => ?_
  have hs : ps.get? e.1 = some e.2 := SortedMap.mem_entries_iff.1 he
  have hshown : ps.shown e.1 = e.2.outgoing := by rw [shown, hs]; rfl
  dsimp only [Function.comp_apply]
  split
  · rfl
  · cases e.2.connection <;> simp [hshown]

theorem filter_attached {ps : Participants} {i : Ident} {k : ConnectionKey} (h : (i, k) ∈ ps.attached)
    (hsingle : ∀ j, (j, k) ∈ ps.attached → j = i) : ps.attached.filter (fun a => a.2 = k) = [(i, k)] := by
  have hmem : ∀ a, a ∈ ps.attached.filter (fun a => a.2 = k) ↔ a = (i, k) := by
    rintro ⟨j, k'⟩
    simp only [List.mem_filter, decide_eq_true_eq, Prod.mk.injEq]
    constructor
    · rintro ⟨ha, rfl⟩
      exact ⟨hsingle j ha, rfl⟩
    · rintro ⟨rfl, rfl⟩
      exact ⟨h, rfl⟩
  have hsorted := ps.pairwise_attached.filter fun a => a.2 = k
  generalize ps.attached.filter (fun a => a.2 = k) = l at hmem hsorted
  cases l with
  | nil => exact absurd ((hmem (i, k)).2 rfl) List.not_mem_nil
  | cons a l =>
    obtain rfl := (hmem a).1 List.mem_cons_self
    cases l with
    | nil => rfl
    | cons a' l =>
      obtain rfl := (hmem a').1 (by simp)
      exact absurd (List.rel_of_pairwise_cons hsorted List.mem_cons_self) Std.lt_irrefl

end Participants

namespace Bus

/-! ### One step -/

/-- What a step of a bus `b`, which becomes `b'` and sends out `ds`, amounts to. -/
structure StepsFrom (b b' : Bus) (ds : List Delivery) : Prop where
  /-- The bus waits for nobody. -/
  complete : ∀ i slot, b.participants.get? i = some slot → slot.ready = true ∨ slot.finished = true
  counted : b'.steps = b.steps + 1
  /-- Each attached participant is sent one UNTIL, with the new time and what it is shown now. -/
  outgoing : ds = b.participants.attached.map fun a => (a.2, .deliver b'.time (b'.participants.shown a.1))
  /-- The attached participants are those that have not finished and hold a connection, in order. -/
  attached : ∀ i k, (i, k) ∈ b.participants.attached ↔
    ∃ slot, b.participants.get? i = some slot ∧ slot.finished = false ∧ slot.connection = some k
  ordered : b.participants.attached.Pairwise fun x y => x.1 < y.1
  /-- Whoever has not finished has to offer again. -/
  rearmed : ∀ i slot, b'.participants.get? i = some slot → slot.finished = false → slot.ready = false

theorem stepsFrom_of_stepped {b : Bus} {ds : List Delivery} (h : b.advance.1 = .stepped ds) :
    StepsFrom b b.advance.2.1 ds := by
  have hspec := b.advance_spec
  rw [h] at hspec
  generalize b.advance.2.1 = b' at hspec
  cases hspec with
  | stepped engine ps time live ready shown sum =>
    have hattached := Participants.attached_of_muted_eq shown
    refine ⟨fun i slot hs => ?_, rfl, ?_, fun _ _ => Participants.mem_attached,
      Participants.pairwise_attached _, fun i slot hs hf => ?_⟩
    · have hready := Participants.allReady_iff.1 ready i slot hs
      simpa [Slot.isReady] using hready
    · rw [Participants.deliveries_eq, hattached]
      refine List.map_congr_left fun a _ => ?_
      rw [Participants.shown_each Slot.outgoing_rearm]
    · rw [Participants.get?_each] at hs
      obtain ⟨s, -, rfl⟩ := Option.map_eq_some_iff.1 hs
      rw [Slot.finished_rearm] at hf
      exact Slot.ready_rearm hf

end Bus

end Lockstep
