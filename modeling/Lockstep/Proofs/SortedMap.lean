import Lockstep.SortedMap
/-!
# Further laws of ordered maps

What erasing and filtering do to look-ups, how the entries and the values of a map relate to its look-ups, and
which changes of values commute. Equalities of maps are proved by comparing look-ups (`ext_get?`).
-/

namespace Lockstep.SortedMap

variable {κ α β γ : Type} [LT κ]

/-! ### Changing every value -/

theorem mapValues_mapValues (f : κ → α → β) (g : κ → β → γ) (m : SortedMap κ α) :
    (m.mapValues f).mapValues g = m.mapValues fun k v => g k (f k v) := by
  simp [mapValues]

variable [DecidableEq κ]

theorem contains_iff {m : SortedMap κ α} {k : κ} : m.contains k = true ↔ ∃ v, m.get? k = some v :=
  Option.isSome_iff_exists

/-! ### Entries and values -/

section Order

variable [LE κ] [Std.LawfulOrderLT κ]

theorem lookup_of_mem {k : κ} {v : α} {es : List (κ × α)} (hs : es.Pairwise fun a b => a.1 < b.1)
    (h : (k, v) ∈ es) : lookup k es = some v := by
  induction es with
  | nil => simp at h
  | cons e r ih =>
    rw [lookup]
    rcases List.mem_cons.1 h with rfl | h
    · rw [if_pos rfl]
    · have hlt : e.1 < k := List.rel_of_pairwise_cons hs h
      have hne : e.1 ≠ k := fun heq => Std.lt_irrefl (heq ▸ hlt)
      rw [if_neg hne]
      exact ih hs.of_cons h

theorem mem_entries_iff {m : SortedMap κ α} {k : κ} {v : α} :
    (k, v) ∈ m.entries ↔ m.get? k = some v :=
  ⟨lookup_of_mem m.sorted, mem_of_lookup⟩

theorem mem_values_iff {m : SortedMap κ α} {v : α} : v ∈ m.values ↔ ∃ k, m.get? k = some v := by
  simp only [values, List.mem_map, ← mem_entries_iff]
  constructor
  · rintro ⟨⟨k, _⟩, h, rfl⟩
    exact ⟨k, h⟩
  · rintro ⟨k, h⟩
    exact ⟨(k, v), h, rfl⟩

theorem exists_of_find?_values {m : SortedMap κ α} {p : α → Bool} {v : α} (h : m.values.find? p = some v) :
    ∃ k, m.get? k = some v ∧ p v = true ∧ ∀ j w, m.get? j = some w → p w = true → j = k ∨ k < j := by
  rw [values, List.find?_map, Option.map_eq_some_iff] at h
  obtain ⟨⟨k, _⟩, hfind, rfl⟩ := h
  obtain ⟨hv, before, behind, hentries, hbefore⟩ := List.find?_eq_some_iff_append.1 hfind
  refine ⟨k, mem_entries_iff.1 (by rw [hentries]; simp), hv, fun j w hj hw => ?_⟩
  have hmem := mem_entries_iff.2 hj
  have hsorted := m.sorted
  rw [hentries] at hmem hsorted
  rcases List.mem_append.1 hmem with hmem | hmem
  · have hrejected := hbefore _ hmem
    simp [hw] at hrejected
  · rcases List.mem_cons.1 hmem with heq | hmem
    · exact .inl (Prod.mk.inj heq).1
    · exact .inr (List.rel_of_pairwise_cons (List.pairwise_append.1 hsorted).2.1 hmem)

/-! ### Leaving entries out -/

theorem get?_filter (p : κ → α → Bool) (m : SortedMap κ α) (k : κ) :
    (m.filter p).get? k = (m.get? k).filter (p k) := by
  cases h : m.get? k with
  | none =>
    cases hf : (m.filter p).get? k with
    | none => rfl
    | some v =>
      have hmem := List.mem_filter.1 (mem_entries_iff.2 hf)
      rw [mem_entries_iff.1 hmem.1] at h
      cases h
  | some v =>
    have hmem := mem_entries_iff.2 h
    by_cases hp : p k v = true
    · rw [Option.filter_some, if_pos hp]
      exact mem_entries_iff.1 (List.mem_filter.2 ⟨hmem, hp⟩)
    · rw [Option.filter_some, if_neg hp]
      cases hf : (m.filter p).get? k with
      | none => rfl
      | some w =>
        obtain ⟨hw, hpw⟩ := List.mem_filter.1 (mem_entries_iff.2 hf)
        rw [mem_entries_iff.1 hw] at h
        cases h
        exact absurd hpw hp

theorem get?_erase (m : SortedMap κ α) (k j : κ) :
    (m.erase k).get? j = if j = k then none else m.get? j := by
  rw [erase, get?_filter]
  by_cases h : j = k <;> cases m.get? j <;> simp [h]

variable [Std.IsLinearOrder κ]

theorem erase_of_get?_eq_none {m : SortedMap κ α} {k : κ} (h : m.get? k = none) : m.erase k = m := by
  refine ext_get? fun j => ?_
  rw [get?_erase]
  split
  · next hj => rw [hj, h]
  · rfl

/-! ### Changing one value -/

theorem modify_modify_comm (m : SortedMap κ α) {k j : κ} (h : k ≠ j) (f g : α → α) :
    (m.modify k f).modify j g = (m.modify j g).modify k f := by
  refine ext_get? fun i => ?_
  simp only [get?_modify]
  by_cases hk : i = k
  · have hj : i ≠ j := fun hj => h (hk.symm.trans hj)
    simp [hk, h]
  · simp [hk]

theorem modify_modify (m : SortedMap κ α) (k : κ) (f g : α → α) :
    (m.modify k f).modify k g = m.modify k fun v => g (f v) := by
  refine ext_get? fun i => ?_
  simp only [get?_modify]
  by_cases hk : i = k <;> simp [hk, Function.comp_def]

theorem modify_congr {m : SortedMap κ α} {k : κ} {f g : α → α} (h : ∀ v, m.get? k = some v → f v = g v) :
    m.modify k f = m.modify k g := by
  refine ext_get? fun i => ?_
  simp only [get?_modify]
  split
  · next hi =>
    subst hi
    cases hv : m.get? i with
    | none => rfl
    | some v => simp [h v hv]
  · rfl

theorem modify_id (m : SortedMap κ α) (k : κ) : (m.modify k fun v => v) = m := by
  refine ext_get? fun i => ?_
  rw [get?_modify]
  split <;> simp

theorem mapValues_modify {m : SortedMap κ α} {k : κ} {f : α → α} {h : κ → α → β} {g : β → β}
    (hfg : ∀ v, h k (f v) = g (h k v)) :
    (m.modify k f).mapValues h = (m.mapValues h).modify k g := by
  refine ext_get? fun i => ?_
  simp only [get?_mapValues, get?_modify]
  by_cases hi : i = k
  · subst hi
    cases m.get? i <;> simp [hfg]
  · simp [hi]

/-! ### Maps from lists of entries -/

variable [DecidableLT κ]

theorem forall_get?_insert {P : κ → α → Prop} {m : SortedMap κ α} (h : ∀ j w, m.get? j = some w → P j w) {k : κ} {v : α}
    (hv : P k v) (j : κ) (w : α) (hw : (m.insert k v).get? j = some w) : P j w := by
  rw [get?_insert] at hw
  split at hw
  · next hj =>
    cases hw
    rw [hj]
    exact hv
  · exact h j w hw

theorem erase_insert (m : SortedMap κ α) (k j : κ) (v : α) :
    (m.insert j v).erase k = if j = k then m.erase k else (m.erase k).insert j v := by
  refine ext_get? fun i => ?_
  by_cases hj : j = k <;> simp only [hj, if_true, if_false, get?_erase, get?_insert] <;> grind

theorem insertMany_append (m : SortedMap κ α) (es fs : List (κ × α)) :
    m.insertMany (es ++ fs) = (m.insertMany es).insertMany fs := List.foldl_append

theorem get?_insertMany_concat (m : SortedMap κ α) (es : List (κ × α)) (k : κ) (v : α) :
    (m.insertMany (es ++ [(k, v)])).get? k = some v := by
  rw [insertMany_append]
  show ((m.insertMany es).insert k v).get? k = some v
  rw [get?_insert, if_pos rfl]

theorem mem_of_get?_insertMany {es : List (κ × α)} {m : SortedMap κ α} {k : κ} {v : α}
    (h : (m.insertMany es).get? k = some v) : (k, v) ∈ es ∨ m.get? k = some v := by
  induction es generalizing m with
  | nil => exact .inr h
  | cons e es ih =>
    rcases ih (m := m.insert e.1 e.2) h with h | h
    · exact .inl (List.mem_cons_of_mem _ h)
    · rw [get?_insert] at h
      split at h
      · next hk =>
        cases h
        exact .inl (by simp [hk])
      · exact .inr h

theorem mem_of_get?_ofList {es : List (κ × α)} {k : κ} {v : α} (h : (ofList es).get? k = some v) :
    (k, v) ∈ es :=
  (mem_of_get?_insertMany h).resolve_right fun h => by cases h

theorem get?_insertMany_of_ne {es : List (κ × α)} {m : SortedMap κ α} {k : κ} (h : ∀ e ∈ es, e.1 ≠ k) :
    (m.insertMany es).get? k = m.get? k := by
  induction es generalizing m with
  | nil => rfl
  | cons e es ih =>
    show ((m.insert e.1 e.2).insertMany es).get? k = m.get? k
    rw [ih fun e' he' => h e' (by simp [he']), get?_insert, if_neg (Ne.symm (h e (by simp)))]

theorem get?_insertMany (m : SortedMap κ α) (es : List (κ × α)) (k : κ) :
    (m.insertMany es).get? k = ((ofList es).get? k).or (m.get? k) := by
  induction es generalizing m with
  | nil => rfl
  | cons e es ih =>
    show ((m.insert e.1 e.2).insertMany es).get? k = (((empty.insert e.1 e.2).insertMany es).get? k).or _
    rw [ih, ih (empty.insert e.1 e.2), get?_insert, get?_insert, Option.or_assoc]
    congr 1
    split
    · rfl
    · rfl

theorem insertMany_ofList (es : List (κ × α)) : (ofList es).insertMany es = ofList es := by
  refine ext_get? fun k => ?_
  rw [get?_insertMany]
  cases (ofList es).get? k <;> rfl

theorem get?_insertMany_of_mem {es : List (κ × α)} (hes : es.Pairwise fun a b => a.1 ≠ b.1) {k : κ} {v : α}
    (h : (k, v) ∈ es) (m : SortedMap κ α) : (m.insertMany es).get? k = some v := by
  induction es generalizing m with
  | nil => cases h
  | cons e es ih =>
    show ((m.insert e.1 e.2).insertMany es).get? k = some v
    rcases List.mem_cons.1 h with rfl | h
    · rw [get?_insertMany_of_ne fun e' he' => (List.rel_of_pairwise_cons hes he').symm, get?_insert, if_pos rfl]
    · exact ih hes.of_cons h _

theorem get?_ofList_of_mem {es : List (κ × α)} (hes : es.Pairwise fun a b => a.1 ≠ b.1) {k : κ} {v : α}
    (h : (k, v) ∈ es) : (ofList es).get? k = some v :=
  get?_insertMany_of_mem hes h empty

theorem get?_insertMany_entries (m n : SortedMap κ α) (k : κ) :
    (m.insertMany n.entries).get? k = (n.get? k).or (m.get? k) := by
  have hne : n.entries.Pairwise fun a b => a.1 ≠ b.1 := by
    refine n.sorted.imp fun {a b} hlt heq => ?_
    rw [heq] at hlt
    exact Std.lt_irrefl hlt
  cases hn : n.get? k with
  | none =>
    refine get?_insertMany_of_ne fun e he heq => ?_
    rw [← heq, mem_entries_iff.1 he] at hn
    cases hn
  | some v => exact get?_insertMany_of_mem hne (mem_entries_iff.2 hn) m

end Order

end Lockstep.SortedMap
