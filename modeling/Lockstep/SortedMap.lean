/-!
# Maps ordered by key

A finite map is the list of its entries in strictly increasing order of their keys. The order is part of the
type, so two maps with the same entries are equal, and whatever walks over a map (encoding a message, serving
the participants of a bus) meets the entries in the order of the keys.

`get?_insert`, `get?_modify`, `get?_mapValues` and `ext_get?` say what the operations do to look-ups and that
look-ups determine the map.
-/

namespace Lockstep

/-- A finite map from `κ` to `α`, kept in strictly increasing order of its keys. -/
structure SortedMap (κ : Type) (α : Type) [LT κ] where
  entries : List (κ × α)
  sorted : entries.Pairwise fun a b => a.1 < b.1

namespace SortedMap

variable {κ α β : Type}

/-! ### Lists of entries -/

section Entries

variable [DecidableEq κ]

/-- The value at a key in a list of entries. -/
def lookup (k : κ) : List (κ × α) → Option α
  | [] => none
  | (k', v) :: r => if k' = k then some v else lookup k r

theorem lookup_eq_none_of_forall_ne {k : κ} {es : List (κ × α)} (h : ∀ e ∈ es, e.1 ≠ k) :
    lookup k es = none := by
  induction es with
  | nil => rfl
  | cons e r ih =>
    rw [lookup, if_neg (h e (by simp)), ih fun e' he' => h e' (by simp [he'])]

theorem mem_of_lookup {k : κ} {v : α} {es : List (κ × α)} (h : lookup k es = some v) :
    (k, v) ∈ es := by
  induction es with
  | nil => simp [lookup] at h
  | cons e r ih =>
    obtain ⟨k', v'⟩ := e
    rw [lookup] at h
    split at h
    · next hk => cases h; subst hk; simp
    · exact List.mem_cons_of_mem _ (ih h)

end Entries

variable [LT κ]

/-! ### The type -/

instance [DecidableEq κ] [DecidableEq α] : DecidableEq (SortedMap κ α) := fun m n =>
  decidable_of_iff (m.entries = n.entries) <| by
    cases m; cases n; simp

def empty : SortedMap κ α := ⟨[], .nil⟩

instance : EmptyCollection (SortedMap κ α) := ⟨empty⟩

instance : Inhabited (SortedMap κ α) := ⟨empty⟩

def keys (m : SortedMap κ α) : List κ := m.entries.map (·.1)

/-- The values in increasing order of their keys. -/
def values (m : SortedMap κ α) : List α := m.entries.map (·.2)

def size (m : SortedMap κ α) : Nat := m.entries.length

def isEmpty (m : SortedMap κ α) : Bool := m.entries.isEmpty

/-! ### Look-up -/

section Lookup

variable [DecidableEq κ]

def get? (m : SortedMap κ α) (k : κ) : Option α := lookup k m.entries

def contains (m : SortedMap κ α) (k : κ) : Bool := (m.get? k).isSome

@[simp] theorem get?_empty (k : κ) : (empty : SortedMap κ α).get? k = none := rfl

end Lookup

/-! ### Changing values, keeping the keys -/

/-- Applies `f` to every value, which may look at its key. -/
def mapValues (f : κ → α → β) (m : SortedMap κ α) : SortedMap κ β where
  entries := m.entries.map fun e => (e.1, f e.1 e.2)
  sorted := List.pairwise_map.2 m.sorted

@[simp] theorem keys_mapValues (f : κ → α → β) (m : SortedMap κ α) :
    (m.mapValues f).keys = m.keys := by
  simp [keys, mapValues]

theorem values_mapValues (f : κ → α → β) (m : SortedMap κ α) :
    (m.mapValues f).values = m.entries.map fun e => f e.1 e.2 := by
  simp [values, mapValues]

theorem get?_mapValues [DecidableEq κ] (f : κ → α → β) (m : SortedMap κ α) (k : κ) :
    (m.mapValues f).get? k = (m.get? k).map (f k) := by
  obtain ⟨es, _⟩ := m
  simp only [get?, mapValues]
  induction es with
  | nil => rfl
  | cons e r ih =>
    simp only [List.map_cons, lookup]
    split
    · next hk => simp [hk]
    · exact ih (List.Pairwise.of_cons ‹_›)

/-- Applies `f` to the value at `k`, if there is one. -/
def modify [DecidableEq κ] (m : SortedMap κ α) (k : κ) (f : α → α) : SortedMap κ α :=
  m.mapValues fun k' v => if k' = k then f v else v

@[simp] theorem keys_modify [DecidableEq κ] (m : SortedMap κ α) (k : κ) (f : α → α) :
    (m.modify k f).keys = m.keys := keys_mapValues _ _

theorem get?_modify [DecidableEq κ] (m : SortedMap κ α) (k j : κ) (f : α → α) :
    (m.modify k f).get? j = if j = k then (m.get? j).map f else m.get? j := by
  rw [modify, get?_mapValues]
  split <;> simp_all

/-! ### Leaving entries out -/

def filter (p : κ → α → Bool) (m : SortedMap κ α) : SortedMap κ α where
  entries := m.entries.filter fun e => p e.1 e.2
  sorted := m.sorted.filter _

def erase [DecidableEq κ] (m : SortedMap κ α) (k : κ) : SortedMap κ α :=
  m.filter fun k' _ => k' ≠ k

/-! ### Insertion -/

section Insertion

variable [DecidableEq κ] [DecidableLT κ]

/-- Puts an entry at its place in a sorted list, replacing the one of the same key. -/
def insertEntry (k : κ) (v : α) : List (κ × α) → List (κ × α)
  | [] => [(k, v)]
  | (k', v') :: r =>
    if k' = k then (k, v) :: r
    else if k' < k then (k', v') :: insertEntry k v r
    else (k, v) :: (k', v') :: r

theorem mem_insertEntry {k : κ} {v : α} {e : κ × α} {es : List (κ × α)} (h : e ∈ insertEntry k v es) :
    e = (k, v) ∨ e ∈ es := by
  induction es with
  | nil => simpa [insertEntry] using h
  | cons e' r ih =>
    obtain ⟨k', v'⟩ := e'
    rw [insertEntry] at h
    split at h
    · rcases List.mem_cons.1 h with h | h <;> simp [h]
    · split at h
      · rcases List.mem_cons.1 h with h | h
        · simp [h]
        · rcases ih h with h | h <;> simp [h]
      · rcases List.mem_cons.1 h with h | h
        · simp [h]
        · exact .inr h

theorem lookup_insertEntry (k j : κ) (v : α) (es : List (κ × α)) :
    lookup j (insertEntry k v es) = if j = k then some v else lookup j es := by
  induction es with
  | nil => simp only [insertEntry, lookup, eq_comm]
  | cons e r ih =>
    obtain ⟨k', v'⟩ := e
    rw [insertEntry]
    grind [lookup]

variable [LE κ] [Std.IsLinearOrder κ] [Std.LawfulOrderLT κ]

theorem sorted_insertEntry (k : κ) (v : α) {es : List (κ × α)}
    (h : es.Pairwise fun a b => a.1 < b.1) :
    (insertEntry k v es).Pairwise fun a b => a.1 < b.1 := by
  induction es with
  | nil => simp [insertEntry]
  | cons e r ih =>
    obtain ⟨k', v'⟩ := e
    have hr : ∀ {e}, e ∈ r → k' < e.1 := List.rel_of_pairwise_cons h
    rw [insertEntry]
    split
    · next hk =>
      subst hk
      exact List.pairwise_cons.2 ⟨fun e he => hr he, h.of_cons⟩
    · next hk =>
      split
      · next hlt =>
        refine List.pairwise_cons.2 ⟨fun e he => ?_, ih h.of_cons⟩
        rcases mem_insertEntry he with rfl | he
        · exact hlt
        · exact hr he
      · next hnlt =>
        have hlt : k < k' := by
          rcases Std.lt_trichotomy k k' with h' | h' | h'
          · exact h'
          · exact absurd h'.symm hk
          · exact absurd h' hnlt
        refine List.pairwise_cons.2 ⟨fun e he => ?_, h⟩
        rcases List.mem_cons.1 he with rfl | he
        · exact hlt
        · exact Std.lt_trans hlt (hr he)

/-- The map with the value at `k` set to `v`. -/
def insert (m : SortedMap κ α) (k : κ) (v : α) : SortedMap κ α where
  entries := insertEntry k v m.entries
  sorted := sorted_insertEntry k v m.sorted

theorem get?_insert (m : SortedMap κ α) (k j : κ) (v : α) :
    (m.insert k v).get? j = if j = k then some v else m.get? j :=
  lookup_insertEntry k j v m.entries

/-- The map with every entry of a list inserted in turn, so that the last one of a key stays. -/
def insertMany (m : SortedMap κ α) (es : List (κ × α)) : SortedMap κ α :=
  es.foldl (fun m e => m.insert e.1 e.2) m

/-- The map of a list of entries, of which the last one of a key stays. -/
def ofList (es : List (κ × α)) : SortedMap κ α := empty.insertMany es

end Insertion

/-! ### Look-ups determine the map -/

theorem ext_get? [DecidableEq κ] [LE κ] [Std.IsLinearOrder κ] [Std.LawfulOrderLT κ]
    {m n : SortedMap κ α} (h : ∀ k, m.get? k = n.get? k) : m = n := by
  obtain ⟨es, hes⟩ := m
  obtain ⟨fs, hfs⟩ := n
  simp only [SortedMap.mk.injEq]
  simp only [get?] at h
  induction es generalizing fs with
  | nil =>
    cases fs with
    | nil => rfl
    | cons f r => simpa [lookup] using h f.1
  | cons e r ih =>
    have hne : ∀ {e : κ × α} {r : List (κ × α)}, (e :: r).Pairwise (fun a b => a.1 < b.1) →
        lookup e.1 r = none := fun hp =>
      lookup_eq_none_of_forall_ne fun e' he' heq =>
        Std.lt_irrefl (heq ▸ List.rel_of_pairwise_cons hp he')
    cases fs with
    | nil => simpa [lookup] using h e.1
    | cons f s =>
      have hkey : e.1 = f.1 := by
        by_cases hk : f.1 = e.1
        · exact hk.symm
        · have h₁ := h e.1
          have h₂ := h f.1
          rw [lookup, if_pos rfl, lookup, if_neg hk] at h₁
          rw [lookup, if_neg (Ne.symm hk), lookup, if_pos rfl] at h₂
          exact absurd (Std.lt_trans (List.rel_of_pairwise_cons hes (mem_of_lookup h₂))
            (List.rel_of_pairwise_cons hfs (mem_of_lookup h₁.symm))) Std.lt_irrefl
      have hval : e.2 = f.2 := by
        have := h e.1
        rw [lookup, if_pos rfl, lookup, if_pos hkey.symm] at this
        exact Option.some.inj this
      have : r = s := ih hes.of_cons s hfs.of_cons fun k => by
        have hk' := h k
        rw [lookup, lookup] at hk'
        by_cases hk : e.1 = k
        · subst hk
          rw [hne hes, hkey, hne hfs]
        · rwa [if_neg hk, if_neg (hkey ▸ hk)] at hk'
      rw [this, Prod.ext hkey hval]

end SortedMap

end Lockstep
