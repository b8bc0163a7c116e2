/-!
# Blanks and words

A line of the wire protocol is read as a list of words: the maximal runs of characters that are not
blank. The wire knows the five ASCII blanks only. Names in a configuration are checked against the larger
Unicode set, which contains them.
-/

namespace Lockstep.Text

/-- The blanks of the wire: space, tab, line feed, form feed and carriage return. -/
def isBlank (c : Char) : Bool :=
  c = ' ' || c = '\t' || c = '\n' || c = '\x0c' || c = '\r'

/-- The characters with the Unicode property `White_Space`. -/
def isSpace (c : Char) : Bool :=
  let n := c.toNat
  (9 ≤ n && n ≤ 13) || n = 0x20 || n = 0x85 || n = 0xa0 || n = 0x1680 ||
    (0x2000 ≤ n && n ≤ 0x200a) || n = 0x2028 || n = 0x2029 || n = 0x202f || n = 0x205f || n = 0x3000

/-- The maximal runs of characters that are not blank, in order. -/
def words (cs : List Char) : List (List Char) :=
  (cs.splitOnP isBlank).filter fun w => !w.isEmpty

/-- Cuts a list at the first occurrence of `sep`: what stands before it and what stands after it. -/
def cutFirst? {α : Type} [DecidableEq α] (sep : α) (cs : List α) : Option (List α × List α) :=
  match cs.dropWhile (· ≠ sep) with
  | [] => none
  | _ :: rest => some (cs.takeWhile (· ≠ sep), rest)

/-- Cuts a list at the last occurrence of `sep`. -/
def cutLast? {α : Type} [DecidableEq α] (sep : α) (cs : List α) : Option (List α × List α) :=
  (cutFirst? sep cs.reverse).map fun (after, before) => (before.reverse, after.reverse)

theorem cutFirst?_eq_some_iff {α : Type} [DecidableEq α] {sep : α} {cs left right : List α} :
    cutFirst? sep cs = some (left, right) ↔ cs = left ++ sep :: right ∧ sep ∉ left := by
  induction cs generalizing left with
  | nil => simp [cutFirst?]
  | cons c r ih =>
    by_cases hc : c = sep
    · subst hc
      cases left with
      | nil => simp [cutFirst?]
      | cons l left => simp [cutFirst?]; grind
    · have hstep : cutFirst? sep (c :: r) = (cutFirst? sep r).map fun p => (c :: p.1, p.2) := by
        simp only [cutFirst?, List.dropWhile_cons, List.takeWhile_cons]
        simp only [ne_eq, hc, not_false_eq_true, decide_true, if_true]
        split <;> simp
      rw [hstep]
      cases left with
      | nil => simp [hc]
      | cons l left =>
        constructor
        · intro h
          obtain ⟨⟨a, b⟩, hab, h⟩ := Option.map_eq_some_iff.1 h
          cases h
          obtain ⟨rfl, hnot⟩ := ih.1 hab
          simp [hnot, Ne.symm hc]
        · rintro ⟨h, hnot⟩
          rw [List.cons_append, List.cons.injEq] at h
          rw [ih.2 ⟨h.2, fun hm => hnot (List.mem_cons_of_mem _ hm)⟩, h.1]
          rfl

theorem cutFirst?_eq_none_iff {α : Type} [DecidableEq α] {sep : α} {cs : List α} :
    cutFirst? sep cs = none ↔ sep ∉ cs := by
  constructor
  · intro h hm
    obtain ⟨left, right, hcs, hnot⟩ := List.eq_append_cons_of_mem hm
    rw [cutFirst?_eq_some_iff.2 ⟨hcs, hnot⟩] at h
    cases h
  · intro h
    cases hc : cutFirst? sep cs with
    | none => rfl
    | some p => exact absurd (by simp [(cutFirst?_eq_some_iff.1 hc).1]) h

/-- The cut is at the last `sep` since none is left after it. -/
theorem cutLast?_eq_some_iff {α : Type} [DecidableEq α] {sep : α} {cs left right : List α} :
    cutLast? sep cs = some (left, right) ↔ cs = left ++ sep :: right ∧ sep ∉ right := by
  rw [cutLast?, Option.map_eq_some_iff]
  constructor
  · rintro ⟨⟨after, before⟩, hcut, heq⟩
    cases heq
    obtain ⟨hcs, hnot⟩ := cutFirst?_eq_some_iff.1 hcut
    rw [← List.reverse_reverse cs, hcs]
    exact ⟨by simp, by rwa [List.mem_reverse]⟩
  · rintro ⟨rfl, hnot⟩
    have hcut : cutFirst? sep (left ++ sep :: right).reverse = some (right.reverse, left.reverse) :=
      cutFirst?_eq_some_iff.2 ⟨by simp, by rwa [List.mem_reverse]⟩
    exact ⟨_, hcut, Prod.ext (List.reverse_reverse left) (List.reverse_reverse right)⟩

theorem cutLast?_eq_none_iff {α : Type} [DecidableEq α] {sep : α} {cs : List α} :
    cutLast? sep cs = none ↔ sep ∉ cs := by
  rw [cutLast?, Option.map_eq_none_iff, cutFirst?_eq_none_iff, List.mem_reverse]

end Lockstep.Text
