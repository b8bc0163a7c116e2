import Lockstep.Proofs.Bundle.Number
import Lockstep.Proofs.Message.Grammar
/-!
# Bundles, numbers and texts

A bundle is turned into a number and into a text, and both are turned into bundles. Each way back undoes the way there,
as far as there is one (`Bundle.converts_exactly`): a number keeps the digits for which there are wires, a bundle carries
a number if its levels are definite and it fits 64 bits, and every text of levels is that of one bundle. Numbers are
read from the least significant wire on, which is the first one. In a text it comes last.
-/

namespace Lockstep.Bundle

variable {v : Bundle} {s : String}

/-! ### Texts -/

theorem toList_text (v : Bundle) : v.text.toList = v.chars := String.toList_ofList

theorem length_chars (v : Bundle) : v.chars.length = v.width := by
  rw [chars, List.length_map, List.length_reverse]
  rfl

theorem getElem?_chars {i : ℕ} (h : i < v.width) : v.chars[i]? = some (v.getD (v.width - 1 - i)).char := by
  have hi : v.width - 1 - i < v.bits.length := by
    show _ < v.width
    omega
  rw [chars, List.getElem?_map, List.getElem?_reverse h, getD, get?]
  show (v.bits[v.width - 1 - i]?).map _ = _
  rw [List.getElem?_eq_getElem hi]
  rfl

/-- A bundle without wires has a text, but one that cannot be read. -/
theorem parse_text_iff : parse v.text.toList = .ok v ↔ 0 < v.width := by
  rw [parse_eq_ok_iff, toList_text, and_iff_left rfl, ← List.length_pos_iff, length_chars]

theorem exists_parse_iff : (∃ v, parse s.toList = .ok v) ↔ IsBits s.toList := by
  simp only [parse_eq_ok_iff, exists_and_left, isBits_iff]

theorem text_of_parse (h : parse s.toList = .ok v) : v.text = s := by
  rw [text, (parse_eq_ok_iff.1 h).2, String.ofList_toList]

/-! ### There and back -/

/-- What comes of a bundle, a number and a text that are turned into each other. -/
structure Converts (v : Bundle) (n : UInt64) (width : ℕ) (s : String) : Prop where
  /-- A bundle carries a number if its levels are definite and the wires from the 64th on carry zeros. The number is
  the sum of the powers of two of the wires that carry a one. -/
  number : ∀ k, v.toNat? = some k ↔
    v.isDefinite = true ∧ (∀ i, 64 ≤ i → i < v.width → v.getD i = .zero) ∧ k = ∑ i ∈ v.ones, 2 ^ i
  number_back : ∀ k, v.toNat? = some k → ofNat k v.width = v
  wires : (ofNat n.toNat width).width = width
  /-- Only digits for which there is no wire are lost. -/
  wires_back : (ofNat n.toNat width).toNat? = some (if width < 64 then n.toNat % 2 ^ width else n.toNat)
  /-- The text has a character for each wire, the most significant one first. -/
  text : v.text.length = v.width ∧ ∀ i < v.width, v.text.toList[i]? = some (v.getD (v.width - 1 - i)).char
  text_back : parse v.text.toList = .ok v ↔ 0 < v.width
  /-- A text can be read if it consists of levels, at least one of them. -/
  levels : (∃ w, parse s.toList = .ok w) ↔ s ≠ "" ∧ ∀ c ∈ s.toList, c = '0' ∨ c = '1' ∨ c = 'x' ∨ c = 'z'
  levels_back : ∀ w, parse s.toList = .ok w → w.text = s

/-- **Exact conversion.** Bundles, numbers and texts are turned into each other without loss. -/
theorem converts_exactly (v : Bundle) (n : UInt64) (width : ℕ) (s : String) : Converts v n width s := by
  refine ⟨fun k => toNat?_eq_some_iff, fun k => ofNat_of_toNat?, width_ofNat _ _, toNat?_ofNat_toNat n width,
    ⟨?_, fun i hi => ?_⟩, parse_text_iff, ?_, fun w => text_of_parse⟩
  · rw [← String.length_toList, toList_text, length_chars]
  · rw [toList_text, getElem?_chars hi]
  · rw [exists_parse_iff, IsBits, ne_eq, String.toList_eq_nil_iff]

end Lockstep.Bundle
