import Lockstep.Proofs.Engine.Rotation
/-!
# The counters of the arbiter

The arbiter counts idle clocks, and recalls the grant when the count reaches a number that it has drawn. In between the
count stays below that number (`Arbiter.InRange.arbitrate`), which is itself a 32-bit number. So the count does not
overflow, however long a bus is idle (`Arbiter.InRange.idle_succ_lt`).
-/

namespace Lockstep

namespace Arbiter

variable {a : Arbiter}

theorem longestLinger_pos {linger : UInt32} (h : linger ≠ 0) : 0 < longestLinger linger := by
  have hpos : 0 < linger.toNat := by
    apply Nat.pos_of_ne_zero
    intro hzero
    exact h (UInt32.toNat_inj.1 hzero)
  rw [longestLinger, lt_min_iff]
  exact ⟨by omega, by decide⟩

theorem longestLinger_lt (linger : UInt32) : max 1 (longestLinger linger) < UInt32.size := by
  have hlongest : longestLinger linger ≤ UInt32.size - 1 := min_le_right _ _
  have hsize : UInt32.size = 4294967296 := rfl
  omega

theorem drawLinger_mem_range (linger : UInt32) (g : Generator) :
    1 ≤ (drawLinger linger g).1 ∧ (drawLinger linger g).1 ≤ max 1 (longestLinger linger) := by
  unfold drawLinger
  split
  · exact ⟨le_rfl, le_max_left _ _⟩
  · next hlinger =>
    obtain ⟨hleast, hmost⟩ := Generator.draw_mem_range (longestLinger_pos hlinger) g
    exact ⟨hleast, le_max_of_le_right hmost⟩

theorem drawLinger_spec {linger : UInt32} (h : linger ≠ 0) (g : Generator) :
    ∃ i < UInt64.size, Generator.accepts (longestLinger linger) (g.after i).next32.1 = true ∧
      (∀ j < i, Generator.accepts (longestLinger linger) (g.after j).next32.1 = false) ∧
      drawLinger linger g =
        (Generator.scale (longestLinger linger) (g.after i).next32.1 + 1, g.after (i + 1)) := by
  rw [drawLinger, if_neg h]
  exact Generator.draw_spec (longestLinger_pos h) ((le_max_right _ _).trans_lt (longestLinger_lt linger)) g

/-- The numbers of an arbiter are what they should be. -/
structure InRange (a : Arbiter) : Prop where
  /-- The grantee is one of the devices that the arbiter serves. -/
  granted : ∀ n, a.granted = some n → n < arbiterSlots
  /-- The grant would have been recalled if it had lingered for longer. -/
  idle : a.idle < a.recallAfter
  /-- The grant is recalled after as many clocks as the configuration allows. -/
  recallAfter : a.recallAfter ≤ max 1 (longestLinger a.linger)

theorem inRange_start (parking : Parking) (linger : UInt32) (seed : UInt64) : (start parking linger seed).InRange := by
  obtain ⟨hleast, hmost⟩ := drawLinger_mem_range linger ⟨seed⟩
  refine ⟨fun n hn => ?_, hleast, hmost⟩
  cases hn

namespace InRange

theorem spend (h : a.InRange) : a.spend.InRange := ⟨h.granted, h.idle, h.recallAfter⟩

theorem idleClock (h : a.InRange) : a.idleClock.InRange := by
  unfold Arbiter.idleClock
  split
  · split
    · next hlingers => exact ⟨h.granted, hlingers, h.recallAfter⟩
    · obtain ⟨hleast, hmost⟩ := drawLinger_mem_range a.linger a.random
      refine ⟨fun n hn => ?_, hleast, hmost⟩
      cases hn
  · exact h

theorem arbitrate (h : a.InRange) (requests : UInt16) : (a.arbitrate requests).InRange := by
  have hreset : 0 < a.recallAfter := Nat.zero_lt_of_lt h.idle
  unfold Arbiter.arbitrate
  split
  · exact ⟨h.granted, hreset, h.recallAfter⟩
  · split
    · next next hpick =>
      refine ⟨fun n hn => ?_, hreset, h.recallAfter⟩
      cases hn
      exact lt_of_requesting (requesting_of_pick? hpick)
    · exact h.idleClock

/-- The count of idle clocks fits into 32 bits, also when another clock is counted. -/
theorem idle_succ_lt (h : a.InRange) : a.idle + 1 < UInt32.size :=
  calc a.idle + 1 ≤ a.recallAfter := h.idle
    _ ≤ max 1 (longestLinger a.linger) := h.recallAfter
    _ < UInt32.size := longestLinger_lt a.linger

end InRange

end Arbiter

namespace Pci

theorem inRange_risingEdge {p : Pci} (h : p.arbiter.InRange) (ps : Participants) :
    (p.risingEdge ps).1.arbiter.InRange := by
  have howner := p.ownership_spec ps
  show ((p.trackOwner ps).1.arbiter.arbitrate (requestMask ps)).InRange
  generalize (p.trackOwner ps).1 = p' at howner
  cases howner with
  | same | released | tookUngranted => exact h.arbitrate _
  | took => exact h.spend.arbitrate _

end Pci

end Lockstep
