/-!
# Reproducible random numbers

A generator walks through all 64-bit states in steps of an odd constant and mixes each state with a
multiplication. A number from `1` to `n` is drawn by scaling a 32-bit number and rejecting the few that would
favour some results over others.

Some number is accepted within one round through the states (`Generator.exists_accepts`): the number 1 is accepted
whatever `n` is, and `Generator.beforeOne` gives it. So a draw ends with the first number that is accepted
(`Generator.draw_spec`), and the bound on its tries is never reached.
-/

namespace Lockstep

/-- A source of random numbers, determined by its state. -/
structure Generator where
  state : UInt64
deriving DecidableEq, Inhabited

namespace Generator

def stride : UInt64 := 0xa0761d6478bd642f

def mask : UInt64 := 0xe7037ed1a0b428db

/-- The next 64 random bits: the two halves of a product, folded into one. -/
def next64 (g : Generator) : UInt64 × Generator :=
  let state := g.state + stride
  let product := state.toNat * (state ^^^ mask).toNat
  (product.toUInt64 ^^^ (product >>> 64).toUInt64, ⟨state⟩)

def next32 (g : Generator) : Nat × Generator :=
  let (bits, g) := g.next64
  (bits.toNat % UInt32.size, g)

/-- The place of `n` equal parts of the 32-bit range into which `r` falls. -/
def scale (n r : Nat) : Nat := r * n / UInt32.size

/-- `r` is not one of the numbers left over when the range is cut into parts of one size. -/
def accepts (n r : Nat) : Bool := (UInt32.size - n) % n ≤ r * n % UInt32.size

/-- Draws until a number is accepted, `tries` times at most. -/
def drawWithin (n : Nat) : Nat → Generator → Nat × Generator
  | 0, g => (0, g)
  | tries + 1, g =>
    let (r, g) := g.next32
    if accepts n r then (scale n r, g) else drawWithin n tries g

/-- A random number from `1` to `n`. -/
def draw (n : Nat) (g : Generator) : Nat × Generator :=
  let (k, g) := drawWithin n UInt64.size g
  (k + 1, g)

theorem scale_lt {n r : Nat} (hn : 0 < n) (hr : r < UInt32.size) : scale n r < n := by
  rw [scale, Nat.div_lt_iff_lt_mul (by decide), Nat.mul_comm n]
  exact Nat.mul_lt_mul_of_lt_of_le hr (Nat.le_refl n) hn

theorem drawWithin_lt {n : Nat} (hn : 0 < n) (tries : Nat) (g : Generator) :
    (drawWithin n tries g).1 < n := by
  induction tries generalizing g with
  | zero => exact hn
  | succ tries ih =>
    have hr : g.next32.1 < UInt32.size := Nat.mod_lt _ (by decide)
    rcases hg : g.next32 with ⟨r, g'⟩
    rw [hg] at hr
    simp only [drawWithin, hg]
    split
    · exact scale_lt hn hr
    · exact ih g'

theorem draw_mem_range {n : Nat} (hn : 0 < n) (g : Generator) :
    1 ≤ (g.draw n).1 ∧ (g.draw n).1 ≤ n := by
  have := drawWithin_lt hn UInt64.size g
  simp only [draw]
  omega

/-! ### The first number that is accepted -/

def after (g : Generator) (i : Nat) : Generator := ⟨g.state + i.toUInt64 * stride⟩

theorem after_zero (g : Generator) : g.after 0 = g := by simp [after]

theorem next32_snd (g : Generator) : g.next32.2 = g.after 1 := by simp [after, next32, next64]

theorem after_after (g : Generator) (i j : Nat) : (g.after i).after j = g.after (i + j) := by
  simp [after, UInt64.add_mul, UInt64.add_assoc]

theorem drawWithin_succ (n tries : Nat) (g : Generator) :
    drawWithin n (tries + 1) g =
      if accepts n g.next32.1 then (scale n g.next32.1, g.after 1) else drawWithin n tries (g.after 1) := by
  rw [← next32_snd]
  rfl

theorem drawWithin_spec (n tries : Nat) (g : Generator) :
    (∃ i < tries, accepts n (g.after i).next32.1 = true ∧ (∀ j < i, accepts n (g.after j).next32.1 = false) ∧
      drawWithin n tries g = (scale n (g.after i).next32.1, g.after (i + 1))) ∨
    ∀ i < tries, accepts n (g.after i).next32.1 = false := by
  induction tries generalizing g with
  | zero => exact .inr fun i hi => absurd hi (Nat.not_lt_zero i)
  | succ tries ih =>
    have hlater : ∀ i, (g.after 1).after i = g.after (i + 1) := fun i => by rw [after_after, Nat.add_comm]
    by_cases hfirst : accepts n g.next32.1 = true
    · refine .inl ⟨0, Nat.succ_pos tries, by rwa [after_zero], fun j hj => absurd hj (Nat.not_lt_zero j), ?_⟩
      rw [drawWithin_succ, if_pos hfirst, after_zero]
    · have hrejected : ∀ j, (∀ i < j, accepts n ((g.after 1).after i).next32.1 = false) →
          ∀ i < j + 1, accepts n (g.after i).next32.1 = false := by
        intro j hj i hi
        cases i with
        | zero => rwa [after_zero, ← Bool.not_eq_true]
        | succ i => rw [← hlater]; exact hj i (Nat.lt_of_succ_lt_succ hi)
      rw [drawWithin_succ, if_neg hfirst]
      rcases ih (g.after 1) with ⟨i, hi, haccepts, hbefore, hdraw⟩ | hnone
      · rw [hlater] at haccepts
        rw [hlater, hlater] at hdraw
        exact .inl ⟨i + 1, Nat.succ_lt_succ hi, haccepts, hrejected i hbefore, hdraw⟩
      · exact .inr (hrejected tries hnone)

/-- A generator that gives the number 1 next. -/
def beforeOne : Generator := ⟨0x230cd71a - stride⟩

theorem next32_beforeOne : beforeOne.next32.1 = 1 := by decide

theorem accepts_one {n : Nat} (hn : 0 < n) (hlt : n < UInt32.size) : accepts n 1 = true := by
  rw [accepts, Nat.one_mul, Nat.mod_eq_of_lt hlt]
  exact decide_eq_true (Nat.le_of_lt (Nat.mod_lt _ hn))

/-- The stride is odd, so every state comes up. -/
theorem exists_after_eq (g g' : Generator) : ∃ i < UInt64.size, g.after i = g' := by
  refine ⟨((g'.state - g.state) * 0x939c72e4af1e62cf).toNat, UInt64.toNat_lt_size _, ?_⟩
  have hinverse : (0x939c72e4af1e62cf : UInt64) * stride = 1 := by decide
  rw [after, Nat.toUInt64, UInt64.ofNat_toNat, UInt64.mul_assoc, hinverse, UInt64.mul_one, UInt64.add_comm,
    UInt64.sub_add_cancel]

theorem exists_accepts {n : Nat} (hn : 0 < n) (hlt : n < UInt32.size) (g : Generator) :
    ∃ i < UInt64.size, accepts n (g.after i).next32.1 = true := by
  obtain ⟨i, hi, hone⟩ := g.exists_after_eq beforeOne
  refine ⟨i, hi, ?_⟩
  rw [hone, next32_beforeOne]
  exact accepts_one hn hlt

/-- However often numbers are rejected, a draw ends with one that is accepted. -/
theorem draw_spec {n : Nat} (hn : 0 < n) (hlt : n < UInt32.size) (g : Generator) :
    ∃ i < UInt64.size, accepts n (g.after i).next32.1 = true ∧
      (∀ j < i, accepts n (g.after j).next32.1 = false) ∧
      g.draw n = (scale n (g.after i).next32.1 + 1, g.after (i + 1)) := by
  rcases drawWithin_spec n UInt64.size g with ⟨i, hi, haccepts, hbefore, hdraw⟩ | hnone
  · exact ⟨i, hi, haccepts, hbefore, by rw [draw, hdraw]⟩
  · obtain ⟨i, hi, haccepts⟩ := exists_accepts hn hlt g
    rw [hnone i hi] at haccepts
    cases haccepts

end Generator

end Lockstep
