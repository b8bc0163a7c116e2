import Lockstep.Level
/-!
# Bundles of wires

A bundle is a list of levels, least significant bit first. Its written form has the most significant bit
first, and a bundle without wires has none.
-/

namespace Lockstep

/-- Wires in order of significance, the least significant one first. -/
structure Bundle where
  bits : List Level
deriving DecidableEq, Inhabited

namespace Bundle

/-- Why two bundles could not be combined, or a text is not a bundle. -/
inductive Error where
  | widthMismatch (expected found : Nat)
  | invalidBit (character : Char)
  | noBits
deriving DecidableEq

def Error.message : Error → String
  | .widthMismatch expected found => s!"Signal width mismatch: expected {expected} bits, found {found}"
  | .invalidBit character => s!"Invalid bit character '{character}'. Bits must be one of 0, 1, x, z"
  | .noBits => "Signal value is empty"

instance : ToString Error := ⟨Error.message⟩

def width (v : Bundle) : Nat := v.bits.length

/-! ### Making bundles -/

def filled (width : Nat) (level : Level) : Bundle := ⟨List.replicate width level⟩

def released (width : Nat) : Bundle := filled width .released

def ofLevel (level : Level) : Bundle := ⟨[level]⟩

/-- The lowest `width` binary digits of a number, least significant first. -/
def binaryDigits : Nat → Nat → List Level
  | 0, _ => []
  | width + 1, n => .ofBool (n % 2 = 1) :: binaryDigits width (n / 2)

/-- `width` wires that carry a number, less the digits for which there is no wire. -/
def ofNat (n width : Nat) : Bundle := ⟨binaryDigits width n⟩

@[simp] theorem width_filled (width : Nat) (level : Level) : (filled width level).width = width := by
  simp [filled, Bundle.width]

@[simp] theorem width_released (width : Nat) : (released width).width = width := width_filled _ _

@[simp] theorem width_ofLevel (level : Level) : (ofLevel level).width = 1 := rfl

theorem length_binaryDigits (width n : Nat) : (binaryDigits width n).length = width := by
  induction width generalizing n with
  | zero => rfl
  | succ width ih => simp [binaryDigits, ih]

@[simp] theorem width_ofNat (n width : Nat) : (ofNat n width).width = width := length_binaryDigits width n

/-! ### Written form -/

/-- The levels from the most significant one down. -/
def chars (v : Bundle) : List Char := v.bits.reverse.map Level.char

def text (v : Bundle) : String := String.ofList v.chars

instance : ToString Bundle := ⟨text⟩

def level (c : Char) : Except Error Level :=
  match Level.ofChar? c with
  | some l => .ok l
  | none => .error (.invalidBit c)

/-- Reads the written form, which has at least one bit. The first character that is not a bit is at fault. -/
def parse (cs : List Char) : Except Error Bundle :=
  if cs.isEmpty then .error .noBits
  else (cs.mapM level).map fun ls => ⟨ls.reverse⟩

/-! ### Parts of a bundle -/

def get? (v : Bundle) (i : Nat) : Option Level := v.bits[i]?

/-- The level of wire `i`, released where the bundle has no such wire. -/
def getD (v : Bundle) (i : Nat) : Level := (v.get? i).getD .released

def set (v : Bundle) (i : Nat) (level : Level) : Bundle := ⟨v.bits.set i level⟩

/-- Cuts the bundle to `width` wires, or extends it by wires at `level`. -/
def resize (v : Bundle) (width : Nat) (level : Level) : Bundle :=
  ⟨v.bits.take width ++ List.replicate (width - v.width) level⟩

/-- `width` wires from `low` on, released past the end. -/
def slice (v : Bundle) (low width : Nat) : Bundle := resize ⟨v.bits.drop low⟩ width .released

def isAll (v : Bundle) (level : Level) : Bool := v.bits.all (· = level)

def isDefinite (v : Bundle) : Bool := v.bits.all Level.isDefinite

@[simp] theorem width_set (v : Bundle) (i : Nat) (level : Level) : (v.set i level).width = v.width := by
  simp [set, Bundle.width]

@[simp] theorem width_resize (v : Bundle) (width : Nat) (level : Level) :
    (v.resize width level).width = width := by
  simp only [resize, Bundle.width, List.length_append, List.length_take, List.length_replicate]
  omega

@[simp] theorem width_slice (v : Bundle) (low width : Nat) : (v.slice low width).width = width :=
  width_resize _ _ _

/-! ### Numbers -/

/-- A level as the lowest binary digit of a number whose other digits are given. -/
def digit? (l : Level) (rest : Option Nat) : Option Nat :=
  l.toBool?.bind fun b => rest.map fun n => b.toNat + 2 * n

/-- The number whose binary digits are the given definite levels, least significant first. -/
def numberOf? (ls : List Level) : Option Nat := ls.foldr digit? (some 0)

/-- The number that a bundle of definite levels stands for, if it fits 64 bits. -/
def toNat? (v : Bundle) : Option Nat := (numberOf? v.bits).filter (· < UInt64.size)

/-! ### Several drivers -/

/-- Combines two bundles of one width wire by wire. -/
def zip (f : Level → Level → Level) (v w : Bundle) : Except Error Bundle :=
  if v.width = w.width then .ok ⟨List.zipWith f v.bits w.bits⟩
  else .error (.widthMismatch v.width w.width)

theorem zip_eq_ok_iff {f : Level → Level → Level} {v w u : Bundle} :
    zip f v w = .ok u ↔ v.width = w.width ∧ u = ⟨List.zipWith f v.bits w.bits⟩ := by
  unfold zip
  split
  · next h => simp [h, eq_comm]
  · next h => simp [h]

theorem width_eq_of_zip_eq_ok {f : Level → Level → Level} {v w u : Bundle} (h : zip f v w = .ok u) :
    u.width = v.width := by
  obtain ⟨hw, rfl⟩ := zip_eq_ok_iff.1 h
  simp only [Bundle.width] at hw
  simp [Bundle.width, hw]

/-- Resolves two drivers of the same wires. -/
def blend (v w : Bundle) : Except Error Bundle := zip Level.blend v w

/-- What the driver of `own` is shown of the resolved wires. -/
def seenBy (wires own : Bundle) : Except Error Bundle := zip Level.seenBy wires own

end Bundle

end Lockstep
