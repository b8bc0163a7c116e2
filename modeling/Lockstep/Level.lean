/-!
# Wire levels

A wire carries one of four levels: the two definite ones, `unknown` (driven, but to a level that is not known
or not agreed on) and `released` (not driven at all). Several drivers of one wire are resolved by `blend`,
which is commutative, associative and has `released` as its neutral element.
-/

namespace Lockstep

/-- The level of a single wire. -/
inductive Level where
  | zero
  | one
  | unknown
  | released
deriving DecidableEq, Inhabited

namespace Level

def char : Level → Char
  | .zero => '0'
  | .one => '1'
  | .unknown => 'x'
  | .released => 'z'

def ofChar? : Char → Option Level
  | '0' => some .zero
  | '1' => some .one
  | 'x' => some .unknown
  | 'z' => some .released
  | _ => none

theorem ofChar?_eq_some_iff {c : Char} {l : Level} : ofChar? c = some l ↔ c = l.char := by
  constructor
  · intro h
    unfold ofChar? at h
    split at h <;> first | (cases h; rfl) | cases h
  · rintro rfl
    cases l <;> rfl

def ofBool (b : Bool) : Level := if b then .one else .zero

def toBool? : Level → Option Bool
  | .zero => some false
  | .one => some true
  | .unknown | .released => none

def isDefinite (l : Level) : Bool := l.toBool?.isSome

/-- The place of a level in the order zero, one, unknown, released. -/
def rank : Level → Nat
  | .zero => 0
  | .one => 1
  | .unknown => 2
  | .released => 3

/-- Two drivers of one wire: a released wire takes the other's level, equal levels agree, and any other
pair is unknown. -/
def blend : Level → Level → Level
  | .released, b => b
  | a, .released => a
  | a, b => if a = b then a else .unknown

theorem blend_comm (a b : Level) : a.blend b = b.blend a := by
  cases a <;> cases b <;> rfl

theorem blend_assoc (a b c : Level) : (a.blend b).blend c = a.blend (b.blend c) := by
  cases a <;> cases b <;> cases c <;> rfl

@[simp] theorem released_blend (a : Level) : Level.released.blend a = a := rfl

@[simp] theorem blend_released (a : Level) : a.blend .released = a := by
  cases a <;> rfl

/-- What the driver of `own` is shown of a wire: nothing where the wire has the level it drives itself. -/
def seenBy (wire own : Level) : Level := if wire = own then .released else wire

end Level

end Lockstep
