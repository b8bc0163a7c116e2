import Lockstep.Client
/-!
# Device models

A device model is a participant that acts at each rising edge of a clock: it looks at what the bus has
delivered, and settles what it drives until the next edge.
-/

namespace Lockstep

namespace Signals

def set (s : Signals) (name : String) (v : Bundle) : Signals := s.insert name v

def setBit (s : Signals) (name : String) (level : Level) : Signals := s.set name (.ofLevel level)

/-- Sets a signal to the lowest `width` digits of a number. -/
def setNat (s : Signals) (name : String) (n width : Nat) : Signals := s.set name (.ofNat n width)

def release (s : Signals) (name : String) : Signals := s.modify name fun v => .released v.width

/-- The number on a signal, and 0 if its wires carry none. -/
def number (s : Signals) (name : String) : Except ClientError Nat :=
  match s.get? name with
  | some v => .ok (v.toNat?.getD 0)
  | none => .error (.missingSignal name)

def require (s : Signals) (name : String) : Except ClientError Bundle :=
  match s.get? name with
  | some v => .ok v
  | none => .error (.missingSignal name)

end Signals

def maxWord : Nat := UInt32.size - 1

/-- A number as a 32-bit word. One that does not fit becomes the largest word. -/
def wordOf (n : Nat) : Nat := min n maxWord

end Lockstep
