import Lockstep.Level
import Lockstep.Time
/-!
# The clock of a bus

A clock period has four points at which the bus steps: just after the rising edge, after the hold window, just
after the falling edge, and at the start of the setup window before the next rising edge. A clock starts in the
setup window, so that its first step is a rising edge.
-/

namespace Lockstep

/-- The shape of a period, in picoseconds. `hold` is measured from the rising edge, `setup` back from the next
one. -/
structure ClockTiming where
  high : UInt64
  low : UInt64
  hold : UInt64
  setup : UInt64
deriving DecidableEq, Inhabited

namespace ClockTiming

/-- A clock of 100 MHz that is high half of the time. -/
def standard : ClockTiming := ⟨5000, 5000, 1000, 1000⟩

def period (t : ClockTiming) : Nat := t.high.toNat + t.low.toNat

/-- Which window of the clock has an impossible length. -/
inductive Fault where
  | hold
  | setup
deriving DecidableEq

def Fault.message : Fault → String
  | .hold => "hold must be positive and shorter than high"
  | .setup => "setup must be positive and shorter than low"

/-- Both windows are positive, and each is shorter than the half of the period that holds it. -/
def fault? (t : ClockTiming) : Option Fault :=
  if t.hold = 0 ∨ t.high ≤ t.hold then some .hold
  else if t.setup = 0 ∨ t.low ≤ t.setup then some .setup
  else none

end ClockTiming

/-- A point of the clock period. -/
inductive Phase where
  /-- Just after the rising edge, inside the hold window. -/
  | rising
  /-- The clock is high, the hold window is over. -/
  | high
  /-- Just after the falling edge. -/
  | falling
  /-- The clock is low, inside the setup window. -/
  | setup
deriving DecidableEq, Inhabited

namespace Phase

def next : Phase → Phase
  | .rising => .high
  | .high => .falling
  | .falling => .setup
  | .setup => .rising

def level : Phase → Level
  | .rising | .high => .one
  | .falling | .setup => .zero

def index : Phase → Nat
  | .rising => 0
  | .high => 1
  | .falling => 2
  | .setup => 3

def all : List Phase := [.rising, .high, .falling, .setup]

def ofIndex? (n : Nat) : Option Phase := all.find? fun p => p.index = n

end Phase

/-- The picoseconds that pass on the way into a phase. -/
def ClockTiming.span (t : ClockTiming) : Phase → UInt64
  | .rising => t.setup
  | .high => t.hold
  | .falling => t.high - t.hold
  | .setup => t.low - t.setup

/-- The time that passes on the way into a phase. -/
def ClockTiming.duration (t : ClockTiming) (phase : Phase) : Time := .ofPicoseconds (t.span phase)

/-- A clock on its walk through the phases. -/
structure Clock where
  timing : ClockTiming
  phase : Phase
deriving DecidableEq

namespace Clock

def start (timing : ClockTiming) : Clock := ⟨timing, .setup⟩

def advance (c : Clock) : Clock := { c with phase := c.phase.next }

/-- The time that passed on the way into the present phase. -/
def elapsed (c : Clock) : Time := c.timing.duration c.phase

end Clock

end Lockstep
