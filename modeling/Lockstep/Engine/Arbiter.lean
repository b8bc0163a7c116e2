import Lockstep.Engine.Random
/-!
# The PCI arbiter

A central arbiter hands one grant round among sixteen devices. It runs once for each rising clock edge. A
grantee that still requests keeps its grant until it has used it; otherwise the next requesting device in
cyclic order gets it. When nobody requests, the grant stays with the last grantee or is recalled after a random
number of idle clocks.
-/

namespace Lockstep

/-- What happens to the grant when nobody requests. -/
inductive Parking where
  /-- The grant is recalled after a random number of idle clocks. -/
  | none
  /-- The grant stays with the last grantee. -/
  | last
deriving DecidableEq, Inhabited

/-- The parking mode that a configuration names. -/
def Parking.ofText? : String → Option Parking
  | "none" => some .none
  | "last" => some .last
  | _ => Option.none

/-- The number of devices that an arbiter serves. -/
def arbiterSlots : Nat := 16

structure Arbiter where
  granted : Option Nat
  /-- The grantee has started a transaction under its grant. -/
  spent : Bool
  parking : Parking
  /-- About how many idle clocks pass before a grant is recalled. -/
  linger : UInt32
  /-- The idle clocks since the last request. -/
  idle : Nat
  /-- The number of idle clocks after which the grant is recalled. -/
  recallAfter : Nat
  random : Generator
deriving DecidableEq

namespace Arbiter

/-- The most idle clocks that a grant may outlast. -/
def longestLinger (linger : UInt32) : Nat := min (2 * linger.toNat) (UInt32.size - 1)

/-- Draws a number of idle clocks, about `linger` on average, and one if that is zero. -/
def drawLinger (linger : UInt32) (g : Generator) : Nat × Generator :=
  if linger = 0 then (1, g) else g.draw (longestLinger linger)

/-- An arbiter that has granted nothing yet. -/
def start (parking : Parking) (linger : UInt32) (seed : UInt64) : Arbiter :=
  let (recallAfter, random) := drawLinger linger ⟨seed⟩
  { granted := none, spent := false, parking, linger, idle := 0, recallAfter, random }

/-- The grantee has become bus master, so its grant is up for arbitration again. -/
def spend (a : Arbiter) : Arbiter := { a with spent := true }

/-- Device `i` requests the bus: bit `i` of the requests is set. -/
def requesting (requests : UInt16) (i : Nat) : Bool := requests.toNat.testBit i

/-- The devices in the order in which they are asked: those after the grantee first, the grantee last. -/
def order (granted : Option Nat) : List Nat :=
  let first := match granted with
    | some current => current + 1
    | none => 0
  (List.range arbiterSlots).map fun offset => (first + offset) % arbiterSlots

/-- The next device in order that requests the bus. -/
def pick? (granted : Option Nat) (requests : UInt16) : Option Nat :=
  (order granted).find? (requesting requests)

/-- The grantee still requests and has not used its grant. -/
def keeps (a : Arbiter) (requests : UInt16) : Bool :=
  match a.granted with
  | some current => requesting requests current && !a.spent
  | none => false

/-- An idle clock: a grant that is not parked may be recalled. -/
def idleClock (a : Arbiter) : Arbiter :=
  if a.parking = .none ∧ a.granted.isSome then
    if a.idle + 1 < a.recallAfter then { a with idle := a.idle + 1 }
    else
      let (recallAfter, random) := drawLinger a.linger a.random
      { a with granted := none, spent := false, idle := 0, recallAfter, random }
  else a

def arbitrate (a : Arbiter) (requests : UInt16) : Arbiter :=
  if a.keeps requests then { a with idle := 0 }
  else match pick? a.granted requests with
    | some next => { a with granted := some next, spent := false, idle := 0 }
    | none => a.idleClock

end Arbiter

end Lockstep
