import Lockstep.Engine.Pci
import Lockstep.Model.Drive
/-!
# PCI device models

A bus master that issues configuration reads of single words, and a target that answers reads of register 0
with its identity and of every other register with 0.
-/

namespace Lockstep.Pci

/-- The command of a configuration read. -/
def configRead : Nat := 10

/-- The clocks that a master waits for a target to claim its cycle. -/
def claimTimeout : Nat := 5

/-- What a read brings that no target claims. -/
def masterAbort : Nat := maxWord

/-- The lowest `bits` wires of a bundle carry a number, and the others are released. -/
def lowPart (n bits width : Nat) : Bundle := (Bundle.ofNat n bits).resize width .released

/-! ### Master -/

/-- A read that a master is asked for. -/
structure Query where
  target : Nat
  register : Nat
deriving DecidableEq

/-- Where a master is in its cycle. -/
inductive Cycle where
  | idle
  /-- It waits for the grant and for an idle bus. -/
  | requesting (query : Query)
  /-- The address is on the wires. -/
  | addressing
  /-- It has waited some clocks for the data. -/
  | waiting (clocks : Nat)
  /-- The cycle ends with this result. -/
  | closing (data : Option Nat)
deriving DecidableEq

structure Master where
  drive : Signals
  cycle : Cycle
deriving DecidableEq

namespace Master

def fresh : Master := ⟨.empty, .idle⟩

def start (m : Master) (q : Query) : Master := ⟨m.drive.setBit "REQ#" .zero, .requesting q⟩

/-- The address of a query: the select wire of the target, and the number of the register. -/
def address (q : Query) : Nat := 1 <<< (idselBase + q.target) + 4 * q.register

/-- What a master drives in its address phase. -/
def addressPhase (q : Query) (drive : Signals) : Signals :=
  (((drive.set "AD" (lowPart (address q) 32 64)).set "C/BE#" (lowPart configRead 4 8)).setBit
    "FRAME#" .zero).setBit "REQ#" .one

/-- What a master drives while it waits for data. -/
def dataPhase (drive : Signals) : Signals :=
  (((drive.setBit "FRAME#" .one).setBit "IRDY#" .zero).release "AD").set "C/BE#" (lowPart 0 4 8)

/-- What a master drives between two cycles. -/
def releaseAll (drive : Signals) : Signals :=
  ["FRAME#", "IRDY#", "AD", "C/BE#", "REQ#"].foldl Signals.release drive

/-- The word on the lower half of the address wires. -/
def dataWord (v : Bundle) : Option Nat := ((v.slice 0 32).toNat?).filter (· ≤ maxWord)

/-- A rising edge. The number is the result of the read that it completes. -/
def edge (seen : Signals) (m : Master) : Except ClientError (Master × Option Nat) :=
  match m.cycle with
  | .idle => .ok (m, none)
  | .requesting q =>
    let granted := seen.bit "GNT#" = .zero
    let idle := seen.bit "FRAME#" ≠ .zero ∧ seen.bit "IRDY#" ≠ .zero
    if granted ∧ idle then .ok (⟨addressPhase q m.drive, .addressing⟩, none) else .ok (m, none)
  | .addressing => .ok (⟨dataPhase m.drive, .waiting 0⟩, none)
  | .waiting clocks =>
    let close (data : Option Nat) : Master := ⟨m.drive.setBit "IRDY#" .one, .closing data⟩
    if seen.bit "DEVSEL#" = .zero ∧ seen.bit "TRDY#" = .zero then
      (seen.require "AD").map fun v => (close (dataWord v), none)
    else if clocks + 1 < claimTimeout then .ok (⟨m.drive, .waiting (clocks + 1)⟩, none)
    else .ok (close none, none)
  | .closing data => .ok (⟨releaseAll m.drive, .idle⟩, some (data.getD masterAbort))

end Master

/-! ### Target -/

structure Target where
  drive : Signals
  /-- What register 0 holds. -/
  id : Nat
  /-- The target answers a cycle. -/
  claimed : Bool
  /-- The reads it has completed. -/
  served : Nat
deriving DecidableEq

namespace Target

def fresh (id : Nat) : Target := ⟨.empty, id, false, 0⟩

/-- A configuration read of this target is on the wires. -/
def isAddressed (seen : Signals) : Bool :=
  let command := (seen.get? "C/BE#").bind fun v => (v.slice 0 4).toNat?
  seen.bit "FRAME#" = .zero && seen.bit "IDSEL" = .one && command = some configRead

/-- The register that is read, by the six wires that carry it. -/
def register (v : Bundle) : Nat := ((v.slice 2 6).toNat?).getD 0

/-- Claims a cycle and puts the answer on the wires. -/
def claim (t : Target) (register : Nat) : Target :=
  let value := if register = 0 then t.id else 0
  { t with
    drive := ((t.drive.setBit "DEVSEL#" .zero).setBit "TRDY#" .zero).set "AD" (lowPart value 32 64)
    claimed := true }

/-- Ends a cycle once the master has taken the data. -/
def complete (t : Target) : Target :=
  { t with
    drive := ["DEVSEL#", "TRDY#", "AD"].foldl Signals.release t.drive
    claimed := false
    served := t.served + 1 }

def edge (seen : Signals) (t : Target) : Except ClientError Target :=
  if t.claimed then .ok (if seen.bit "IRDY#" = .zero then t.complete else t)
  else if isAddressed seen then (seen.require "AD").map fun v => t.claim (register v)
  else .ok t

end Target

end Lockstep.Pci
