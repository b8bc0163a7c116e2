import Lockstep.Bundle
import Lockstep.SortedMap
/-!
# Named signals

Signals travel as maps from names to bundles. `Widths` says which signals one side may drive and how wide
each of them is; a map of signals is checked against it in the order of the names.
-/

namespace Lockstep

/-- A device of a bus is known by a number. -/
abbrev Ident := UInt32

/-- The `KEY=VALUE` pairs that configure a bus or that a device announces. -/
abbrev Options := SortedMap String String

abbrev Signals := SortedMap String Bundle

/-- The widths of the signals that one side may drive. -/
abbrev Widths := SortedMap String Nat

/-- The level of wire 0 of a signal, released where the signal is absent or has no wires. -/
def Signals.bit (signals : Signals) (name : String) : Level :=
  match signals.get? name with
  | some v => v.getD 0
  | none => .released

/-- The signals of `signals`, and those of `base` that it does not mention. -/
def Signals.over (signals base : Signals) : Signals := base.insertMany signals.entries

/-- Every signal at its width, with all its wires at one level. -/
def Widths.filled (widths : Widths) (level : Level) : Signals :=
  widths.mapValues fun _ width => .filled width level

/-- Why a map of signals does not fit the widths. -/
inductive Widths.Fault where
  | unknownSignal (name : String)
  | widthMismatch (name : String) (expected found : Nat)
deriving DecidableEq

/-- What is wrong with one signal, if anything. -/
def Widths.signalFault? (widths : Widths) (name : String) (value : Bundle) : Option Widths.Fault :=
  match widths.get? name with
  | none => some (.unknownSignal name)
  | some expected =>
    if value.width = expected then none else some (.widthMismatch name expected value.width)

/-- The first signal, in the order of names, that does not fit. -/
def Widths.fault? (widths : Widths) (signals : Signals) : Option Widths.Fault :=
  signals.entries.findSome? fun e => widths.signalFault? e.1 e.2

end Lockstep
