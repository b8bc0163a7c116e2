import Lockstep.Engine.Relay
/-!
# Point-to-point links

A host and a device exchange a data bundle each way: what one calls `DATA_O` the other sees as `DATA_I`. The
host may also stop the clock of the device. The options of the bus are written from the host's point of view,
so the device reads them the other way round.
-/

namespace Lockstep

/-- What the host asks of the clock of the device. -/
inductive ClockMode where
  | run
  | stopReleased
  | stopZero
  | stopOne
deriving DecidableEq, Inhabited

namespace ClockMode

/-- `01` stops the clock undriven, `10` at 0 and `11` at 1. Everything else, definite or not, lets it run. -/
def ofBundle (v : Bundle) : ClockMode :=
  match v.toNat? with
  | some 1 => .stopReleased
  | some 2 => .stopZero
  | some 3 => .stopOne
  | _ => .run

/-- The level that the device is shown when the clock of the bus is at `level`. -/
def apply (mode : ClockMode) (level : Level) : Level :=
  match mode with
  | .run => level
  | .stopReleased => .released
  | .stopZero => .zero
  | .stopOne => .one

end ClockMode

namespace PointToPoint

def inputKey : String := "WIDTH_I"

def outputKey : String := "WIDTH_O"

/-- The widths of one end, from its own point of view. -/
structure Widths where
  input : Nat
  output : Nat
deriving DecidableEq

/-- Where the input width of an end is looked up. -/
def inputOption (host : Bool) : WidthOption :=
  { key := inputKey, busKey := if host then inputKey else outputKey }

/-- Where the output width of an end is looked up. -/
def outputOption (host : Bool) : WidthOption :=
  { key := outputKey, busKey := if host then outputKey else inputKey }

/-- Both data bundles need wires. -/
def Widths.checked (w : Widths) : Except EngineError Widths :=
  if w.input = 0 then .error (.invalidOption inputKey "0" .notPositive)
  else if w.output = 0 then .error (.invalidOption outputKey "0" .notPositive)
  else .ok w

/-- The widths of a device that announced some options. -/
def widths (device : Device) (announced bus : Options) : Except EngineError Widths := do
  let input ← (inputOption device.host).resolve device.name announced bus
  let output ← (outputOption device.host).resolve device.name announced bus
  Widths.checked ⟨input, output⟩

/-- The bus may leave the widths to the devices, but must not give ones that are no numbers. -/
def check (bus : Options) : Except EngineError Unit :=
  [inputKey, outputKey].forM fun key =>
    match bus.get? key with
    | some text => (readUnsigned key text UInt64.size).map fun _ => ()
    | none => .ok ()

def driven (device : Device) (announced bus : Options) : Except EngineError Lockstep.Widths := do
  let w ← widths device announced bus
  let data : Lockstep.Widths := .ofList [("DATA_O", w.output)]
  return if device.host then data.insert "CLOCK_MODE" 2 else data

def table (toDevice toHost : Nat) : RelayTable :=
  .ofList [
    .crossed "DATA_O" "DATA_I" toDevice .hostToDevice,
    .crossed "DATA_O" "DATA_I" toHost .deviceToHost]

/-- What one end drives must be as wide as what the other end expects. -/
def connect (host device : Slot) (bus : Options) : Except EngineError (RelayTable × BusNotice) := do
  let h ← widths host.device host.options bus
  let d ← widths device.device device.options bus
  agree outputKey (host.name, h.output) (device.name, d.input)
  agree inputKey (host.name, h.input) (device.name, d.output)
  return (table h.output h.input, .pointToPointLink h.output h.input)

def clockName : String := "CLOCK"

/-- The clock mode that holds at present: a host that has left lets the clock run. -/
def clockMode (host : Ident) (ps : Participants) : ClockMode :=
  match ps.get? host with
  | some slot => if slot.finished then .run else .ofBundle (slot.drives "CLOCK_MODE")
  | none => .run

/-- Shows the clock to both ends, to the device as the host wants it. -/
def showClock (link : Link) (level : Level) (ps : Participants) : Participants :=
  let mode := clockMode link.host ps
  (ps.modify link.host (·.sendBit clockName level)).modify link.device
    (·.sendBit clockName (mode.apply level))

end PointToPoint

end Lockstep
