import Lockstep.Address
import Lockstep.Clock
import Lockstep.Engine.Error
import Lockstep.Protocol
import Lockstep.Text.Word
/-!
# Bus configurations

A bus is configured with a name, an address, a protocol, a clock, the devices that may join it and the options
of its protocol. `fault?` finds the first structural fault; the values of options are for the engine to check.
-/

namespace Lockstep

/-- A participant that a bus expects. -/
structure Device where
  name : String
  ident : Ident
  host : Bool
deriving DecidableEq, Inhabited

structure BusConfig where
  name : String
  address : Address
  protocol : Protocol
  clock : ClockTiming
  devices : List Device
  options : Options
deriving DecidableEq, Inhabited

/-- The highest number that PCI has an IDSEL wire and interrupts for. -/
def pciMaxIdent : Ident := 15

/-- Why a bus is not started. -/
inductive ConfigError where
  | noBusName
  | duplicateBusName (name : String)
  | duplicateAddress (bus : String) (address : Address)
  | noDevices (bus : String)
  | invalidDeviceName (bus name : String)
  | duplicateDeviceName (bus name : String)
  | duplicateIdent (bus : String) (ident : Ident)
  | identOutOfRange (bus : String) (protocol : Protocol) (ident : Ident)
  | wrongDeviceCount (bus : String) (protocol : Protocol) (found : Nat)
  | wrongHostCount (bus : String) (protocol : Protocol) (found : Nat)
  | invalidClock (bus : String) (fault : ClockTiming.Fault)
  | engine (bus : String) (cause : EngineError)
deriving DecidableEq

def ConfigError.message : ConfigError → String
  | .noBusName => "Bus name must not be empty"
  | .duplicateBusName name => s!"Bus name '{name}' is configured more than once"
  | .duplicateAddress bus address =>
    s!"Bus '{bus}' listens on {address}, which is already used by another bus"
  | .noDevices bus => s!"Bus '{bus}' has no devices"
  | .invalidDeviceName bus name => s!"Bus '{bus}' has an invalid device name '{name}'"
  | .duplicateDeviceName bus name => s!"Bus '{bus}' has more than one device named '{name}'"
  | .duplicateIdent bus ident => s!"Bus '{bus}' has more than one device with ident {ident}"
  | .identOutOfRange bus protocol ident =>
    s!"Bus '{bus}': ident {ident} is out of range, {protocol} allows at most {pciMaxIdent}"
  | .wrongDeviceCount bus protocol found =>
    s!"Bus '{bus}': {protocol} requires exactly 2 devices, found {found}"
  | .wrongHostCount bus protocol found =>
    s!"Bus '{bus}': {protocol} requires exactly one host, found {found}"
  | .invalidClock bus fault => s!"Bus '{bus}': clock timing is invalid, {fault.message}"
  | .engine bus cause => s!"Bus '{bus}': {cause}"

instance : ToString ConfigError := ⟨ConfigError.message⟩

/-- A device is named by a word that could stand in an assignment. -/
def Device.hasValidName (d : Device) : Bool :=
  !d.name.toList.isEmpty && d.name.toList.all fun c => !Text.isSpace c && c ≠ '='

namespace BusConfig

def device? (c : BusConfig) (name : String) : Option Device := c.devices.find? (·.name = name)

/-- What keeps a device from joining a bus beside another one. -/
def clash? (bus : String) (device other : Device) : Option ConfigError :=
  if other.name = device.name then some (.duplicateDeviceName bus device.name)
  else if other.ident = device.ident then some (.duplicateIdent bus device.ident)
  else none

/-- The first fault of a list of devices, of which `earlier` have been found in order. -/
def devicesFault? (bus : String) (earlier : List Device) : List Device → Option ConfigError
  | [] => none
  | d :: ds =>
    if !d.hasValidName then some (.invalidDeviceName bus d.name)
    else match earlier.findSome? (clash? bus d) with
      | some e => some e
      | none => devicesFault? bus (earlier ++ [d]) ds

/-- A paired protocol needs two devices, of which one is the host. -/
def pairFault? (c : BusConfig) : Option ConfigError :=
  let hosts := c.devices.countP (·.host)
  if c.devices.length ≠ 2 then some (.wrongDeviceCount c.name c.protocol c.devices.length)
  else if hosts ≠ 1 then some (.wrongHostCount c.name c.protocol hosts)
  else none

/-- A shared protocol needs small numbers. -/
def sharedFault? (c : BusConfig) : Option ConfigError :=
  (c.devices.find? (pciMaxIdent < ·.ident)).map fun d => .identOutOfRange c.name c.protocol d.ident

def fault? (c : BusConfig) : Option ConfigError :=
  if c.name.isEmpty then some .noBusName
  else match c.clock.fault? with
    | some f => some (.invalidClock c.name f)
    | none =>
      if c.devices.isEmpty then some (.noDevices c.name)
      else match devicesFault? c.name [] c.devices with
        | some e => some e
        | none => if c.protocol.isPaired then c.pairFault? else c.sharedFault?

end BusConfig

end Lockstep
