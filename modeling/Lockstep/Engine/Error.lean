import Lockstep.Signals
import Lockstep.Text.Numeral
/-!
# Options of the engines

Engines are configured by texts: those a device announces, those of the bus, and a default, in this order. A
text that makes no sense, or two ends of a link that do not agree, is an `EngineError`.
-/

namespace Lockstep

/-- What is wrong with the value of an option. -/
inductive OptionFault where
  | notUnsigned
  | tooWide
  | notPositive
  | notWholeBytes
  | notAddressWidth
  | notStreamWidth
  | notParkingMode
deriving DecidableEq

def OptionFault.message : OptionFault → String
  | .notUnsigned => "expected an unsigned integer"
  | .tooWide => "wider than the longest signal a line can carry"
  | .notPositive => "width must be positive"
  | .notWholeBytes => "must be a positive multiple of 8"
  | .notAddressWidth => "must be between 1 and 64"
  | .notStreamWidth => "must be 64, 128 or 256"
  | .notParkingMode => "expected none or last"

/-- The end of a link that a device may take. -/
inductive Role where
  | host
  | device
deriving DecidableEq

def Role.text : Role → String
  | .host => "host"
  | .device => "device"

/-- Why an engine refuses a configuration or the options of its devices. -/
inductive EngineError where
  | invalidOption (key value : String) (fault : OptionFault)
  | missingOption (device key : String)
  | optionMismatch (key : String) (left : String × Nat) (right : String × Nat)
  | missingRole (role : Role)
deriving DecidableEq

def EngineError.message : EngineError → String
  | .invalidOption key value fault => s!"Option {key}={value} is invalid: {fault.message}"
  | .missingOption device key =>
    s!"Device '{device}' did not announce {key} and the bus configures no default"
  | .optionMismatch key (left, leftValue) (right, rightValue) =>
    s!"{key} disagrees: '{left}' uses {leftValue}, '{right}' expects {rightValue}"
  | .missingRole role => s!"No device is acting as {role.text}"

instance : ToString EngineError := ⟨EngineError.message⟩

/-- The widest signal a device may announce; a wider one could not be written on one line. -/
def maxSignalWidth : Nat := 4096

/-- Reads the text of an option as an unsigned number below `bound`. -/
def readUnsigned (key text : String) (bound : Nat) : Except EngineError Nat :=
  match Text.naturalBelow? bound text.toList with
  | some n => .ok n
  | none => .error (.invalidOption key text .notUnsigned)

/-- A width that devices announce under `key`, that a bus configures under `busKey`, and that may have a
default. -/
structure WidthOption where
  key : String
  busKey : String
  fallback : Option Nat := none

/-- The text of the option that counts for a device, if it or the bus gives one. -/
def WidthOption.text? (o : WidthOption) (announced bus : Options) : Option String :=
  (announced.get? o.key).or (bus.get? o.busKey)

/-- The width of a device before it is compared with the widest one. -/
def WidthOption.requested (o : WidthOption) (device : String) (announced bus : Options) :
    Except EngineError Nat :=
  match o.text? announced bus, o.fallback with
  | some text, _ => readUnsigned o.key text UInt64.size
  | none, some width => .ok width
  | none, none => .error (.missingOption device o.key)

def WidthOption.resolve (o : WidthOption) (device : String) (announced bus : Options) :
    Except EngineError Nat := do
  let width ← o.requested device announced bus
  if maxSignalWidth < width then .error (.invalidOption o.key (toString width) .tooWide)
  else return width

/-- Both ends of a link must have resolved `key` to the same number. -/
def agree (key : String) (left right : String × Nat) : Except EngineError Unit :=
  if left.2 = right.2 then .ok () else .error (.optionMismatch key left right)

end Lockstep
