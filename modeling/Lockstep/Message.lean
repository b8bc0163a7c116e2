import Lockstep.Signals
import Lockstep.Time
/-!
# Messages of the synchronization protocol

A participant introduces itself with `HELLO` and is welcomed with `YOU-ARE` or refused with `NAK`. Afterwards
the two sides alternate: the participant offers the signals it drives with `READY`, and the bus answers with
`UNTIL`, which carries the new time and the signals the participant sees. `FINISH` ends the exchange.
-/

namespace Lockstep

/-- The command word that opens a line. -/
inductive Command where
  | hello
  | youAre
  | nak
  | ready
  | deliver
  | finish
deriving DecidableEq, Inhabited

def Command.word : Command → String
  | .hello => "HELLO"
  | .youAre => "YOU-ARE"
  | .nak => "NAK"
  | .ready => "READY"
  | .deliver => "UNTIL"
  | .finish => "FINISH"

instance : ToString Command := ⟨Command.word⟩

def Command.all : List Command := [.hello, .youAre, .nak, .ready, .deliver, .finish]

/-- One line of the protocol. -/
inductive Message where
  /-- A participant introduces itself by the name of its device. -/
  | hello (name : String) (options : Options)
  /-- The participant is welcome, and this is its number. -/
  | youAre (ident : Ident)
  /-- The participant is refused. -/
  | nak
  /-- The participant stands at `time` and drives `signals`. -/
  | ready (time : Time) (signals : Signals)
  /-- The bus has moved to `time`, and the participant sees `signals`. -/
  | deliver (time : Time) (signals : Signals)
  /-- The participant leaves the bus. -/
  | finish
deriving DecidableEq

def Message.command : Message → Command
  | .hello .. => .hello
  | .youAre .. => .youAre
  | .nak => .nak
  | .ready .. => .ready
  | .deliver .. => .deliver
  | .finish => .finish

/-- The argument that a command cannot do without. -/
inductive Argument where
  | name
  | ident
  | time
deriving DecidableEq

def Argument.word : Argument → String
  | .name => "name"
  | .ident => "ident"
  | .time => "time"

/-- Why a line was not accepted. Every cause means that the other side sent something malformed. -/
inductive LineError where
  | tooLong (limit : Nat)
  | notText
  | noWords
  | unknownCommand (word : String)
  | missingArgument (command : Command) (argument : Argument)
  | unexpectedArgument (command : Command) (word : String)
  | invalidTime (cause : Time.Error)
  | invalidIdent (word : String)
  | noEquals (word : String)
  | noName (word : String)
  | invalidSignal (name : String) (cause : Bundle.Error)
  | duplicateSignal (name : String)
  | misfit (cause : Widths.Fault)
deriving DecidableEq

def Widths.Fault.message : Widths.Fault → String
  | .unknownSignal name => s!"Signal {name} is not driven by this participant on this bus"
  | .widthMismatch name expected found =>
    s!"Signal {name} has {found} bits but is configured {expected} bits wide"

def LineError.message : LineError → String
  | .tooLong limit => s!"Line exceeds {limit} bytes without a terminating newline"
  | .notText => "Line is not valid UTF-8 text"
  | .noWords => "Empty protocol line"
  | .unknownCommand word =>
    s!"Unknown command '{word}'. Expected one of HELLO, YOU-ARE, NAK, READY, UNTIL, FINISH"
  | .missingArgument command argument => s!"{command} is missing its {argument.word} argument"
  | .unexpectedArgument command word => s!"{command} takes no arguments, found '{word}'"
  | .invalidTime cause => s!"Invalid time: {cause}"
  | .invalidIdent word => s!"Invalid device identity '{word}'"
  | .noEquals word =>
    s!"Token '{word}' is missing '='. Signals and options must be written NAME=VALUE"
  | .noName word => s!"Token '{word}' has an empty name"
  | .invalidSignal name cause => s!"Signal {name} has an invalid value: {cause}"
  | .duplicateSignal name => s!"Signal {name} appears more than once"
  | .misfit cause => cause.message

instance : ToString LineError := ⟨LineError.message⟩

end Lockstep
