import Lockstep.Message
/-!
# The written form of messages

A message is written as its command word and its arguments, one space before each argument, and a line feed
at the end. Signals without wires are left out. Reading accepts any blanks between words, and refuses a line
with the first fault from the left.
-/

namespace Lockstep

/-! ### Writing -/

def assignment (name value : List Char) : List Char := name ++ '=' :: value

/-- The words of the options, in the order of their keys. -/
def Options.words (options : Options) : List (List Char) :=
  options.entries.map fun e => assignment e.1.toList e.2.toList

/-- The words of the signals that have wires, in the order of their names. -/
def Signals.words (signals : Signals) : List (List Char) :=
  (signals.entries.filter fun e => 0 < e.2.width).map fun e => assignment e.1.toList e.2.chars

namespace Message

def arguments : Message → List (List Char)
  | .hello name options => name.toList :: options.words
  | .youAre ident => [Text.ofNat ident.toNat]
  | .nak => []
  | .ready time signals => time.chars :: signals.words
  | .deliver time signals => time.chars :: signals.words
  | .finish => []

def chars (m : Message) : List Char :=
  m.command.word.toList ++ m.arguments.flatMap fun w => ' ' :: w

def text (m : Message) : String := String.ofList m.chars

def line (m : Message) : String := String.ofList (m.chars ++ ['\n'])

end Message

/-! ### Reading -/

/-- Splits a `NAME=VALUE` word at its first `=`. -/
def readAssignment (word : List Char) : Except LineError (String × List Char) :=
  match Text.cutFirst? '=' word with
  | none => .error (.noEquals (String.ofList word))
  | some ([], _) => .error (.noName (String.ofList word))
  | some (name, value) => .ok (String.ofList name, value)

/-- Adds the option in a word; the last one of a key counts. -/
def Options.read (options : Options) (word : List Char) : Except LineError Options := do
  let (key, value) ← readAssignment word
  return options.insert key (String.ofList value)

/-- Adds the signal in a word; a name must not come twice. -/
def Signals.read (signals : Signals) (word : List Char) : Except LineError Signals := do
  let (name, value) ← readAssignment word
  match Bundle.parse value with
  | .error cause => .error (.invalidSignal name cause)
  | .ok v =>
    if signals.contains name then .error (.duplicateSignal name)
    else return signals.insert name v

def Command.ofWord? (word : List Char) : Option Command :=
  Command.all.find? fun c => c.word.toList = word

namespace Message

/-- Reads the arguments of a line that names a participant. -/
def readHello : List (List Char) → Except LineError Message
  | [] => .error (.missingArgument .hello .name)
  | name :: ws => (ws.foldlM Options.read .empty).map (.hello (String.ofList name))

/-- Reads the arguments of a line that assigns a number. -/
def readYouAre : List (List Char) → Except LineError Message
  | [] => .error (.missingArgument .youAre .ident)
  | w :: ws =>
    match Text.unsigned32? w, ws with
    | none, _ => .error (.invalidIdent (String.ofList w))
    | some _, extra :: _ => .error (.unexpectedArgument .youAre (String.ofList extra))
    | some ident, [] => .ok (.youAre ident)

/-- Reads the arguments of a line without arguments. -/
def readBare (m : Message) : List (List Char) → Except LineError Message
  | [] => .ok m
  | extra :: _ => .error (.unexpectedArgument m.command (String.ofList extra))

/-- Reads the arguments of a line that carries a time and signals. -/
def readTimed (command : Command) (make : Time → Signals → Message) :
    List (List Char) → Except LineError Message
  | [] => .error (.missingArgument command .time)
  | w :: ws =>
    match Time.parse w with
    | .error cause => .error (.invalidTime cause)
    | .ok time => (ws.foldlM Signals.read .empty).map (make time)

def readWords : List (List Char) → Except LineError Message
  | [] => .error .noWords
  | w :: ws =>
    match Command.ofWord? w with
    | none => .error (.unknownCommand (String.ofList w))
    | some .hello => readHello ws
    | some .youAre => readYouAre ws
    | some .nak => readBare .nak ws
    | some .ready => readTimed .ready .ready ws
    | some .deliver => readTimed .deliver .deliver ws
    | some .finish => readBare .finish ws

/-- Reads a line, with or without its line feed. -/
def decode (line : String) : Except LineError Message := readWords (Text.words line.toList)

end Message

end Lockstep
