import Lockstep.Text.Bytes
import Lockstep.Text.Numeral
import Lockstep.Text.Word
/-!
# Where a bus listens

An address is `tcp:[host:]port` or `pipe:path`. The scheme ends at the first colon and a port starts after the
last one, so hosts and paths may hold colons of their own. A path is bytes, and need not be a text; the written
form of an address shows it as one all the same.
-/

namespace Lockstep

/-- The name of a file. The bytes need not be those of a text. -/
structure Path where
  bytes : List UInt8
deriving DecidableEq, Inhabited

namespace Path

def ofChars (cs : List Char) : Path := ⟨Text.bytes cs⟩

def chars (p : Path) : List Char := Text.lossy p.bytes

instance : Coe String Path := ⟨fun text => ofChars text.toList⟩

instance : Coe Path String := ⟨fun p => String.ofList p.chars⟩

end Path

/-- The place at which the participants of a bus connect. -/
inductive Address where
  | tcp (host : String) (port : UInt16)
  /-- A local stream socket. -/
  | pipe (path : Path)
deriving DecidableEq, Inhabited

namespace Address

/-- The host of a `tcp` address that names none. -/
def defaultHost : String := "localhost"

/-- Why a text is no address. -/
inductive Error where
  | noScheme (text : String)
  | unknownScheme (scheme : String)
  | invalidPort (text : String)
  | noPath
deriving DecidableEq

def Error.message : Error → String
  | .noScheme text => s!"Bus address '{text}' has no scheme. Expected tcp:[host:]port or pipe:path"
  | .unknownScheme scheme => s!"Unknown bus address scheme '{scheme}'. Expected tcp or pipe"
  | .invalidPort text => s!"Invalid TCP port '{text}'"
  | .noPath => "pipe: address requires a path"

def chars : Address → List Char
  | .tcp host port => "tcp:".toList ++ host.toList ++ ':' :: Text.ofNat port.toNat
  | .pipe path => "pipe:".toList ++ path.chars

def text (a : Address) : String := String.ofList a.chars

instance : ToString Address := ⟨text⟩

def parseTcp (rest : List Char) : Except Error Address :=
  let (host, port) := (Text.cutLast? ':' rest).getD ([], rest)
  match Text.unsigned16? port with
  | none => .error (.invalidPort (String.ofList port))
  | some p => .ok (.tcp (if host.isEmpty then defaultHost else String.ofList host) p)

def parsePipe (rest : List Char) : Except Error Address :=
  if rest.isEmpty then .error .noPath else .ok (.pipe (.ofChars rest))

def parse (text : String) : Except Error Address :=
  match Text.cutFirst? ':' text.toList with
  | none => .error (.noScheme text)
  | some (scheme, rest) =>
    if scheme = "tcp".toList then parseTcp rest
    else if scheme = "pipe".toList then parsePipe rest
    else .error (.unknownScheme (String.ofList scheme))

/-! ### Collisions -/

def slash : UInt8 := 0x2f

/-- The name of the place itself. -/
def dot : List UInt8 := [0x2e]

/-- The steps of a path: whether it starts at the root, and the names on the way. Empty names and `.` lead
nowhere, except that a relative path may start with `.`. -/
def pathSteps (path : Path) : Bool × List (List UInt8) :=
  match path.bytes.splitOn slash with
  | [] => (false, [])
  | first :: rest => (path.bytes.head? = some slash,
      (if first.isEmpty then [] else [first]) ++ rest.filter fun s => !s.isEmpty && s ≠ dot)

def samePlace : Address → Address → Bool
  | .tcp host port, .tcp host' port' => host = host' && port = port'
  | .pipe path, .pipe path' => pathSteps path = pathSteps path'
  | _, _ => false

/-- Port 0 stands for any free port, so it never collides with another address. -/
def anyPort : Address → Bool
  | .tcp _ port => port = 0
  | .pipe _ => false

/-- Two buses cannot listen on both addresses. -/
def collides (a b : Address) : Bool := !a.anyPort && !b.anyPort && a.samePlace b

end Address

end Lockstep
