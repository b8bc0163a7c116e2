import Lockstep.Address
/-!
# Internet addresses

An IP address is read from its usual texts and written in canonical form: dotted decimals for version 4, and
for version 6 lower-case hexadecimal groups, of which the first longest run of two or more zeros is left out.
A version 4 address mapped into version 6 keeps its dotted part.
-/

namespace Lockstep

/-- Four octets, or eight groups of 16 bits. -/
inductive InternetAddress where
  | v4 (octets : List Nat)
  | v6 (groups : List Nat)
deriving DecidableEq

namespace InternetAddress

/-! ### Writing -/

def dotted (octets : List Nat) : String := ".".intercalate (octets.map toString)

def hexadecimal (n : Nat) : String := String.ofList (Nat.toDigits 16 n)

def colonSeparated (groups : List Nat) : String := ":".intercalate (groups.map hexadecimal)

def leadingZeros (groups : List Nat) : Nat := (groups.takeWhile (· = 0)).length

/-- Start and length of the first longest run of zeros. -/
def longestZeros (groups : List Nat) : Nat × Nat :=
  (List.range groups.length).foldl (fun best i =>
    let n := leadingZeros (groups.drop i)
    if best.2 < n then (i, n) else best) (0, 0)

def groupsText (groups : List Nat) : String :=
  let (start, count) := longestZeros groups
  if 1 < count then
    colonSeparated (groups.take start) ++ "::" ++ colonSeparated (groups.drop (start + count))
  else colonSeparated groups

def text : InternetAddress → String
  | .v4 octets => dotted octets
  | .v6 [0, 0, 0, 0, 0, 0xffff, a, b] => "::ffff:" ++ dotted [a / 256, a % 256, b / 256, b % 256]
  | .v6 groups => groupsText groups

/-! ### Reading -/

/-- A decimal octet without superfluous zeros. -/
def octet? (cs : List Char) : Option Nat :=
  if cs.length ≤ 3 ∧ (cs.head? = some '0' → cs.length = 1) then
    (Text.digits? cs).filter (· < 256)
  else none

def octets? (cs : List Char) : Option (List Nat) :=
  ((cs.splitOn '.').mapM octet?).filter fun os => os.length = 4

def hexDigit? (c : Char) : Option Nat :=
  if c.isDigit then some (c.toNat - '0'.toNat)
  else if 'a' ≤ c ∧ c ≤ 'f' then some (c.toNat - 'a'.toNat + 10)
  else if 'A' ≤ c ∧ c ≤ 'F' then some (c.toNat - 'A'.toNat + 10)
  else none

/-- A group of one to four hexadecimal digits. -/
def group? (cs : List Char) : Option Nat :=
  if cs ≠ [] ∧ cs.length ≤ 4 then
    cs.foldlM (fun n c => (hexDigit? c).map fun d => 16 * n + d) 0
  else none

/-- Groups between colons, of which the last may be two groups written as four octets. -/
def groups? : List (List Char) → Option (List Nat)
  | [] => some []
  | [last] =>
    match group? last, octets? last with
    | some g, _ => some [g]
    | none, some [a, b, c, d] => some [256 * a + b, 256 * c + d]
    | none, _ => none
  | w :: ws => do
    let g ← group? w
    let gs ← groups? ws
    return g :: gs

/-- The pieces between colons; a text without characters has none. -/
def colonPieces (cs : List Char) : List (List Char) := if cs.isEmpty then [] else cs.splitOn ':'

/-- Cuts a text at its first `::`. -/
def cutGap? : List Char → Option (List Char × List Char)
  | ':' :: ':' :: r => some ([], r)
  | c :: r => (cutGap? r).map fun (left, right) => (c :: left, right)
  | [] => none

/-- Eight groups, or fewer around one `::`, which stands for at least one zero group. Octets are admitted at
the very end only. -/
def sixteens? (cs : List Char) : Option (List Nat) :=
  match cutGap? cs with
  | none => (groups? (colonPieces cs)).filter fun gs => gs.length = 8
  | some (left, right) => do
    let gs ← (colonPieces left).mapM group?
    let hs ← groups? (colonPieces right)
    let known := gs.length + hs.length
    if known < 8 then some (gs ++ List.replicate (8 - known) 0 ++ hs) else none

def parse? (cs : List Char) : Option InternetAddress :=
  match octets? cs with
  | some os => some (.v4 os)
  | none => (sixteens? cs).map .v6

/-- A port, which takes digits only. -/
def port? (cs : List Char) : Option UInt16 :=
  ((Text.digits? cs).filter (· < UInt16.size)).map Nat.toUInt16

/-- The address inside brackets, without the zone that may follow it. -/
def bracketed? (cs : List Char) : Option (List Nat) :=
  match Text.cutFirst? '%' cs with
  | none => sixteens? cs
  | some (ip, zone) =>
    if ((Text.digits? zone).filter (· < UInt32.size)).isSome then sixteens? ip else none

/-- Reads a socket address, `a.b.c.d:port` or `[groups]:port`. -/
def socket? : List Char → Option (InternetAddress × UInt16)
  | '[' :: r => do
    let (inside, after) ← Text.cutFirst? ']' r
    let groups ← bracketed? inside
    let (before, port) ← Text.cutFirst? ':' after
    if before.isEmpty then return (.v6 groups, ← port? port) else none
  | cs => do
    let (ip, port) ← Text.cutFirst? ':' cs
    return (.v4 (← octets? ip), ← port? port)

end InternetAddress

/-- The address at which a socket is reached: its host is the canonical text of the IP address. -/
def Address.ofSocket? (text : String) : Option Address :=
  (InternetAddress.socket? text.toList).map fun (ip, port) => .tcp ip.text port

end Lockstep
