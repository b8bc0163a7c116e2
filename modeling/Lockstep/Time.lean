import Lockstep.Text.Numeral
import Lockstep.Text.Word
/-!
# Exact simulation times

A time is `mantissa × 10 ^ exponent` seconds, with a 64-bit mantissa and a 32-bit exponent. Two times are
combined by rescaling the coarser one to the finer exponent, so nothing is ever rounded: a result that does
not fit is an overflow. Times are compared by value, so `1e0` and `10e-1` are equal without being the same.

A factor `10 ^ shift` is formed only for `shift < 20`: every larger power exceeds every 64-bit number, so it
neither fits a mantissa nor divides one other than zero.
-/

namespace Lockstep

/-- `mantissa × 10 ^ exponent` seconds. -/
structure Time where
  mantissa : UInt64
  exponent : Int32
deriving DecidableEq, Inhabited

namespace Time

/-- Clocks count picoseconds. -/
def picosecondExponent : Int32 := -12

def ofPicoseconds (n : UInt64) : Time := ⟨n, picosecondExponent⟩

def zero : Time := ofPicoseconds 0

def isZero (t : Time) : Bool := t.mantissa = 0

/-- The written form, `<mantissa>e<exponent>`. -/
def chars (t : Time) : List Char :=
  Text.ofNat t.mantissa.toNat ++ 'e' :: Text.ofInt t.exponent.toInt

def text (t : Time) : String := String.ofList t.chars

instance : ToString Time := ⟨text⟩

/-- Why a time could not be read or computed. -/
inductive Error where
  | overflow (left right : Time)
  | malformed (text : String)
deriving DecidableEq

def Error.message : Error → String
  | .overflow left right =>
    s!"Simulation time overflow combining {left} and {right}. " ++
      "The result cannot be represented without losing precision"
  | .malformed text =>
    s!"Invalid simulation time '{text}'. Expected <mantissa>e<exponent>, for example 1500e-12"

instance : ToString Error := ⟨Error.message⟩

/-- Reads the written form: the mantissa takes digits only, the exponent may have a sign. -/
def parse (cs : List Char) : Except Error Time :=
  let malformed := Error.malformed (String.ofList cs)
  match Text.cutFirst? 'e' cs with
  | none => .error malformed
  | some (left, right) =>
    match (Text.digits? left).filter (· < UInt64.size), Text.signed32? right with
    | some m, some e => .ok ⟨m.toUInt64, e⟩
    | _, _ => .error malformed

theorem parse_chars (t : Time) : parse t.chars = .ok t := by
  have hcut : Text.cutFirst? 'e' t.chars =
      some (Text.ofNat t.mantissa.toNat, Text.ofInt t.exponent.toInt) :=
    Text.cutFirst?_eq_some_iff.2 ⟨rfl, fun h => absurd (Text.isDigit_of_mem_ofNat h) (by decide)⟩
  have hm : (some t.mantissa.toNat).filter (· < UInt64.size) = some t.mantissa.toNat := by
    rw [Option.filter_some, if_pos (decide_eq_true t.mantissa.toNat_lt_size)]
  simp only [parse, hcut, Text.digits?_ofNat, Text.signed32?_ofInt_toInt, hm]
  simp

/-! ### Rescaling -/

/-- Powers of ten that fit 64 bits. -/
def powerOfTen? (shift : Nat) : Option Nat :=
  if shift < 20 then some (Nat.pow 10 shift) else none

/-- A mantissa, if it fits. -/
def mantissa? (n : Nat) : Option UInt64 :=
  if n < UInt64.size then some n.toUInt64 else none

/-- The mantissa of the same value at another exponent, if there is one. -/
def mantissaAt? (t : Time) (exponent : Int32) : Option UInt64 :=
  let shift := t.exponent.toInt - exponent.toInt
  if 0 ≤ shift then
    (powerOfTen? shift.toNat).bind fun scale => mantissa? (t.mantissa.toNat * scale)
  else
    (powerOfTen? (-shift).toNat).bind fun scale =>
      if t.mantissa.toNat % scale = 0 then mantissa? (t.mantissa.toNat / scale) else none

/-- The same value at another exponent. Zero is zero at every exponent. -/
def rescale (t : Time) (exponent : Int32) : Except Error Time :=
  if t.mantissa = 0 then .ok ⟨0, exponent⟩
  else match t.mantissaAt? exponent with
    | some m => .ok ⟨m, exponent⟩
    | none => .error (.overflow t ⟨1, exponent⟩)

/-! ### Addition -/

/-- The mantissa of a sum at a given exponent, if there is one. -/
def sumAt? (a b : Time) (exponent : Int32) : Option UInt64 :=
  (a.mantissaAt? exponent).bind fun m =>
    (b.mantissaAt? exponent).bind fun n => mantissa? (m.toNat + n.toNat)

def finerExponent (a b : Time) : Int32 :=
  if a.exponent ≤ b.exponent then a.exponent else b.exponent

/-- The exact sum, at the finer of the two exponents. A zero leaves the other time as it is. -/
def add (a b : Time) : Except Error Time :=
  if b.mantissa = 0 then .ok a
  else if a.mantissa = 0 then .ok b
  else match sumAt? a b (finerExponent a b) with
    | some m => .ok ⟨m, finerExponent a b⟩
    | none => .error (.overflow a b)

/-! ### Comparison -/

/-- Compares `coarse × 10 ^ shift` with `fine`. -/
def compareScaled (coarse : UInt64) (shift : Nat) (fine : UInt64) : Ordering :=
  if coarse = 0 then compare 0 fine.toNat
  else match powerOfTen? shift with
    | some scale => compare (coarse.toNat * scale) fine.toNat
    | none => .gt

def cmp (a b : Time) : Ordering :=
  let shift := a.exponent.toInt - b.exponent.toInt
  if 0 ≤ shift then compareScaled a.mantissa shift.toNat b.mantissa
  else (compareScaled b.mantissa (-shift).toNat a.mantissa).swap

def sameValue (a b : Time) : Bool := a.cmp b = .eq

/-- The later of two times, the second one if they have the same value. -/
def later (a b : Time) : Time := if a.cmp b = .gt then a else b

/-- The earlier of two times, the first one if they have the same value. -/
def earlier (a b : Time) : Time := if a.cmp b = .gt then b else a

/-- Times in increasing order of value; those of one value keep their order. -/
def sort (ts : List Time) : List Time := ts.mergeSort fun a b => a.cmp b ≠ .gt

/-- The running totals of `ts` from `total` on; a time that does not fit leaves the total as it is. -/
def runningTotals (total : Time) : List Time → List (Except Error Time)
  | [] => []
  | t :: ts =>
    match total.add t with
    | .ok total' => .ok total' :: runningTotals total' ts
    | .error e => .error e :: runningTotals total ts

end Time

end Lockstep
