/-!
# Decimal numerals

Numbers are read from plain decimal digits, with an optional sign where the grammar of the place admits one,
and are refused when they leave the range of the place. They are written with the fewest digits.

`natural?_ofNat` and `integer?_ofInt` say that reading gives back what was written.
-/

namespace Lockstep.Text

/-- The number denoted by one or more decimal digits. -/
def digits? (cs : List Char) : Option Nat :=
  if cs ≠ [] ∧ cs.all Char.isDigit then some (Nat.ofDigitChars 10 cs 0) else none

/-- A natural number, with an optional leading `+`. -/
def natural? : List Char → Option Nat
  | '+' :: r => digits? r
  | cs => digits? cs

/-- An integer, with an optional leading `+` or `-`. -/
def integer? : List Char → Option Int
  | '-' :: r => (digits? r).map fun n => -(n : Int)
  | '+' :: r => (digits? r).map fun n => (n : Int)
  | cs => (digits? cs).map fun n => (n : Int)

def naturalBelow? (bound : Nat) (cs : List Char) : Option Nat :=
  (natural? cs).filter (· < bound)

def unsigned16? (cs : List Char) : Option UInt16 :=
  (naturalBelow? UInt16.size cs).map Nat.toUInt16

def unsigned32? (cs : List Char) : Option UInt32 :=
  (naturalBelow? UInt32.size cs).map Nat.toUInt32

def signed32? (cs : List Char) : Option Int32 :=
  ((integer? cs).filter fun i => Int32.minValue.toInt ≤ i ∧ i ≤ Int32.maxValue.toInt).map Int32.ofInt

def ofNat (n : Nat) : List Char := Nat.toDigits 10 n

/-- The decimal digits of an integer, after a `-` if it is negative. -/
def ofInt : Int → List Char
  | .ofNat n => ofNat n
  | .negSucc n => '-' :: ofNat (n + 1)

/-! ### Reading what is written -/

theorem isDigit_of_mem_ofNat {n : Nat} {c : Char} (h : c ∈ ofNat n) : c.isDigit :=
  Nat.isDigit_of_mem_toDigits (by decide) (by decide) h

theorem ofNat_ne_nil (n : Nat) : ofNat n ≠ [] := Nat.toDigits_ne_nil

@[simp] theorem digits?_ofNat (n : Nat) : digits? (ofNat n) = some n := by
  have hall : (ofNat n).all Char.isDigit = true :=
    List.all_eq_true.2 fun _ hc => isDigit_of_mem_ofNat hc
  rw [digits?, if_pos ⟨ofNat_ne_nil n, hall⟩, ofNat, Nat.ofDigitChars_toDigits (by decide) (by decide)]

theorem head?_ofNat_ne {n : Nat} {c : Char} (h : c.isDigit = false) : (ofNat n).head? ≠ some c := by
  intro hc
  rw [isDigit_of_mem_ofNat (List.mem_of_mem_head? hc)] at h
  cases h

@[simp] theorem natural?_ofNat (n : Nat) : natural? (ofNat n) = some n := by
  unfold natural?
  split
  · next r hr =>
    exact absurd (by rw [hr]; rfl) (head?_ofNat_ne (n := n) (c := '+') rfl)
  · exact digits?_ofNat n

@[simp] theorem integer?_ofInt (i : Int) : integer? (ofInt i) = some i := by
  cases i with
  | ofNat n =>
    rw [show ofInt (Int.ofNat n) = ofNat n from rfl]
    unfold integer?
    split
    · next r hr => exact absurd (by rw [hr]; rfl) (head?_ofNat_ne (n := n) (c := '-') rfl)
    · next r hr => exact absurd (by rw [hr]; rfl) (head?_ofNat_ne (n := n) (c := '+') rfl)
    · simp
  | negSucc n =>
    simp only [ofInt, integer?, digits?_ofNat]
    rfl

theorem naturalBelow?_ofNat {bound n : Nat} (h : n < bound) : naturalBelow? bound (ofNat n) = some n := by
  simp [naturalBelow?, h]

@[simp] theorem unsigned16?_ofNat_toNat (n : UInt16) : unsigned16? (ofNat n.toNat) = some n := by
  simp [unsigned16?, naturalBelow?_ofNat n.toNat_lt_size]

@[simp] theorem unsigned32?_ofNat_toNat (n : UInt32) : unsigned32? (ofNat n.toNat) = some n := by
  simp [unsigned32?, naturalBelow?_ofNat n.toNat_lt_size]

@[simp] theorem signed32?_ofInt_toInt (i : Int32) : signed32? (ofInt i.toInt) = some i := by
  have h : Int32.minValue.toInt ≤ i.toInt ∧ i.toInt ≤ Int32.maxValue.toInt :=
    ⟨i.minValue_le_toInt, i.toInt_le⟩
  rw [signed32?, integer?_ofInt, Option.filter_some, if_pos (decide_eq_true h), Option.map_some,
    Int32.ofInt_toInt]

end Lockstep.Text
