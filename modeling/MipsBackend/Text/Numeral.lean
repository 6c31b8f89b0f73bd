/-! Decimal numerals of 64-bit signed integers. -/
namespace MipsBackend.Text

/-- The number 2^63, at which 64-bit integers with a sign end. -/
def wordLimit : Int := 9223372036854775808

/-- Whether an integer is representable in 64 bits with a sign. -/
def inWord (n : Int) : Bool := decide (-wordLimit ≤ n) && decide (n < wordLimit)

/-- The value of a run of decimal digits after those worth `acc`. -/
def digitsFrom (acc : Nat) : List Char → Option Nat
  | [] => some acc
  | c :: cs => if c.isDigit then digitsFrom (10 * acc + (c.toNat - '0'.toNat)) cs else none

/-- A non-empty run of decimal digits. -/
def digits? (s : List Char) : Option Nat := if s.isEmpty then none else digitsFrom 0 s

/-- An optional sign before a natural number that `read` reads, in the range of a 64-bit
integer. -/
def signed? (read : List Char → Option Nat) (s : List Char) : Option Int :=
  let n : Option Int :=
    match s with
    | '-' :: r => (read r).map fun n => -(n : Int)
    | '+' :: r => (read r).map fun n => (n : Int)
    | r => (read r).map fun n => (n : Int)
  n.filter inWord

/-- A decimal numeral: an optional sign and digits, in the range of a 64-bit integer. -/
def integer? (s : List Char) : Option Int := signed? digits? s

example : integer? "-9223372036854775808".toList = some (-wordLimit) := by decide +kernel

example : integer? "9223372036854775808".toList = none := by decide +kernel

example : integer? "+07".toList = some 7 ∧ integer? "7 ".toList = none ∧ integer? [] = none := by
  decide +kernel

end MipsBackend.Text
