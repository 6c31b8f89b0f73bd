import MipsBackend.Text.Numeral

/-! Decimal fractions. They are read as binary numbers with 53 digits, and then cut to their whole
part. -/
namespace MipsBackend.Fraction

/-- The quotient rounded to the nearest number; a half goes to the even neighbour. -/
def roundDiv (num den : Nat) : Nat :=
  let q := num / den
  let r := num % den
  if den < 2 * r ∨ (2 * r = den ∧ q % 2 = 1) then q + 1 else q

/-- The whole part of the binary number with 53 digits that is nearest to a quotient. -/
def nearestWhole (num den : Nat) : Nat :=
  let q := num / den
  if 1 <<< 53 ≤ q then
    let unit := 1 <<< (q.log2 - 52)
    roundDiv num (den * unit) * unit
  else
    let scale := 1 <<< (53 - if q = 0 then 0 else q.log2 + 1)
    roundDiv (num * scale) den / scale

/-- The exponent after a fraction, 0 if there is none. -/
def exponent? : List Char → Option Int
  | [] => some 0
  | e :: r =>
    if e = 'e' ∨ e = 'E' then
      match r with
      | '-' :: ds => (Text.digits? ds).map fun n => -(n : Int)
      | '+' :: ds => (Text.digits? ds).map fun n => (n : Int)
      | ds => (Text.digits? ds).map fun n => (n : Int)
    else none

/-- The digits before and after the decimal point, and what follows. -/
def split (s : List Char) : List Char × List Char × List Char :=
  let whole := s.takeWhile Char.isDigit
  match s.dropWhile Char.isDigit with
  | '.' :: r => (whole, r.takeWhile Char.isDigit, r.dropWhile Char.isDigit)
  | r => (whole, [], r)

/-- The whole part of a fraction without sign. Numbers of 2^1024 and more are refused, among them
all that have more than 310 digits before the point. -/
def unsigned? (s : List Char) : Option Nat :=
  let (whole, places, rest) := split s
  match exponent? rest, Text.digits? (whole ++ places) with
  | some e, some n =>
    let shift := e - places.length
    let size := ((whole ++ places).dropWhile (· == '0')).length + shift
    if n = 0 ∨ size < 0 then some 0
    else if 310 < size then none
    else
      let w := if shift < 0 then nearestWhole n (Nat.pow 10 shift.natAbs)
        else nearestWhole (n * Nat.pow 10 shift.natAbs) 1
      if w < 1 <<< 1024 then some w else none
  | _, _ => none

/-- The whole part of a signed fraction, cut towards zero. -/
def whole? : List Char → Option Int
  | '-' :: r => (unsigned? r).map fun n => -(n : Int)
  | '+' :: r => (unsigned? r).map fun n => (n : Int)
  | r => (unsigned? r).map fun n => (n : Int)

/-- Whether every underscore stands between two digits, where `after` tells whether a digit came
before. -/
def separated (after : Bool) : List Char → Bool
  | [] => true
  | '_' :: c :: cs => after && c.isDigit && separated true cs
  | ['_'] => false
  | c :: cs => separated c.isDigit cs

example : whole? "7.99999999999999999999".toList = some 8 ∧ whole? "-2e1".toList = some (-20) ∧
    whole? "0.0005e4".toList = some 5 ∧ whole? "1e999999999".toList = none ∧
    whole? ".".toList = none := by decide +kernel

end MipsBackend.Fraction
