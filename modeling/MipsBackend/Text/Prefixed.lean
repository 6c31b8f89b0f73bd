import MipsBackend.Text.Numeral

/-! Numerals that may name their base: `0x` for 16, `0o` or a leading `0` for 8, `0b` for 2, and
decimal otherwise. Underscores may stand between digits and after the mark of the base. -/
namespace MipsBackend.Text

/-- The value of a digit in bases up to 16. -/
def digitValue? (c : Char) : Option Nat :=
  if c.isDigit then some (c.toNat - '0'.toNat)
  else if 'a' ≤ c && c ≤ 'f' then some (c.toNat - 'a'.toNat + 10)
  else if 'A' ≤ c && c ≤ 'F' then some (c.toNat - 'A'.toNat + 10)
  else none

/-- The value of digits after those worth `acc`. An underscore must stand after something that
is not one (`after`), and not at the end. -/
def baseDigits (base acc : Nat) (after : Bool) : List Char → Option Nat
  | [] => if after then some acc else none
  | c :: cs =>
    if c = '_' then if after then baseDigits base acc false cs else none
    else match digitValue? c with
      | some d => if d < base then baseDigits base (base * acc + d) true cs else none
      | none => none

/-- A natural number in the base that it names. -/
def prefixedNat? (s : List Char) : Option Nat :=
  match s with
  | '0' :: c :: d :: r =>
    if c = 'b' ∨ c = 'B' then baseDigits 2 0 true (d :: r)
    else if c = 'o' ∨ c = 'O' then baseDigits 8 0 true (d :: r)
    else if c = 'x' ∨ c = 'X' then baseDigits 16 0 true (d :: r)
    else baseDigits 8 0 true (c :: d :: r)
  | '0' :: r => baseDigits 8 0 true r
  | r => baseDigits 10 0 false r

/-- A signed number in the base that it names, in the range of a 64-bit integer. -/
def prefixedInteger? (s : List Char) : Option Int := signed? prefixedNat? s

/-- An integer whose sign stands behind the mark of its base, which is `0b` or `0o`. -/
def innerSigned? : List Char → Option Int
  | '0' :: 'b' :: r => signed? (baseDigits 2 0 false) r
  | '0' :: 'o' :: r => signed? (baseDigits 8 0 false) r
  | _ => none

example : prefixedInteger? "0x1_f".toList = some 31 ∧ prefixedInteger? "-010".toList = some (-8) ∧
    prefixedInteger? "1__0".toList = none ∧ prefixedInteger? "0".toList = some 0 ∧
    prefixedInteger? "08".toList = none ∧ innerSigned? "0b-101".toList = some (-5) ∧
    innerSigned? "0o+".toList = none := by decide +kernel

end MipsBackend.Text
