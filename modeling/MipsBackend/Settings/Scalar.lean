import MipsBackend.Settings.Fraction
import MipsBackend.Settings.Timestamp
import MipsBackend.Text.Prefixed

/-! Scalars of settings files. A quoted scalar is a text; what a plain one stands for depends on
how it is written: nothing, a boolean, a number, a time stamp, or else a text as well. -/
namespace MipsBackend

/-- A scalar as it is written, without its quotes. -/
structure Scalar where
  text : String
  quoted : Bool
  deriving DecidableEq

/-- What a scalar stands for. -/
inductive ScalarValue where
  | null
  | bool (b : Bool)
  | int (n : Int)
  /-- A decimal fraction, by its whole part. -/
  | float (whole : Int)
  | infinity (negative : Bool)
  | nan
  | timestamp
  /-- The word that, as a key, takes over the entries of another mapping. -/
  | merge
  | text
  deriving DecidableEq

/-- The tag of a kind of scalars, as messages give it. -/
def ScalarValue.tag : ScalarValue → String
  | .null => "!!null"
  | .bool _ => "!!bool"
  | .int _ => "!!int"
  | .float _ | .infinity _ | .nan => "!!float"
  | .timestamp => "!!timestamp"
  | .merge => "!!merge"
  | .text => "!!str"

namespace Scalar

/-- The plain words with a meaning of their own. -/
def words : List (String × ScalarValue) :=
  ["", "~", "null", "Null", "NULL"].map (·, .null) ++
  ["true", "True", "TRUE"].map (·, .bool true) ++
  ["false", "False", "FALSE"].map (·, .bool false) ++
  [".nan", ".NaN", ".NAN"].map (·, .nan) ++
  [".inf", ".Inf", ".INF", "+.inf", "+.Inf", "+.INF"].map (·, .infinity false) ++
  ["-.inf", "-.Inf", "-.INF"].map (·, .infinity true) ++
  [("<<", .merge)]

/-- The integer that digits, signs and marks of a base stand for. -/
def wholeNumber? (s : List Char) : Option Int :=
  (Text.prefixedInteger? s).or
    (((Text.prefixedNat? s).filter (· < 1 <<< 64)).map fun n => (n : Int))

/-- What a plain scalar stands for that starts with a digit or a sign. Underscores do not
count. -/
def number (s : List Char) : ScalarValue :=
  let digits := s.filter (· ≠ '_')
  if Timestamp.isTimestamp s then .timestamp
  else match wholeNumber? digits with
    | some n => .int n
    | none =>
      match Fraction.whole? digits with
      | some w => .float w
      | none => (Text.innerSigned? digits).elim .text .int

/-- What a plain scalar stands for that starts with a point. Underscores stand between digits. -/
def pointed (s : List Char) : ScalarValue :=
  if Fraction.separated false s then
    (Fraction.whole? (s.filter (· ≠ '_'))).elim .text .float
  else .text

/-- What a plain scalar stands for. -/
def plainValue (s : String) : ScalarValue :=
  match words.lookup s with
  | some v => v
  | none =>
    match s.toList with
    | [] => .null
    | c :: cs =>
      if c.isDigit || c == '+' || c == '-' then number (c :: cs)
      else if c == '.' then pointed (c :: cs)
      else .text

/-- What a scalar stands for. -/
def value (s : Scalar) : ScalarValue := if s.quoted then .text else plainValue s.text

@[simp] theorem value_quoted (s : String) : value ⟨s, true⟩ = .text := rfl

end Scalar

example : (Scalar.mk "1.5" false).value = .float 1 ∧ (Scalar.mk "4" true).value = .text ∧
    (Scalar.mk "0x10" false).value = .int 16 ∧ (Scalar.mk "0b_-1" false).value = .int (-1) ∧
    (Scalar.mk "2023-02-28" false).value = .timestamp ∧ (Scalar.mk "08" false).value = .float 8 ∧
    (Scalar.mk ".5_0" false).value = .float 0 ∧ (Scalar.mk "." false).value = .text := by
  decide +kernel

end MipsBackend
