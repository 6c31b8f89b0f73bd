/-! Time stamps: a day of the calendar, alone or with a time of day. Months, days, hours, minutes
and seconds have one or two digits. -/
namespace MipsBackend.Timestamp

/-- The days of a month. -/
def daysIn (year month : Nat) : Nat :=
  if month = 2 then
    if year % 4 = 0 ∧ (year % 100 ≠ 0 ∨ year % 400 = 0) then 29 else 28
  else if month = 4 ∨ month = 6 ∨ month = 9 ∨ month = 11 then 30
  else 31

/-- The value of two digits. -/
def pair (a b : Char) : Nat := 10 * (a.toNat - '0'.toNat) + (b.toNat - '0'.toNat)

/-- A number of one or two digits, and what follows it. -/
def number? : List Char → Option (Nat × List Char)
  | [] => none
  | [a] => if a.isDigit then some (pair '0' a, []) else none
  | a :: b :: cs =>
    if !a.isDigit then none
    else if b.isDigit then some (pair a b, cs)
    else some (pair '0' a, b :: cs)

/-- What follows the character `c` at the start of a text. -/
def after? (c : Char) : List Char → Option (List Char)
  | [] => none
  | d :: cs => if d = c then some cs else none

/-- A year of four digits, and what follows it. -/
def year? : List Char → Option (Nat × List Char)
  | a :: b :: c :: d :: s =>
    if [a, b, c, d].all Char.isDigit then some (100 * pair a b + pair c d, s) else none
  | _ => none

/-- What follows a day of the calendar, `YYYY-M-D`. -/
def afterDay? (s : List Char) : Option (List Char) := do
  let (year, s) ← year? s
  let (month, s) ← number? (← after? '-' s)
  let (day, s) ← number? (← after? '-' s)
  if 1 ≤ month ∧ month ≤ 12 ∧ 1 ≤ day ∧ day ≤ daysIn year month then some s else none

/-- What follows the digits of a fraction, if there is one. -/
def afterFraction : List Char → List Char
  | p :: d :: cs =>
    if (p = '.' ∨ p = ',') ∧ d.isDigit then cs.dropWhile Char.isDigit else p :: d :: cs
  | cs => cs

/-- What follows a time of day, `h:m:s`, with or without a fraction of the second. -/
def afterTime? (s : List Char) : Option (List Char) := do
  let (hour, s) ← number? s
  let (minute, s) ← number? (← after? ':' s)
  let (second, s) ← number? (← after? ':' s)
  if hour < 24 ∧ minute < 60 ∧ second < 60 then some (afterFraction s) else none

/-- Whether a text is a time zone: `Z`, or how far it is from that. -/
def isZone : List Char → Bool
  | ['Z'] => true
  | [s, a, b, ':', c, d] =>
    (s == '+' || s == '-') && [a, b, c, d].all Char.isDigit && decide (pair a b ≤ 24) &&
      decide (pair c d ≤ 60)
  | _ => false

/-- Whether a text is a time stamp. A time behind the letter T has a zone, one behind spaces has
none. -/
def isTimestamp (s : List Char) : Bool :=
  match afterDay? s with
  | none => false
  | some [] => true
  | some (c :: r) =>
    if c = 'T' ∨ c = 't' then (afterTime? r).any isZone
    else if c = ' ' then (afterTime? (r.dropWhile (· == ' '))).any List.isEmpty
    else false

example : isTimestamp "2024-2-29".toList && isTimestamp "2001-12-1t9:5:0,25+01:00".toList &&
    isTimestamp "2001-01-01   23:59:59.".toList.dropLast &&
    !isTimestamp "2023-02-29".toList && !isTimestamp "2001-01-01T10:00:00".toList &&
    !isTimestamp "2001-01-01 24:00:00".toList := by decide +kernel

end MipsBackend.Timestamp
