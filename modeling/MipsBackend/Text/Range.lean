/-! Character classes given as sorted tables of code point ranges. -/
namespace MipsBackend.Text

/-- Whether `n` lies in one of the closed ranges, which stand in increasing order. -/
def inRanges : List (Nat × Nat) → Nat → Bool
  | [], _ => false
  | (lo, hi) :: rest, n => if n < lo then false else if n ≤ hi then true else inRanges rest n

end MipsBackend.Text
