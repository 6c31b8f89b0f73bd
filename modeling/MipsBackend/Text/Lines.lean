import MipsBackend.Text.Blank

/-! Reading a text line by line. A line ends at a line feed; a last line without one counts if
it is not empty. Carriage returns at the end of a line are dropped. A line that is too long
ends the reading: the lines before it are still delivered. -/
namespace MipsBackend.Text

/-- The number of bytes of a text in UTF-8. -/
def bytes (s : List Char) : Nat := s.foldr (fun c n => c.utf8Size + n) 0

/-- The size in bytes from which on a line, without its line feed, is too long. -/
def lineLimit : Nat := 65536

/-- `rawLinesFrom cur s` cuts `s` at line feeds; `cur` holds the line being read, last
character first. -/
def rawLinesFrom (cur : List Char) : List Char → List (List Char)
  | [] => if cur.isEmpty then [] else [cur.reverse]
  | c :: cs =>
    if c = '\n' then cur.reverse :: rawLinesFrom [] cs else rawLinesFrom (c :: cur) cs

/-- The lines of a text with whatever carriage returns they end in. -/
def rawLines (s : List Char) : List (List Char) := rawLinesFrom [] s

/-- The lines that could be read, and whether a line that is too long cut the reading short. -/
structure Lines where
  lines : List (List Char)
  cutShort : Bool
  deriving DecidableEq

/-- Whether a raw line is short enough to be read. -/
def fits (raw : List Char) : Bool := decide (bytes raw < lineLimit)

/-- Drop the carriage returns at the end of a line. -/
def dropReturns (raw : List Char) : List Char := trimRight (· == '\r') raw

def readLines (s : List Char) : Lines :=
  let raw := rawLines s
  ⟨(raw.takeWhile fits).map dropReturns, !raw.all fits⟩

example : readLines "a\r\n\nb".toList = ⟨["a".toList, [], "b".toList], false⟩ := by decide +kernel

end MipsBackend.Text
