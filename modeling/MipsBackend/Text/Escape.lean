import MipsBackend.Order.Set
import MipsBackend.Text.Blank
import MipsBackend.Text.Numeral
import MipsBackend.Text.Width

/-! Escape sequences of terminals. A sequence starts with the escape character. It changes how
the characters after it look and takes no columns itself. -/
namespace MipsBackend.Text

/-- The character that starts an escape sequence. -/
def escapeMark : Char := '\x1b'

/-- Where a reader of terminal text stands. -/
inductive EscapeState where
  | outside
  /-- Behind the escape character. -/
  | begun
  /-- In a sequence, before its first bracket. -/
  | bare
  /-- Behind `[`. An `m` ends the sequence. -/
  | control
  /-- Behind `]`. A backslash ends the sequence. -/
  | command
  /-- Behind `]` at the start of a sequence. -/
  | commandStart
  /-- Behind `]8` at the start of a sequence. -/
  | linkStart
  /-- In a link, which starts with `]8;`. A bell, or an escape character and a backslash, end
  it. -/
  | link
  /-- Behind an escape character in a link. -/
  | linkEnd
  deriving DecidableEq

/-- Where a reader stands after one more character. -/
def EscapeState.step : EscapeState → Char → EscapeState
  | .outside, c => if c = escapeMark then .begun else .outside
  | .begun, c => if c = '[' then .control else if c = ']' then .commandStart else .bare
  | .bare, c => if c = '[' then .control else if c = ']' then .command else .bare
  | .control, c => if c = 'm' then .outside else .control
  | .command, c => if c = '\\' then .outside else .command
  | .commandStart, c => if c = '8' then .linkStart else if c = '\\' then .outside else .command
  | .linkStart, c => if c = ';' then .link else if c = '\\' then .outside else .command
  | .link, c => if c = '\x07' then .outside else if c = escapeMark then .linkEnd else .link
  | .linkEnd, c =>
    if c = '\\' ∨ c = '\x07' then .outside else if c = escapeMark then .linkEnd else .link

/-- The characters outside of escape sequences, for a reader that stands at `st`. -/
def visibleFrom (st : EscapeState) : List Char → List Char
  | [] => []
  | c :: cs =>
    let next := st.step c
    if st = .outside ∧ next = .outside then c :: visibleFrom next cs else visibleFrom next cs

/-- The characters outside of escape sequences. A sequence without an end takes all the rest. -/
def visible (s : List Char) : List Char := visibleFrom .outside s

/-- The number of columns that a terminal shows of a text. -/
def displayWidth (s : List Char) : Nat := width (visible s)

/-- The escape sequences in a text that have an end. The open one is `read`, last character
first, and the reader stands at `st`. -/
def sequencesFrom (st : EscapeState) (read : List Char) : List Char → List (List Char)
  | [] => []
  | c :: cs =>
    let next := st.step c
    if next ≠ .outside then sequencesFrom next (c :: read) cs
    else if st = .outside then sequencesFrom .outside [] cs
    else (c :: read).reverse :: sequencesFrom .outside [] cs

/-- The escape sequences in a text that have an end. -/
def sequences (s : List Char) : List (List Char) := sequencesFrom .outside [] s

/-- A text without the first place where `p` stands in it. -/
def eraseFirst (p : List Char) : List Char → List Char
  | [] => []
  | c :: cs => (afterStart? p (c :: cs)).getD (c :: eraseFirst p cs)

/-- What a terminal has been told about the look of characters: the numbers of the attributes
that are on. -/
abbrev Look := OrdSet Int

namespace Look

/-- The numbers that put attributes off, and the attributes. -/
def endings : List (Int × List Int) :=
  [(22, [1, 2]), (23, [3]), (24, [4]), (25, [5, 6]), (27, [7]), (29, [9])]

/-- The look after one number: 0 puts all attributes off. -/
def set (l : Look) (n : Int) : Look :=
  if n = 0 then ∅
  else match endings.lookup n with
    | some off => off.foldl OrdSet.erase l
    | none => l.insert n

/-- The numbers in an escape sequence. -/
def numbers (sequence : List Char) : List Int :=
  let inner :=
    if (sequence.find? fun c => c == '[' || c == ']') = some ']' then
      eraseFirst ['\\'] (eraseFirst [escapeMark, ']'] sequence)
    else eraseFirst ['m'] (eraseFirst [escapeMark, '['] sequence)
  (pieces ';' inner).filterMap fun p => integer? (trim p)

/-- The look after the escape sequences of a text. -/
def after (l : Look) (s : List Char) : Look :=
  (sequences s).foldl (fun l q => (numbers q).foldl set l) l

/-- The escape sequence that puts a look on, which is empty if there is nothing to put on. -/
def sequence (l : Look) : List Char :=
  if l.toList.isEmpty then []
  else escapeMark :: '[' :: join ';' (l.toList.map fun n => (toString n).toList) ++ ['m']

/-- The escape sequence that puts all attributes off. -/
def reset : List Char := [escapeMark, '[', '0', 'm']

end Look

example : displayWidth "\x1b[31m日\x1b[0mx".toList = 3 ∧ displayWidth "x\x1by".toList = 1 ∧
    displayWidth "\x1b]8;;a\\b\x07link\x1b]8;;\x1b\\".toList = 4 := by decide +kernel

example : (Look.after ∅ "\x1b[31;1ma\x1b[4m\x1b[22mb\x1b[9".toList).sequence =
    "\x1b[4;31m".toList := by decide +kernel

end MipsBackend.Text
