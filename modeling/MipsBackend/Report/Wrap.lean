import MipsBackend.Text.Escape

/-! Wrapping text to a width. Words are filled into lines and broken where they do not fit. A look
that escape sequences have put on is put off at the end of a line and on again in the next. -/
namespace MipsBackend

/-- A tab takes four columns. -/
def expandTabs (s : List Char) : List Char :=
  s.flatMap fun c => if c = '\t' then List.replicate 4 ' ' else [c]

/-- A text being wrapped. -/
structure Wrapping where
  /-- The lines that are full, last one first. -/
  full : List (List Char)
  /-- The line being filled, last character first. -/
  line : List Char
  /-- The columns of the line being filled. -/
  length : Nat

namespace Wrapping
open Text (escapeMark columns displayWidth Look)

/-- End a line. The look, an escape sequence with its last character first, goes over to the next
line. -/
def breakLine (s : Wrapping) (look : List Char) : Wrapping :=
  if look.isEmpty then ⟨s.line.reverse :: s.full, [], 0⟩
  else ⟨(s.line.reverse ++ Look.reset) :: s.full, look, 0⟩

/-- Add the characters of a word one by one, each on a new line if the line has exactly `w`
columns. Behind an escape character they are `inside` a sequence, which becomes the look. -/
def addChars (w : Nat) (s : Wrapping) (inside : Bool) (look : List Char) : List Char → Wrapping
  | [] => s
  | c :: cs =>
    let inside := inside || c == escapeMark
    let look := if c = escapeMark then [c] else if inside then c :: look else look
    let s := if !inside && s.length == w then s.breakLine look else s
    let s : Wrapping := ⟨s.full, c :: s.line, if inside then s.length else s.length + columns c⟩
    addChars w s (inside && c != 'm') (if look = Look.reset.reverse then [] else look) cs

/-- Add a word. On a line that is not empty it follows a space. It is broken where it does not
fit. -/
def addWord (w : Nat) (s : Wrapping) (look : List Char) (word : List Char) : Wrapping :=
  let s := if s.length = 0 then s else ⟨s.full, ' ' :: s.line, s.length + 1⟩
  if s.length + displayWidth word ≤ w then
    ⟨s.full, word.reverse ++ s.line, s.length + displayWidth word⟩
  else addChars w s false look word

/-- The lines of a wrapped text; a look is put off at the end. -/
def finish (s : Wrapping) (look : List Char) : List (List Char) :=
  let line := s.line.reverse
  let line := if look.isEmpty || Look.reset.isSuffixOf line then line else line ++ Look.reset
  (line :: s.full).reverse

/-- Add words; a line that is full is ended if more words come. The terminal has been told
`told`, and `look` is what it was last told to put on. -/
def addWords (w : Nat) (s : Wrapping) (told : Look) (look : List Char) :
    List (List Char) → List (List Char)
  | [] => s.finish look
  | word :: more =>
    let told := told.after word
    let look := if told.toList.isEmpty then look else told.sequence.reverse
    let s := s.addWord w look word
    addWords w (if s.length = w && !more.isEmpty then s.breakLine look else s) told look more

end Wrapping

/-- The lines of a text wrapped to `w` columns. A text that fits is only cut at line feeds. -/
def wrap (w : Nat) (s : List Char) : List (List Char) :=
  let lines := Text.pieces '\n' (expandTabs s)
  if Text.displayWidth (expandTabs s) ≤ w then lines
  else lines.flatMap fun l => Wrapping.addWords w ⟨[], [], 0⟩ ∅ [] (Text.words l)

example : wrap 7 "ab  cdefgh i".toList = ["ab cdef".toList, "gh i".toList] ∧
    wrap 3 "\x1b[1mabcd".toList = ["\x1b[1mabc\x1b[0m".toList, "\x1b[1md\x1b[0m".toList] ∧
    wrap 9 "a  b\nc".toList = ["a  b".toList, ['c']] := by decide +kernel

end MipsBackend
