import MipsBackend.Settings.Scalar
import MipsBackend.Text.Blank

/-! Flat settings files: one `key: value` on a line, with comments, empty lines and document
marks between them. Only the first document counts. -/
namespace MipsBackend

/-- A key with its value, and the line where they stand. -/
structure FlatEntry where
  line : Nat
  key : Scalar
  value : Scalar
  deriving DecidableEq

/-- What a flat file holds: nothing, a lone scalar, or entries. -/
inductive FlatDocument where
  | empty
  | scalar (line : Nat) (value : Scalar)
  | entries (list : List FlatEntry)
  deriving DecidableEq

namespace FlatDocument

def isSpace (c : Char) : Bool := c == ' ' || c == '\t'

/-- Cut a comment off; its mark stands at the start of the line or after a space. -/
def dropComment (afterSpace : Bool) : List Char → List Char
  | [] => []
  | c :: cs => if c = '#' && afterSpace then [] else c :: dropComment (isSpace c) cs

/-- The text up to the closing single quote; a quote inside is written twice. -/
def singleQuoted : List Char → List Char
  | [] => []
  | '\'' :: '\'' :: cs => '\'' :: singleQuoted cs
  | c :: cs => if c = '\'' then [] else c :: singleQuoted cs

/-- The characters that have an escape letter. -/
def escapes : List (Char × Char) :=
  [('0', '\x00'), ('a', '\x07'), ('b', '\x08'), ('t', '\t'), ('\t', '\t'), ('n', '\n'),
    ('v', '\x0b'), ('f', '\x0c'), ('r', '\r'), ('e', '\x1b'), (' ', ' '), ('"', '"'),
    ('\'', '\''), ('/', '/'), ('\\', '\\'), ('N', '\u0085'), ('_', '\u00a0'), ('L', '\u2028'),
    ('P', '\u2029')]

/-- The number of hexadecimal digits after an escape letter. -/
def hexPlaces (c : Char) : Nat :=
  if c = 'x' then 2 else if c = 'u' then 4 else if c = 'U' then 8 else 0

/-- Where a reader inside double quotes stands. -/
inductive QuoteState where
  | text
  | escape
  /-- Inside a character code: the digits still to come, and the value so far. -/
  | code (places value : Nat)

/-- The text up to the closing double quote. -/
def doubleQuoted : QuoteState → List Char → List Char
  | _, [] => []
  | .text, c :: cs =>
    if c = '"' then []
    else if c = '\\' then doubleQuoted .escape cs
    else c :: doubleQuoted .text cs
  | .escape, c :: cs =>
    match escapes.lookup c with
    | some d => d :: doubleQuoted .text cs
    | none => doubleQuoted (.code (hexPlaces c) 0) cs
  | .code places value, c :: cs =>
    let v := 16 * value + (Text.digitValue? c).getD 0
    if places ≤ 1 then Char.ofNat v :: doubleQuoted .text cs
    else doubleQuoted (.code (places - 1) v) cs

/-- The scalar at the start of a text. -/
def scalarAt (s : List Char) : Scalar :=
  match s.dropWhile isSpace with
  | '\'' :: r => ⟨String.ofList (singleQuoted r), true⟩
  | '"' :: r => ⟨String.ofList (doubleQuoted .text r), true⟩
  | r => ⟨String.ofList (Text.trimRight isSpace (dropComment true r)), false⟩

/-- Cut a line at the first colon that stands before a space or at the end; `read` is what came
before, last character first. -/
def splitKey (read : List Char) : List Char → Option (List Char × List Char)
  | [] => none
  | c :: cs =>
    if c = ':' && (cs.head?.all isSpace) then some (read.reverse, cs) else splitKey (c :: read) cs

/-- Whether there is nothing on a line but a comment. -/
def isIdle (afterSpace : Bool) (l : List Char) : Bool := (dropComment afterSpace l).all isSpace

/-- Whether a line is a document mark. -/
def isMark (mark : String) (l : List Char) : Bool :=
  (Text.afterStart? mark.toList l).any (isIdle false)

/-- The lines that say something in the first document, which has `begun` or not. -/
def content (begun : Bool) : List (Nat × List Char) → List (Nat × List Char)
  | [] => []
  | (n, l) :: ls =>
    if isMark "---" l then if begun then [] else content true ls
    else if isMark "..." l then []
    else if isIdle true l then content begun ls
    else (n, l) :: content true ls

/-- The lines of a text with their numbers, which start at 1. Carriage returns end lines too. -/
def numbered (s : List Char) : List (Nat × List Char) :=
  let s := (Text.unifyBreaks s).map fun c => if c = '\r' then '\n' else c
  (Text.pieces '\n' s).zipIdx.map fun (l, n) => (n + 1, l)

/-- Whether a file may hold a character. Controls are refused. -/
def isAllowed (c : Char) : Bool :=
  let n := c.toNat
  n == 9 || n == 10 || n == 13 || (0x20 ≤ n && n ≤ 0x7e) || n == 0x85 ||
    (0xa0 ≤ n && n != 0xfffe && n != 0xffff)

/-- The entry on a line, if it has a key before its comment. -/
def entryOn? (l : Nat × List Char) : Option FlatEntry :=
  if (splitKey [] (dropComment true l.2)).isNone then none
  else (splitKey [] l.2).map fun (k, v) => ⟨l.1, scalarAt k, scalarAt v⟩

/-- Read a flat file. A byte order mark at its start does not count. -/
def ofText (s : String) : FlatDocument :=
  let cs := s.toList
  match content false (numbered (if cs.head? = some '\ufeff' then cs.drop 1 else cs)) with
  | [] => .empty
  | l :: ls =>
    if (entryOn? l).isNone then .scalar l.1 (scalarAt l.2) else .entries ((l :: ls).filterMap entryOn?)

end FlatDocument

example : FlatDocument.ofText "# c\n---\na: 'x''y' # z\r\n\"b\": \"\\u0041\\t\"\nc:\n---\nd: 1" =
    .entries [⟨3, ⟨"a", false⟩, ⟨"x'y", true⟩⟩, ⟨4, ⟨"b", true⟩, ⟨"A\t", true⟩⟩,
      ⟨5, ⟨"c", false⟩, ⟨"", false⟩⟩] := by decide +kernel

end MipsBackend
