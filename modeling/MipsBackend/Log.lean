import MipsBackend.Event
import MipsBackend.Text.Quoted
import MipsBackend.Text.Blank

/-! Log records of events, in two formats: words with equal signs, and objects in JSON. -/
namespace MipsBackend

inductive RecordValue where
  | number (n : Nat)
  | text (s : String)
  deriving DecidableEq

structure Record where
  message : String
  fields : List (String × RecordValue)
  deriving DecidableEq

def Event.record : Event → Record
  | .labelReplaced line old => ⟨"label replaced", [("line", .number line), ("old", .text old)]⟩
  | .lineSkipped line text cause =>
    ⟨"skipping line", [("line", .number line), ("text", .text text), ("err", .text cause.message)]⟩
  | .graphBuilt function blocks instructions =>
    ⟨"built cfg", [("function", .text function), ("blocks", .number blocks),
      ("instructions", .number instructions)]⟩
  | .instructionsConverged function passes =>
    ⟨"instruction liveness converged", [("function", .text function), ("passes", .number passes)]⟩
  | .blocksConverged function passes =>
    ⟨"block liveness converged", [("function", .text function), ("passes", .number passes)]⟩
  | .interference a b => ⟨"interference edge", [("a", .text a), ("b", .text b)]⟩
  | .spillCandidate web degree =>
    ⟨"optimistic spill candidate", [("web", .text web), ("degree", .number degree)]⟩
  | .colorAssigned web color => ⟨"assign color", [("web", .text web), ("color", .number color)]⟩
  | .webSpilled web => ⟨"web spilled", [("web", .text web)]⟩
  | .assemblyWritten output scheme functions =>
    ⟨"assembly written", [("output", .text output), ("scheme", .text scheme),
      ("functions", .number functions)]⟩

namespace Record

/-- Whether a word with this character has to be quoted. The replacement character U+FFFD is
quoted although it can be printed, and the control character U+007F is not. -/
def isDelicate (c : Char) : Bool :=
  if c.toNat < 0x80 then c == ' ' || c == '=' || c == '"' || c.toNat < 0x20
  else c == '\ufffd' || Text.isBlank c || !Text.isPrintable c

/-- A text as a word, in quotes where it needs them. -/
def word (s : String) : String :=
  if s.toList.isEmpty || s.toList.any isDelicate then Text.quote s else s

def wordOf : RecordValue → String
  | .number n => toString n
  | .text s => word s

/-- A record as a line of words. -/
def wordLine (r : Record) : String :=
  " ".intercalate ("level=DEBUG" :: ("msg=" ++ word r.message) ::
    r.fields.map fun f => f.1 ++ "=" ++ wordOf f.2) ++ "\n"

/-- One character inside a text in JSON. -/
def jsonChar (c : Char) : List Char :=
  if c = '"' then ['\\', '"']
  else if c = '\\' then ['\\', '\\']
  else if c = '\n' then ['\\', 'n']
  else if c = '\r' then ['\\', 'r']
  else if c = '\t' then ['\\', 't']
  else if c.toNat < 0x20 || c = '\u2028' || c = '\u2029' then '\\' :: 'u' :: Text.hex 4 c.toNat
  else [c]

def jsonText (s : String) : String := String.ofList ('"' :: s.toList.flatMap jsonChar ++ ['"'])

def jsonOf : RecordValue → String
  | .number n => toString n
  | .text s => jsonText s

/-- A record as a line with a JSON object. -/
def jsonLine (r : Record) : String :=
  "\x7b" ++ ",".intercalate ("\"level\":\"DEBUG\"" :: ("\"msg\":" ++ jsonText r.message) ::
    r.fields.map fun f => jsonText f.1 ++ ":" ++ jsonOf f.2) ++ "\x7d\n"

end Record

example : (Event.labelReplaced 3 "").record.wordLine =
    "level=DEBUG msg=\"label replaced\" line=3 old=\"\"\n" := by decide +kernel

end MipsBackend
