import MipsBackend.Event
import MipsBackend.Program.Basic
import MipsBackend.Text.Lines

/-! Reading programs. The text format has one item on a line:

* `#start_function NAME`, followed by a line with the function's signature,
* `int-list: ...` and `float-list: ...` with declarations, an array as `A[SIZE]`,
* `LABEL:`, which names the next instruction,
* an instruction,
* `#end_function`.

Lines that start with no opcode are skipped. Reading is a fold of `ReadState.step` over the
lines; it stops at the first error. -/
namespace MipsBackend

/-- What makes a line unreadable where it stands. -/
inductive Malformed where
  | unterminated (function : String)
  | missingName
  | missingSignature (function : String)
  | badSignature (function signature : String)
  | strayEnd
  | strayDeclaration
  | badArraySize (declaration : String)
  | strayInstruction (text : String)
  deriving DecidableEq

def Malformed.message : Malformed → String
  | .unterminated f => "function " ++ f ++ " is not terminated"
  | .missingName => "missing function name"
  | .missingSignature f => "missing signature for " ++ f
  | .badSignature f s => f ++ ": bad signature " ++ Text.quote s
  | .strayEnd => "#end_function without #start_function"
  | .strayDeclaration => "declaration outside a function"
  | .badArraySize d => "bad array size in " ++ Text.quote d
  | .strayInstruction t => "instruction outside a function: " ++ t

/-- Why a program cannot be read. -/
inductive ReadError where
  | malformed (line : Nat) (fault : Malformed)
  | undefinedLabel (line : Nat) (fault : UndefinedLabel)
  | lineTooLong
  deriving DecidableEq

def ReadError.message : ReadError → String
  | .malformed n e => "line " ++ toString n ++ ": syntax error: " ++ e.message
  | .undefinedLabel n e => "line " ++ toString n ++ ": " ++ e.message
  | .lineTooLong => "read: bufio.Scanner: token too long"

/-- The type of a declaration list. -/
inductive VarType where
  | int | float
  deriving DecidableEq

/-- What a line says. -/
inductive Item where
  | blank
  | start (name : String)
  | finish
  | declarations (type : VarType) (list : List Char)
  | label (name : String)
  | code (text : List Char)
  deriving DecidableEq

namespace Item

def startMark : List Char := "#start_function".toList
def endMark : List Char := "#end_function".toList
def intMark : List Char := "int-list:".toList
def floatMark : List Char := "float-list:".toList

/-- What a line says that is trimmed and not empty. -/
def ofTrimmed (t : List Char) : Item :=
  match Text.afterStart? startMark t with
  | some rest => .start (String.ofList (Text.trim rest))
  | none =>
    if (Text.afterStart? endMark t).isSome then .finish
    else match Text.afterStart? intMark t with
      | some rest => .declarations .int rest
      | none =>
        match Text.afterStart? floatMark t with
        | some rest => .declarations .float rest
        | none =>
          match Text.beforeEnd? [':'] t with
          | some name => .label (String.ofList (Text.trim name))
          | none => .code t

/-- What a line says, whatever blanks are around it. -/
def ofLine (line : List Char) : Item :=
  let t := Text.trim line
  if t.isEmpty then .blank else ofTrimmed t

end Item

/-- The text between the first opening and the last closing parenthesis. -/
def parenthesized? (s : List Char) : Option (List Char) :=
  match s.dropWhile (· ≠ '(') with
  | [] => none
  | _ :: inner =>
    match inner.reverse.dropWhile (· ≠ ')') with
    | [] => none
    | _ :: rest => some rest.reverse

/-- The parameter names of a signature `type name(type param, ...)`: the last word of each part
between commas. -/
def signatureParams? (s : List Char) : Option (List String) :=
  (parenthesized? s).map fun inner =>
    (Text.pieces ',' inner).filterMap fun p => (Text.words p).getLast?.map String.ofList

/-- A declared name, with the size that an array declaration carries. -/
structure Declaration where
  name : String
  words : Option Int
  deriving DecidableEq

/-- Read one declaration. A name may be empty; an array size is at least 1. -/
def Declaration.ofChars (s : List Char) : Except Malformed Declaration :=
  let t := Text.trim s
  let base := t.takeWhile (· ≠ '[')
  match t.dropWhile (· ≠ '[') with
  | _ :: inner =>
    if base.isEmpty then .ok ⟨String.ofList t, none⟩
    else match Text.integer? ((Text.beforeEnd? [']'] inner).getD inner) with
      | some n =>
        if n < 1 then .error (.badArraySize (String.ofList t)) else .ok ⟨String.ofList base, some n⟩
      | none => .error (.badArraySize (String.ofList t))
  | [] => .ok ⟨String.ofList t, none⟩

namespace FunctionDef

def declare (f : FunctionDef) (type : VarType) (d : Declaration) : FunctionDef :=
  let names := if d.name = "" then [] else [d.name]
  let arrays := d.words.elim f.arrays fun n => f.arrays.insert d.name n
  match type with
  | .int => { f with ints := f.ints ++ names, arrays := arrays }
  | .float => { f with floats := f.floats ++ names, arrays := arrays }

/-- Add the declarations of a list, up to the first malformed one. -/
def declareAll (f : FunctionDef) (type : VarType) : List (List Char) → Except Malformed FunctionDef
  | [] => .ok f
  | p :: ps =>
    match Declaration.ofChars p with
    | .error e => .error e
    | .ok d => declareAll (f.declare type d) type ps

end FunctionDef

/-- Where in the program the reader is. -/
inductive Phase where
  | between
  /-- The next line is the signature of the named function. -/
  | signature (name : String)
  | inside (f : FunctionDef)
  deriving DecidableEq

/-- What has been read so far. -/
structure ReadState where
  line : Nat := 0
  phase : Phase := .between
  /-- The label that waits for the next instruction. -/
  label : Option String := none
  functions : List Function := []
  events : List Event := []
  deriving DecidableEq

namespace ReadState

/-- Read the item of a line, `s.line` being its number. -/
def item (s : ReadState) : Item → Except ReadError ReadState
  | .blank => .ok s
  | .start name =>
    match s.phase with
    | .inside f => .error (.malformed s.line (.unterminated f.name))
    | _ =>
      if name = "" then .error (.malformed s.line .missingName)
      else .ok { s with phase := .signature name }
  | .finish =>
    match s.phase with
    | .inside f =>
      match f.build with
      | .error e => .error (.undefinedLabel s.line e)
      | .ok g =>
        .ok { s with
          phase := .between, label := none, functions := s.functions ++ [g],
          events := s.events ++
            if g.code.isEmpty then [] else [.graphBuilt g.name g.blocks.length g.code.length] }
    | _ => .error (.malformed s.line .strayEnd)
  | .declarations type list =>
    match s.phase with
    | .inside f =>
      match f.declareAll type (Text.pieces ',' list) with
      | .error e => .error (.malformed s.line e)
      | .ok g => .ok { s with phase := .inside g }
    | _ => .error (.malformed s.line .strayDeclaration)
  | .label name =>
    .ok { s with
      label := label? name,
      events := s.events ++ (s.label.map (Event.labelReplaced s.line)).toList }
  | .code text =>
    match Instruction.ofChars text with
    | .error e =>
      .ok { s with events := s.events ++ [.lineSkipped s.line (String.ofList text) e] }
    | .ok i =>
      match s.phase with
      | .inside f =>
        .ok { s with
          phase := .inside { f with code := f.code ++ [{ i with label := s.label }] },
          label := none }
      | _ => .error (.malformed s.line (.strayInstruction (String.ofList text)))

def step (s : ReadState) (line : List Char) : Except ReadError ReadState :=
  let s := { s with line := s.line + 1 }
  match s.phase with
  | .signature name =>
    match signatureParams? line with
    | none => .error (.malformed s.line (.badSignature name (String.ofList line)))
    | some params =>
      .ok { s with phase := .inside { name := name, params := params }, label := none }
  | _ => s.item (Item.ofLine line)

/-- Read lines up to the first error; the state is the one before the line in error. -/
def steps (s : ReadState) : List (List Char) → ReadState × Option ReadError
  | [] => (s, none)
  | l :: ls =>
    match s.step l with
    | .error e => (s, some e)
    | .ok t => steps t ls

/-- What is wrong when no more lines can be read. -/
def endError? (s : ReadState) (cutShort : Bool) : Option ReadError :=
  match s.phase with
  | .signature name => some (.malformed s.line (.missingSignature name))
  | .inside f =>
    if cutShort then some .lineTooLong else some (.malformed s.line (.unterminated f.name))
  | .between => if cutShort then some .lineTooLong else none

end ReadState

/-- The outcome of reading a program, and what happened on the way. -/
structure Reading where
  result : Except ReadError Program
  events : List Event

namespace Reading

/-- A skipped line, as it is reported. -/
def skippedLine : Event → Option String
  | .lineSkipped n text _ => some ("line " ++ toString n ++ ": " ++ text)
  | _ => none

def skipped (r : Reading) : List String := r.events.filterMap skippedLine

end Reading

def readProgram (text : String) : Reading :=
  let ls := Text.readLines text.toList
  let (s, e) := ReadState.steps {} ls.lines
  match e.or (s.endError? ls.cutShort) with
  | some e => ⟨.error e, s.events⟩
  | none => ⟨.ok (Program.ofFunctions s.functions), s.events⟩

end MipsBackend
