import MipsBackend.Directory
import MipsBackend.Placement.Scheme
import MipsBackend.Settings.Flat

/-! Settings of a compilation. They come in layers: the defaults, then a settings file, then
variables of the environment, then the command line. A layer gives a value to some of the
settings and leaves the others as they are. -/
namespace MipsBackend

structure Settings where
  scheme : String
  registers : Int
  output : String
  verbose : Bool
  deriving DecidableEq

/-- Values for some of the settings. -/
structure Layer where
  scheme : Option String := none
  registers : Option Int := none
  output : Option String := none
  verbose : Option Bool := none
  deriving DecidableEq

/-- The values of both layers, those of `m` where both have one. -/
def Layer.over (l m : Layer) : Layer where
  scheme := m.scheme.or l.scheme
  registers := m.registers.or l.registers
  output := m.output.or l.output
  verbose := m.verbose.or l.verbose

namespace Settings

/-- The settings that nothing has changed. -/
def default : Settings where
  scheme := ""
  registers := Asm.Register.savedCount
  output := "out.s"
  verbose := false

/-- Settings with a layer on top. -/
def overlay (s : Settings) (l : Layer) : Settings where
  scheme := l.scheme.getD s.scheme
  registers := l.registers.getD s.registers
  output := l.output.getD s.output
  verbose := l.verbose.getD s.verbose

@[simp] theorem overlay_empty (s : Settings) : s.overlay {} = s := rfl

end Settings

/-- What a value in a settings file is wanted for. -/
inductive Wanted where
  | integer
  | boolean
  | settings
  deriving DecidableEq

def Wanted.name : Wanted → String
  | .integer => "int"
  | .boolean => "bool"
  | .settings => "config.Config"

/-- A fault in a settings file. -/
inductive FileFault where
  | unknownKey (line : Nat) (key : String)
  | wrongType (line : Nat) (value : Scalar) (wanted : Wanted)
  | repeatedKey (line : Nat) (key : String) (first : Nat)
  deriving DecidableEq

/-- The start of a text within a number of bytes. Of a character that does not fit, every byte
that does is shown by a replacement character. -/
def startWithin (room : Nat) : List Char → List Char
  | [] => []
  | c :: cs =>
    if c.utf8Size ≤ room then c :: startWithin (room - c.utf8Size) cs
    else List.replicate room '\ufffd'

/-- A value as a fault shows it: of a long one only the start. -/
def shownValue (s : String) : String :=
  if 10 < s.utf8ByteSize then String.ofList (startWithin 7 s.toList) ++ "..." else s

def FileFault.message : FileFault → String
  | .unknownKey n k => "line " ++ toString n ++ ": field " ++ k ++ " not found in type config.Config"
  | .wrongType n v w =>
    "line " ++ toString n ++ ": cannot unmarshal " ++ v.value.tag ++ " `" ++ shownValue v.text ++
      "` into " ++ w.name
  | .repeatedKey n k m =>
    "line " ++ toString n ++ ": mapping key " ++ Text.quote k ++ " already defined at line " ++
      toString m

/-- Why a settings file does not count as it stands. -/
inductive FileError where
  | faults (list : List FileFault)
  | controlCharacter
  /-- A value that should be a mapping, to take its entries over. -/
  | noMapping
  deriving DecidableEq

def FileError.message : FileError → String
  | .faults fs => "unmarshal errors:" ++ String.join (fs.map ("\n  " ++ ·.message))
  | .controlCharacter => "control characters are not allowed"
  | .noMapping => "map merge requires map or sequence of maps as the value"

namespace Scalar

/-- A scalar as a text. Null is none. -/
def text? (s : Scalar) : Option String := if s.value = .null then none else some s.text

/-- A number as an integer. Fractions are cut, and those far below zero become the smallest
integer, as does 2^63. -/
def integer? (s : Scalar) : Option Int :=
  match s.value with
  | .int n => if n < Text.wordLimit then some n else none
  | .float n => if n ≤ Text.wordLimit then some (if Text.inWord n then n else -Text.wordLimit) else none
  | .infinity true => some (-Text.wordLimit)
  | _ => none

/-- A boolean; some more words are taken for one. -/
def boolean? (s : Scalar) : Option Bool :=
  match s.value with
  | .bool b => some b
  | .text =>
    if ["y", "Y", "yes", "Yes", "YES", "on", "On", "ON"].contains s.text then some true
    else if ["n", "N", "no", "No", "NO", "off", "Off", "OFF"].contains s.text then some false
    else none
  | _ => none

end Scalar

namespace Layer

/-- Read a value unless it is null, which stands for no value. -/
def typed {α : Type} (line : Nat) (v : Scalar) (wanted : Wanted) (read : Scalar → Option α) :
    Except FileFault (Option α) :=
  if v.value = .null then .ok none
  else match read v with
    | some a => .ok (some a)
    | none => .error (.wrongType line v wanted)

/-- The setting on a line of a settings file. A key that is null counts for nothing, and so does
one that takes entries over. -/
def ofEntry (e : FlatEntry) : Except FileFault Layer :=
  if e.key.value = .null ∨ e.key.value = .merge then .ok {}
  else match e.key.text with
    | "scheme" => .ok { scheme := e.value.text? }
    | "registers" => (typed e.line e.value .integer Scalar.integer?).map ({ registers := · })
    | "output" => .ok { output := e.value.text? }
    | "verbose" => (typed e.line e.value .boolean Scalar.boolean?).map ({ verbose := · })
    | k => .error (.unknownKey e.line k)

/-- The faults of keys that stand twice: every such pair, in the order of the first ones. -/
def repeatedKeys : List FlatEntry → List FileFault
  | [] => []
  | e :: es =>
    (es.filter fun f => f.key.text = e.key.text).map
      (fun f => .repeatedKey f.line f.key.text e.line) ++ repeatedKeys es

/-- The settings on the lines of a settings file and the faults of the other lines. -/
def ofEntries : List FlatEntry → Layer × List FileFault
  | [] => ({}, [])
  | e :: es =>
    let (l, faults) := ofEntries es
    match ofEntry e with
    | .ok m => (m.over l, faults)
    | .error f => (l, f :: faults)

/-- The error that faults make, if there are any. -/
def faultsError (fs : List FileFault) : Option FileError :=
  if fs.isEmpty then none else some (.faults fs)

/-- The settings in the entries of a file and its error. If a key stands twice, no setting counts.
There are no mappings whose entries a key could take over. -/
def ofMapping (es : List FlatEntry) : Layer × Option FileError :=
  let repeated := repeatedKeys es
  let (l, faults) := ofEntries es
  if !repeated.isEmpty then ({}, some (.faults repeated))
  else if es.any fun e => e.key.value = .merge then (l, some .noMapping)
  else (l, faultsError faults)

/-- The settings in a settings file and its error. -/
def ofText (s : String) : Layer × Option FileError :=
  if !s.toList.all FlatDocument.isAllowed then ({}, some .controlCharacter)
  else match FlatDocument.ofText s with
    | .empty => ({}, none)
    | .scalar n v => ({}, if v.value = .null then none else some (.faults [.wrongType n v .settings]))
    | .entries es => ofMapping es

/-- The variables of the environment that give settings. -/
def variableNames : List String :=
  ["RALPH_MIPS_SCHEME", "RALPH_MIPS_REGISTERS", "RALPH_MIPS_OUTPUT", "RALPH_MIPS_VERBOSE"]

/-- The value of a variable of the environment; an empty one is as good as none. -/
def given? (env : NameMap String) (name : String) : Option String :=
  (env.get? name).filter (· ≠ "")

/-- The words that make a variable true. -/
def affirmations : List String :=
  ["1", "t", "T", "true", "True", "TRUE", "y", "Y", "yes", "Yes", "YES",
    "absolutely", "Absolutely", "ABSOLUTELY", "affirmative", "Affirmative", "AFFIRMATIVE",
    "enable", "Enable", "ENABLE", "enabled", "Enabled", "ENABLED",
    "positive", "Positive", "POSITIVE"]

/-- The settings in the environment. A number of registers that is no number is ignored. -/
def ofEnvironment (env : NameMap String) : Layer where
  scheme := given? env "RALPH_MIPS_SCHEME"
  registers := (given? env "RALPH_MIPS_REGISTERS").bind fun s => Text.integer? s.toList
  output := given? env "RALPH_MIPS_OUTPUT"
  verbose := (given? env "RALPH_MIPS_VERBOSE").map affirmations.contains

end Layer

/-- Why settings cannot be used. -/
inductive SettingsError where
  | unreadable (path : String) (cause : PathError)
  | faulty (path : String) (cause : FileError)
  | noScheme
  | scheme (cause : SchemeError)
  | noOutput
  deriving DecidableEq

def SettingsError.message : SettingsError → String
  | .unreadable p .isFolder => "config: read " ++ p ++ ": " ++ PathError.isFolder.message
  | .unreadable p e => "config: open " ++ p ++ ": " ++ e.message
  | .faulty p e => "config " ++ p ++ ": yaml: " ++ e.message
  | .noScheme => "no allocation scheme selected"
  | .scheme e => e.message
  | .noOutput => "empty output path"

/-- Settings that have been checked. -/
structure Job where
  scheme : Scheme
  registers : Int
  strategy : Strategy
  output : String
  deriving DecidableEq

/-- A way to read settings files: the settings in a text, and what is wrong with it. -/
abbrev Decoder := String → Layer × Option FileError

namespace Decoder

/-- Lay a settings file over the settings. Also a file with faults counts with its other
lines. -/
def loadFile (decode : Decoder) (s : Settings) (d : Directory) (path : String) :
    Settings × Option SettingsError :=
  match d.read path with
  | .error e => (s, some (.unreadable path e))
  | .ok content =>
    let (l, e) := decode content
    (s.overlay l, e.map (.faulty path))

/-- The settings by defaults, the file at `path` unless that is empty, and the environment. An
error in the file leaves the environment out. -/
def load (decode : Decoder) (d : Directory) (env : NameMap String) (path : String) :
    Settings × Option SettingsError :=
  let (s, e) := if path = "" then (.default, none) else decode.loadFile .default d path
  (if e.isNone then s.overlay (.ofEnvironment env) else s, e)

end Decoder

namespace Settings

def loadFile : Settings → Directory → String → Settings × Option SettingsError :=
  Decoder.loadFile Layer.ofText

def load : Directory → NameMap String → String → Settings × Option SettingsError :=
  Decoder.load Layer.ofText

/-- Check the settings: the scheme first, then the number of registers, then the output. -/
def check (s : Settings) : Except SettingsError Job :=
  if s.scheme = "" then .error .noScheme
  else match Scheme.ofName s.scheme with
    | .error e => .error (.scheme e)
    | .ok scheme =>
      match Strategy.ofScheme scheme s.registers with
      | .error e => .error (.scheme e)
      | .ok strategy =>
        if s.output = "" then .error .noOutput
        else .ok ⟨scheme, s.registers, strategy, s.output⟩

end Settings

example : (Layer.ofText "registers: x\nverbose: y\nscheme: 5\nfoo: 1").1 =
    { scheme := some "5", verbose := some true } := by decide +kernel

end MipsBackend
