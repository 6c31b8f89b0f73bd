import MipsBackend.Settings.Basic

/-! Flags of the command line. A flag has a long name, given as `--name`, and some have a
letter, given as `-n`; letters can be given together. Switches need no value. Flags and other
arguments mix until `--`. -/
namespace MipsBackend

inductive Flag where
  | showGraph
  | showLiveness
  | showAllocation
  | output
  | registers
  | config
  | verbose
  | logFile
  | help
  | version
  deriving DecidableEq

namespace Flag

def all : List Flag :=
  [.showGraph, .showLiveness, .showAllocation, .output, .registers, .config, .verbose, .logFile,
    .help, .version]

def name : Flag → String
  | .showGraph => "dcfg"
  | .showLiveness => "dlive"
  | .showAllocation => "dalloc"
  | .output => "output"
  | .registers => "registers"
  | .config => "config"
  | .verbose => "verbose"
  | .logFile => "log-file"
  | .help => "help"
  | .version => "version"

def letter? : Flag → Option Char
  | .output => some 'o'
  | .registers => some 'k'
  | .verbose => some 'v'
  | .help => some 'h'
  | _ => none

/-- Whether a flag is a switch: given without a value, it is on. -/
def isSwitch : Flag → Bool
  | .output | .registers | .config | .logFile => false
  | _ => true

def dumps : List Flag := [.showGraph, .showLiveness, .showAllocation]

def ofName? (s : String) : Option Flag := all.find? fun f => f.name = s
def ofLetter? (c : Char) : Option Flag := all.find? fun f => f.letter? = some c

def switchValue? (s : String) : Option Bool :=
  if ["1", "t", "T", "true", "True", "TRUE"].contains s then some true
  else if ["0", "f", "F", "false", "False", "FALSE"].contains s then some false
  else none

end Flag

/-- Arguments with the long names of the dump flags where they stand after a single dash. -/
def expandDumps (args : List String) : List String :=
  args.map fun a =>
    match Flag.dumps.find? fun f => "-" ++ f.name = a with
    | some f => "--" ++ f.name
    | none => a

inductive FlagError where
  | malformed (argument : String)
  | unknownName (name : String)
  | unknownLetter (letter : Char)
  | missingValue (flag : Flag)
  | badValue (flag : Flag) (value : String)
  deriving DecidableEq

structure Options where
  showGraph : Bool := false
  showLiveness : Bool := false
  showAllocation : Bool := false
  help : Bool := false
  version : Bool := false
  /-- The path of a settings file, empty for none. -/
  config : String := ""
  /-- The path of a log file, empty for none. -/
  logFile : String := ""
  /-- The settings that have been given as flags. -/
  settings : Layer := {}
  /-- The arguments that are no flags. -/
  arguments : List String := []
  deriving DecidableEq

namespace Options

def set (o : Options) (f : Flag) (v : String) : Except FlagError Options :=
  let switch (g : Bool → Options) : Except FlagError Options :=
    match Flag.switchValue? v with
    | some b => .ok (g b)
    | none => .error (.badValue f v)
  match f with
  | .showGraph => switch fun b => { o with showGraph := b }
  | .showLiveness => switch fun b => { o with showLiveness := b }
  | .showAllocation => switch fun b => { o with showAllocation := b }
  | .verbose => switch fun b => { o with settings := { o.settings with verbose := some b } }
  | .help => switch fun b => { o with help := b }
  | .version => switch fun b => { o with version := b }
  | .output => .ok { o with settings := { o.settings with output := some v } }
  | .config => .ok { o with config := v }
  | .logFile => .ok { o with logFile := v }
  | .registers =>
    match Text.prefixedInteger? v.toList with
    | some n => .ok { o with settings := { o.settings with registers := some n } }
    | none => .error (.badValue f v)

/-- Take a flag by its long name with what follows it. The answer names a flag whose value is
still to come. -/
def long (o : Options) (s : List Char) : Except FlagError (Options × Option Flag) :=
  let name := String.ofList (s.takeWhile (· ≠ '='))
  if s.head? = some '-' ∨ s.head? = some '=' then .error (.malformed (String.ofList s))
  else match Flag.ofName? name, s.dropWhile (· ≠ '=') with
    | none, _ => .error (.unknownName name)
    | some f, _ :: v => (o.set f (String.ofList v)).map (·, none)
    | some f, [] => if f.isSwitch then (o.set f "true").map (·, none) else .ok (o, some f)

/-- Take flags by their letters, the last one with its value. The answer names a flag whose
value is still to come. -/
def letters (o : Options) : List Char → Except FlagError (Options × Option Flag)
  | [] => .ok (o, none)
  | c :: cs =>
    match Flag.ofLetter? c with
    | none => .error (.unknownLetter c)
    | some f =>
      match cs with
      | '=' :: d :: r => (o.set f (String.ofList (d :: r))).map (·, none)
      | _ =>
        if f.isSwitch then
          match o.set f "true" with
          | .error e => .error e
          | .ok o => o.letters cs
        else match cs with
          | [] => .ok (o, some f)
          | _ => (o.set f (String.ofList cs)).map (·, none)

/-- Take one argument that starts with a dash. -/
def flags (o : Options) : List Char → Except FlagError (Options × Option Flag)
  | '-' :: s => o.long s
  | s => o.letters s

/-- Take the arguments of a command line from left to right. -/
def take (o : Options) : List String → Except FlagError Options
  | [] => .ok o
  | a :: rest =>
    match a.toList with
    | ['-', '-'] => .ok { o with arguments := o.arguments ++ rest }
    | '-' :: c :: s =>
      match o.flags (c :: s) with
      | .error e => .error e
      | .ok (o, none) => o.take rest
      | .ok (o, some f) =>
        match rest with
        | [] => .error (.missingValue f)
        | v :: rest =>
          match o.set f v with
          | .error e => .error e
          | .ok o => o.take rest
    | _ => take { o with arguments := o.arguments ++ [a] } rest

def ofArgs (args : List String) : Except FlagError Options := take {} (expandDumps args)

end Options

example : (Options.ofArgs ["-vk=3", "a", "-dcfg", "--output", "-x", "--", "-v"]).toOption =
    some { showGraph := true, arguments := ["a", "-v"],
           settings := { verbose := some true, registers := some 3, output := some "-x" } } := by
  decide +kernel

end MipsBackend
