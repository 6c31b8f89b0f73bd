import MipsBackend.Command.Flags
import MipsBackend.Generate
import MipsBackend.Log
import MipsBackend.Program.Listing
import MipsBackend.Reader
import MipsBackend.Report.Basic

/-! The command: compile a file to assembly. It runs on a directory as a value, and gives the
directory that it leaves behind together with what it prints. -/
namespace MipsBackend

/-- Where log records go. -/
inductive LogTarget where
  | nowhere
  | console
  | file (path : String)
  deriving DecidableEq

/-- What a run has done so far. -/
structure Progress where
  directory : Directory
  stdout : String := ""
  stderr : String := ""

namespace Progress

def print (w : Progress) (text : String) : Progress := { w with stdout := w.stdout ++ text }

def report (w : Progress) (text : String) : Progress :=
  { w with stderr := w.stderr ++ "ralph-mips: " ++ text ++ "\n" }

def log (w : Progress) (t : LogTarget) (events : List Event) : Progress :=
  match t with
  | .nowhere => w
  | .console =>
    { w with stderr := w.stderr ++ String.join (events.map (·.record.wordLine)) }
  | .file p =>
    { w with directory := events.foldl (fun d e => d.append p e.record.jsonLine) w.directory }

end Progress

structure Outcome where
  success : Bool
  progress : Progress

def Progress.done (w : Progress) : Outcome := ⟨true, w⟩
def Progress.failed (w : Progress) : Outcome := ⟨false, w⟩

def Outcome.exitCode (r : Outcome) : Nat := if r.success then 0 else 1

def versionText : String := "ralph-mips version 0.1.0\n"

def helpText : String := unlines [
  "ralph-mips translates a three-address intermediate representation into",
  "MIPS32 assembly. Variables are kept in memory (naive), cached in",
  "registers per basic block (intra) or assigned registers function-wide",
  "by graph coloring (global).",
  "",
  "Schemes: naive, intra, global",
  "",
  "Usage:",
  "  ralph-mips [file] [naive|intra|global] [flags]",
  "",
  "Flags:",
  "      --config string     Read settings from a YAML file",
  "      --dalloc            Dump webs, interference degree and register assignment",
  "      --dcfg              Dump the control flow graph",
  "      --dlive             Dump liveness per instruction and per block",
  "  -h, --help              help for ralph-mips",
  "      --log-file string   Write JSON logs to this file instead of stderr",
  "  -o, --output string     Write assembly to this file (default \"out.s\")",
  "  -k, --registers int     Number of $s registers available to the allocator (default 8)",
  "  -v, --verbose           Log compiler passes to stderr",
  "      --version           version for ralph-mips"]

namespace Options

/-- Print the analyses of a function that have been asked for. -/
def dumpFunction (o : Options) (p : Program) (k : Int) (t : LogTarget) (w : Progress)
    (f : Function) : Progress :=
  let w := if o.showLiveness then
      let l := f.liveness
      let b := f.blockLiveness
      ((w.log t [l.instructionEvent f]).print (f.livenessTable l).text).log t [b.blockEvent f]
        |>.print (f.blockLivenessTable b).text
    else w
  if o.showAllocation then
    let a := Allocation.ofFunction p f k
    (w.log t (a.events f)).print (a.table p f).text
  else w

def dump (o : Options) (p : Program) (k : Int) (t : LogTarget) (w : Progress) : Progress :=
  let w := if o.showGraph then w.print p.listing else w
  p.functions.foldl (o.dumpFunction p k t) w

/-- Write the assembly of a program. The output is not opened before all else has succeeded, and
then written line by line. -/
def emit (job : Job) (p : Program) (t : LogTarget) (w : Progress) : Outcome :=
  let w := w.log t (p.generateEvents job.strategy p.functions)
  match p.generate job.strategy with
  | .error e => (w.report ("error: " ++ e.message)).failed
  | .ok asm =>
    match w.directory.create job.output with
    | .error e =>
      (w.report ("error creating " ++ job.output ++ ": open " ++ job.output ++ ": " ++
        e.message)).failed
    | .ok d =>
      ({ w with directory := d.appendLines job.output asm.textLines }.log t
        [.assemblyWritten job.output job.scheme.name asm.functions.length]).done

def compile (o : Options) (job : Job) (t : LogTarget) (input : String) (w : Progress) : Outcome :=
  match w.directory.read input with
  | .error .isFolder =>
    (w.report (input ++ ": read: read " ++ input ++ ": " ++ PathError.isFolder.message)).failed
  | .error e =>
    (w.report ("error reading " ++ input ++ ": open " ++ input ++ ": " ++ e.message)).failed
  | .ok text =>
    let r := readProgram text
    let w := w.log t r.events
    match r.result with
    | .error e => (w.report (input ++ ": " ++ e.message)).failed
    | .ok p =>
      let w := r.skipped.foldl
        (fun w s => w.report ("warning: " ++ input ++ ": skipped " ++ s)) w
      emit job p t (o.dump p job.registers t w)

/-- Start the log: a log file is created even if nothing will be written to it. -/
def startLog (o : Options) (verbose : Bool) (d : Directory) :
    Except PathError (LogTarget × Directory) :=
  if o.logFile = "" then .ok (if verbose then .console else .nowhere, d)
  else match d.create o.logFile with
    | .error e => .error e
    | .ok d => .ok (if verbose then .file o.logFile else .nowhere, d)

end Options

/-- What the command leaves to others: how a command line is taken apart, and how a settings file is
read. -/
structure Library where
  parse : List String → Except FlagError Options
  decode : Decoder

namespace Library

/-- The settings of a command line, with those in the settings file and the environment. The
second argument is the scheme. -/
def resolve (lib : Library) (o : Options) (d : Directory) (env : NameMap String) :
    Except SettingsError Settings :=
  match lib.decode.load d env o.config with
  | (_, some e) => .error e
  | (s, none) => .ok ((s.overlay { scheme := o.arguments[1]? }).overlay o.settings)

/-- Carry out a command line that compiles the file at `input`. -/
def execute (lib : Library) (o : Options) (env : NameMap String) (input : String)
    (d : Directory) : Outcome :=
  let w : Progress := { directory := d }
  match lib.resolve o d env with
  | .error e => (w.report ("error: " ++ e.message)).failed
  | .ok s =>
    match s.check with
    | .error e => (w.report ("error: " ++ e.message)).failed
    | .ok job =>
      match o.startLog s.verbose d with
      | .error e =>
        (w.report ("error: log file: open " ++ o.logFile ++ ": " ++ e.message)).failed
      | .ok (t, d) => o.compile job t input { w with directory := d }

/-- Run the command. Flags that cannot be used and arguments too many end it without a word. -/
def run (lib : Library) (args : List String) (env : NameMap String) (d : Directory) : Outcome :=
  let w : Progress := { directory := d }
  match lib.parse args with
  | .error _ => w.failed
  | .ok o =>
    if o.help then (w.print helpText).done
    else if o.version then (w.print versionText).done
    else if 2 < o.arguments.length then w.failed
    else match o.arguments with
      | [] => (w.print helpText).done
      | input :: _ => lib.execute o env input d

/-- Flags and settings files as they are read here. -/
def own : Library := ⟨Options.ofArgs, Layer.ofText⟩

end Library

def Options.resolve : Options → Directory → NameMap String → Except SettingsError Settings :=
  Library.own.resolve

def runCommand : List String → NameMap String → Directory → Outcome := Library.own.run

end MipsBackend
