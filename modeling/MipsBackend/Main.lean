import MipsBackend.Command.Basic

/-! The program: look at the files that the command line names, run the command on them as a
value, and carry out what it has done. -/
namespace MipsBackend.Main

inductive Found where
  | nothing
  | locked
  | folder
  | file (content : String)

/-- Look at a plain path. -/
def look (path : String) : IO Found := do
  try
    return .file (← IO.FS.readFile ("/" ++ path))
  catch
    | .inappropriateType .. => return .folder
    | .permissionDenied .. => return .locked
    | _ => return .nothing

/-- Whether a file that exists can be written. -/
def isWritable (path : String) : IO Bool := do
  try
    discard (IO.FS.Handle.mk ("/" ++ path) .readWrite)
    return true
  catch _ => return false

/-- Add what stands along a path, given by its names below a folder, up to the first name that
is no folder. -/
def survey (d : Directory) (folder : List Char) : List (List Char) → IO Directory
  | [] => return d
  | n :: ns => do
    if n = Directory.upward then survey d (Directory.parent folder) ns
    else
      let path := String.ofList (folder ++ n)
      match ← look path with
      | .nothing => return d
      | .locked => return { d with
          files := d.files.insert path ""
          unreadable := d.unreadable.insert path
          unwritable := d.unwritable.insert path }
      | .file content =>
        let d := { d with files := d.files.insert path content }
        if ← isWritable path then return d
        else return { d with unwritable := d.unwritable.insert path }
      | .folder =>
        survey { d with folders := d.folders.insert path } (folder ++ n ++ ['/']) ns

/-- Add what stands along a path. -/
def surveyPath (d : Directory) (path : String) : IO Directory :=
  match path.toList with
  | '/' :: cs => survey d [] (Directory.names cs)
  | cs => survey d d.base (Directory.names cs)

/-- The working directory, without its files. -/
def workingDirectory : IO Directory := do
  let names := Directory.names (← IO.currentDir).toString.toList
  return { files := ∅, base := names.flatMap (· ++ ['/']) }

/-- The files and folders that a command line makes use of. -/
def surveyFor (args : List String) (env : NameMap String) : IO Directory := do
  let d ← workingDirectory
  match Options.ofArgs args with
  | .error _ => return d
  | .ok o =>
    let d ← (o.config :: o.logFile :: o.arguments.take 1).foldlM surveyPath d
    match o.resolve d env with
    | .error _ => return d
    | .ok s => surveyPath d s.output

def environment : IO (NameMap String) :=
  Layer.variableNames.foldlM
    (fun env n => do return (← IO.getEnv n).elim env (env.insert n)) ∅

/-- Run the command and give its exit code. -/
def run (args : List String) : IO UInt32 := do
  let env ← environment
  let before ← surveyFor args env
  let r := runCommand args env before
  for (path, content) in (before.changes r.progress.directory).entries do
    IO.FS.writeFile ("/" ++ path) content
  IO.print r.progress.stdout
  IO.eprint r.progress.stderr
  return r.exitCode.toUInt32

end MipsBackend.Main

def main (args : List String) : IO UInt32 := MipsBackend.Main.run args
