import MipsBackend.Order.Map
import MipsBackend.Text.Blank

/-! Files as a command sees them from its working directory. Files and folders are known by their
plain paths: names from the outermost folder on with slashes between them, without empty names and
without names for the folder itself or for the one around it. -/
namespace MipsBackend

/-- A tree of files, seen from one of its folders. -/
structure Directory where
  files : NameMap String
  /-- Folders besides those that hold one of the files and those around the working directory. -/
  folders : NameSet := ∅
  /-- The working directory: its plain path with a slash after it, or nothing if it is the
  outermost folder. -/
  base : List Char := []
  /-- The paths where no file may be read. -/
  unreadable : NameSet := ∅
  /-- The paths where no file may be written. -/
  unwritable : NameSet := ∅
  /-- How many characters there is room for in files that cannot have any number of them. -/
  limits : NameMap Nat := ∅

/-- Why a path cannot be used. -/
inductive PathError where
  | missing
  | isFolder
  | notFolder
  | nameTooLong
  | invalid
  | denied
  deriving DecidableEq

def PathError.message : PathError → String
  | .missing => "no such file or directory"
  | .isFolder => "is a directory"
  | .notFolder => "not a directory"
  | .nameTooLong => "file name too long"
  | .invalid => "invalid argument"
  | .denied => "permission denied"

namespace Directory

/-- The names in a path, from the outermost folder to the file. -/
def names (path : List Char) : List (List Char) :=
  (Text.pieces '/' path).filter fun n => n ≠ [] ∧ n ≠ ['.']

/-- Whether a plain path belongs to a folder. -/
def isFolder (d : Directory) (path : List Char) : Bool :=
  d.folders.contains (String.ofList path) ||
    (Text.afterStart? (path ++ ['/']) d.base).isSome ||
    d.files.keys.toList.any fun f => (Text.afterStart? (path ++ ['/']) f.toList).isSome

/-- The folder around a folder; both are given with a slash after them. The outermost folder,
which is given by nothing, is its own. -/
def parent (folder : List Char) : List Char :=
  ((folder.reverse.drop 1).dropWhile (· ≠ '/')).reverse

/-- The name for the folder around a folder. -/
def upward : List Char := ['.', '.']

/-- Follow names from a folder, which is given by its plain path with a slash after it, to a plain
path that is no folder. -/
def follow (d : Directory) (folder : List Char) : List (List Char) → Except PathError String
  | [] => .error .isFolder
  | [n] =>
    if 255 < (String.ofList n).utf8ByteSize then .error .nameTooLong
    else if n = upward ∨ d.isFolder (folder ++ n) then .error .isFolder
    else .ok (String.ofList (folder ++ n))
  | n :: m :: ns =>
    let path := folder ++ n
    if 255 < (String.ofList n).utf8ByteSize then .error .nameTooLong
    else if n = upward then follow d (parent folder) (m :: ns)
    else if d.files.contains (String.ofList path) then .error .notFolder
    else if d.isFolder path then follow d (path ++ ['/']) (m :: ns)
    else .error .missing

/-- The plain path of a file, which need not exist. -/
def locate (d : Directory) (path : String) : Except PathError String :=
  if path.toList.contains '\x00' then .error .invalid
  else match path.toList with
    | [] => .error .missing
    | '/' :: cs => d.follow [] (names cs)
    | cs => d.follow d.base (names cs)

def read (d : Directory) (path : String) : Except PathError String :=
  match d.locate path with
  | .error e => .error e
  | .ok p =>
    match d.files.get? p with
    | none => .error .missing
    | some content =>
      if path.toList.getLast? = some '/' then .error .notFolder
      else if d.unreadable.contains p then .error .denied
      else .ok content

/-- Open a file to write it. It is created if it does not exist, and emptied if it does. -/
def create (d : Directory) (path : String) : Except PathError Directory :=
  match d.locate path with
  | .error e => .error e
  | .ok p =>
    if path.toList.getLast? = some '/' then .error .isFolder
    else if d.unwritable.contains p then .error .denied
    else .ok { d with files := d.files.insert p "" }

/-- What a file holds of a text: all of it, or as much as there is room for. -/
def fitting (d : Directory) (p text : String) : String :=
  match d.limits.get? p with
  | some n => String.ofList (text.toList.take n)
  | none => text

/-- Write at the end of a file that has been opened. What there is no room for is lost, and nobody
is told. -/
def append (d : Directory) (path text : String) : Directory :=
  match d.locate path with
  | .error _ => d
  | .ok p => { d with files := d.files.alter p "" fun content => d.fitting p (content ++ text) }

/-- Write lines one after the other. -/
def appendLines (d : Directory) (path : String) (lines : List String) : Directory :=
  lines.foldl (fun d line => d.append path (line ++ "\n")) d

/-- The files of `d` that `before` does not have, or has with other contents. -/
def changes (before d : Directory) : NameMap String :=
  d.files.filter fun p content => decide (before.files.get? p ≠ some content)

end Directory

example : (Directory.read { files := OrdMap.ofList [("a/c", "y")], base := ['a', '/', 'b', '/'] }
    "./..//b/../../a/c").toOption = some "y" := by decide +kernel

example : (Directory.locate { files := OrdMap.ofList [("a", "x")] } "a/x").toOption = none := by
  decide +kernel

end MipsBackend
