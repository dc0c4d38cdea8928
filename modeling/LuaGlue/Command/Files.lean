import LuaGlue.Text.Cut

/-!
# Files

What the commands need of a file system, and one that lives in memory. The commands are written
against the interface, so a run over files in memory is a pure function and says all there is to
say about the run over a disk.

In memory there is a working directory with files in it and below it; a directory exists as long as a
file is somewhere in it. Of what lies outside nothing is known but that directories are there.
-/

set_option autoImplicit false

namespace LuaGlue

/-- Why a file cannot be read or written. -/
inductive FileFault where
  | notFound
  | notDirectory
  | isDirectory
  | denied
  | nameTooLong
  /-- A path with a NUL in it. -/
  | noPath
  | notText
  | other (text : String)
  deriving DecidableEq, Repr

def FileFault.message : FileFault → String
  | notFound => "No such file or directory (os error 2)"
  | notDirectory => "Not a directory (os error 20)"
  | isDirectory => "Is a directory (os error 21)"
  | denied => "Permission denied (os error 13)"
  | nameTooLong => "File name too long (os error 36)"
  | noPath => "file name contained an unexpected NUL byte"
  | notText => "stream did not contain valid UTF-8"
  | other text => text

/-- Reading and writing whole files of text. -/
class Files (m : Type → Type) where
  read : String → m (Except FileFault String)
  write : String → String → m (Except FileFault Unit)

/-! ## Paths -/

/-- The longest name, in bytes. -/
def maxNameSize : Nat := 255

/-- The longest path, in bytes. -/
def maxPathSize : Nat := 4095

/-- The names of a path, `.` and `..` among them. -/
def pathNames (path : String) : List String :=
  ((Text.splitAtChar '/' path.toList).map String.ofList).filter fun name => !name.isEmpty

/-- What is wrong with a path, whatever files there are. -/
def pathFault? (path : String) : Option FileFault :=
  if path.toList.contains '\x00' then some .noPath
  else if path.isEmpty then some .notFound
  else if path.utf8ByteSize > maxPathSize then some .nameTooLong
  else none

/-- A directory a path leads through. -/
inductive Directory where
  /-- The one these names lead to from the working directory. -/
  | inside (names : List String)
  | outside
  deriving DecidableEq, Repr

def Directory.parent : Directory → Directory
  | inside [] | outside => outside
  | inside names => inside names.dropLast

/-- Where a path begins. -/
def startOf (path : String) : Directory :=
  if path.toList.head? == some '/' then .outside else .inside []

/-! ## Files in memory -/

/-- Files by path, given as their names with one slash between them. -/
structure Store where
  files : List (String × String) := []

/-- What a name stands for in a directory. -/
inductive Entry where
  | missing
  | file (text : String)
  | directory (d : Directory)

namespace Store

def pathOf (names : List String) : String := "/".intercalate names

/-- Whether files are below these names. -/
def isDirectory (s : Store) (names : List String) : Bool :=
  s.files.any fun (path, _) =>
    let p := pathNames path
    names.isPrefixOf p && names.length < p.length

/-- Looks up a name in a directory. -/
def entry (s : Store) (d : Directory) (name : String) : Except FileFault Entry :=
  if name == "." then .ok (.directory d)
  else if name == ".." then .ok (.directory d.parent)
  else if name.utf8ByteSize > maxNameSize then .error .nameTooLong
  else
    match d with
    | .outside => .ok .missing
    | .inside names =>
      let path := names ++ [name]
      match s.files.lookup (pathOf path) with
      | some text => .ok (.file text)
      | none => .ok (if s.isDirectory path then .directory (.inside path) else .missing)

/-- The directory that some names lead to from a directory. -/
def walk (s : Store) (d : Directory) : List String → Except FileFault Directory
  | [] => .ok d
  | name :: rest => do
    match ← s.entry d name with
    | .missing => .error .notFound
    | .file _ => .error .notDirectory
    | .directory d' => s.walk d' rest

/-- The directory and the last name of a path; there is no last name if the path is the topmost
directory. -/
def locate (s : Store) (path : String) : Except FileFault (Directory × Option String) := do
  if let some fault := pathFault? path then .error fault
  let names := pathNames path
  let d ← s.walk (startOf path) names.dropLast
  .ok (d, names.getLast?)

/-- Whether a path ends in a slash. -/
def endsInSlash (path : String) : Bool := path.toList.getLast? == some '/'

def read (s : Store) (path : String) : Except FileFault String := do
  match ← s.locate path with
  | (_, none) => .error .isDirectory
  | (d, some name) =>
    match ← s.entry d name with
    | .missing => .error .notFound
    | .directory _ => .error .isDirectory
    | .file text => if endsInSlash path then .error .notDirectory else .ok text

/-- The files with the text of one of them set. -/
def setFile (path text : String) : List (String × String) → List (String × String)
  | [] => [(path, text)]
  | (p, t) :: rest => if p == path then (path, text) :: rest else (p, t) :: setFile path text rest

/-- Writes a file, in a directory that exists. What is written outside leaves no trace. -/
def write (s : Store) (path text : String) : Except FileFault Store := do
  match ← s.locate path with
  | (_, none) => .error .isDirectory
  | (d, some name) =>
    -- a slash at the end asks for a directory, whatever there is
    if endsInSlash path then .error .isDirectory
    match ← s.entry d name with
    | .directory _ => .error .isDirectory
    | _ =>
      match d with
      | .outside => .ok s
      | .inside names => .ok { s with files := setFile (pathOf (names ++ [name])) text s.files }

end Store

instance : Files (StateM Store) where
  read path := do return (← get).read path
  write path text := do
    match (← get).write path text with
    | .ok s => do
      set s
      return .ok ()
    | .error fault => return .error fault

end LuaGlue
