import LuaGlue.Command.Run

/-!
# The program on a disk

The outer layer: files of the file system, standard output, standard error and the exit status.
-/

set_option autoImplicit false

namespace LuaGlue

/-- Why the file system refused. -/
def FileFault.ofError : IO.Error → FileFault
  | .noFileOrDirectory .. => .notFound
  | .inappropriateType _ 20 _ => .notDirectory
  | .inappropriateType _ 21 _ => .isDirectory
  | .invalidArgument _ 36 _ => .nameTooLong
  | .permissionDenied .. => .denied
  | .userError _ => .notText
  | e => .other (toString e)

/-- The outcome of an action on files. -/
def attempt {α : Type} (act : IO α) : IO (Except FileFault α) := do
  try
    return .ok (← act)
  catch e => return .error (FileFault.ofError e)

instance : Files IO where
  read path := attempt (IO.FS.readFile path)
  write path text := attempt (IO.FS.writeFile path text)

end LuaGlue

def main (args : List String) : IO UInt32 := do
  let report ← LuaGlue.run args
  IO.eprint report.stderr
  IO.print report.stdout
  return report.exitCode.toUInt32
