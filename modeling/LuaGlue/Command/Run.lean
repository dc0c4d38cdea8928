import LuaGlue.Command.Args
import LuaGlue.Command.Files
import LuaGlue.Generate
import LuaGlue.Interface.Load
import LuaGlue.Manifest.Decode

/-!
# The commands

`generate` writes the glue of an interface, `classify` tells the category of spellings, and `run` is
the whole program: it takes the command line and yields what is printed and the exit status. None of
them exits or prints by itself.
-/

set_option autoImplicit false

namespace LuaGlue

/-- Why a command failed. -/
inductive CommandError where
  | usage (fault : UsageFault)
  | interfaceFile (path : String) (fault : FileFault)
  | interface (fault : InterfaceFault)
  | manifestFile (path : String) (fault : FileFault)
  | manifest (error : ManifestError)
  | write (path : String) (fault : FileFault)
  /-- The module lacks names; `code` is the C file unless it was written to a file. -/
  | hardProblems (problems : List String) (code : Option String)
  deriving DecidableEq, Repr

def CommandError.message : CommandError → String
  | usage fault => fault.message
  | interfaceFile path fault => "cannot read IR '" ++ path ++ "': " ++ fault.message
  | interface fault => fault.message
  | manifestFile path fault => "cannot read config '" ++ path ++ "': " ++ fault.message
  | manifest error => error.message
  | write path fault => "cannot write '" ++ path ++ "': " ++ fault.message
  | hardProblems problems _ => "module is incomplete: " ++ "; ".intercalate problems

variable {m : Type → Type} [Monad m] [Files m]

/-- A command's course: it may fail, and it reads and writes files. -/
abbrev Course (m : Type → Type) (α : Type) := ExceptT CommandError m α

/-! ## Inputs -/

def readManifest (path : String) : Course m Manifest := do
  match ← Files.read (m := m) path with
  | .error fault => throw (.manifestFile path fault)
  | .ok text =>
    match Manifest.parse text with
    | .error error => throw (.manifest error)
    | .ok manifest => return manifest

def readInterface (overloads : Bool) : Option String → Course m Interface
  | none => return {}
  | some path => do
    match ← Files.read (m := m) path with
    | .error fault => throw (.interfaceFile path fault)
    | .ok text =>
      match Interface.parse overloads text with
      | .error fault => throw (.interface fault)
      | .ok i => return i

/-- The manifest and then the interface it describes, with its owned buffers attached. Same-named
functions that differ by type are kept for C++. -/
def readInputs (interface : Option String) (manifest : String) : Course m (Interface × Manifest) := do
  let manifest ← readManifest manifest
  let i ← readInterface manifest.isCpp interface
  match manifest.attachOwnedBuffers i with
  | .error fault => throw (.manifest (.invalid fault))
  | .ok i => return (i, manifest)

def writeFile (path text : String) : Course m Unit := do
  match ← Files.write (m := m) path text with
  | .error fault => throw (.write path fault)
  | .ok _ => return

/-! ## Commands -/

/-- What a run of `generate` came to. -/
structure GenerateSummary where
  /-- The C file, unless it was written to a file. -/
  code : Option String
  /-- What was left out. -/
  problems : List String
  placeholders : Nat
  deriving DecidableEq, Repr

/-- Generates and writes the outputs. They are written even if declarations were left out, so that
they can be looked at; hard problems fail the command afterwards. -/
def runGenerate (o : GenerateOptions) : Course m GenerateSummary := do
  let (i, manifest) ← readInputs (some o.interface) o.manifest
  let g := generate i manifest
  if let some path := o.stubs then writeFile path g.stubs
  let code ←
    match o.output with
    | some path => do
      writeFile path g.code
      pure none
    | none => pure (some g.code)
  let hard := g.problems.filter (·.fault.isHard)
  if hard.isEmpty then
    return { code := code, problems := g.problems.map (·.message), placeholders := g.placeholders }
  else throw (.hardProblems (hard.map (·.message)) code)

/-- The line `classify` prints for a spelling. -/
def classifyLine (index : TypeIndex) (spelling : String) : Classifying String := do
  return spelling ++ " => " ++ (← classify index spelling).describe

/-- Tells the category of spellings, one line each. -/
def runClassify (o : ClassifyOptions) : Course m (List String) := do
  let (i, manifest) ← readInputs o.interface o.manifest
  return Classifying.fresh (o.types.mapM (classifyLine (TypeIndex.build i manifest)))

/-! ## The program -/

/-- What a run of the program prints, and its exit status. -/
structure Report where
  stdout : String := ""
  stderr : String := ""
  exitCode : Nat := 0
  deriving DecidableEq, Repr

def programVersion : String := "0.1.0-alpha.1"

def textOfLines (lines : List String) : String := String.join (lines.map (· ++ "\n"))

def helpText : String := textOfLines
  ["Tether - Lua C-API binding generator",
   "",
   "Usage: tether <command> [options]",
   "",
   "Commands:",
   "  generate <ir.json>   Generate bindings for a declaration IR",
   "  classify <type>...   Show the category of C type spellings",
   "  help                 Show this help message",
   "  version              Show version information",
   "",
   "Generate options:",
   "  -c, --config <file>  Binding manifest (required)",
   "  -o, --output <file>  Write C source here (default: stdout)",
   "  -t, --types <file>   Write a LuaCATS stub file",
   "",
   "Classify options:",
   "  -c, --config <file>  Binding manifest (required)",
   "  --ir <file>          Make the IR's structs and enums known",
   "",
   "Logging:",
   "  TETHER_LOG=<filter>  e.g. TETHER_LOG=tether_codegen=debug"]

/-- The report of a failed command. -/
def failureReport (command : String) (error : CommandError) : Report where
  stdout :=
    match error with
    | .hardProblems _ (some code) => code
    | _ => ""
  stderr := "error: " ++ error.message ++ "\n" ++
    match error with
    | .usage _ => "\nRun `tether help` for the usage of '" ++ command ++ "'.\n"
    | _ => ""
  exitCode := 1

/-- The report of a finished `generate`. -/
def GenerateSummary.report (s : GenerateSummary) : Report where
  stdout := s.code.getD ""
  stderr := textOfLines (s.problems.map ("warning: skipped " ++ ·)) ++
    if s.placeholders > 0 then
      "note: " ++ toString s.placeholders ++ " unsupported value(s) marked TETHER_UNSUPPORTED\n"
    else ""

/-- The outcome of a command line that may be wrong. -/
def withOptions {α β : Type} (options : Except UsageFault α) (command : α → Course m β) :
    Course m β :=
  match options with
  | .error fault => throw (.usage fault)
  | .ok o => command o

def generateCommand (args : List String) : m (Except CommandError GenerateSummary) :=
  (withOptions (GenerateOptions.parse args) runGenerate).run

def classifyCommand (args : List String) : m (Except CommandError (List String)) :=
  (withOptions (ClassifyOptions.parse args) runClassify).run

/-- The program. -/
def run (args : List String) : m Report := do
  match args with
  | [] => return { stdout := helpText }
  | command :: rest =>
    match command with
    | "generate" | "gen" =>
      match ← generateCommand rest with
      | .ok summary => return summary.report
      | .error error => return failureReport "generate" error
    | "classify" =>
      match ← classifyCommand rest with
      | .ok lines => return { stdout := textOfLines lines }
      | .error error => return failureReport "classify" error
    | "help" | "--help" | "-h" => return { stdout := helpText }
    | "version" | "--version" | "-V" =>
      return { stdout := "tether " ++ programVersion ++ "\n" }
    | _ =>
      return {
        stdout := helpText
        stderr := "Unknown command: " ++ command ++ "\n\n"
        exitCode := 1 }

end LuaGlue
