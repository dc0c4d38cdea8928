/-!
# Command lines

What may stand after `generate` and after `classify`. A flag takes the argument after it as its
value, whatever that looks like; a flag given twice counts the second time.
-/

set_option autoImplicit false

namespace LuaGlue

/-- What is wrong with a command line. -/
inductive UsageFault where
  | missingInterface
  | missingManifest
  | missingTypes
  | missingValue (flag : String)
  | unknownOption (arg : String)
  | unexpectedArgument (arg : String)
  deriving DecidableEq, Repr

def UsageFault.message : UsageFault → String
  | missingInterface => "missing IR file"
  | missingManifest => "missing '--config <binding.toml>'"
  | missingTypes => "no type spellings given"
  | missingValue flag => "missing value for '" ++ flag ++ "'"
  | unknownOption arg => "unknown option '" ++ arg ++ "'"
  | unexpectedArgument arg => "unexpected argument '" ++ arg ++ "'"

/-! ## `generate` -/

structure GenerateOptions where
  interface : String
  manifest : String
  /-- The C file; standard output if absent. -/
  output : Option String
  /-- The stub file; not written if absent. -/
  stubs : Option String
  deriving DecidableEq, Repr

/-- The options of `generate` read so far. -/
structure GenerateArgs where
  interface : Option String := none
  manifest : Option String := none
  output : Option String := none
  stubs : Option String := none

/-- Where the value of a flag goes. -/
def GenerateArgs.flag? (flag : String) : Option (String → GenerateArgs → GenerateArgs) :=
  match flag with
  | "--config" | "-c" => some fun value a => { a with manifest := some value }
  | "--output" | "-o" => some fun value a => { a with output := some value }
  | "--types" | "-t" => some fun value a => { a with stubs := some value }
  | _ => none

/-- Reads arguments in order. -/
def GenerateArgs.read (a : GenerateArgs) : List String → Except UsageFault GenerateArgs
  | [] => .ok a
  | arg :: rest =>
    match flag? arg with
    | some set =>
      match rest with
      | [] => .error (.missingValue arg)
      | value :: rest' => (set value a).read rest'
    | none =>
      if arg.toList.head? == some '-' then .error (.unknownOption arg)
      else if a.interface.isSome then .error (.unexpectedArgument arg)
      else { a with interface := some arg }.read rest

def GenerateOptions.parse (args : List String) : Except UsageFault GenerateOptions := do
  let a ← GenerateArgs.read {} args
  match a.interface, a.manifest with
  | none, _ => .error .missingInterface
  | some _, none => .error .missingManifest
  | some interface, some manifest =>
    .ok { interface := interface, manifest := manifest, output := a.output, stubs := a.stubs }

/-! ## `classify` -/

structure ClassifyOptions where
  manifest : String
  /-- An interface whose structs and enums are to be known. -/
  interface : Option String
  types : List String
  deriving DecidableEq, Repr

/-- The options of `classify` read so far. -/
structure ClassifyArgs where
  manifest : Option String := none
  interface : Option String := none
  types : List String := []

/-- Where the value of a flag goes. -/
def ClassifyArgs.flag? (flag : String) : Option (String → ClassifyArgs → ClassifyArgs) :=
  match flag with
  | "--config" | "-c" => some fun value a => { a with manifest := some value }
  | "--ir" => some fun value a => { a with interface := some value }
  | _ => none

/-- Reads arguments in order; whatever is no flag is a spelling. -/
def ClassifyArgs.read (a : ClassifyArgs) : List String → Except UsageFault ClassifyArgs
  | [] => .ok a
  | arg :: rest =>
    match flag? arg with
    | some set =>
      match rest with
      | [] => .error (.missingValue arg)
      | value :: rest' => (set value a).read rest'
    | none => { a with types := a.types ++ [arg] }.read rest

def ClassifyOptions.parse (args : List String) : Except UsageFault ClassifyOptions := do
  let a ← ClassifyArgs.read {} args
  match a.manifest with
  | none => .error .missingManifest
  | some manifest =>
    if a.types.isEmpty then .error .missingTypes
    else .ok { manifest := manifest, interface := a.interface, types := a.types }

end LuaGlue
