import LuaGlue.Manifest
import LuaGlue.Toml.Read

/-!
# From TOML to a manifest

Each part of a manifest is a record with fixed keys, all of which may be left out unless the part
makes no sense without them; a key no part knows is refused. The keys are the ones people write, so
this module is also the list of what a manifest may say.
-/

set_option autoImplicit false

namespace LuaGlue

open Toml

/-- A list of texts. -/
def texts? : Toml → Option (List String) := list? str?

def keywordPolicies : List (String × KeywordPolicy) := [("alias", .alias), ("rename", .rename)]

def languages : List (String × Language) := [("c", .c), ("cpp", .cpp)]

def registrations : List (String × Registration) := [("module", .module), ("into_table", .intoTable)]

def Naming.ofToml? (t : Toml) : Option Naming := do
  let key ← record?
    ["module", "prefix", "metatable_namespace", "entry_point", "type_prefixes", "call_prefix",
     "keyword_policy", "uppercase_enum_items", "const_strip_prefix"] t
  pure {
    module := ← orElse "" str? (key "module")
    stem := ← orElse "" str? (key "prefix")
    metatableSpace := ← orElse "" str? (key "metatable_namespace")
    entryPoint := ← orElse none (fun v => (str? v).map some) (key "entry_point")
    typeStems := ← orElse [] texts? (key "type_prefixes")
    callQualifier := ← orElse "" str? (key "call_prefix")
    keywordPolicy := ← orElse .alias (variant? keywordPolicies) (key "keyword_policy")
    capitalEnumItems := ← orElse false bool? (key "uppercase_enum_items")
    constStem := ← orElse none (fun v => (str? v).map some) (key "const_strip_prefix") }

def Filter.ofToml? (t : Toml) : Option Filter := do
  let key ← record? ["skip", "manual", "skip_structs"] t
  pure {
    skip := ← orElse [] texts? (key "skip")
    manual := ← orElse [] texts? (key "manual")
    skipStructs := ← orElse [] texts? (key "skip_structs") }

def ByteRange.ofToml? (t : Toml) : Option ByteRange := do
  let key ← record? ["pointer", "size"] t
  pure {
    pointer := ← orElse "ptr" str? (key "pointer")
    size := ← orElse "size" str? (key "size") }

def TypeRules.ofToml? (t : Toml) : Option TypeRules := do
  let key ← record?
    ["basic_structs", "basic_enums", "aliases", "integer_typedef_prefixes", "count_param_names",
     "array_params", "tuple_structs", "byte_range_structs", "flatten_fields"] t
  pure {
    basicStructs := ← orElse [] texts? (key "basic_structs")
    basicEnums := ← orElse [] texts? (key "basic_enums")
    aliases := ← orElse [] (map? str?) (key "aliases")
    integerStems := ← orElse [] texts? (key "integer_typedef_prefixes")
    countNames := ← orElse ["count"] texts? (key "count_param_names")
    arrayParams := ← orElse [] (map? count?) (key "array_params")
    tuples := ← orElse [] (map? texts?) (key "tuple_structs")
    byteRanges := ← orElse [] (map? ByteRange.ofToml?) (key "byte_range_structs")
    flattened := ← orElse [] texts? (key "flatten_fields") }

def OwnedBufferRule.ofToml? (t : Toml) : Option OwnedBufferRule := do
  let key ← record? ["struct", "pointer", "count"] t
  pure {
    struct := ← need str? (key "struct")
    pointer := ← need str? (key "pointer")
    count := ← need str? (key "count") }

def DummyBackend.ofToml? (t : Toml) : Option DummyBackend := do
  let key ← record? ["guard", "prefixes", "returns"] t
  pure {
    guard := ← orElse "" str? (key "guard")
    stems := ← orElse [] texts? (key "prefixes")
    returns := ← orElse [] (map? str?) (key "returns") }

def ExtraRegistration.ofToml? (t : Toml) : Option ExtraRegistration := do
  let key ← record? ["name", "function"] t
  pure {
    name := ← need str? (key "name")
    function := ← need str? (key "function") }

def Output.ofToml? (t : Toml) : Option Output := do
  let key ← record?
    ["language", "includes", "export_macro", "registration", "callback_error_sink",
     "extra_registrations"] t
  pure {
    language := ← orElse .c (variant? languages) (key "language")
    includes := ← orElse [] texts? (key "includes")
    exportMacro := ← orElse "TETHER_API" str? (key "export_macro")
    registration := ← orElse .module (variant? registrations) (key "registration")
    callbackErrorSink := ← orElse none (fun v => (str? v).map some) (key "callback_error_sink")
    extraRegistrations := ← orElse [] (list? ExtraRegistration.ofToml?) (key "extra_registrations") }

def Manifest.ofToml? (t : Toml) : Option Manifest := do
  let key ← record? ["naming", "filter", "types", "owned_buffers", "dummy_backend", "output"] t
  pure {
    naming := ← orElse {} Naming.ofToml? (key "naming")
    filter := ← orElse {} Filter.ofToml? (key "filter")
    types := ← orElse {} TypeRules.ofToml? (key "types")
    ownedBuffers := ← orElse [] (list? OwnedBufferRule.ofToml?) (key "owned_buffers")
    dummyBackend := ← orElse none (fun v => (DummyBackend.ofToml? v).map some) (key "dummy_backend")
    output := ← orElse {} Output.ofToml? (key "output") }

/-! ## Loading -/

/-- Why a manifest cannot be loaded. -/
inductive ManifestError where
  /-- No TOML, an unknown key, a missing key or a value of the wrong sort. -/
  | malformed
  | invalid (fault : ManifestFault)
  deriving DecidableEq, Repr

def ManifestError.message : ManifestError → String
  | .malformed => "invalid config: the text is no manifest"
  | .invalid fault => "invalid config: " ++ fault.message

/-- A manifest from a TOML table, checked. -/
def Manifest.ofTable (t : Toml) : Except ManifestError Manifest :=
  match Manifest.ofToml? t with
  | none => .error .malformed
  | some m => m.validate.mapError .invalid

/-- A manifest from its text, checked. -/
def Manifest.parse (text : String) : Except ManifestError Manifest :=
  match Toml.parse? text with
  | none => .error .malformed
  | some t => Manifest.ofTable t

end LuaGlue
