import LuaGlue.Interface
import LuaGlue.Text.Blank
import LuaGlue.Text.Cut

/-!
# The binding manifest

What a person writes down about one library before its glue can be generated: how names are
formed, what to leave out, and the structural special cases that no header says (arrays with their
counts, owned buffers, byte ranges, tuples). It is read once, checked by `Manifest.validate`, and
never changes afterwards.

Tables are lists of pairs in ascending order of the keys, each key once.
-/

set_option autoImplicit false

namespace LuaGlue

/-- How a function whose script name is a reserved word is registered. -/
inductive KeywordPolicy where
  /-- Under both `end` and `end_`. -/
  | alias
  /-- Under `end_` alone. -/
  | rename
  deriving DecidableEq, Repr

/-- How the names of one library are formed. -/
structure Naming where
  /-- The script module, such as `gfx`. -/
  module : String := ""
  /-- What native names begin with, such as `sg_` or `b2`. -/
  stem : String := ""
  /-- The first half of metatable names; the module's name if empty. -/
  metatableSpace : String := ""
  /-- Takes the place of the derived name of the entry point. -/
  entryPoint : Option String := none
  /-- What struct and enum names begin with, besides `stem`. -/
  typeStems : List String := []
  /-- What stands before a native call, such as `ImGui::`. -/
  callQualifier : String := ""
  keywordPolicy : KeywordPolicy := .alias
  /-- Short names of enum members in capitals. -/
  capitalEnumItems : Bool := false
  /-- What loose constants begin with; `stem` if absent. -/
  constStem : Option String := none
  deriving DecidableEq, Repr

/-- Declarations that get no glue. -/
structure Filter where
  skip : List String := []
  /-- Written by hand elsewhere. -/
  manual : List String := []
  skipStructs : List String := []
  deriving DecidableEq, Repr

/-- The two fields of a struct that stands for a range of bytes. -/
structure ByteRange where
  pointer : String := "ptr"
  size : String := "size"
  deriving DecidableEq, Repr

/-- Special cases of types. -/
structure TypeRules where
  /-- Structs and enums that are known though the interface lacks them. -/
  basicStructs : List String := []
  basicEnums : List String := []
  /-- A typedef's name and what it stands for. -/
  aliases : List (String × String) := []
  /-- Names that begin with one of these are plain `int` typedefs. -/
  integerStems : List String := []
  /-- Integer parameters so named count the elements of the pointer before them. -/
  countNames : List String := ["count"]
  /-- `Function.param` and an element count, for pointers that are really arrays. -/
  arrayParams : List (String × Nat) := []
  /-- Structs that are sequences to the script; a member is `field` or `field:type`. -/
  tuples : List (String × List String) := []
  byteRanges : List (String × ByteRange) := []
  /-- `Struct.field` entries whose nested fields show up beside them. -/
  flattened : List String := []
  deriving DecidableEq, Repr

/-- A pointer field to own, with the field that counts its elements. -/
structure OwnedBufferRule where
  struct : String
  pointer : String
  count : String
  deriving DecidableEq, Repr

/-- The branch that is compiled when the library is built without a backend. -/
structure DummyBackend where
  guard : String := ""
  /-- The functions concerned, by what their names begin with; all of them if empty. -/
  stems : List String := []
  /-- What a function returns in place of the zero value. -/
  returns : List (String × String) := []
  deriving DecidableEq, Repr

inductive Language where
  | c
  | cpp
  deriving DecidableEq, Repr

/-- How the module reaches a script. -/
inductive Registration where
  /-- `luaopen_*`, which returns a fresh table. -/
  | module
  /-- `void name(lua_State*, int)`, which fills a table that exists. -/
  | intoTable
  deriving DecidableEq, Repr

/-- A wrapper written by hand, added to the registration table. -/
structure ExtraRegistration where
  name : String
  function : String
  deriving DecidableEq, Repr

structure Output where
  language : Language := .c
  includes : List String := []
  exportMacro : String := "TETHER_API"
  registration : Registration := .module
  /-- A native function that is told of failing callbacks. -/
  callbackErrorSink : Option String := none
  extraRegistrations : List ExtraRegistration := []
  deriving DecidableEq, Repr

structure Manifest where
  naming : Naming := {}
  filter : Filter := {}
  types : TypeRules := {}
  ownedBuffers : List OwnedBufferRule := []
  dummyBackend : Option DummyBackend := none
  output : Output := {}
  deriving DecidableEq, Repr

/-! ## What can be wrong with a manifest -/

/-- Why a well-formed manifest is refused. -/
inductive ManifestFault where
  /-- A key of `types.arrayParams` names no parameter. -/
  | arrayParamKey (key : String)
  /-- An entry of `types.flattened` names no field. -/
  | flattenedEntry (entry : String)
  | emptyGuard
  /-- An owned buffer needs a field that its struct does not have. -/
  | missingBufferField (struct field : String)
  deriving DecidableEq, Repr

def ManifestFault.message : ManifestFault → String
  | .arrayParamKey key => "array_params key '" ++ key ++ "' must be 'Function.param'"
  | .flattenedEntry entry => "flatten_fields entry '" ++ entry ++ "' must be 'Struct.field'"
  | .emptyGuard => "dummy_backend.guard is empty"
  | .missingBufferField struct field =>
    "owned buffer field '" ++ struct ++ "." ++ field ++ "' does not exist"

namespace Manifest

/-- The first thing wrong with a manifest's entries, the keys of a table in ascending order. -/
def fault? (m : Manifest) : Option ManifestFault :=
  match m.types.arrayParams.find? fun (key, _) => !key.toList.contains '.' with
  | some (key, _) => some (.arrayParamKey key)
  | none =>
    match m.types.flattened.find? fun entry => !entry.toList.contains '.' with
    | some entry => some (.flattenedEntry entry)
    | none =>
      match m.dummyBackend with
      | some dummy => if dummy.guard.isEmpty then some .emptyGuard else none
      | none => none

/-- The manifest itself, if nothing is wrong with it. -/
def validate (m : Manifest) : Except ManifestFault Manifest :=
  match m.fault? with
  | some fault => .error fault
  | none => .ok m

/-! ## Questions to a manifest -/

/-- Whether a declaration gets no glue. -/
def isExcluded (m : Manifest) (name : String) : Bool :=
  m.filter.skip.contains name || m.filter.manual.contains name

/-- Whether a struct gets no glue. -/
def isStructSkipped (m : Manifest) (name : String) : Bool :=
  m.isExcluded name || m.filter.skipStructs.contains name

/-- Whether an integer parameter of this name counts the elements of the pointer before it. -/
def isCountName (m : Manifest) (name : String) : Bool := m.types.countNames.contains name

/-- The number of elements a pointer parameter is declared to have. -/
def arrayParamSize? (m : Manifest) (function param : String) : Option Nat :=
  m.types.arrayParams.lookup (function ++ "." ++ param)

/-- The fields of `struct` whose nested fields show up beside them. -/
def flattenedFields (m : Manifest) (struct : String) : List String :=
  m.types.flattened.filterMap fun entry =>
    match Text.cutAtChar? '.' entry.toList with
    | some (before, after) =>
      if String.ofList before == struct then some (String.ofList after) else none
    | none => none

def isCpp (m : Manifest) : Bool := m.output.language == .cpp

end Manifest

/-- Whether the dummy branch concerns a function. -/
def DummyBackend.appliesTo (d : DummyBackend) (function : String) : Bool :=
  d.stems.isEmpty || d.stems.any fun stem => stem.toList.isPrefixOf function.toList

/-! ## Owned buffers -/

/-- Marks one owned buffer on the first struct of its name. A struct the interface lacks is no
fault; a field the struct lacks is. -/
def OwnedBufferRule.attach (rule : OwnedBufferRule) :
    List Declaration → Except ManifestFault (List Declaration)
  | [] => .ok []
  | .struct s :: rest =>
    if s.name == rule.struct then
      match [rule.pointer, rule.count].find? fun field => (s.field? field).isNone with
      | some field => .error (.missingBufferField rule.struct field)
      | none =>
        .ok (.struct { s with ownedBuffers := s.ownedBuffers ++ [⟨rule.pointer, rule.count⟩] }
          :: rest)
    else (rule.attach rest).map (.struct s :: ·)
  | d :: rest => (rule.attach rest).map (d :: ·)

/-- Marks every owned buffer of the manifest, in order. -/
def Manifest.attachOwnedBuffers (m : Manifest) (i : Interface) : Except ManifestFault Interface :=
  (m.ownedBuffers.foldlM (fun decls (rule : OwnedBufferRule) => rule.attach decls) i.decls).map
    fun decls => { i with decls := decls }

end LuaGlue
