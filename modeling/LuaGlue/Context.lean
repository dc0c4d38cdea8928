import LuaGlue.Classifier
import LuaGlue.Fault
import LuaGlue.Naming

/-!
# What generation knows

The interface, the manifest and the names, and which structs are *bound*: those that get a userdata
type in this module, with a constructor and a converter others may call. Nothing here changes
while code is written, except that structs whose glue failed are unbound between two rounds.
-/

set_option autoImplicit false

namespace LuaGlue

open Text

structure Context where
  interface : Interface
  manifest : Manifest
  /-- The manifest's naming rules, completed from the interface. -/
  naming : Naming
  index : TypeIndex
  /-- The names of the structs that get a userdata type. -/
  bound : List String

/-- A member of a tuple: the field and its type's spelling. -/
structure TupleMember where
  field : String
  type : String
  deriving DecidableEq, Repr

/-- The type of a tuple's member that nothing says the type of. -/
def defaultMemberType : String := "float"

namespace Context

/-- The structs that get a userdata type: the ones the manifest does not skip whose names mean a
userdata or a byte range. -/
def findBound (index : TypeIndex) (m : Manifest) : List StructDecl → Classifying (List String)
  | [] => pure []
  | s :: rest => do
    if m.isStructSkipped s.name then findBound index m rest
    else
      match ← classify index s.name with
      | .structValue _ .userdata | .structValue _ .byteRange =>
        return s.name :: (← findBound index m rest)
      | _ => findBound index m rest

/-- What is known about an interface under a manifest. -/
def build (i : Interface) (m : Manifest) : Classifying Context := do
  let index := TypeIndex.build i m
  let bound ← findBound index m i.structs
  return { interface := i, manifest := m, naming := m.naming.fillFrom i, index := index
           bound := bound }

/-- The category of a spelling. -/
def classify (ctx : Context) (spelling : String) : Classifying Category :=
  LuaGlue.classify ctx.index spelling

def isCpp (ctx : Context) : Bool := ctx.manifest.isCpp

/-- The null pointer. -/
def null (ctx : Context) : String := if ctx.isCpp then "nullptr" else "NULL"

/-- The initializer that makes any value zero. -/
def emptyBraces (ctx : Context) : String := if ctx.isCpp then "\x7b\x7d" else "\x7b0\x7d"

def metatable (ctx : Context) (native : String) : String := ctx.naming.metatable native

/-- Whether a struct's constructor and converter are part of the module. -/
def isBound (ctx : Context) (name : String) : Bool := ctx.bound.contains name

/-- The same without some structs, whose glue could not be written. -/
def unbind (ctx : Context) (names : List String) : Context :=
  { ctx with bound := ctx.bound.filter fun b => !names.contains b }

/-- The two fields of a byte range. -/
def byteRange? (ctx : Context) (name : String) : Option ByteRange :=
  ctx.manifest.types.byteRanges.lookup name

/-- The native function as it is called. -/
def callName (ctx : Context) (function : String) : String :=
  ctx.naming.callQualifier ++ function

/-- A tuple's member from its entry in the manifest: `field:type`, or `field` with the type from
the struct's declaration. -/
def tupleMember (ctx : Context) (name entry : String) : Except Fault TupleMember :=
  let (field, type) :=
    match cutAtChar? ':' entry.toList with
    | some (field, type) => (String.ofList (trim field), String.ofList (trim type))
    | none =>
      let field := trimmed entry
      let declared := (ctx.interface.struct? name).bind fun s => s.field? field
      (field, (declared.map Field.type).getD defaultMemberType)
  if field.isEmpty then .error (.tuple name (.emptyMember entry)) else .ok ⟨field, type⟩

/-- A tuple's members in order. -/
def tupleMembers (ctx : Context) (name : String) : Except Fault (List TupleMember) :=
  match ctx.manifest.types.tuples.lookup name with
  | none => .error (.tuple name .noMembers)
  | some [] => .error (.tuple name .emptyList)
  | some entries => entries.mapM (ctx.tupleMember name)

/-! ## Zero values -/

/-- The initializer of a local that is to be zero. -/
def zeroInit (ctx : Context) : Category → String
  | .bool => "false"
  | .integer _ | .float _ => "0"
  | .enum _ => if ctx.isCpp then ctx.emptyBraces else "0"
  | .cstring | .handle _ | .pointer .. | .structPointer .. | .callback .. => ctx.null
  | _ => ctx.emptyBraces

/-- The zero value as an expression, for the categories that have one. -/
def zeroLiteral? (ctx : Context) (valueType : String) : Category → Option String
  | .bool => some "false"
  | .integer _ | .float _ => some "0"
  | .enum _ => some ("(" ++ valueType ++ ")0")
  | .cstring | .handle _ | .pointer .. | .structPointer .. => some ctx.null
  | _ => none

end Context

end LuaGlue
