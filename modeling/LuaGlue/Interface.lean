/-!
# A native library's interface

What the extractor found in a library's headers, once loaded: functions, structs, named enums and
loose groups of constants, in the order they were declared. Nothing here changes after loading,
save that the manifest marks some struct fields as owned buffers before generation begins.

A thing's identity is its native name. Functions also carry the full spelling of their type, since
in C++ two functions may share a name.
-/

set_option autoImplicit false

namespace LuaGlue

/-- A parameter of a function. -/
structure Param where
  name : String
  type : String
  /-- The script may leave the argument out. -/
  hasDefault : Bool
  /-- The declaration says that the callee writes it. -/
  markedOut : Bool
  /-- The declaration has no name for it, and `name` was made from its position. -/
  unnamed : Bool
  deriving DecidableEq, Repr

/-- A member of a struct. -/
structure Field where
  name : String
  type : String
  deriving DecidableEq, Repr

/-- A pointer field whose memory the generated code allocates and frees; the number of elements
lives in a sibling field. -/
structure OwnedBuffer where
  pointerField : String
  countField : String
  deriving DecidableEq, Repr

structure StructDecl where
  name : String
  fields : List Field
  ownedBuffers : List OwnedBuffer
  deriving DecidableEq, Repr

structure FunctionDecl where
  name : String
  /-- The full type, such as `bool (const char *, bool *, int)`. -/
  type : String
  returnType : String
  params : List Param
  variadic : Bool
  deriving DecidableEq, Repr

/-- An enumerator with its value. -/
structure EnumItem where
  name : String
  value : Int
  deriving DecidableEq, Repr

structure EnumDecl where
  name : String
  items : List EnumItem
  deriving DecidableEq, Repr

/-- An enum without a name, or a block of constants. -/
structure ConstGroup where
  items : List EnumItem
  deriving DecidableEq, Repr

inductive Declaration where
  | function (f : FunctionDecl)
  | struct (s : StructDecl)
  | enum (e : EnumDecl)
  | consts (g : ConstGroup)
  deriving DecidableEq, Repr

/-- A type that a dependency of the library declares: known by name, never generated. -/
inductive DependencyType where
  | struct (name : String)
  | enum (name : String)
  deriving DecidableEq, Repr

/-- A loaded interface. -/
structure Interface where
  /-- The module name the extractor recorded. -/
  module : Option String := none
  /-- What the extractor says native names begin with. -/
  stem : Option String := none
  decls : List Declaration := []
  dependencies : List DependencyType := []
  deriving DecidableEq, Repr

namespace StructDecl

def field? (s : StructDecl) (name : String) : Option Field := s.fields.find? (·.name == name)

/-- The owned buffer whose pointer is the field `name`. -/
def ownedBuffer? (s : StructDecl) (name : String) : Option OwnedBuffer :=
  s.ownedBuffers.find? (·.pointerField == name)

/-- The owned buffer whose count is the field `name`. -/
def ownedCount? (s : StructDecl) (name : String) : Option OwnedBuffer :=
  s.ownedBuffers.find? (·.countField == name)

end StructDecl

namespace Declaration

/-- The native name; a group of constants has none. -/
def name? : Declaration → Option String
  | function f => some f.name
  | struct s => some s.name
  | enum e => some e.name
  | consts _ => none

end Declaration

namespace Interface

def functions (i : Interface) : List FunctionDecl :=
  i.decls.filterMap fun | .function f => some f | _ => none

def structs (i : Interface) : List StructDecl :=
  i.decls.filterMap fun | .struct s => some s | _ => none

def enums (i : Interface) : List EnumDecl :=
  i.decls.filterMap fun | .enum e => some e | _ => none

def struct? (i : Interface) (name : String) : Option StructDecl :=
  i.structs.find? (·.name == name)

end Interface

end LuaGlue
