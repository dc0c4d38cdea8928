import LuaGlue.Interface.EnumValue
import LuaGlue.Json.Read

/-!
# Loading an interface

From the extractor's JSON to an `Interface`. A document is an object with the declarations under
`decls`, or just the list of declarations. Loading has three steps, and each is a function of its
own: reading the document's records (`Document.ofJson?`), converting one record
(`DeclRecord.convert`), and sorting the results into declarations and dependencies, where of
several declarations with one identity only the first is kept (`Loading.add`).

All records are read before any is converted, so a document with a malformed record is refused as
malformed whatever else is wrong with it.
-/

set_option autoImplicit false

namespace LuaGlue

open Text

/-! ## What can be wrong with a document -/

inductive InterfaceFault where
  /-- No JSON, or a record without the members it needs. -/
  | malformed
  /-- The document is neither an object nor an array but a value of this sort. -/
  | shape (found : String)
  | missingName (index : Nat) (kind : String)
  | missingType (name : String)
  | enumValue (owner : String) (fault : ItemFault)
  deriving DecidableEq, Repr

def InterfaceFault.message : InterfaceFault → String
  | .malformed => "malformed IR JSON: the text is no document of declarations"
  | .shape found =>
    "IR root must be an object with 'decls' or an array of declarations, found " ++ found
  | .missingName index kind =>
    "declaration #" ++ toString index ++ " (kind '" ++ kind ++ "') has no name"
  | .missingType name => "function '" ++ name ++ "' has no type"
  | .enumValue owner fault =>
    "enum '" ++ owner ++ "': cannot resolve value '" ++ fault.value ++ "' of '" ++ fault.item ++ "'"

/-! ## The records of a document -/

structure ParamRecord where
  name : Option String
  type : String
  hasDefault : Bool
  isOut : Bool

structure FieldRecord where
  name : Option String
  type : Option String

structure DeclRecord where
  kind : String
  name : Option String
  type : Option String
  params : List ParamRecord
  fields : List FieldRecord
  items : List ItemSpelling
  isDependency : Bool
  isVararg : Bool

structure Document where
  module : Option String := none
  stem : Option String := none
  decls : List DeclRecord

open Json

def ParamRecord.ofJson? (j : Json) : Option ParamRecord := do
  let field ← record? ["name", "type", "has_default", "is_out"] j
  pure {
    name := ← orElse none strOrNull? (field "name")
    type := ← need str? (field "type")
    hasDefault := ← orElse false bool? (field "has_default")
    isOut := ← orElse false bool? (field "is_out") }

def FieldRecord.ofJson? (j : Json) : Option FieldRecord := do
  let field ← record? ["name", "type"] j
  pure {
    name := ← orElse none strOrNull? (field "name")
    type := ← orElse none strOrNull? (field "type") }

/-- An enumerator's value: an integer, a text, or `null` for none. -/
def ItemValue.ofJson? : Json → Option (Option ItemValue)
  | .null => some none
  | .int n => some (some (.number n))
  | .str s => some (some (.text s))
  | _ => none

def ItemSpelling.ofJson? (j : Json) : Option ItemSpelling := do
  let field ← record? ["name", "value"] j
  pure {
    name := ← need str? (field "name")
    value := ← orElse none ItemValue.ofJson? (field "value") }

def DeclRecord.ofJson? (j : Json) : Option DeclRecord := do
  let field ← record?
    ["kind", "name", "type", "params", "fields", "items", "is_dep", "is_vararg"] j
  pure {
    kind := ← need str? (field "kind")
    name := ← orElse none strOrNull? (field "name")
    type := ← orElse none strOrNull? (field "type")
    params := ← orElse [] (list? ParamRecord.ofJson?) (field "params")
    fields := ← orElse [] (list? FieldRecord.ofJson?) (field "fields")
    items := ← orElse [] (list? ItemSpelling.ofJson?) (field "items")
    isDependency := ← orElse false bool? (field "is_dep")
    isVararg := ← orElse false bool? (field "is_vararg") }

/-- The records of an object document. -/
def Document.ofMembers? (member : String → Option Json) : Option Document := do
  pure {
    module := ← orElse none strOrNull? (member "module")
    stem := ← orElse none strOrNull? (member "prefix")
    decls := ← orElse [] (list? DeclRecord.ofJson?) (member "decls") }

/-- The records of a document; an array is a list of declarations without more. -/
def Document.ofJson (j : Json) : Except InterfaceFault Document :=
  match j with
  | .obj members =>
    match Document.ofMembers? fun name => members.lookup name with
    | some d => .ok d
    | none => .error .malformed
  | .arr items =>
    match items.mapM DeclRecord.ofJson? with
    | some decls => .ok { decls := decls }
    | none => .error .malformed
  | .null => .error (.shape "null")
  | .bool _ => .error (.shape "a boolean")
  | .int _ | .fraction => .error (.shape "a number")
  | .str _ => .error (.shape "a string")

/-! ## Converting a record -/

/-- A name that names something. -/
def properName (name : Option String) : Option String := name.filter fun n => !isBlankText n

/-- A parameter; one without a name is called after its position. -/
def ParamRecord.convert (position : Nat) (p : ParamRecord) : Param :=
  { name := (properName p.name).getD ("arg" ++ toString position)
    type := p.type
    hasDefault := p.hasDefault
    markedOut := p.isOut
    unnamed := (properName p.name).isNone }

def takesVaList (cs : List Char) : Bool := holds "va_list".toList cs

/-- A function. Its type is the return type and then the parameters from the first parenthesis on;
`...` or a `va_list` there, or in a parameter's type, makes it variadic. -/
def convertFunction (name type : String) (params : List ParamRecord) (isVararg : Bool) :
    FunctionDecl :=
  let cs := type.toList
  let (returnType, list) := (cs.takeWhile (· != '('), cs.dropWhile (· != '('))
  { name := name
    type := type
    returnType := String.ofList (trim returnType)
    params := params.mapIdx ParamRecord.convert
    variadic := isVararg || holds "...".toList list || takesVaList list ||
      params.any fun p => takesVaList p.type.toList }

/-- The fields that have both a name and a type. -/
def convertFields (fields : List FieldRecord) : List Field :=
  fields.filterMap fun f =>
    match properName f.name, f.type with
    | some name, some type => some ⟨name, type⟩
    | _, _ => none

/-- Enumerators with their values, a fault being told of the enum it belongs to. -/
def convertItems (owner : String) (items : List ItemSpelling) :
    Except InterfaceFault (List EnumItem) :=
  (resolveItems items).mapError (.enumValue owner)

/-- The declaration a record stands for; records of other kinds stand for none. -/
def DeclRecord.convert (index : Nat) (r : DeclRecord) : Except InterfaceFault (Option Declaration) :=
  match r.kind with
  | "func" =>
    match properName r.name with
    | none => .error (.missingName index r.kind)
    | some name =>
      match r.type with
      | none => .error (.missingType name)
      | some type => .ok (some (.function (convertFunction name type r.params r.isVararg)))
  | "struct" | "class" =>
    match properName r.name with
    | none => .error (.missingName index r.kind)
    | some name => .ok (some (.struct ⟨name, convertFields r.fields, []⟩))
  | "enum" =>
    (convertItems ((properName r.name).getD "") r.items).map fun items =>
      match properName r.name with
      | some name => some (.enum ⟨name, items⟩)
      | none => some (.consts ⟨items⟩)
  | "consts" =>
    (convertItems ((properName r.name).getD "") r.items).map fun items => some (.consts ⟨items⟩)
  | _ => .ok none

/-! ## Duplicates and dependencies -/

/-- What makes two declarations the same one. -/
inductive Identity where
  | function (name : String)
  /-- A function of a language with overloads: the type counts as well. -/
  | overload (name type : String)
  | struct (name : String)
  | enum (name : String)
  /-- A group of constants, by its members' names with commas between them. -/
  | consts (names : String)
  deriving DecidableEq, Repr

/-- A declaration's identity; `overloads` says whether same-named functions may differ by type. -/
def Declaration.identity (overloads : Bool) : Declaration → Identity
  | function f => if overloads then .overload f.name f.type else .function f.name
  | struct s => .struct s.name
  | enum e => .enum e.name
  | consts g => .consts (",".intercalate (g.items.map (·.name)))

/-- The dependency type a declaration makes known, if it is a struct or an enum. -/
def Declaration.dependency? : Declaration → Option DependencyType
  | struct s => some (.struct s.name)
  | enum e => some (.enum e.name)
  | _ => none

/-- What is loaded so far: declarations and dependencies in order, and the identities seen. -/
structure Loading where
  decls : List Declaration := []
  dependencies : List DependencyType := []
  seen : List Identity := []

/-- Takes one declaration in. A dependency's is only made known by name; of several declarations
with one identity the first is kept. -/
def Loading.add (overloads : Bool) (l : Loading) (isDependency : Bool) (d : Declaration) : Loading :=
  if isDependency then { l with dependencies := l.dependencies ++ d.dependency?.toList }
  else
    let key := d.identity overloads
    if l.seen.contains key then l
    else { l with decls := l.decls ++ [d], seen := key :: l.seen }

/-- Converts the records from position `index` on. -/
def loadRecords (overloads : Bool) (l : Loading) (index : Nat) :
    List DeclRecord → Except InterfaceFault Loading
  | [] => .ok l
  | r :: rest => do
    match ← r.convert index with
    | none => loadRecords overloads l (index + 1) rest
    | some d => loadRecords overloads (l.add overloads r.isDependency d) (index + 1) rest

/-- The interface of a document. -/
def Document.load (overloads : Bool) (d : Document) : Except InterfaceFault Interface :=
  (loadRecords overloads {} 0 d.decls).map fun l =>
    { module := d.module, stem := d.stem, decls := l.decls, dependencies := l.dependencies }

/-- Loads a document from its text; `overloads` keeps same-named functions of different types. -/
def Interface.parse (overloads : Bool) (text : String) : Except InterfaceFault Interface :=
  match Json.parse? Json.maxDepth text with
  | none => .error .malformed
  | some j => Document.ofJson j >>= Document.load overloads

end LuaGlue
