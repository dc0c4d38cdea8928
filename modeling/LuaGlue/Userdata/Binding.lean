import LuaGlue.Stub.LuaType
import LuaGlue.Userdata.Field

/-!
# Bound structs

A bound struct is a full userdata type. Besides its getters and setters it has

- a *constructor*, which takes a table of initial fields or, for a byte range, a string;
- a *converter*, used wherever a value of the struct is read off the stack, which takes a table, the
  userdata itself or, for a byte range, a string;
- `__index` and `__newindex`, which dispatch on the key;
- `__gc` if it owns buffers.

What a converted copy points into — the temporary made from a table, the userdata, the string — goes
into the keep table.
-/

set_option autoImplicit false

namespace LuaGlue

open Draft

/-- A field as a script sees it. -/
structure FieldBinding where
  key : String
  luaType : String
  /-- A callback can be assigned but not read. -/
  readable : Bool
  deriving DecidableEq, Repr

/-- What was written for one struct. -/
structure StructBinding where
  native : String
  /-- The constructor's name in the module table. -/
  scriptName : String
  metatable : String
  fields : List FieldBinding
  hasCollector : Bool
  deriving DecidableEq, Repr

/-! ## Prototypes -/

/-- The parameters of a converter. -/
def converterParams (struct : String) : String :=
  "lua_State* L, int idx, " ++ struct ++ "* out, int keep"

/-- What code before the struct's own may refer to. -/
def structPrototypes (struct : String) : List Line :=
  [.prototype "static int" (.constructor struct) "lua_State* L",
   .prototype "static bool" (.converter struct) (converterParams struct)]

/-! ## Constructor and converter -/

/-- A function a script can call. -/
def scriptFunction (f : Symbol) (body : Code) : Code :=
  .seq [.blockOf (.define "static int" f "lua_State* L") body, .ofLines [.blank]]

/-- The two fields of a struct that is a byte range. -/
def byteRangeOf? (ctx : Context) (struct : String) : Classifying (Option ByteRange) := do
  match ← ctx.classify struct with
  | .structValue _ .byteRange => return ctx.byteRange? struct
  | _ => return none

/-- Sets the field of an accessor from the table in the first slot, if the table has it. -/
def initField (struct : String) (a : Accessor) : List Line :=
  [.call (Api.getfield.on [.at (.slot 1), .literal a.key]),
   .onlyIf (.fails (Api.isNil.on [.at .top]))
    (.call ⟨.generated (.setter struct a.key),
      [.state, selfValue, udValue, .text "lua_gettop(L)"]⟩),
   popOne]

/-- Takes the bytes of the string at `index` into a byte range. -/
def takeBytes (range : ByteRange) (base : String) (index : StackIndex) : List Line :=
  [.assign (.through base range.pointer) (.call (Api.tolstring.on [.at index, .address "len"])),
   .assign (.through base range.size) (.value (.name "len"))]

def declareLen : Line := .declare (.plain "size_t" "len") (.text "0")

def constructorCode (ctx : Context) (struct : String) (accessors : List Accessor)
    (range : Option ByteRange) : Code :=
  let fromTable := Code.ofLines ((accessors.filter (·.writable)).flatMap (initField struct))
  let fromString : Code :=
    match range with
    | none => .done
    | some r => .branchOf (.isString (.slot 1))
        (.ofLines (declareLen :: takeBytes r "self" (.slot 1) ++ [anchor r.pointer (.slot 1)]))
  scriptFunction (.constructor struct) (.seq
    [.ofLines
      [.declare (.plain (struct ++ "*") "self")
        (.cast (struct ++ "*")
          (.call (Api.newuserdata.on [.sizeof struct, .text "TETHER_UV_COUNT"]))),
       .declare (.plain "int" "ud") (.call (Api.gettop.on [])),
       .call ⟨.libc "memset", [selfValue, .number 0, .sizeof struct]⟩,
       .call (Api.setmetatable.on [.literal (ctx.metatable struct)])],
     .branchOf (.holds (Api.isTable.on [.at (.slot 1)])) fromTable fromString,
     .ofLines [.ret (.text "1")]])

/-- Pops the value on top into the keep table and reports success. -/
def keepAndSucceed : List Line :=
  [.call (Support.keep.on [.at (.held keepLocal)]), .ret (.text "true")]

def converterCode (ctx : Context) (struct : String) (range : Option ByteRange) : Code :=
  let idx : StackIndex := .held "idx"
  let pushIdx : Line := .call (Api.pushvalue.on [.at idx])
  let fromTable := Code.ofLines
    ([.call (Api.pushcfunction.on [.symbol (.constructor struct)]),
      pushIdx,
      .call (Api.call.on [.number 1, .number 1]),
      .assign (.target (.name "out"))
        (.target (.cast (struct ++ "*") (.call (Api.touserdata.on [.at .top]))))] ++
      keepAndSucceed)
  let fromString : Code :=
    match range with
    | none => .done
    | some r => .branchOf (.isString idx)
        (.ofLines
          ([declareLen,
            .call ⟨.libc "memset", [.value (.name "out"), .number 0, .sizeof struct]⟩] ++
            takeBytes r "out" idx ++ [pushIdx] ++ keepAndSucceed))
  .seq
    [.blockOf (.define "static bool" (.converter struct) (converterParams struct)) (.seq
      [.ofLines
        [.assign (.name "idx") (.call (Api.absindex.on [.at idx])),
         .call (Api.ensureStack.on [.number 3, .text ctx.null])],
       .branchOf (.holds (Api.isTable.on [.at idx])) fromTable,
       fromString,
       .ofLines
        ([.declare (.plain (struct ++ "*") "ud")
          (.cast (struct ++ "*")
            (.call (Api.testudata.on [.at idx, .literal (ctx.metatable struct)]))),
          .onlyIf (.isNull (.name "ud") ctx.null) (.ret (.text "false")),
          .assign (.target (.name "out")) (.value (.target (.name "ud"))),
          pushIdx] ++ keepAndSucceed)]),
     .ofLines [.blank]]

/-! ## Dispatch -/

/-- The userdata in the first slot. -/
def checkSelf (ctx : Context) (struct : String) : Line :=
  .declare (.plain (struct ++ "*") "self")
    (.cast (struct ++ "*")
      (.call (Api.checkudata.on [.at (.slot 1), .literal (ctx.metatable struct)])))

/-- The key in the second slot. -/
def checkKey : Line :=
  .declare (.plain "const char*" "key") (.call (Api.checkstring.on [.at (.slot 2)]))

/-- Leaves with an error that names the struct and the key; `more` are further arguments. -/
def keyError (format scriptName : String) (more : List Arg) : Line :=
  .ret (.call (Api.error.on
    ([.literal format, .literal scriptName, .value (.name "key")] ++ more)))

def indexCode (ctx : Context) (struct : String) (accessors : List Accessor) : Code :=
  scriptFunction (.indexer struct) (.seq
    [.ofLines [checkSelf ctx struct, checkKey],
     .seq ((accessors.filter (·.readable)).map fun a =>
      .branchOf (.keyIs a.key) (.ofLines
        [.call ⟨.generated (.getter struct a.key), [.state, selfValue]⟩, .ret (.text "1")])),
     .ofLines [.ret (.text "0")]])

/-- What assigning a key does. -/
def assignKey (struct scriptName : String) (a : Accessor) : List Line :=
  match a.access with
  | .ownedCount pointer =>
    [keyError "%s.%s is read-only; assign '%s' instead" scriptName [.literal pointer]]
  | _ =>
    [.call ⟨.generated (.setter struct a.key), [.state, selfValue, .number 1, .number 3]⟩,
     .ret (.text "0")]

def newIndexCode (ctx : Context) (struct scriptName : String) (accessors : List Accessor) : Code :=
  scriptFunction (.newIndexer struct) (.seq
    [.ofLines [checkSelf ctx struct, checkKey],
     .seq (accessors.map fun a =>
      .branchOf (.keyIs a.key) (.ofLines (assignKey struct scriptName a))),
     .ofLines [keyError "%s has no field '%s'" scriptName []]])

/-! ## Collection -/

/-- Frees an owned buffer when the struct is collected. -/
def collectBuffer (ctx : Context) (a : Accessor) : Code :=
  match a.access with
  | .ownedBuffer bit countField _ _ =>
    .branchOf (.owns bit) (.ofLines
      [.call ⟨.libc "free", [.cast "void*" a.place]⟩,
       .assign a.place (.text ctx.null),
       .assign (.through "self" countField) (.text "0")])
  | _ => .done

def collectorCode (ctx : Context) (struct : String) (accessors : List Accessor) : Code :=
  scriptFunction (.collector struct) (.seq
    [.ofLines
      [checkSelf ctx struct,
       .declare (.plain "lua_Integer" "owned") (.call (Support.owned.on [.number 1]))],
     .seq (accessors.map (collectBuffer ctx)),
     .ofLines [.call (Support.setOwned.on [.number 1, .number 0]), .ret (.text "0")]])

/-! ## A whole struct -/

/-- The trampolines of the callback fields among some accessors. -/
def callbackCode (ctx : Context) (s : StructDecl) : List Accessor → Draft Unit
  | [] => pure ()
  | a :: rest => do
    if a.access == .callback then
      match s.field? a.key with
      | some field => trampolines ctx s.name field
      | none => fail (.unsupported .bind a.type)
    callbackCode ctx s rest

/-- The getters and setters of some accessors. -/
def fieldCode (ctx : Context) (struct : String) : List Accessor → Draft Unit
  | [] => pure ()
  | a :: rest => do
    if a.readable then getter ctx struct a
    if a.writable then setter ctx struct a
    fieldCode ctx struct rest

/-- A field as a script sees it. An owned buffer looks like a sequence. -/
def Accessor.binding (ctx : Context) (a : Accessor) : Classifying FieldBinding := do
  let type ←
    match a.access with
    | .ownedBuffer _ _ _ elem => do pure (luaType ctx (← ctx.classify elem) ++ "[]")
    | _ => do pure (luaType ctx (← ctx.classify a.type))
  return ⟨a.key, type, a.readable⟩

/-- The glue of a struct. -/
def bindStruct (ctx : Context) (s : StructDecl) : Draft StructBinding := do
  let accessors ← ofExcept (← asking (accessors ctx s))
  let struct := s.name
  let scriptName := ctx.naming.typeName struct
  callbackCode ctx s accessors
  fieldCode ctx struct accessors
  let range ← asking (byteRangeOf? ctx struct)
  let hasCollector := accessors.any (·.isOwnedBuffer)
  write (.seq
    [constructorCode ctx struct accessors range,
     converterCode ctx struct range,
     indexCode ctx struct accessors,
     newIndexCode ctx struct scriptName accessors,
     if hasCollector then collectorCode ctx struct accessors else .done])
  let fields ← asking (accessors.mapM (·.binding ctx))
  return {
    native := struct
    scriptName := scriptName
    metatable := ctx.metatable struct
    fields := fields
    hasCollector := hasCollector }

end LuaGlue
