import LuaGlue.Function.Overload
import LuaGlue.Function.Units
import LuaGlue.Marshal.Push
import LuaGlue.Marshal.Read
import LuaGlue.Stub.LuaType

/-!
# Wrappers

The wrapper of a function reads its arguments slot by slot, calls the function and pushes the
results:

    bool demo_checkbox(const char* label, bool* v)

    slot 1 → p_label         checked read
    slot 2 → p_v_val, p_v    optional, written by the callee
    ret = demo_checkbox(p_label, p_v)
    push ret, push p_v_val   → return 2

Each unit of parameters takes the slot of its position. Outputs are pushed after the return value,
in the order of the parameters. Buffers copied from tables and temporaries made by converters live
in a keep table above the argument slots, so they last until the wrapper returns.
-/

set_option autoImplicit false

namespace LuaGlue

open Draft

/-! ## What a script sees -/

structure ScriptArg where
  name : String
  luaType : String
  optional : Bool
  deriving DecidableEq, Repr

/-- A result; outputs carry their parameter's name, the return value has none. -/
structure ScriptResult where
  name : Option String
  luaType : String
  deriving DecidableEq, Repr

/-- What was written for one function. -/
structure FunctionBinding where
  native : String
  names : FunctionNames
  args : List ScriptArg
  results : List ScriptResult
  deriving DecidableEq, Repr

/-! ## Units -/

/-- A value that is pushed after the return value. -/
structure OutputValue where
  param : String
  type : String
  place : Place
  /-- A pointer that is null when the script passed nothing. -/
  guard : Option String

/-- What a unit contributes: the script's argument, the native arguments, and perhaps an output. -/
structure UnitCode where
  arg : ScriptArg
  nativeArgs : List String
  output : Option OutputValue

/-- The local that holds a parameter's value. -/
def Param.localName (p : Param) : String := "p_" ++ p.name

/-- The slot holds a value. -/
def present (slot : Nat) : Cond := .fails (Api.isNoneOrNil.on [.at (.slot slot)])

/-- A local for a value so spelled. -/
def localOf (spelling name : String) : Local := ⟨declareLocal spelling name, name⟩

/-- Whether reading a unit puts anything into the keep table. -/
def ParamUnit.needsScratch (ctx : Context) : ParamUnit → Classifying Bool
  | .arrayCount .. => pure true
  | .fixedArray _ elem _ _ => needsKeep ctx elem
  | .single p category output =>
    if output then needsKeep? ctx (pointeeType? p.type)
    else
      match category with
      | .pointer _ true => pure true
      | .structPointer _ _ true => needsKeep? ctx ((pointeeType? p.type).map valueType)
      | .callback .. | .unknown => pure false
      | _ => needsKeep ctx p.type

/-- Where the number of elements of a table goes: a local and its type. -/
structure CountTarget where
  name : String
  type : String

/-- Copies the table in a slot into a buffer that the keep table holds, and points `target` at it.
The buffer has room for one element at least. -/
def readBuffer (ctx : Context) (elem : String) (slot : Nat) (target : String)
    (count : Option CountTarget) : Draft Unit := do
  let type := valueType elem
  let n ← temp
  let buffer ← temp
  let k ← temp
  let bytes := "(" ++ n ++ " > 0 ? " ++ n ++ " : 1) * sizeof(" ++ type ++ ")"
  lines
    [.declare (.plain "size_t" n) (.call (Api.rawlen.on [.at (.slot slot)])),
     .declare (.plain (type ++ "*") buffer)
      (.cast (type ++ "*") (.call (Api.newuserdata.on [.text bytes, .number 0]))),
     .call (Support.keep.on [.value (.name keepLocal)]),
     .call ⟨.libc "memset", [.value (.name buffer), .number 0, .text bytes]⟩]
  block (.count "size_t" k n) do
    line (.call (Api.rawgeti.on [.at (.slot slot), .succ ("(lua_Integer)" ++ k)]))
    read ctx .lenient elem (.element (.name buffer) k) .top
    line popOne
  line (.assign (.name target) (.value (.name buffer)))
  match count with
  | some c => line (.assign (.name c.name) (.cast c.type (.value (.name n))))
  | none => pure ()

/-- A parameter the callee writes: a zeroed value, a pointer to it, and what the script passed as
the value before the call. -/
def readOutput (ctx : Context) (p : Param) (slot : Nat) : Draft UnitCode := do
  let name := p.localName
  match pointeeType? p.type with
  | none => fail (.unsupported .read p.type)
  | some pointee => do
    let category ← ctx.categoryOf pointee
    let val := name ++ "_val"
    line (.declare (localOf pointee val) (.text (ctx.zeroInit category)))
    if p.hasDefault then
      line (.declare (localOf p.type name) (.text ctx.null))
      branch (present slot) do
        line (.assign (.name name) (.address val))
        read ctx .lenient pointee (.name val) (.slot slot)
    else
      line (.declare (localOf p.type name) (.address val))
      branch (present slot) (read ctx .lenient pointee (.name val) (.slot slot))
    return {
      arg := ⟨p.name, luaType ctx category, true⟩
      nativeArgs := [name]
      output := some {
        param := p.name
        type := pointee
        place := if p.hasDefault then .target (.name name) else .name val
        guard := if p.hasDefault then some name else none } }

/-- A pointer to scalar constants: a table is copied, a string or a light userdata is passed on. -/
def readConstPointer (ctx : Context) (p : Param) (slot : Nat) : Draft ScriptArg := do
  let name := p.localName
  match pointeeType? p.type with
  | none => fail (.unsupported .read p.type)
  | some elem => do
    let type := valueType p.type
    line (.declare (localOf p.type name) (.text ctx.null))
    branch (.holds (Api.isTable.on [.at (.slot slot)]))
      (readBuffer ctx elem slot name none)
      (.branch (.isString (.slot slot))
        (.line (assignCast .tostring type (.name name) (.slot slot)) .done)
        (.line (assignCast .touserdata type (.name name) (.slot slot)) .done)
        .done)
    let category ← ctx.categoryOf elem
    return ⟨p.name, luaType ctx category ++ "[]|lightuserdata", p.hasDefault⟩

/-- A pointer to a constant struct: a light userdata is passed on, anything else is read into a
local the pointer then points to. -/
def readConstStruct (ctx : Context) (p : Param) (category : Category) (slot : Nat) :
    Draft ScriptArg := do
  let name := p.localName
  match (pointeeType? p.type).map valueType with
  | none => fail (.unsupported .read p.type)
  | some pointee => do
    let val := name ++ "_val"
    let pointeeCategory ← ctx.categoryOf pointee
    lines
      [.declare ⟨declare pointee val, val⟩ (.text (ctx.zeroInit pointeeCategory)),
       .declare (localOf p.type name) (.text ctx.null)]
    orElseIf (.holds (Api.isLightuserdata.on [.at (.slot slot)]))
      (.line (assignCast .touserdata (valueType p.type) (.name name) (.slot slot)) .done)
      (present slot) do
        read ctx .checked pointee (.name val) (.slot slot)
        line (.assign (.name name) (.address val))
    return ⟨p.name, luaType ctx category, true⟩

/-- A parameter by itself. -/
def readSingle (ctx : Context) (p : Param) (category : Category) (output : Bool) (slot : Nat) :
    Draft UnitCode := do
  let name := p.localName
  let plain (arg : ScriptArg) : UnitCode := ⟨arg, [name], none⟩
  if output then readOutput ctx p slot
  else
    match category with
    | .pointer _ true => return plain (← readConstPointer ctx p slot)
    | .structPointer _ _ true => return plain (← readConstStruct ctx p category slot)
    | .callback .. | .unknown => do
      lines
        [.placeholder ("parameter '" ++ p.name ++ "' of type '" ++ p.type ++ "'"),
         .declare (localOf p.type name) (.text (ctx.zeroInit category))]
      return plain ⟨p.name, luaType ctx category, p.hasDefault⟩
    | _ => do
      line (.declare (localOf p.type name) (.text (ctx.zeroInit category)))
      branchWhen p.hasDefault (present slot) (read ctx .checked p.type (.name name) (.slot slot))
      return plain ⟨p.name, luaType ctx category, p.hasDefault⟩

/-- An array with its count: one table supplies both. -/
def readArrayCount (ctx : Context) (array count : Param) (elem : String) (slot : Nat) :
    Draft UnitCode := do
  let countType := valueType count.type
  lines
    [.declare (localOf array.type array.localName) (.text ctx.null),
     .declare (.plain countType count.localName) (.text "0")]
  let copy : Draft Unit := do
    line (.call (Api.checktype.on [.at (.slot slot), .text "LUA_TTABLE"]))
    readBuffer ctx elem slot array.localName (some ⟨count.localName, countType⟩)
  if array.hasDefault then branch (present slot) copy else block .bare copy
  let category ← ctx.categoryOf elem
  return {
    arg := ⟨array.name, luaType ctx category ++ "[]", array.hasDefault⟩
    nativeArgs := [array.localName, count.localName]
    output := none }

/-- The spelling of an array of `size` elements. -/
def arraySpelling (elem : String) (size : Nat) : String :=
  valueType elem ++ "[" ++ toString size ++ "]"

/-- An array of a fixed number of elements. -/
def readFixedArray (ctx : Context) (p : Param) (elem : String) (size : Nat) (writable : Bool)
    (slot : Nat) : Draft UnitCode := do
  let array := arraySpelling elem size
  let name := p.localName
  line (.declare ⟨declare array name, name⟩ (.text ctx.emptyBraces))
  branchWhen p.hasDefault (present slot) (read ctx .checked array (.name name) (.slot slot))
  let category ← ctx.categoryOf elem
  return {
    arg := ⟨p.name, luaType ctx category ++ "[]", p.hasDefault⟩
    nativeArgs := [name]
    output := if writable then some ⟨p.name, array, .name name, none⟩ else none }

/-- Reads a unit from its slot. -/
def readUnit (ctx : Context) (slot : Nat) : ParamUnit → Draft UnitCode
  | .single p category output => readSingle ctx p category output slot
  | .arrayCount array count elem => readArrayCount ctx array count elem slot
  | .fixedArray p elem size writable => readFixedArray ctx p elem size writable slot

/-- Reads units from the slots after `slot`. -/
def readUnits (ctx : Context) (slot : Nat) : List ParamUnit → Draft (List UnitCode)
  | [] => pure []
  | u :: rest => do
    let code ← readUnit ctx (slot + 1) u
    return code :: (← readUnits ctx (slot + 1) rest)

/-! ## The call and the results -/

/-- The local that holds the return value. -/
def resultLocal : String := "ret"

/-- The native call. -/
def nativeCall (ctx : Context) (f : FunctionDecl) (args : List String) : Call :=
  ⟨.native (ctx.callName f.name), args.map fun a => .value (.name a)⟩

/-- The native call, or the two branches of it when the dummy backend concerns the function. -/
def callLines (ctx : Context) (f : FunctionDecl) (result : String) (category : Category)
    (args : List String) : List Line :=
  let call := nativeCall ctx f args
  match ctx.manifest.dummyBackend.filter fun d => d.appliesTo f.name with
  | none =>
    if category.isVoid then [.call call]
    else [.declare (localOf result resultLocal) (.call call)]
  | some dummy =>
    (if category.isVoid then []
     else [.declare (localOf result resultLocal) (.text (ctx.zeroInit category))]) ++
    [.directive ("#ifdef " ++ dummy.guard)] ++
    (match dummy.returns.lookup f.name with
     | some value =>
       if category.isVoid then [] else [.assign (.name resultLocal) (.text value)]
     | none => []) ++
    args.map .unused ++
    [.directive "#else",
     if category.isVoid then .call call else .assign (.name resultLocal) (.call call),
     .directive "#endif"]

/-- Pushes an output. -/
def pushOutput (ctx : Context) (o : OutputValue) : Draft ScriptResult := do
  match o.guard with
  | some pointer =>
    branch (.notNull (.name pointer) ctx.null) (push ctx o.type o.place) (.line pushNil .done)
  | none => push ctx o.type o.place
  let category ← ctx.categoryOf o.type
  return ⟨some o.param, luaType ctx category⟩

/-- Pushes the return value, if there is one. -/
def pushResult (ctx : Context) (result : String) (category : Category) :
    Draft (List ScriptResult) := do
  if category.isVoid then return []
  else
    push ctx result (.name resultLocal)
    return [⟨none, luaType ctx category⟩]

/-- Pushes outputs in order. -/
def pushOutputs (ctx : Context) : List OutputValue → Draft (List ScriptResult)
  | [] => pure []
  | o :: rest => do
    let result ← pushOutput ctx o
    return result :: (← pushOutputs ctx rest)

/-- The body of a wrapper. -/
def wrapperBody (ctx : Context) (f : FunctionDecl) (names : FunctionNames) : Draft FunctionBinding := do
  let units ← asking (pairParams ctx f.name f.params)
  block (.define "static int" (.wrapper names.cName) "lua_State* L") do
    if ← asking (units.anyM (·.needsScratch ctx)) then
      -- absent arguments must stay below the keep table
      lines (.call (Api.settop.on [.number units.length]) :: keepTable)
    let codes ← readUnits ctx 0 units
    let result := Text.trimmed f.returnType
    let category ← ctx.categoryOf result
    lines (callLines ctx f result category (codes.flatMap (·.nativeArgs)))
    let returned ← pushResult ctx result category
    let outputs ← pushOutputs ctx (codes.filterMap (·.output))
    let results := returned ++ outputs
    line (.ret (.text (toString results.length)))
    return { native := f.name, names := names, args := codes.map (·.arg), results := results }

/-- The wrapper of a function. -/
def wrapFunction (ctx : Context) (f : FunctionDecl) (names : FunctionNames) :
    Draft FunctionBinding := do
  let binding ← wrapperBody ctx f names
  line .blank
  return binding

end LuaGlue
