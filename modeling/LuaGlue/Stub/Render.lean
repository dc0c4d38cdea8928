import LuaGlue.Bindings

/-!
# The stub file

A `---@meta` file in the notation of LuaCATS that tells a language server what the module offers:
the classes, the enums, the constants and the functions with their types.
-/

set_option autoImplicit false

namespace LuaGlue

/-- An argument's name as a script may write it. -/
def argName (name : String) : String := if isScriptKeyword name then name ++ "_" else name

def stubLine (parts : List String) : String := String.join parts ++ "\n"

/-- The class of a struct's userdata. -/
def structStub (s : StructBinding) : String :=
  stubLine ["---@class ", s.metatable] ++
    String.join (s.fields.map fun f => stubLine ["---@field ", f.key, " ", f.luaType]) ++ "\n"

def enumStub (module : String) (e : EnumBinding) : String :=
  stubLine ["---@enum ", module, ".", e.scriptName] ++
    stubLine [module, ".", e.scriptName, " = \x7b"] ++
    String.join (e.members.map fun m => stubLine ["    ", m.name, " = ", toString m.value, ","]) ++
    "\x7d\n\n"

def constStub (module : String) (c : ConstBinding) : String :=
  String.join (c.members.map fun m => stubLine [module, ".", m.name, " = ", toString m.value]) ++ "\n"

def argStub (a : ScriptArg) : String :=
  stubLine ["---@param ", argName a.name, if a.optional then "?" else "", " ", a.luaType]

def resultStub (r : ScriptResult) : String :=
  match r.name with
  | some name => stubLine ["---@return ", r.luaType, " ", name]
  | none => stubLine ["---@return ", r.luaType]

/-- A function under one of its names. -/
def functionStub (module : String) (f : FunctionBinding) (name : String) : String :=
  String.join (f.args.map argStub) ++ String.join (f.results.map resultStub) ++
    stubLine ["function ", module, ".", name, "(",
      ", ".intercalate (f.args.map fun a => argName a.name), ") end\n"]

/-- The stub file of a module. Names that no script can write are left out. -/
def renderStubs (n : Naming) (b : Bindings) : String :=
  let module := n.module
  "---@meta\n\n" ++ stubLine ["---@class ", module] ++
    String.join (b.structs.map fun s =>
      stubLine ["---@field ", s.scriptName, " fun(t?: table): ", s.metatable]) ++
    stubLine ["local ", module, " = \x7b\x7d\n"] ++
    String.join (b.structs.map structStub) ++
    String.join (b.enums.map (enumStub module)) ++
    String.join (b.consts.map (constStub module)) ++
    String.join (b.functions.flatMap fun f =>
      ((n.registeredNames f.names.scriptName).filter (!isScriptKeyword ·)).map
        (functionStub module f)) ++
    stubLine ["return ", module]

end LuaGlue
