import LuaGlue.Bindings

/-!
# The C file

The C file of a module, put together from its parts:

    prelude        includes, portability, the support functions
    prototypes     constructor and converter of every bound struct
    callback slots the pools of closure slots
    bindings       the chunks in the order of the interface
    metatables     __index, __newindex and __gc of every bound struct
    registration   the table of functions
    entry point    what the script's loader calls
-/

set_option autoImplicit false

namespace LuaGlue

def directives (lines : List String) : Code := .ofLines (lines.map .directive)

def sectionBanner (title : String) : Code := .ofLines (banner title)

def blankLine : Code := .ofLines [.blank]

/-! ## Prelude -/

/-- A header as it is included: in its own brackets or quotes, or in quotes. -/
def includeDirective (header : String) : String :=
  match header.toList with
  | '<' :: _ | '\x22' :: _ => "#include " ++ header
  | _ => "#include \"" ++ header ++ "\""

/-- A support function. -/
def supportFunction (signature : String) (body : Code) : Code :=
  .seq [.blockOf (.text ("static inline " ++ signature)) body, blankLine]

/-- The support functions every module brings along. -/
def supportCode (null : String) : Code :=
  .seq
    [supportFunction "void* tether_topointer(lua_State* L, int idx, const char* mt)"
      (textLines
        ["if (lua_isnoneornil(L, idx)) return " ++ null ++ ";",
         "if (lua_islightuserdata(L, idx)) return lua_touserdata(L, idx);",
         "return luaL_checkudata(L, idx, mt);"]),
     supportFunction "void tether_anchor(lua_State* L, int ud, const char* key, int value)"
      (.seq
        [textLines ["ud = lua_absindex(L, ud);", "value = lua_absindex(L, value);"],
         .branchOf (.text "lua_getiuservalue(L, ud, 1) != LUA_TTABLE")
          (textLines
            ["lua_pop(L, 1);",
             "lua_newtable(L);",
             "lua_pushvalue(L, -1);",
             "lua_setiuservalue(L, ud, 1);"]),
         textLines
          ["lua_pushvalue(L, value);",
           "lua_setfield(L, -2, key);",
           "lua_pop(L, 1);"]]),
     supportFunction "void tether_keep(lua_State* L, int keep)"
      (textLines ["lua_rawseti(L, keep, (lua_Integer)lua_rawlen(L, keep) + 1);"]),
     supportFunction "lua_Integer tether_owned(lua_State* L, int ud)"
      (textLines
        ["lua_Integer mask;",
         "lua_getiuservalue(L, ud, 2);",
         "mask = lua_tointeger(L, -1);",
         "lua_pop(L, 1);",
         "return mask;"]),
     supportFunction "void tether_set_owned(lua_State* L, int ud, lua_Integer mask)"
      (textLines
        ["ud = lua_absindex(L, ud);",
         "lua_pushinteger(L, mask);",
         "lua_setiuservalue(L, ud, 2);"])]

/-- Where failing callbacks are reported: to the library's own sink, or to standard error. -/
def errorSinkCode : Option String → Code
  | some sink => .ofLines
      [.text ("void " ++ sink ++ "(const char* site, const char* message);"),
       .directive ("#define TETHER_CALLBACK_ERROR(site, msg) " ++ sink ++ "((site), (msg))")]
  | none => directives
      ["#define TETHER_CALLBACK_ERROR(site, msg) \\",
       "    fprintf(stderr, \"tether: callback %s failed: %s\\n\", (site), (msg))"]

def prelude (ctx : Context) : Code :=
  let output := ctx.manifest.output
  let visibility := output.exportMacro
  .seq
    [.ofLines
      [.text ("/* Lua bindings for module '" ++ ctx.naming.module ++
        "', generated by tether. Do not edit. */"),
       .blank],
     directives
      ["#ifdef __cplusplus", "extern \"C\" \x7b", "#endif",
       "#include <lua.h>", "#include <lauxlib.h>",
       "#ifdef __cplusplus", "\x7d", "#endif",
       "#include <string.h>", "#include <stdlib.h>", "#include <stdbool.h>", "#include <stdio.h>"],
     directives (output.includes.map includeDirective),
     blankLine,
     directives
      ["#if LUA_VERSION_NUM < 504",
       "#error \"tether bindings require Lua 5.4 or later\"",
       "#endif"],
     blankLine,
     directives
      ["#ifndef " ++ visibility,
       "#if defined(_WIN32)",
       "#define " ++ visibility ++ " __declspec(dllexport)",
       "#else",
       "#define " ++ visibility,
       "#endif",
       "#endif"],
     blankLine,
     errorSinkCode output.callbackErrorSink,
     blankLine,
     -- user value 1 is the anchor table, user value 2 the mask of owned buffers
     directives ["#define TETHER_UV_COUNT 2"],
     blankLine,
     supportCode ctx.null]

/-! ## Prototypes and metatables -/

def prototypesCode (structs : List StructBinding) : Code :=
  if structs.isEmpty then .done
  else
    .seq
      [sectionBanner "Prototypes",
       .ofLines (structs.flatMap fun s => structPrototypes s.native),
       blankLine]

/-- Sets a function as a metamethod of the metatable on top. -/
def metamethod (event : String) (f : Symbol) : List Line :=
  [.call (Api.pushcfunction.on [.symbol f]),
   .call (Api.setfield.on [.at .belowTop, .literal event])]

/-- Registers the metatable of a struct. -/
def metatableLines (s : StructBinding) : List Line :=
  [.call (Api.newmetatable.on [.literal s.metatable])] ++
    metamethod "__index" (.indexer s.native) ++ metamethod "__newindex" (.newIndexer s.native) ++
    (if s.hasCollector then metamethod "__gc" (.collector s.native) else []) ++ [popOne]

def metatablesCode (structs : List StructBinding) : Code :=
  if structs.isEmpty then .done
  else
    .seq
      [sectionBanner "Metatables",
       .blockOf (.define "static void" .metatableRegistrar "lua_State* L")
        (.ofLines (structs.flatMap metatableLines)),
       blankLine]

/-! ## Registration and entry point -/

/-- A function under each of its registered names. -/
def functionEntries (n : Naming) (f : FunctionBinding) : List Line :=
  (n.registeredNames f.names.scriptName).map fun name =>
    .registration name (.wrapper f.names.cName)

def registrationCode (ctx : Context) (b : Bindings) : Code :=
  let extras := ctx.manifest.output.extraRegistrations
  let entries : List Line :=
    b.functions.flatMap (functionEntries ctx.naming) ++
      (b.structs.map fun s => .registration s.scriptName (.constructor s.native)) ++
      (extras.map fun e => .registration e.name (.handWritten e.function)) ++
      [.text ("\x7b" ++ ctx.null ++ ", " ++ ctx.null ++ "\x7d")]
  .seq
    [sectionBanner "Registration",
     .ofLines (extras.map fun e => .prototype "int" (.handWritten e.function) "lua_State* L"),
     if extras.isEmpty then .done else blankLine,
     .blockOf (.table "static const luaL_Reg" .functionTable "") (.ofLines entries) .semicolon,
     blankLine]

/-- Calls the registrars of all enums and constants. -/
def registrarCalls (b : Bindings) : List Line :=
  (b.enums.map (·.registrar) ++ b.consts.map (·.registrar)).map fun r =>
    .call ⟨.generated r, [.state, .at moduleTable]⟩

/-- Calls the function that registers the metatables, if there are any. -/
def metatableCall (b : Bindings) : List Line :=
  if b.structs.isEmpty then [] else [.call ⟨.generated .metatableRegistrar, [.state]⟩]

def entryPointCode (ctx : Context) (b : Bindings) : Code :=
  let output := ctx.manifest.output
  let linkage := (if ctx.isCpp then "extern \"C\" " else "") ++ output.exportMacro
  let entry : Symbol := .entryPoint ctx.naming.entryPointName
  let table : Local := .plain "int" "t"
  let body : Code :=
    match output.registration with
    | .module =>
      .blockOf (.define (linkage ++ " int") entry "lua_State* L") (.ofLines
        (metatableCall b ++
          [.call (Api.newlib.on [.symbol .functionTable]),
           .declare table (.call (Api.gettop.on []))] ++
          registrarCalls b ++ [.unused "t", .ret (.text "1")]))
    | .intoTable =>
      .blockOf (.define (linkage ++ " void") entry "lua_State* L, int idx") (.ofLines
        ([.declare table (.call (Api.absindex.on [.at (.held "idx")]))] ++ metatableCall b ++
          [.call (Api.pushvalue.on [.at moduleTable]),
           .call (Api.setfuncs.on [.symbol .functionTable, .number 0]),
           popOne] ++
          registrarCalls b))
  .seq [sectionBanner "Entry point", body]

/-! ## The whole file -/

/-- The C file of a module. -/
def cFile (ctx : Context) (slots : List CallbackSlot) (b : Bindings) : Code :=
  .seq
    [prelude ctx,
     prototypesCode b.structs,
     slotArena ctx slots,
     sectionBanner "Bindings",
     .seq b.chunks,
     metatablesCode b.structs,
     registrationCode ctx b,
     entryPointCode ctx b]

end LuaGlue
