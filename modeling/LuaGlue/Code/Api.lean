/-!
# The Lua C API

The API functions that generated code calls, by name. A call's effect on the Lua stack and whether
it may raise a Lua error depend on the function alone, so they are functions of `Api`
(`Api.effect?`, `Api.raises`) and the code generator never has to state them.

`luaL_checkudata` and its kind *raise*: they leave the C function by a long jump when a value is not
what was asked for. `lua_call` may run any script and is counted with them.
-/

set_option autoImplicit false

namespace LuaGlue

/-- A function of the Lua C API. -/
inductive Api where
  -- lua.h
  | absindex | call | checkstack | createtable | getfield | gettop | isLightuserdata | isNil
  | isNoneOrNil | isTable | newtable | newuserdata | pcall | pop | pushboolean | pushcfunction
  | pushinteger | pushlightuserdata | pushnil | pushnumber | pushstring | pushvalue | rawgeti
  | rawlen | rawseti | setfield | settop | toboolean | tointeger | tolstring | tonumber | tostring
  | touserdata | type
  -- lauxlib.h
  | checkinteger | checknumber | ensureStack | checkstring | checktype | checkudata | error
  | newlib | newmetatable | setfuncs | setmetatable | testudata | typeerror
  deriving DecidableEq, Repr

namespace Api

/-- The function's name in C. -/
def name : Api → String
  | absindex => "lua_absindex"
  | call => "lua_call"
  | checkstack => "lua_checkstack"
  | createtable => "lua_createtable"
  | getfield => "lua_getfield"
  | gettop => "lua_gettop"
  | isLightuserdata => "lua_islightuserdata"
  | isNil => "lua_isnil"
  | isNoneOrNil => "lua_isnoneornil"
  | isTable => "lua_istable"
  | newtable => "lua_newtable"
  | newuserdata => "lua_newuserdatauv"
  | pcall => "lua_pcall"
  | pop => "lua_pop"
  | pushboolean => "lua_pushboolean"
  | pushcfunction => "lua_pushcfunction"
  | pushinteger => "lua_pushinteger"
  | pushlightuserdata => "lua_pushlightuserdata"
  | pushnil => "lua_pushnil"
  | pushnumber => "lua_pushnumber"
  | pushstring => "lua_pushstring"
  | pushvalue => "lua_pushvalue"
  | rawgeti => "lua_rawgeti"
  | rawlen => "lua_rawlen"
  | rawseti => "lua_rawseti"
  | setfield => "lua_setfield"
  | settop => "lua_settop"
  | toboolean => "lua_toboolean"
  | tointeger => "lua_tointeger"
  | tolstring => "lua_tolstring"
  | tonumber => "lua_tonumber"
  | tostring => "lua_tostring"
  | touserdata => "lua_touserdata"
  | type => "lua_type"
  | checkinteger => "luaL_checkinteger"
  | checknumber => "luaL_checknumber"
  | ensureStack => "luaL_checkstack"
  | checkstring => "luaL_checkstring"
  | checktype => "luaL_checktype"
  | checkudata => "luaL_checkudata"
  | error => "luaL_error"
  | newlib => "luaL_newlib"
  | newmetatable => "luaL_newmetatable"
  | setfuncs => "luaL_setfuncs"
  | setmetatable => "luaL_setmetatable"
  | testudata => "luaL_testudata"
  | typeerror => "luaL_typeerror"

/-- How many values a call leaves on the stack more than there were; `none` where that depends on
the arguments. A popping call takes off one value, as all of ours do. -/
def effect? : Api → Option Int
  | createtable | getfield | newlib | newmetatable | newtable | newuserdata | pushboolean
  | pushcfunction | pushinteger | pushlightuserdata | pushnil | pushnumber | pushstring | pushvalue
  | rawgeti => some 1
  | pop | rawseti | setfield => some (-1)
  | call | pcall | setfuncs | settop => none
  | _ => some 0

/-- Whether a call may leave the C function with a Lua error because of the values it is given. -/
def raises : Api → Bool
  | call | checkinteger | checknumber | checkstring | checktype | checkudata | ensureStack | error
  | typeerror => true
  | _ => false

end Api

end LuaGlue
