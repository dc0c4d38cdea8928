import LuaGlue.Context

/-!
# Types as a script sees them

The type annotation of a value, by its category: `integer`, `Vec2[]`, `fun(a0: number): boolean`.
-/

set_option autoImplicit false

namespace LuaGlue

/-- The annotation of a struct, behind a pointer or not. -/
def structType (ctx : Context) (name : String) : Shape → String
  | .tuple => "table"
  | .byteRange => ctx.metatable name ++ "|string"
  | .userdata => ctx.metatable name

mutual

/-- The annotation of a value of a category. -/
def luaType (ctx : Context) : Category → String
  | .void => "nil"
  | .bool => "boolean"
  | .integer _ | .enum _ => "integer"
  | .float _ => "number"
  | .cstring => "string"
  | .structValue name shape | .structPointer name shape _ => structType ctx name shape
  | .handle _ | .pointer .. => "lightuserdata"
  | .fixedArray elem _ => luaType ctx elem ++ "[]"
  | .callback result params _ =>
    "fun(" ++ ", ".intercalate (luaParams ctx 0 params) ++ ")" ++
      (if result.isVoid then "" else ": " ++ luaType ctx result)
  | .unknown => "any"

/-- The parameters of a callback, named by their positions from `i` on. -/
def luaParams (ctx : Context) (i : Nat) : List Category → List String
  | [] => []
  | p :: rest => ("a" ++ toString i ++ ": " ++ luaType ctx p) :: luaParams ctx (i + 1) rest

end

end LuaGlue
