import LuaGlue.Draft
import LuaGlue.Context
import LuaGlue.Text.Numeral

/-!
# Enums and constants

A named enum becomes a table of its members, loose constants go straight into the module table.
Every declaration has a registrar of its own, so a value that does not fit only loses the
declaration it belongs to.

A value is written as a C expression of type `lua_Integer`. Values above the signed range wrap as
the native unsigned enum would; the least value cannot be written as a literal in C and is written
as a difference.
-/

set_option autoImplicit false

namespace LuaGlue

open Draft Text

/-- A member as a script sees it. -/
structure ConstMember where
  name : String
  value : Int
  deriving DecidableEq, Repr

/-- What was written for an enum. -/
structure EnumBinding where
  native : String
  scriptName : String
  registrar : Symbol
  members : List ConstMember
  deriving DecidableEq, Repr

/-- What was written for a group of constants. -/
structure ConstBinding where
  registrar : Symbol
  members : List ConstMember
  deriving DecidableEq, Repr

/-- A value as a C expression of type `lua_Integer`. -/
def integerLiteral (item : EnumItem) : Except Fault String :=
  let value := item.value
  if value == -wordBound then .ok "(-9223372036854775807LL - 1)"
  else if isWord value then .ok (toString value)
  else if wordBound ≤ value && value < sizeBound then
    .ok ("(lua_Integer)" ++ toString value ++ "ULL")
  else .error (.enumRange item.name value)

/-- Sets members as fields of the table at `target`. -/
def memberLines (target : StackIndex) (name : String → String) :
    List EnumItem → Draft (List ConstMember)
  | [] => pure []
  | item :: rest => do
    let literal ← ofExcept (integerLiteral item)
    lines
      [.call (Api.pushinteger.on [.text literal]),
       .call (Api.setfield.on [.at target, .literal (name item.name)])]
    return ⟨name item.name, item.value⟩ :: (← memberLines target name rest)

/-- A function that adds to the module table, whose position is `t`. -/
def registrar {α : Type} (f : Symbol) (body : Draft α) : Draft α := do
  let value ← block (.define "static void" f "lua_State* L, int t") body
  line .blank
  return value

/-- The position of the module table. -/
def moduleTable : StackIndex := .held "t"

/-- The glue of an enum. -/
def bindEnum (ctx : Context) (e : EnumDecl) : Draft EnumBinding := do
  let scriptName := ctx.naming.typeName e.name
  let members ← registrar (.enumRegistrar e.name) do
    line (.call (Api.createtable.on [.number 0, .number e.items.length]))
    let members ← memberLines .belowTop (ctx.naming.memberName e.name) e.items
    line (.call (Api.setfield.on [.at moduleTable, .literal scriptName]))
    return members
  return {
    native := e.name, scriptName := scriptName, registrar := .enumRegistrar e.name
    members := members }

/-- The glue of a group of constants, the declaration at a position. -/
def bindConsts (ctx : Context) (g : ConstGroup) (position : Nat) : Draft ConstBinding := do
  let members ← registrar (.constRegistrar position)
    (memberLines moduleTable ctx.naming.constName g.items)
  return { registrar := .constRegistrar position, members := members }

end LuaGlue
