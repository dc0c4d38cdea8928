import LuaGlue.Marshal.Basic

/-!
# Pushing a native value

`push` writes code that leaves exactly one value on top of the Lua stack. Arrays and tuples become
tables and recurse on the spelling of their parts; a userdata is a copy of the struct; a pointer
becomes a light userdata, or `nil` if it is null. A category that cannot cross the boundary pushes
`nil` and leaves a marked gap.

The recursion runs on two numbers. `pushWith` goes down the dimensions of a spelling and leaves
tuples to its parameter; `pushTuple` supplies that parameter and counts how many more tuples may
stand inside one another.
-/

set_option autoImplicit false

namespace LuaGlue

open Draft

/-- A literal `(type)place`. -/
private def castOf (type : String) (p : Place) : Expr := .cast type (.value p)

/-- Pushes a pointer as a light userdata. -/
def pushLight (pointer : String) : Line :=
  .call (Api.pushlightuserdata.on [.cast "void*" (.name pointer)])

def pushNil : Line := .call (Api.pushnil.on [])

/-- Copies a struct into a fresh userdata with the struct's metatable. -/
def pushCopy (ctx : Context) (name : String) (source : Place) : Draft Unit := do
  let copy ← temp
  block .bare do
    lines
      [.declare (.plain (name ++ "*") copy)
        (.cast (name ++ "*")
          (.call (Api.newuserdata.on [.sizeof name, .text "TETHER_UV_COUNT"]))),
       .assign (.target (.name copy)) (.value source),
       .call (Api.setmetatable.on [.literal (ctx.metatable name)])]

/-- Pushes the value behind a pointer with `some`, or `nil` if the pointer is null. -/
def pushUnlessNull (ctx : Context) (pointer : Local) (source : Expr) (some : Draft Unit) :
    Draft Unit :=
  block .bare do
    line (.declare pointer source)
    branch (.notNull (.name pointer.name) ctx.null) some (.line pushNil .done)

/-- Stores the value on top at a fixed position of the table below it. -/
def storeAt (position : Nat) : Line := .call (Api.rawseti.on [.at .belowTop, .number position])

/-- Pushes the value at `source`; `rank` bounds the dimensions of the spelling, and `tuple` pushes
the tuples it comes to. -/
def pushWith (ctx : Context) (tuple : String → Place → Draft Unit) :
    Nat → String → Place → Draft Unit
  | rank, spelling, source => do
    match ← ctx.categoryOf spelling with
    | .void => fail (.unsupported .push spelling)
    | .bool => line (.call (Api.pushboolean.on [.value source]))
    | .integer _ | .enum _ => line (.call (Api.pushinteger.on [.cast "lua_Integer" source]))
    | .float _ => line (.call (Api.pushnumber.on [.cast "lua_Number" source]))
    | .cstring => line (.call (Api.pushstring.on [.value source]))
    | .structValue name .tuple => tuple name source
    | .structValue name _ => pushCopy ctx name source
    | .structPointer name shape isConst => do
      let pointer ← temp
      pushUnlessNull ctx ⟨declareLocal spelling pointer, pointer⟩ (.value source)
        (if shape == .tuple then tuple name (.target (.name pointer))
         else if isConst then pushCopy ctx name (.target (.name pointer))
         else line (pushLight pointer))
    | .handle _ | .pointer .. => do
      let pointer ← temp
      pushUnlessNull ctx (.plain "const void*" pointer) (castOf "const void*" source)
        (line (pushLight pointer))
    | .fixedArray _ size =>
      match rank, elementType? spelling with
      | rank' + 1, some elem => do
        let k ← temp
        line (.call (Api.createtable.on [.number size, .number 0]))
        block (.count "int" k (toString size)) do
          pushWith ctx tuple rank' elem (.element source k)
          line (.call (Api.rawseti.on [.at .belowTop, .succ k]))
      | _, _ => fail (.unsupported .push spelling)
    | .callback .. =>
      lines [.placeholder ("push function pointer '" ++ spelling ++ "'"), pushNil]
    | .unknown => lines [.placeholder ("push unknown type '" ++ spelling ++ "'"), pushNil]

/-- Pushes the members of a tuple that is held by the local `value`, from position `i` on, each
into the table below it. -/
def pushMembers (push : String → Place → Draft Unit) (value : String) :
    Nat → List TupleMember → Draft Unit
  | _, [] => pure ()
  | i, m :: rest => do
    push m.type (.member (.name value) m.field)
    line (storeAt (i + 1))
    pushMembers push value (i + 1) rest

/-- Pushes a tuple as a table of its members; inside it, `levels - 1` more may nest. -/
def pushTuple (ctx : Context) : Nat → String → Place → Draft Unit
  | 0, name, _ => fail (.tuple name .tooDeep)
  | levels + 1, name, source => do
    let members ← ofExcept (ctx.tupleMembers name)
    let value ← temp
    block .bare do
      lines
        [.declare (.plain name value) (.value source),
         .call (Api.createtable.on [.number members.length, .number 0])]
      pushMembers (fun spelling place =>
        pushWith ctx (pushTuple ctx levels) (arrayRank spelling) spelling place) value 0 members

/-- Pushes the value at `source`, whose type is spelled `spelling`. -/
def push (ctx : Context) (spelling : String) (source : Place) : Draft Unit :=
  pushWith ctx (pushTuple ctx maxNesting) (arrayRank spelling) spelling source

end LuaGlue
