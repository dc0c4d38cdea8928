import LuaGlue.Callback
import LuaGlue.Userdata.Accessor

/-!
# Getters and setters

One getter and one setter per accessor. A getter pushes the field; a setter reads the value it is
given into the field.

What a field then points to has to live as long as the struct does. If the field's category points
into script memory, the setter anchors the value in the userdata; if reading went through a keep
table, it anchors the keep table with the value in it.

Assigning an owned buffer frees the buffer the struct had allocated before, forgets it, and copies
the table into a new one. The struct owns the new buffer before the first element is read, so an
error while reading cannot leak it.
-/

set_option autoImplicit false

namespace LuaGlue

open Draft

/-- The place of an accessor's field in the struct `self` points to. -/
def Accessor.place (a : Accessor) : Place := .through "self" a.path

def selfValue : Arg := .value (.name "self")

def udValue : Arg := .value (.name "ud")

/-- The stack position a setter finds its value at. -/
def valueIndex : StackIndex := .held "value"

/-- Anchors a value under a key of the userdata. -/
def anchor (key : String) (value : StackIndex) : Line :=
  .call (Support.anchor.on [udValue, .literal key, .at value])

/-- Anchors the keep table, with the value and what reading it left behind, and pops it. -/
def anchorKeep (key : String) : List Line :=
  [.call (Api.pushvalue.on [.at valueIndex]),
   .call (Support.keep.on [.at (.held keepLocal)]),
   anchor key (.held keepLocal),
   popOne]

/-! ## Getters -/

/-- Pushes an owned buffer as a table of its elements. -/
def bufferGetter (ctx : Context) (a : Accessor) (countField elem : String) : Draft Unit := do
  lines
    [.declare (.plain "lua_Integer" "n")
      (.choose (.notNull a.place ctx.null)
        (.cast "lua_Integer" (.value (.through "self" countField))) (.text "0")),
     .onlyIf (.text "n < 0") (.assign (.name "n") (.text "0")),
     .call (Api.createtable.on [.cast "int" (.name "n"), .number 0])]
  block (.count "lua_Integer" "i" "n") do
    push ctx elem (.element a.place "i")
    line (.call (Api.rawseti.on [.at .belowTop, .succ "i"]))

/-- The getter of an accessor. -/
def getter (ctx : Context) (struct : String) (a : Accessor) : Draft Unit := do
  block (.define "static void" (.getter struct a.key) ("lua_State* L, " ++ struct ++ "* self")) do
    match a.access with
    | .ownedBuffer _ countField _ elem => bufferGetter ctx a countField elem
    | _ => push ctx a.type a.place
  line .blank

/-! ## Setters -/

/-- Frees the buffer number `bit` if the struct owns it. -/
def freeIfOwned (bit : Nat) (place : Place) : Line :=
  .onlyIf (.owns bit) (.call ⟨.libc "free", [.cast "void*" place]⟩)

/-- Assigns an owned buffer from a table. -/
def bufferSetter (ctx : Context) (a : Accessor) (bit : Nat) (countField countType elem : String) :
    Draft Unit := do
  let type := valueType elem
  let null := ctx.null
  let count : Place := .through "self" countField
  let keep ← asking (needsKeep ctx elem)
  line (.call (Api.checktype.on [.at valueIndex, .text "LUA_TTABLE"]))
  if keep then lines keepTable
  lines
    [.declare (.plain "lua_Integer" "n")
      (.cast "lua_Integer" (.call (Api.rawlen.on [.at valueIndex]))),
     .declare (.plain "lua_Integer" "owned") (.call (Support.owned.on [udValue])),
     freeIfOwned bit a.place,
     .assign a.place (.text null),
     .assign count (.text "0"),
     .disown bit,
     .call (Support.setOwned.on [udValue, .value (.name "owned")])]
  branch (.text "n > 0") do
    let bytes := "(size_t)n * sizeof(" ++ type ++ ")"
    lines
      [.declare (.plain (type ++ "*") "buf")
        (.cast (type ++ "*") (.call ⟨.libc "malloc", [.text bytes]⟩)),
       .onlyIf (.isNull (.name "buf") null)
        (.call (Api.error.on [.literal "out of memory setting '%s'", .literal a.key])),
       .call ⟨.libc "memset", [.value (.name "buf"), .number 0, .text bytes]⟩,
       .assign a.place (.value (.name "buf")),
       .assign count (.cast (valueType countType) (.value (.name "n"))),
       .call (Support.setOwned.on [udValue, .ownedWith bit])]
    block (.count "lua_Integer" "i" "n") do
      line (.call (Api.rawgeti.on [.at valueIndex, .succ "i"]))
      read ctx .lenient elem (.element (.name "buf") "i") .top
      line popOne
  if keep then lines (anchorKeep a.key) else line (anchor a.key valueIndex)

/-- Assigns a plain field. -/
def valueSetter (ctx : Context) (a : Accessor) : Draft Unit := do
  let category ← ctx.categoryOf a.type
  let keep ← asking (needsKeep ctx a.type)
  if keep then lines keepTable
  read ctx .checked a.type a.place valueIndex
  if category.isUnknown then lines [.unused "self", .unused "value"]
  if keep then lines (anchorKeep a.key)
  else if category.needsAnchor then line (anchor a.key valueIndex)
  else line (.unused "ud")

/-- The setter of an accessor. -/
def setter (ctx : Context) (struct : String) (a : Accessor) : Draft Unit := do
  block (.define "static void" (.setter struct a.key)
      ("lua_State* L, " ++ struct ++ "* self, int ud, int value")) do
    match a.access with
    | .value => valueSetter ctx a
    | .callback => lines (callbackSetter ctx struct a.key)
    | .ownedBuffer bit countField countType elem =>
      bufferSetter ctx a bit countField countType elem
    | .ownedCount _ => fail (.unsupported .write a.type)
  line .blank

end LuaGlue
