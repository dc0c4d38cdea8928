import LuaGlue.Marshal.Basic

/-!
# Reading a script value

`read` writes code that takes the value at a stack position and assigns it to a native place that
is declared and zeroed already, and that leaves the stack as it was. There are two modes. A
*checked* read raises a Lua error if the value does not fit, as arguments and fields want it; a
*lenient* read converts whatever is there, as the elements of tables and the results of callbacks
want it. The parts of an array or a tuple are always read leniently.

Like pushing, reading goes down the dimensions of a spelling (`readWith`) and counts how many tuples
may stand inside one another (`readTuple`).
-/

set_option autoImplicit false

namespace LuaGlue

open Draft

inductive ReadMode where
  | checked
  | lenient
  deriving DecidableEq, Repr

namespace ReadMode

/-- The function that takes an integer off the stack. -/
def integerApi : ReadMode → Api
  | checked => .checkinteger
  | lenient => .tointeger

def numberApi : ReadMode → Api
  | checked => .checknumber
  | lenient => .tonumber

def stringApi : ReadMode → Api
  | checked => .checkstring
  | lenient => .tostring

def userdataApi : ReadMode → Api
  | checked => .checkudata
  | lenient => .testudata

end ReadMode

/-- `place = (type)f(L, index);` -/
def assignCast (f : Api) (type : String) (place : Place) (index : StackIndex) : Line :=
  .assign place (.cast type (.call (f.on [.at index])))

/-- Takes a value off the stack. -/
def popOne : Line := .call (Api.pop.on [.number 1])

/-- Goes through a value that must be a table. Its position is held by the local `table`; unless
the read is checked, anything else than a table is passed over. -/
def readTable (mode : ReadMode) (table : String) (index : StackIndex) (inside : Draft Unit) :
    Draft Unit :=
  block .bare do
    line (.declare (.plain "int" table) (.call (Api.absindex.on [.at index])))
    match mode with
    | .checked => do
      line (.call (Api.checktype.on [.at (.held table), .text "LUA_TTABLE"]))
      inside
    | .lenient => branch (.holds (Api.isTable.on [.at (.held table)])) inside

/-- Reads a struct this module has a converter for. -/
def readBound (ctx : Context) (name : String) (place : Place) (index : StackIndex)
    (mode : ReadMode) : Line :=
  let convert : Call :=
    ⟨.generated (.converter name),
      [.state, .at index, .addressOf place, .value (.name keepLocal)]⟩
  match mode with
  | .checked =>
    .onlyIf (.fails convert)
      (.call (Api.typeerror.on [.at index, .literal (ctx.metatable name)]))
  | .lenient => .discard convert

/-- Copies a struct out of its userdata. -/
def copyUserdata (ctx : Context) (name : String) (place : Place) (index : StackIndex)
    (mode : ReadMode) (pointer : String) : List Line :=
  [.declare (.plain (name ++ "*") pointer)
    (.cast (name ++ "*")
      (.call (mode.userdataApi.on [.at index, .literal (ctx.metatable name)]))),
   .onlyIf (.notNull (.name pointer) ctx.null)
    (.assign place (.value (.target (.name pointer))))]

/-- Reads a struct that another module binds: there is no converter for it, only its userdata and,
for a byte range, a string. -/
def readForeign (ctx : Context) (name : String) (shape : Shape) (place : Place)
    (index : StackIndex) (mode : ReadMode) : Draft Unit := do
  let range := if shape == .byteRange then ctx.byteRange? name else none
  let pointer ← temp
  match range with
  | none => block .bare (lines (copyUserdata ctx name place index mode pointer))
  | some range => do
    let length ← temp
    block .bare do
      branch (.isString index)
        (lines
          [.declare (.plain "size_t" length) (.text "0"),
           .assign (.memberOf place range.pointer)
            (.call (Api.tolstring.on [.at index, .address length])),
           .assign (.memberOf place range.size) (.value (.name length))])
        (Code.ofLines (copyUserdata ctx name place index mode pointer))

def readStruct (ctx : Context) (name : String) (shape : Shape) (place : Place)
    (index : StackIndex) (mode : ReadMode) : Draft Unit :=
  if ctx.isBound name then line (readBound ctx name place index mode)
  else readForeign ctx name shape place index mode

/-- Reads a handle or a pointer. A string may stand for a pointer to constants. -/
def readPointer (isConst : Bool) (type : String) (place : Place) (index : StackIndex) : Line :=
  let raw (f : Api) : Expr := .cast type (.call (f.on [.at index]))
  .assign place
    (if isConst then .choose (.isString index) (raw .tostring) (raw .touserdata)
     else raw .touserdata)

/-- Reads the value at `index` into `place`; `rank` bounds the dimensions of the spelling, and
`tuple` reads the tuples it comes to. -/
def readWith (ctx : Context) (tuple : ReadMode → String → Place → StackIndex → Draft Unit) :
    Nat → ReadMode → String → Place → StackIndex → Draft Unit
  | rank, mode, spelling, place, index => do
    let type := valueType spelling
    match ← ctx.categoryOf spelling with
    | .void => fail (.unsupported .read spelling)
    | .bool => line (.assign place (.call (Api.toboolean.on [.at index])))
    | .integer _ | .enum _ => line (assignCast mode.integerApi type place index)
    | .float _ => line (assignCast mode.numberApi type place index)
    | .cstring => line (assignCast mode.stringApi type place index)
    | .structValue name .tuple => tuple mode name place index
    | .structValue name shape => readStruct ctx name shape place index mode
    | .structPointer name shape _ =>
      line <|
        if mode == .checked && shape != .tuple then
          .assign place
            (.cast type (.call (Support.topointer.on
              [.at index, .literal (ctx.metatable name)])))
        else assignCast .touserdata type place index
    | .handle isConst | .pointer _ isConst => line (readPointer isConst type place index)
    | .fixedArray _ size =>
      match rank, elementType? spelling with
      | rank' + 1, some elem => do
        let table ← temp
        let k ← temp
        readTable mode table index <|
          block (.count "int" k (toString size)) do
            line (.call (Api.rawgeti.on [.at (.held table), .succ k]))
            -- only entries present in the table are written
            branch (.fails (Api.isNil.on [.at .top]))
              (readWith ctx tuple rank' .lenient elem (.element place k) .top)
            line popOne
      | _, _ => fail (.unsupported .read spelling)
    | .callback .. => line (.placeholder ("read function pointer '" ++ spelling ++ "'"))
    | .unknown => line (.placeholder ("read unknown type '" ++ spelling ++ "'"))

/-- Reads the members of a tuple off the table whose position is held by the local `table`, from
position `i` on. -/
def readMembers (read : String → Place → Draft Unit) (table : String) (place : Place) :
    Nat → List TupleMember → Draft Unit
  | _, [] => pure ()
  | i, m :: rest => do
    line (.call (Api.rawgeti.on [.at (.held table), .number (i + 1)]))
    read m.type (.memberOf place m.field)
    line popOne
    readMembers read table place (i + 1) rest

/-- Reads a tuple from a table of its members; inside it, `levels - 1` more may nest. -/
def readTuple (ctx : Context) : Nat → ReadMode → String → Place → StackIndex → Draft Unit
  | 0, _, name, _, _ => fail (.tuple name .tooDeep)
  | levels + 1, mode, name, place, index => do
    let members ← ofExcept (ctx.tupleMembers name)
    let table ← temp
    readTable mode table index <|
      readMembers (fun spelling member =>
        readWith ctx (readTuple ctx levels) (arrayRank spelling) .lenient spelling member .top)
        table place 0 members

/-- Reads the value at `index`, whose type is spelled `spelling`, into `place`. -/
def read (ctx : Context) (mode : ReadMode) (spelling : String) (place : Place)
    (index : StackIndex) : Draft Unit :=
  readWith ctx (readTuple ctx maxNesting) (arrayRank spelling) mode spelling place index

end LuaGlue
