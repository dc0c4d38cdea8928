import LuaGlue.Context
import LuaGlue.Draft

/-!
# What marshaling rests on

The pieces that pushing a value and reading one share: the nesting limit, the order in which a
spelling is taken apart, zero values, and the *keep table*.

Reading a bound struct may build a temporary userdata from a table. The temporary owns whatever the
copy points into, so it goes into the keep table, which the caller puts on the stack beforehand
(`keepTable`) and leaves there as long as the value read is in use. `needsKeep` says when.
-/

set_option autoImplicit false

namespace LuaGlue

/-- How many tuples may stand inside one another. -/
def maxNesting : Nat := 8

/-- The number of dimensions a spelling shows. It is what a recursion over array elements runs on:
an element's spelling shows one dimension less. -/
def arrayRank (spelling : String) : Nat :=
  match CType.parse spelling with
  | .named t => t.dims.length
  | _ => 0

namespace Context

/-- The category of a spelling, asked in the course of generation. -/
def categoryOf (ctx : Context) (spelling : String) : Draft Category :=
  Draft.asking (ctx.classify spelling)

end Context

/-! ## The keep table -/

/-- The local that holds the keep table's position on the stack. -/
def keepLocal : String := "keep"

/-- Puts a keep table on the stack. -/
def keepTable : List Line :=
  [.call (Api.newtable.on []), .declare (.plain "int" keepLocal) (.call (Api.gettop.on []))]

/-- Whether reading a value puts anything into the keep table, looking `levels` arrays and tuples
deep. -/
def keepsWithin (ctx : Context) : Nat → String → Classifying Bool
  | 0, _ => pure false
  | levels + 1, spelling => do
    match ← ctx.classify spelling with
    | .structValue name .tuple =>
      match ctx.tupleMembers name with
      | .ok members => members.anyM fun m => keepsWithin ctx levels m.type
      | .error _ => pure false
    | .structValue name _ => pure (ctx.isBound name)
    | .fixedArray .. =>
      match elementType? spelling with
      | some elem => keepsWithin ctx levels elem
      | none => pure false
    | _ => pure false

/-- Whether reading a value so spelled puts anything into the keep table. -/
def needsKeep (ctx : Context) (spelling : String) : Classifying Bool :=
  keepsWithin ctx maxNesting spelling

/-- The same for a spelling that may be missing. -/
def needsKeep? (ctx : Context) : Option String → Classifying Bool
  | some spelling => needsKeep ctx spelling
  | none => pure false

/-- Whether a stored value of this category points into memory a script owns, which has to live as
long as the struct it is stored in. -/
def Category.needsAnchor : Category → Bool
  | .cstring | .structPointer .. | .handle _ | .pointer .. | .fixedArray .. => true
  | .structValue _ shape => shape != .tuple
  | _ => false

/-! ## Zero values -/

/-- Returns the zero value of a type, or nothing for `void`. -/
def returnZero (ctx : Context) (spelling : String) : Draft Unit := do
  let category ← ctx.categoryOf spelling
  if category.isVoid then Draft.line .retVoid
  else
    let type := valueType spelling
    match ctx.zeroLiteral? type category with
    | some zero => Draft.line (.ret (.text zero))
    | none => do
      let zero ← Draft.temp
      Draft.lines
        [.declare ⟨declare type zero, zero⟩ (.text (ctx.zeroInit category)),
         .ret (.value (.name zero))]

end LuaGlue
