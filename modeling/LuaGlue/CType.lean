/-!
# C types as their spellings

A declaration says its types in C's own words: `const char *`, `float[4][4]`, `void (*)(int)`.
This module has the shape behind such a spelling and the ways back to text; `CType/Parse.lean`
reads one. No name is judged here: whether `sg_range` is a struct, an enum or nothing at all is the
classifier's question.

A named type has one canonical spelling, `NamedType.render`. Taking a named type apart
(`element?`, `pointee?`, `unqualified`) yields named types again, so a recursion over the parts of
a type may pass them on as spellings and lose nothing on the way.
-/

set_option autoImplicit false

namespace LuaGlue

/-- `[const] base [*…] [&] [dims…]` -/
structure NamedType where
  /-- The base name without qualifiers, its words one blank apart: `unsigned int`, `sg_range`. -/
  base : String
  /-- `const` on the base, that is on what the pointers point to. -/
  constBase : Bool := false
  pointers : Nat := 0
  /-- A C++ reference. -/
  reference : Bool := false
  /-- Array dimensions, outermost first; `none` for `[]` and for a bound that is no numeral. -/
  dims : List (Option Nat) := []
  deriving DecidableEq, Repr

/-- `result (*)(parameters)`; the parts stay spellings. -/
structure FunctionPointer where
  result : String
  params : List String
  variadic : Bool
  deriving DecidableEq, Repr

/-- What a spelling says. A spelling that cannot be taken apart is `malformed`, never an error. -/
inductive CType where
  | named (t : NamedType)
  | function (f : FunctionPointer)
  | malformed
  deriving DecidableEq, Repr

/-! ## Named types -/

/-- `[3]`, or `[]` for a dimension without a number. -/
def renderDim : Option Nat → String
  | some n => "[" ++ toString n ++ "]"
  | none => "[]"

namespace NamedType

/-- The spelling up to the dimensions: `const char*`. -/
def renderScalar (t : NamedType) : String :=
  (if t.constBase then "const " else "") ++ t.base ++ String.ofList (List.replicate t.pointers '*') ++
    (if t.reference then "&" else "")

/-- The dimensions: `[4][4]`. -/
def renderDims (t : NamedType) : String := String.join (t.dims.map renderDim)

/-- The canonical spelling: `const char*`, `float[4][4]`. -/
def render (t : NamedType) : String := t.renderScalar ++ t.renderDims

/-- The element type of an array: the outermost dimension is taken off. -/
def element? (t : NamedType) : Option NamedType :=
  match t.dims with
  | [] => none
  | _ :: inner => some { t with dims := inner }

/-- What a pointer that is no array points to. -/
def pointee? (t : NamedType) : Option NamedType :=
  match t.pointers, t.dims with
  | n + 1, [] => some { t with pointers := n }
  | _, _ => none

/-- The type of a writable local for such a value: no reference, and no `const` on the value
itself. The `const` of a pointer's target stays. -/
def unqualified (t : NamedType) : NamedType :=
  { t with
    constBase := t.constBase && t.pointers != 0
    reference := false }

end NamedType

/-! ## Function pointers -/

/-- The parameter list of a function pointer as C writes it; no parameters are `void`. -/
def FunctionPointer.renderParams (f : FunctionPointer) : String :=
  match f.params, f.variadic with
  | [], true => "..."
  | [], false => "void"
  | params, true => ", ".intercalate params ++ ", ..."
  | params, false => ", ".intercalate params

end LuaGlue
