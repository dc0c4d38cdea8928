/-!
# Categories: how a value crosses the boundary

Every spelling falls into exactly one category, and everything the generator writes for a value is
decided by its category. `unknown` is a category like the others: it gets a marked gap in the
output, never a failure.

`Category.describe` is the one-line notation people read on the command line; `isScalar`,
`isOutput` and `structName?` are the questions the generator asks most.
-/

set_option autoImplicit false

namespace LuaGlue

/-- Width in bits and signedness. Typedefs for the same width and signedness share a category. -/
structure IntegerKind where
  bits : Nat
  signed : Bool
  deriving DecidableEq, Repr

inductive FloatKind where
  | single
  | double
  deriving DecidableEq, Repr

/-- How a struct's values look to a script. -/
inductive Shape where
  /-- A full userdata with a named metatable. -/
  | userdata
  /-- A userdata that may also be given as a byte string. -/
  | byteRange
  /-- A sequence of its members, such as `{x, y}`. -/
  | tuple
  deriving DecidableEq, Repr

/-- How a value crosses the boundary. -/
inductive Category where
  | void
  | bool
  | integer (kind : IntegerKind)
  | float (kind : FloatKind)
  /-- Text that ends with a NUL. -/
  | cstring
  | structValue (name : String) (shape : Shape)
  | structPointer (name : String) (shape : Shape) (isConst : Bool)
  | enum (name : String)
  /-- `void*`, or a pointer to a type nobody declares. -/
  | handle (isConst : Bool)
  /-- A pointer to a scalar; one without `const` is written by the callee. -/
  | pointer (pointee : Category) (isConst : Bool)
  | fixedArray (elem : Category) (size : Nat)
  | callback (result : Category) (params : List Category) (variadic : Bool)
  | unknown
  deriving Repr, Inhabited

namespace Category

/-- Boolean, integer, float or enum. -/
def isScalar : Category → Bool
  | bool | integer _ | float _ | enum _ => true
  | _ => false

def isVoid : Category → Bool
  | void => true
  | _ => false

def isUnknown : Category → Bool
  | unknown => true
  | _ => false

def isInteger : Category → Bool
  | integer _ => true
  | _ => false

def isCallback : Category → Bool
  | callback .. => true
  | _ => false

/-- A callback with a fixed number of parameters. -/
def isBindable : Category → Bool
  | callback _ _ variadic => !variadic
  | _ => false

/-- Whether a parameter of this category is written by the callee and handed back to the script as
an extra result. A userdata behind a mutable pointer is written in place instead. -/
def isOutput : Category → Bool
  | pointer pointee isConst => !isConst && pointee.isScalar
  | structPointer _ shape isConst => !isConst && shape == .tuple
  | _ => false

/-- Whether a parameter of this category is an output once its declaration marks it as one. -/
def isMarkedOutput : Category → Bool
  | structPointer _ _ isConst => !isConst
  | c => c.isOutput

/-- The struct a struct value or a struct pointer is about. -/
def structName? : Category → Option String
  | structValue name _ | structPointer name _ _ => some name
  | _ => none

end Category

/-! ## The one-line notation -/

/-- `i32`, `u8`. -/
def IntegerKind.describe (k : IntegerKind) : String :=
  (if k.signed then "i" else "u") ++ toString k.bits

def FloatKind.describe : FloatKind → String
  | .single => "f32"
  | .double => "f64"

def Shape.word : Shape → String
  | .userdata => "struct"
  | .byteRange => "bytes"
  | .tuple => "tuple"

/-- The two sorts of pointer in the notation. -/
def constWord (isConst : Bool) : String := if isConst then "*const" else "*mut"

/-- The end of a parameter list in the notation: what follows the parameters. -/
def variadicMark (params : List Category) (variadic : Bool) : String :=
  if !variadic then "" else if params.isEmpty then "..." else ", ..."

mutual

/-- The one-line notation of a category: `*const struct sg_desc`, `[f32; 4]`,
`fn(i32, ...) -> void`. -/
def Category.describe : Category → String
  | .void => "void"
  | .bool => "bool"
  | .integer k => k.describe
  | .float k => k.describe
  | .cstring => "cstring"
  | .structValue name shape => shape.word ++ " " ++ name
  | .structPointer name shape isConst => constWord isConst ++ " " ++ shape.word ++ " " ++ name
  | .enum name => "enum " ++ name
  | .handle isConst => constWord isConst ++ " void"
  | .pointer pointee isConst => constWord isConst ++ " " ++ pointee.describe
  | .fixedArray elem size => "[" ++ elem.describe ++ "; " ++ toString size ++ "]"
  | .callback result params variadic =>
    "fn(" ++ describeParams params ++ variadicMark params variadic ++ ") -> " ++ result.describe
  | .unknown => "unknown"

/-- Parameters, a comma between them. -/
def describeParams : List Category → String
  | [] => ""
  | [p] => p.describe
  | p :: rest => p.describe ++ ", " ++ describeParams rest

end

end LuaGlue
