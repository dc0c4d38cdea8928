import LuaGlue.Context

/-!
# Telling overloads apart

Functions that share a script name get a suffix, made from the categories of their parameters:

    Button(const char*)          → button_str
    Button(const char*, ImVec2)  → button_str_vec2
    NewLine()                    → new_line_void

Categories, not spellings: `const` and a typedef change nothing. Two overloads with one suffix, and
a name that an earlier function has already, are faults of the functions concerned; nothing is
ever overwritten.
-/

set_option autoImplicit false

namespace LuaGlue

/-- The names of one wrapper: in C, and before reserved words are considered in scripts. -/
structure FunctionNames where
  cName : String
  scriptName : String
  deriving DecidableEq, Repr

/-! ## Suffixes -/

/-- `int`, `uint8`: 32 bits go without saying. -/
def IntegerKind.token (k : IntegerKind) : String :=
  (if k.signed then "int" else "uint") ++ (if k.bits == 32 then "" else toString k.bits)

/-- A type's script name in snake case. -/
def typeToken (n : Naming) (native : String) : String := snakeCase (n.typeName native)

/-- The word for a category in a suffix. -/
def categoryToken (n : Naming) : Category → String
  | .void => "void"
  | .bool => "bool"
  | .integer k => k.token
  | .float .single => "float"
  | .float .double => "double"
  | .cstring => "str"
  | .structValue name _ | .enum name => typeToken n name
  | .structPointer name _ _ => "p" ++ typeToken n name
  | .pointer pointee _ => "p" ++ categoryToken n pointee
  | .handle _ => "ptr"
  | .fixedArray elem size => categoryToken n elem ++ toString size
  | .callback .. => "fn"
  | .unknown => "any"

/-- The words of parameters of some categories, an underscore before each. -/
def suffixOf (n : Naming) (categories : List Category) : String :=
  match categories with
  | [] => "_void"
  | _ => String.join (categories.map fun c => "_" ++ categoryToken n c)

/-- The suffix of one overload. -/
def overloadSuffix (ctx : Context) (f : FunctionDecl) : Classifying String := do
  return suffixOf ctx.naming (← f.params.mapM fun p => ctx.classify p.type)

/-! ## The plan -/

/-- A function with its position among the declarations. -/
structure Candidate where
  position : Nat
  function : FunctionDecl

/-- The names of one function by itself: with a suffix if it is not alone in `group`, which has the
functions of the script name `base`. -/
def Candidate.ownNames (ctx : Context) (base : String) (group : List Candidate) (c : Candidate) :
    Classifying (Except Fault FunctionNames) := do
  if group.length > 1 then do
    let suffix ← overloadSuffix ctx c.function
    let others := group.filter fun other => other.position != c.position
    if ← others.anyM fun other => do return (← overloadSuffix ctx other.function) == suffix then
      return .error (.overloadCollision base suffix)
    else return .ok ⟨"l_" ++ c.function.name ++ suffix, base ++ suffix⟩
  else return .ok ⟨"l_" ++ c.function.name, base⟩

/-- Names by position. -/
structure OverloadPlan where
  entries : List (Nat × Except Fault FunctionNames) := []

/-- The names of the declaration at a position, if it was planned for. -/
def OverloadPlan.names? (plan : OverloadPlan) (position : Nat) : Option (Except Fault FunctionNames) :=
  plan.entries.lookup position

/-- Gives out names in order. `all` has every function with its script name before suffixes, and
`taken` the names given out so far, each with its function. -/
def planFrom (ctx : Context) (all : List (String × Candidate)) (taken : List (String × String)) :
    List (String × Candidate) → Classifying (List (Nat × Except Fault FunctionNames))
  | [] => pure []
  | (base, c) :: rest => do
    let group := (all.filter fun other => other.1 == base).map (·.2)
    match ← c.ownNames ctx base group with
    | .error fault => return (c.position, .error fault) :: (← planFrom ctx all taken rest)
    | .ok names =>
      match taken.lookup names.scriptName with
      | some first =>
        return (c.position, .error (.duplicateName names.scriptName first)) ::
          (← planFrom ctx all taken rest)
      | none =>
        return (c.position, .ok names) ::
          (← planFrom ctx all ((names.scriptName, c.function.name) :: taken) rest)

/-- Names for functions that are given in the order of the interface. -/
def OverloadPlan.build (ctx : Context) (functions : List Candidate) : Classifying OverloadPlan := do
  let all := functions.map fun c => (ctx.naming.functionName c.function.name, c)
  return ⟨← planFrom ctx all [] all⟩

end LuaGlue
