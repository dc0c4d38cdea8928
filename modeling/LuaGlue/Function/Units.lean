import LuaGlue.Context

/-!
# Parameters as script arguments

A function's parameters are grouped into *units*. A unit takes one argument of the script and
supplies one native argument or, for an array with its count, two. The groups are consecutive and
in order, so together they are the parameter list (`ParamUnit.params`).
-/

set_option autoImplicit false

namespace LuaGlue

inductive ParamUnit where
  | single (param : Param) (category : Category) (output : Bool)
  /-- A pointer to constants and the number of its elements; the script passes one table. -/
  | arrayCount (array count : Param) (elem : String)
  /-- An array of a fixed number of elements; one the callee may write is handed back. -/
  | fixedArray (param : Param) (elem : String) (size : Nat) (writable : Bool)

namespace ParamUnit

/-- The parameter the script's argument is named after. -/
def param : ParamUnit → Param
  | single p _ _ | fixedArray p _ _ _ => p
  | arrayCount array _ _ => array

/-- The native parameters the unit supplies, in order. -/
def params : ParamUnit → List Param
  | single p _ _ | fixedArray p _ _ _ => [p]
  | arrayCount array count _ => [array, count]

/-- Whether the unit's value is pushed after the return value. -/
def isOutput : ParamUnit → Bool
  | single _ _ output => output
  | fixedArray _ _ _ writable => writable
  | arrayCount .. => false

end ParamUnit

/-- A pointer to constants that may be an array. -/
def Category.isArrayPointer : Category → Bool
  | .pointer _ isConst | .structPointer _ _ isConst => isConst
  | _ => false

/-- The unit of a parameter that the manifest says is an array. -/
def configuredArray? (ctx : Context) (function : String) (p : Param) : Option ParamUnit := do
  let size ← ctx.manifest.arrayParamSize? function p.name
  let elem ← pointeeType? p.type
  some (.fixedArray p elem size (!hasConstBase p.type))

/-- The unit of a parameter that is declared as an array. -/
def declaredArray? (p : Param) (category : Category) : Option ParamUnit :=
  match category with
  | .fixedArray _ size =>
    (elementType? p.type).map fun elem => .fixedArray p elem size (!hasConstBase p.type)
  | _ => none

/-- The element type of a pointer whose next parameter counts its elements. -/
def countedElem? (ctx : Context) (p : Param) (category : Category) (next : Option Param) :
    Classifying (Option String) :=
  match next with
  | none => pure none
  | some count =>
    if category.isArrayPointer && ctx.manifest.isCountName count.name then do
      if (← ctx.classify count.type).isInteger then pure (pointeeType? p.type) else pure none
    else pure none

/-- The units of a function's parameters. -/
def pairParams (ctx : Context) (function : String) : List Param → Classifying (List ParamUnit)
  | [] => pure []
  | p :: rest => do
    let category ← ctx.classify p.type
    let single : ParamUnit := .single p category (category.isOutputWhen p.markedOut)
    match (configuredArray? ctx function p).or (declaredArray? p category) with
    | some array => return array :: (← pairParams ctx function rest)
    | none =>
      match ← countedElem? ctx p category rest.head? with
      | none => return single :: (← pairParams ctx function rest)
      | some elem =>
        match rest with
        | [] => return [single]
        | count :: rest' =>
          return .arrayCount p count elem :: (← pairParams ctx function rest')

end LuaGlue
