/-!
# JSON values

A parsed document. Numbers keep one distinction only, the one an interface depends on: an integer
written without point and exponent that fits 64 bits, or any other number. The members of an
object stand in the order of their first mention and have distinct names; of two members with one
name the later value counts.

A *record* is an object with known members. It may also be written as an array that lists the
members' values in their fixed order, the last ones left out; `Json.record?` reads both forms.
-/

set_option autoImplicit false

namespace LuaGlue

inductive Json where
  | null
  | bool (b : Bool)
  /-- An integer within the range of signed or unsigned 64-bit words. -/
  | int (n : Int)
  /-- Any other number; nothing depends on which one it is. -/
  | fraction
  | str (s : String)
  | arr (items : List Json)
  | obj (members : List (String × Json))
  deriving Repr, Inhabited

namespace Json

/-- Members with one more; a later value of a name takes the place of the earlier one. -/
def insertMember (members : List (String × Json)) (name : String) (value : Json) :
    List (String × Json) :=
  if members.any (·.1 == name) then
    members.map fun m => if m.1 == name then (name, value) else m
  else members ++ [(name, value)]

/-- The members of a record by name, from an object or from an array in the order `order`. An array
with more items than the record has members is no record, nor is any other value. -/
def record? (order : List String) : Json → Option (String → Option Json)
  | obj members => some fun name => members.lookup name
  | arr items =>
    if items.length ≤ order.length then some fun name => (order.zip items).lookup name else none
  | _ => none

/-- A text. -/
def str? : Json → Option String
  | str s => some s
  | _ => none

/-- A text or `null`. -/
def strOrNull? : Json → Option (Option String)
  | null => some none
  | str s => some (some s)
  | _ => none

def bool? : Json → Option Bool
  | bool b => some b
  | _ => none

/-- An array whose items are all read by `item`. -/
def list? {α : Type} (item : Json → Option α) : Json → Option (List α)
  | arr items => items.mapM item
  | _ => none

/-- A member that must be there. -/
def need {α : Type} (read : Json → Option α) (value : Option Json) : Option α := value.bind read

/-- A member that stands for `default` when it is left out. -/
def orElse {α : Type} (default : α) (read : Json → Option α) (value : Option Json) : Option α :=
  match value with
  | none => some default
  | some j => read j

end Json

end LuaGlue
