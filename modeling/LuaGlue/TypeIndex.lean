import LuaGlue.Category
import LuaGlue.Manifest

/-!
# The names types are made of

The table in which the classifier looks up base names: which of them are structs, with which
shape, which are enums, which stand for other spellings. It is built once per interface and
manifest.
-/

set_option autoImplicit false

namespace LuaGlue

/-- The struct, enum and alias names one run knows. -/
structure TypeIndex where
  structs : List String := []
  enums : List String := []
  tuples : List String := []
  byteRanges : List String := []
  /-- A typedef's name and what it stands for; the first entry of a name counts. -/
  aliases : List (String × String) := []
  integerStems : List String := []
  deriving DecidableEq, Repr

namespace TypeIndex

/-- All structs and enums of the interface and of its dependencies, and what the manifest adds. -/
def build (i : Interface) (m : Manifest) : TypeIndex where
  structs := i.structs.map (·.name) ++
    (i.dependencies.filterMap fun | .struct name => some name | .enum _ => none) ++
    m.types.basicStructs
  enums := i.enums.map (·.name) ++
    (i.dependencies.filterMap fun | .enum name => some name | .struct _ => none) ++
    m.types.basicEnums
  tuples := m.types.tuples.map (·.1)
  byteRanges := m.types.byteRanges.map (·.1)
  aliases := m.types.aliases
  integerStems := m.types.integerStems

/-- The shape of a struct; a tuple or a byte range need not be declared anywhere. -/
def shape? (t : TypeIndex) (name : String) : Option Shape :=
  if t.tuples.contains name then some .tuple
  else if t.byteRanges.contains name then some .byteRange
  else if t.structs.contains name then some .userdata
  else none

/-- What an alias stands for. -/
def alias? (t : TypeIndex) (name : String) : Option String := t.aliases.lookup name

/-- Whether a name is that of an integer typedef. -/
def isIntegerName (t : TypeIndex) (name : String) : Bool :=
  t.integerStems.any fun stem => stem.toList.isPrefixOf name.toList

end TypeIndex

end LuaGlue
