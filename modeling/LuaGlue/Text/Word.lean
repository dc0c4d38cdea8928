import LuaGlue.Text.WordTable

/-!
# Letters and numbers

`isWordChar` is the class a declarator may be written with: a letter or a number of any script.
ASCII is decided by comparison and never reaches the table.
-/

set_option autoImplicit false

namespace LuaGlue.Text

/-- A letter or a number of any script. -/
def isWordChar (c : Char) : Bool :=
  if c.toNat < 0x80 then c.isAlphanum
  else wordIntervals.any fun (first, last) => first ≤ c.toNat && c.toNat ≤ last

end LuaGlue.Text
