/-!
# Numbers too great for a double

Neither an interface nor a manifest has a use for a number that is no integer, but a document may
hold one where nothing looks, and is refused all the same if the number overflows. No double is
computed with here: all that matters is whether rounding comes to infinity.

There are two ways to round. `isFinite` rounds the decimal number as written, once.
`isFiniteProduct` rounds the significand and the power of ten by themselves and then their product,
which near the greatest double gives another answer.
-/

set_option autoImplicit false

namespace LuaGlue.Text

/-- The first value that rounds to infinity: half a unit above the greatest double. -/
def infinityBound : Nat := Nat.pow 2 1024 - Nat.pow 2 970

/-- Whether `significand · 10 ^ exponent` rounds to a finite double. Only a value of about the right
number of digits is computed. -/
def isFinite (significand : Nat) (exponent : Int) : Bool :=
  let size : Int := (toString significand).length + exponent
  if significand == 0 || size < 300 then true
  else if size > 320 then false
  else
    match exponent with
    | .ofNat e => significand * Nat.pow 10 e < infinityBound
    | .negSucc e => significand < infinityBound * Nat.pow 10 (e + 1)

/-- The nearest number of 53 binary digits, of two equally near ones the even one; the range of
exponents is not bounded. -/
def roundDouble (n : Nat) : Nat :=
  let unit := Nat.pow 2 (n.log2 - 52)
  let down := n / unit
  let rest := n % unit
  if 2 * rest < unit || (2 * rest == unit && down % 2 == 0) then down * unit
  else (down + 1) * unit

/-- The greatest power of ten below the greatest double. -/
def maxTens : Nat := 308

/-- Whether the double nearest to `significand` times the double nearest to `10 ^ exponent` is finite.
No double is near a power of ten beyond the greatest one. -/
def isFiniteProduct (significand : Nat) (exponent : Int) : Bool :=
  match exponent with
  | .ofNat e =>
    significand == 0 ||
      (e ≤ maxTens && roundDouble significand * roundDouble (Nat.pow 10 e) < infinityBound)
  | .negSucc _ => true

end LuaGlue.Text
