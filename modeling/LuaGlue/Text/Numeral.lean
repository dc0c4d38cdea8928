/-!
# Reading numerals

Integers written in a base between 2 and 16, with an optional sign, at least one digit and a bound
on the value. There are no separators and no digits beyond ASCII. The bounds are those of machine
words, written out as numerals.
-/

set_option autoImplicit false

namespace LuaGlue.Text

/-- The value of an ASCII digit in bases up to 16. -/
def digit? (base : Nat) (c : Char) : Option Nat :=
  let value? : Option Nat :=
    if c.isDigit then some (c.toNat - 0x30)
    else if 'a' ≤ c && c ≤ 'f' then some (c.toNat - 0x61 + 10)
    else if 'A' ≤ c && c ≤ 'F' then some (c.toNat - 0x41 + 10)
    else none
  value?.filter (· < base)

/-- The value of a text of digits, the empty text being no number. -/
def digits? (base : Nat) : List Char → Option Nat
  | [] => none
  | cs => cs.foldlM (fun value c => (digit? base c).map (value * base + ·)) 0

/-- A natural number below `bound`; a plus sign may stand in front. -/
def natural? (bound : Nat) (cs : List Char) : Option Nat :=
  (digits? 10 (match cs with | '+' :: rest => rest | _ => cs)).filter (· < bound)

/-! ## Machine words -/

/-- One more than the greatest unsigned 64-bit word, in which C counts sizes. -/
def sizeBound : Nat := 0x10000000000000000

/-- One more than the greatest signed 64-bit word. -/
def wordBound : Int := 0x8000000000000000

/-- Whether an integer fits a signed 64-bit word. -/
def isWord (n : Int) : Bool := -wordBound ≤ n && n < wordBound

/-- One more than the greatest signed 128-bit word. -/
def wideBound : Int := 0x80000000000000000000000000000000

/-- Whether an integer fits a signed 128-bit word, in which enumerator values are computed. -/
def isWide (n : Int) : Bool := -wideBound ≤ n && n < wideBound

/-- An integer of 128 bits written in `base`, with an optional sign. -/
def wide? (base : Nat) (cs : List Char) : Option Int :=
  let value? : Option Int :=
    match cs with
    | '+' :: rest => (digits? base rest).map Int.ofNat
    | '-' :: rest => (digits? base rest).map fun n => -(n : Int)
    | _ => (digits? base cs).map Int.ofNat
  value?.filter isWide

end LuaGlue.Text
