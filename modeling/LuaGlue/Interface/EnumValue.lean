import LuaGlue.Interface
import LuaGlue.Text.Blank
import LuaGlue.Text.Cut
import LuaGlue.Text.Numeral

/-!
# Enumerator values

Headers spell an enumerator's value as a small expression: integer literals, names of earlier
members, `<<` and `|`. This module computes such expressions in 128-bit words and runs through the
members of an enum, where a member without a value continues from the one before it.

There is no grammar behind the expressions. A text is cut at every `|`, each term at its first
`<<`, and parentheses are taken off an operand from the outside as long as the operand begins and
ends with one.
-/

set_option autoImplicit false

namespace LuaGlue

open Text

/-! ## Words of 128 bits -/

/-- `a | b` on two's complement words. -/
def wideOr (a b : Int) : Int := (BitVec.ofInt 128 a ||| BitVec.ofInt 128 b).toInt

/-- `a << count`, for counts the word has bits for; bits that leave the word are lost. -/
def wideShift? (a count : Int) : Option Int :=
  if 0 ≤ count && count < 128 then some (BitVec.ofInt 128 a <<< count.toNat).toInt else none

/-- The successor, or the greatest word itself. -/
def wideSucc (n : Int) : Int := min (n + 1) (wideBound - 1)

/-! ## Expressions -/

/-- Members with their values; the newest entry of a name stands first and counts. -/
abbrev KnownItems := List (String × Int)

/-- Takes parentheses off the outside, at most `count` pairs of them. -/
def stripParensAtMost : Nat → List Char → List Char
  | 0, cs => cs
  | count + 1, cs =>
    match cs with
    | '(' :: rest =>
      match rest.getLast? with
      | some ')' => stripParensAtMost count (trim rest.dropLast)
      | _ => cs
    | _ => cs

/-- Takes parentheses off the outside while the text begins and ends with one. -/
def stripParens (cs : List Char) : List Char := stripParensAtMost cs.length cs

/-- The endings of a C integer literal that tell its type. -/
def isLiteralSuffix (c : Char) : Bool := c == 'u' || c == 'U' || c == 'l' || c == 'L'

/-- A C integer literal without its sign: `0x` and `0b` tell the base, as does a leading zero. -/
def literal? (cs : List Char) : Option Int :=
  match dropEndWhile isLiteralSuffix cs with
  | '0' :: 'x' :: hex | '0' :: 'X' :: hex => wide? 16 hex
  | '0' :: 'b' :: binary | '0' :: 'B' :: binary => wide? 2 binary
  | '0' :: c :: octal => wide? 8 (c :: octal)
  | decimal => wide? 10 decimal

/-- The value of an operand: an earlier member's name, or a literal with an optional minus sign. -/
def operand? (known : KnownItems) (cs : List Char) : Option Int :=
  match known.lookup (String.ofList cs) with
  | some value => some value
  | none =>
    match cs with
    | '-' :: rest => ((literal? (trim rest)).map (- ·)).filter isWide
    | _ => literal? cs

/-- The value of a term: an operand, or one operand shifted by another. -/
def term? (known : KnownItems) (cs : List Char) : Option Int :=
  let term := stripParens (trim cs)
  match cutAt? ['<', '<'] term with
  | some (left, right) => do
    let value ← operand? known (stripParens (trim left))
    let count ← operand? known (stripParens (trim right))
    wideShift? value count
  | none => operand? known term

/-- The value of an expression: its terms joined by `|`. -/
def expression? (known : KnownItems) (text : String) : Option Int := do
  match ← (splitAtChar '|' text.toList).mapM (term? known) with
  | [] => none
  | first :: rest => some (rest.foldl wideOr first)

/-! ## Members of an enum -/

/-- How a declaration gives an enumerator's value. -/
inductive ItemValue where
  | number (n : Int)
  | text (s : String)
  deriving DecidableEq, Repr

/-- An enumerator as declared. -/
structure ItemSpelling where
  name : String
  value : Option ItemValue
  deriving DecidableEq, Repr

/-- An enumerator whose value cannot be computed. -/
structure ItemFault where
  item : String
  value : String
  deriving DecidableEq, Repr

/-- The value of one enumerator; `next` is the value it has when it gives none itself. -/
def ItemSpelling.resolve (known : KnownItems) (next : Int) (item : ItemSpelling) :
    Except ItemFault Int :=
  match item.value with
  | none => .ok next
  | some (.number n) => .ok n
  | some (.text s) =>
    match expression? known s with
    | some value => .ok value
    | none => .error ⟨item.name, s⟩

/-- The values of enumerators in order. -/
def resolveFrom (known : KnownItems) (next : Int) : List ItemSpelling → Except ItemFault (List EnumItem)
  | [] => .ok []
  | item :: rest => do
    let value ← item.resolve known next
    let items ← resolveFrom ((item.name, value) :: known) (wideSucc value) rest
    pure (⟨item.name, value⟩ :: items)

def resolveItems (items : List ItemSpelling) : Except ItemFault (List EnumItem) :=
  resolveFrom [] 0 items

end LuaGlue
