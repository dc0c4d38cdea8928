import LuaGlue.Json
import LuaGlue.Text.Double
import LuaGlue.Text.Numeral

/-!
# Reading JSON

A strict reader of RFC 8259: no byte-order mark, no comments, no trailing commas, nothing after the
value, no raw control characters in texts, no lone surrogates, no leading zeros. Arrays and objects
may nest up to a given depth, and a number too large for a double is refused.

`value?` recurses on the depth that is left. Within one array or object the loop over the items
is bounded by the length of the document, since every item takes at least one character.
-/

set_option autoImplicit false

namespace LuaGlue.Json

open Text

/-- The four characters of white space JSON knows. -/
def isSpace (c : Char) : Bool := c == ' ' || c == '\t' || c == '\n' || c == '\r'

def skipSpace (cs : List Char) : List Char := cs.dropWhile isSpace

/-! ## Texts -/

/-- The value of four hexadecimal digits. -/
def hex4? (a b c d : Char) : Option Nat := digits? 16 [a, b, c, d]

/-- The character of a one-letter escape. -/
def escaped? (c : Char) : Option Char :=
  match c with
  | '\x22' | '\\' | '/' => some c
  | 'b' => some '\x08'
  | 'f' => some '\x0c'
  | 'n' => some '\n'
  | 'r' => some '\r'
  | 't' => some '\t'
  | _ => none

/-- The character two surrogates stand for. -/
def ofSurrogates (high low : Nat) : Char :=
  Char.ofNat (0x10000 + (high - 0xD800) * 0x400 + (low - 0xDC00))

/-- The inside of a text up to its closing quote, escapes resolved, and what follows the quote. -/
def textBody? : List Char → Option (List Char × List Char)
  | [] => none
  | '\x22' :: rest => some ([], rest)
  | '\\' :: 'u' :: a :: b :: c :: d :: rest => do
    let unit ← hex4? a b c d
    if 0xDC00 ≤ unit && unit ≤ 0xDFFF then none
    else if 0xD800 ≤ unit && unit ≤ 0xDBFF then
      match rest with
      | '\\' :: 'u' :: e :: f :: g :: h :: rest' => do
        let low ← hex4? e f g h
        if 0xDC00 ≤ low && low ≤ 0xDFFF then
          (textBody? rest').map fun (body, after) => (ofSurrogates unit low :: body, after)
        else none
      | _ => none
    else (textBody? rest).map fun (body, after) => (Char.ofNat unit :: body, after)
  | '\\' :: c :: rest => do
    let e ← escaped? c
    (textBody? rest).map fun (body, after) => (e :: body, after)
  | c :: rest =>
    if c.toNat < 0x20 then none else (textBody? rest).map fun (body, after) => (c :: body, after)

/-- A text whose opening quote is read. -/
def text? (cs : List Char) : Option (String × List Char) :=
  (textBody? cs).map fun (body, rest) => (String.ofList body, rest)

/-! ## Numbers -/

/-- Appends digits to a significand as long as it fits a word, and yields the digits left over. -/
def appendDigits (significand : Nat) : List Char → Nat × List Char
  | [] => (significand, [])
  | c :: rest =>
    let longer := significand * 10 + (c.toNat - 0x30)
    if longer < sizeBound then appendDigits longer rest else (significand, c :: rest)

/-- A number as it is rounded: a significand that fits a word, and a power of ten. Digits before the
point that do not fit count for the power, digits after it for nothing. -/
def scaled (whole decimals : List Char) (exponent : Int) : Nat × Int :=
  let (head, beyond) := appendDigits 0 whole
  let (significand, rest) := appendDigits head decimals
  (significand, exponent + beyond.length - (decimals.length - rest.length : Nat))

/-- The digits after a point, if there is a point; then at least one digit follows it. -/
def fractionPart? : List Char → Option (List Char × List Char)
  | '.' :: rest =>
    let digits := rest.takeWhile Char.isDigit
    if digits.isEmpty then none else some (digits, rest.dropWhile Char.isDigit)
  | cs => some ([], cs)

/-- The exponent, if there is one. -/
def exponentPart? (cs : List Char) : Option (Option Int × List Char) :=
  match cs with
  | [] => some (none, cs)
  | c :: rest =>
    if c == 'e' || c == 'E' then
      let (negative, rest) :=
        match rest with
        | '+' :: r => (false, r)
        | '-' :: r => (true, r)
        | _ => (false, rest)
      (digits? 10 (rest.takeWhile Char.isDigit)).map fun n =>
        (some (if negative then -(n : Int) else n), rest.dropWhile Char.isDigit)
    else some (none, cs)

/-- An unsigned number; `negative` says that a minus sign was read before it. -/
def unsigned? (negative : Bool) (cs : List Char) : Option (Json × List Char) := do
  let whole := cs.takeWhile Char.isDigit
  let n ← digits? 10 whole
  if whole.length > 1 && whole.head? == some '0' then none
  let (decimals, cs') ← fractionPart? (cs.dropWhile Char.isDigit)
  let (exponent, rest) ← exponentPart? cs'
  let integral := decimals.isEmpty && exponent.isNone
  if integral && !negative && n < sizeBound then some (.int n, rest)
  else if integral && negative && 0 < n && n ≤ wordBound then some (.int (-(n : Int)), rest)
  else
    let (significand, power) := scaled whole decimals (exponent.getD 0)
    if isFiniteProduct significand power then some (.fraction, rest) else none

def number? : List Char → Option (Json × List Char)
  | '-' :: rest => unsigned? true rest
  | cs => unsigned? false cs

/-! ## Values -/

/-- The items of an array or the members of an object, up to the closing mark, and what follows it;
the opening mark is read. `more` says that a comma was just read, so that an item must follow. -/
def items? {α : Type} (item : List Char → Option (α × List Char)) (close : Char) :
    Nat → Bool → List Char → Option (List α × List Char)
  | 0, _, _ => none
  | fuel + 1, more, cs =>
    match skipSpace cs with
    | [] => none
    | c :: rest =>
      if c == close && !more then some ([], rest)
      else do
        let (x, after) ← item (c :: rest)
        match skipSpace after with
        | d :: rest' =>
          if d == close then some ([x], rest')
          else if d == ',' then do
            let (xs, end') ← items? item close fuel true rest'
            some (x :: xs, end')
          else none
        | [] => none

/-- A member of an object: a name, a colon and a value. -/
def member? (value : List Char → Option (Json × List Char)) :
    List Char → Option ((String × Json) × List Char)
  | '\x22' :: rest => do
    let (name, after) ← text? rest
    match skipSpace after with
    | ':' :: rest' => do
      let (v, end') ← value rest'
      some ((name, v), end')
    | _ => none
  | _ => none

/-- A value with at most `depth` arrays and objects around one another, and with fewer than `size`
items in each of them. -/
def value? (size depth : Nat) (cs : List Char) : Option (Json × List Char) :=
  match skipSpace cs with
  | 'n' :: 'u' :: 'l' :: 'l' :: rest => some (.null, rest)
  | 't' :: 'r' :: 'u' :: 'e' :: rest => some (.bool true, rest)
  | 'f' :: 'a' :: 'l' :: 's' :: 'e' :: rest => some (.bool false, rest)
  | '\x22' :: rest => (text? rest).map fun (s, after) => (.str s, after)
  | '[' :: rest =>
    match depth with
    | 0 => none
    | d + 1 => (items? (value? size d) ']' size false rest).map fun (xs, after) =>
      (.arr xs, after)
  | '\x7b' :: rest =>
    match depth with
    | 0 => none
    | d + 1 =>
      (items? (member? (value? size d)) '\x7d' size false rest).map fun (ms, after) =>
        (.obj (ms.foldl (fun members (name, v) => insertMember members name v) []), after)
  | cs' => number? cs'

/-- How deep a document may nest. -/
def maxDepth : Nat := 127

/-- Reads a text that is one JSON value with at most `depth` levels. No array has more items than the
text has characters. -/
def parse? (depth : Nat) (text : String) : Option Json :=
  let cs := text.toList
  match value? (cs.length + 1) depth cs with
  | some (j, rest) => if (skipSpace rest).isEmpty then some j else none
  | none => none

end LuaGlue.Json
