import LuaGlue.Text.Double
import LuaGlue.Text.Numeral
import LuaGlue.Toml
import LuaGlue.Toml.Moment

/-!
# Reading TOML

A reader of TOML 1.0. A document is read in one pass from left to right into lines and sections, from
which `Toml.build?` makes the table.

Line ends are LF or CR LF; a CR on its own is refused. Inside a text in triple quotes both line
ends mean LF. As in the reader of JSON, values recurse on the depth that is left, and the loops
inside one value or one document are bounded by the length of the document.
-/

set_option autoImplicit false

namespace LuaGlue.Toml

open Text

/-! ## Space, line ends, comments -/

def isSpace (c : Char) : Bool := c == ' ' || c == '\t'

def skipSpace (cs : List Char) : List Char := cs.dropWhile isSpace

/-- A character that may stand in a comment: no control character but the tab. -/
def isPlain (c : Char) : Bool := c == '\t' || (0x20 ≤ c.toNat && c.toNat != 0x7F)

/-- What follows a line end. -/
def newline? : List Char → Option (List Char)
  | '\n' :: rest => some rest
  | '\r' :: '\n' :: rest => some rest
  | _ => none

/-- What follows a line end or the end of the document. -/
def lineEnd? : List Char → Option (List Char)
  | [] => some []
  | cs => newline? cs

/-- What follows a comment, if one begins here. -/
def skipComment : List Char → List Char
  | '#' :: rest => rest.dropWhile isPlain
  | cs => cs

/-- The rest of a line after a statement: space, perhaps a comment, the line end. -/
def finishLine? (cs : List Char) : Option (List Char) := lineEnd? (skipComment (skipSpace cs))

/-- Skips space, line ends and comments between the items of an array. Such a comment must be
ended by a line end. -/
def skipLines? : Nat → List Char → Option (List Char)
  | 0, _ => none
  | fuel + 1, cs =>
    match skipSpace cs with
    | '#' :: rest => do skipLines? fuel (← newline? (rest.dropWhile isPlain))
    | '\n' :: rest => skipLines? fuel rest
    | '\r' :: rest => do skipLines? fuel (← newline? ('\r' :: rest))
    | rest => some rest

/-! ## Texts -/

/-- The character of an escape, the backslash read, and what follows it. -/
def escape? : List Char → Option (Char × List Char)
  | 'b' :: rest => some ('\x08', rest)
  | 't' :: rest => some ('\t', rest)
  | 'n' :: rest => some ('\n', rest)
  | 'f' :: rest => some ('\x0c', rest)
  | 'r' :: rest => some ('\r', rest)
  | '\x22' :: rest => some ('\x22', rest)
  | '\\' :: rest => some ('\\', rest)
  | 'u' :: a :: b :: c :: d :: rest => do
    let n ← digits? 16 [a, b, c, d]
    if n.isValidChar then some (Char.ofNat n, rest) else none
  | 'U' :: a :: b :: c :: d :: e :: f :: g :: h :: rest => do
    let n ← digits? 16 [a, b, c, d, e, f, g, h]
    if n.isValidChar then some (Char.ofNat n, rest) else none
  | _ => none

/-- The inside of a text in double quotes, and what follows the closing quote. -/
def basicBody? : Nat → List Char → Option (List Char × List Char)
  | 0, _ => none
  | fuel + 1, cs =>
    match cs with
    | '\x22' :: rest => some ([], rest)
    | '\\' :: rest => do
      let (c, after) ← escape? rest
      (basicBody? fuel after).map fun (body, end') => (c :: body, end')
    | c :: rest =>
      if isPlain c then (basicBody? fuel rest).map fun (body, end') => (c :: body, end') else none
    | [] => none

/-- The inside of a text in single quotes, and what follows the closing quote. -/
def literalBody? : List Char → Option (List Char × List Char)
  | '\x27' :: rest => some ([], rest)
  | c :: rest =>
    if isPlain c then (literalBody? rest).map fun (body, end') => (c :: body, end') else none
  | [] => none

/-- The end of a text in triple quotes at a run of quotes: with three to five of them the text ends,
the first ones belonging to it; with fewer it goes on. The answer has the quotes that belong to
the text, what follows, and whether the text ends. -/
def closingRun? (quote : Char) (cs : List Char) : Option (List Char × List Char × Bool) :=
  let run := cs.takeWhile (· == quote)
  if run.length < 3 then some (run, cs.drop run.length, false)
  else if run.length ≤ 5 then some (run.drop 3, cs.drop run.length, true)
  else none

/-- The inside of a text in triple quotes, and what follows the closing quotes. `escapes` tells
double quotes from single ones. -/
def blockBody? (quote : Char) (escapes : Bool) : Nat → List Char → Option (List Char × List Char)
  | 0, _ => none
  | fuel + 1, cs =>
    match cs with
    | [] => none
    | '\r' :: rest => do
      let rest' ← newline? ('\r' :: rest)
      (blockBody? quote escapes fuel rest').map fun (body, end') => ('\n' :: body, end')
    | '\n' :: rest => (blockBody? quote escapes fuel rest).map fun (body, end') => ('\n' :: body, end')
    | c :: rest =>
      if c == quote then do
        let (quotes, after, ends) ← closingRun? quote (c :: rest)
        if ends then some (quotes, after)
        else (blockBody? quote escapes fuel after).map fun (body, end') => (quotes ++ body, end')
      else if c == '\\' && escapes then
        match newline? (skipSpace rest) with
        | some below => blockBody? quote escapes fuel (skipBlankLines fuel below)
        | none => do
          let (e, after) ← escape? rest
          (blockBody? quote escapes fuel after).map fun (body, end') => (e :: body, end')
      else if isPlain c then
        (blockBody? quote escapes fuel rest).map fun (body, end') => (c :: body, end')
      else none
where
  /-- Space and line ends after a folded line end. -/
  skipBlankLines : Nat → List Char → List Char
    | 0, cs => cs
    | fuel + 1, cs =>
      match newline? (skipSpace cs) with
      | some below => skipBlankLines fuel below
      | none => skipSpace cs

/-- What follows a line end right after opening triple quotes, which does not belong to the text. -/
def skipFirstNewline (cs : List Char) : List Char := (newline? cs).getD cs

/-- A text in any of the four forms, if one begins here. -/
def text? (size : Nat) : List Char → Option (String × List Char)
  | '\x22' :: '\x22' :: '\x22' :: rest => done (blockBody? '\x22' true size (skipFirstNewline rest))
  | '\x22' :: rest => done (basicBody? size rest)
  | '\x27' :: '\x27' :: '\x27' :: rest => done (blockBody? '\x27' false size (skipFirstNewline rest))
  | '\x27' :: rest => done (literalBody? rest)
  | _ => none
where
  done (read : Option (List Char × List Char)) : Option (String × List Char) :=
    read.map fun (body, rest) => (String.ofList body, rest)

/-! ## Keys -/

/-- A character a key may be written with without quotes. -/
def isBareChar (c : Char) : Bool := c.isAlphanum || c == '_' || c == '-'

/-- One part of a key. -/
def simpleKey? (size : Nat) (cs : List Char) : Option (String × List Char) :=
  match cs with
  | '\x22' :: rest => (basicBody? size rest).map fun (body, after) => (String.ofList body, after)
  | '\x27' :: rest => (literalBody? rest).map fun (body, after) => (String.ofList body, after)
  | _ =>
    let bare := cs.takeWhile isBareChar
    if bare.isEmpty then none else some (String.ofList bare, cs.dropWhile isBareChar)

/-- How deep values may nest, and how many parts a key may have. -/
def maxDepth : Nat := 79

/-- A key of at most so many parts, with points between them and space around each. -/
def keyWithin? (size : Nat) : Nat → List Char → Option (List String × List Char)
  | 0, _ => none
  | parts + 1, cs => do
    let (part, after) ← simpleKey? size (skipSpace cs)
    match skipSpace after with
    | '.' :: rest => (keyWithin? size parts rest).map fun (ps, end') => (part :: ps, end')
    | rest => some ([part], rest)

def key? (size : Nat) (cs : List Char) : Option (List String × List Char) :=
  keyWithin? size maxDepth cs

/-! ## Numbers -/

/-- Digits with single underscores between them; the digits alone. -/
def underscored? (isDigit : Char → Bool) : List Char → Option (List Char × List Char)
  | [] => none
  | c :: rest =>
    if isDigit c then
      match rest with
      | '_' :: rest' => (underscored? isDigit rest').map fun (ds, end') => (c :: ds, end')
      | d :: rest' =>
        if isDigit d then (underscored? isDigit (d :: rest')).map fun (ds, end') => (c :: ds, end')
        else some ([c], rest)
      | [] => some ([c], [])
    else none

/-- An integer in a base that a mark tells. -/
def based? (base : Nat) (cs : List Char) : Option (Toml × List Char) := do
  let (ds, rest) ← underscored? (fun c => (digit? base c).isSome) cs
  let n ← digits? base ds
  if isWord n then some (.int n, rest) else none

/-- A decimal integer; a zero stands alone. -/
def decimal? (negative : Bool) : List Char → Option (Toml × List Char)
  | '0' :: rest => some (.int 0, rest)
  | cs => do
    let (ds, rest) ← underscored? Char.isDigit cs
    let n ← digits? 10 ds
    let signed : Int := if negative then -(n : Int) else n
    if isWord signed then some (.int signed, rest) else none

/-- An integer. -/
def int? : List Char → Option (Toml × List Char)
  | '0' :: 'x' :: rest => based? 16 rest
  | '0' :: 'o' :: rest => based? 8 rest
  | '0' :: 'b' :: rest => based? 2 rest
  | '+' :: rest => decimal? false rest
  | '-' :: rest => decimal? true rest
  | cs => decimal? false cs

/-- The digits before the point of a float; a zero stands alone. -/
def wholePart? : List Char → Option (List Char × List Char)
  | '0' :: rest => some (['0'], rest)
  | cs => underscored? Char.isDigit cs

/-- The digits after the point of a float, if there is a point; then at least one digit follows. -/
def fractionPart? : List Char → Option (List Char × List Char)
  | '.' :: rest => underscored? Char.isDigit rest
  | cs => some ([], cs)

/-- The exponent of a float, if there is one. -/
def exponentPart? (cs : List Char) : Option (Option Int × List Char) :=
  match cs with
  | 'e' :: rest | 'E' :: rest => do
    let (negative, rest) :=
      match rest with
      | '+' :: r => (false, r)
      | '-' :: r => (true, r)
      | _ => (false, rest)
    let (ds, after) ← underscored? Char.isDigit rest
    let n ← digits? 10 ds
    some (some (if negative then -(n : Int) else n), after)
  | _ => some (none, cs)

/-- A float without its sign: digits with a point, an exponent or both. Beneath zero a float may
overflow, above it must not. -/
def unsignedFloat? (negative : Bool) (cs : List Char) : Option (Toml × List Char) :=
  match cs with
  | 'i' :: 'n' :: 'f' :: rest | 'n' :: 'a' :: 'n' :: rest => some (.float, rest)
  | _ => do
    let (whole, afterWhole) ← wholePart? cs
    let (decimals, afterPoint) ← fractionPart? afterWhole
    let (exponent, rest) ← exponentPart? afterPoint
    if decimals.isEmpty && exponent.isNone then none
    let significand ← digits? 10 (whole ++ decimals)
    if negative || isFinite significand (exponent.getD 0 - decimals.length) then
      some (.float, rest)
    else none

/-- A float. -/
def float? : List Char → Option (Toml × List Char)
  | '+' :: rest => unsignedFloat? false rest
  | '-' :: rest => unsignedFloat? true rest
  | cs => unsignedFloat? false cs

/-- A date, a float or an integer. -/
def number? (cs : List Char) : Option (Toml × List Char) :=
  match moment? cs with
  | some (text, rest) => some (.moment text, rest)
  | none => (float? cs).or (int? cs)

/-! ## Values -/

/-- The items of an array, its bracket read, and what follows the closing bracket. A comma may
stand after the last item. -/
def items? (item : List Char → Option (Toml × List Char)) :
    Nat → List Char → Option (List Toml × List Char)
  | 0, _ => none
  | fuel + 1, cs => do
    match ← skipLines? (fuel + 1) cs with
    | ']' :: rest => some ([], rest)
    | start =>
      let (x, after) ← item start
      match ← skipLines? (fuel + 1) after with
      | ',' :: rest => (items? item fuel rest).map fun (xs, end') => (x :: xs, end')
      | ']' :: rest => some ([x], rest)
      | _ => none

/-- A key, an equals sign and a value. -/
def line? (size : Nat) (value : List Char → Option (Toml × List Char)) (cs : List Char) :
    Option (Line × List Char) := do
  let (path, after) ← key? size cs
  match after with
  | '=' :: rest => do
    let (v, end') ← value (skipSpace rest)
    some (⟨path, v⟩, end')
  | _ => none

/-- The lines of an inline table, its brace read, and what follows the closing brace. `more` says
that a comma was just read, so that a line must follow. -/
def inlineLines? (line : List Char → Option (Line × List Char)) :
    Nat → Bool → List Char → Option (List Line × List Char)
  | 0, _, _ => none
  | fuel + 1, more, cs =>
    match more, skipSpace cs with
    | false, '\x7d' :: rest => some ([], rest)
    | _, start => do
      let (l, after) ← line start
      match skipSpace after with
      | ',' :: rest => (inlineLines? line fuel true rest).map fun (ls, end') => (l :: ls, end')
      | '\x7d' :: rest => some ([l], rest)
      | _ => none

/-- A value with at most `depth` arrays and inline tables around one another. -/
def value? (size : Nat) : Nat → List Char → Option (Toml × List Char)
  | depth, cs =>
    match cs with
    | '\x22' :: _ | '\x27' :: _ => (text? size cs).map fun (s, rest) => (.str s, rest)
    | 't' :: 'r' :: 'u' :: 'e' :: rest => some (.bool true, rest)
    | 'f' :: 'a' :: 'l' :: 's' :: 'e' :: rest => some (.bool false, rest)
    | '[' :: rest =>
      match depth with
      | 0 => none
      | d + 1 => (items? (value? size d) size rest).map fun (xs, end') => (.array xs, end')
    | '\x7b' :: rest =>
      match depth with
      | 0 => none
      | d + 1 => do
        let (lines, end') ← inlineLines? (line? size (value? size d)) size false rest
        let entries ← defineAll .inline lines []
        some (.table .inline entries, end')
    | _ => number? cs

/-! ## Documents -/

/-- A document read so far: the section in progress is the first of `sections`, its lines and the
sections themselves the latest first. -/
structure Reading where
  lines : List Line := []
  sections : List Section := []

/-- Takes a line into the section in progress. -/
def Reading.addLine (r : Reading) (l : Line) : Reading :=
  match r.sections with
  | [] => { r with lines := r.lines ++ [l] }
  | s :: rest => { r with sections := { s with lines := s.lines ++ [l] } :: rest }

/-- Opens a section. -/
def Reading.addSection (r : Reading) (many : Bool) (path : List String) : Reading :=
  { r with sections := ⟨many, path, []⟩ :: r.sections }

/-- A header, and what follows its line. -/
def header? (size : Nat) (cs : List Char) : Option (Bool × List String × List Char) :=
  match cs with
  | '[' :: '[' :: rest => do
    let (path, after) ← key? size rest
    match after with
    | ']' :: ']' :: rest' => (finishLine? rest').map fun end' => (true, path, end')
    | _ => none
  | '[' :: rest => do
    let (path, after) ← key? size rest
    match after with
    | ']' :: rest' => (finishLine? rest').map fun end' => (false, path, end')
    | _ => none
  | _ => none

/-- Reads statement by statement. -/
def statements? (size : Nat) : Nat → Reading → List Char → Option Reading
  | 0, _, _ => none
  | fuel + 1, r, cs =>
    match skipSpace cs with
    | [] => some r
    | '#' :: rest => do statements? size fuel r (← lineEnd? (rest.dropWhile isPlain))
    | '\n' :: rest => statements? size fuel r rest
    | '\r' :: rest => do statements? size fuel r (← newline? ('\r' :: rest))
    | '[' :: rest => do
      let (many, path, end') ← header? size ('[' :: rest)
      statements? size fuel (r.addSection many path) end'
    | start => do
      let (l, after) ← line? size (value? size maxDepth) start
      statements? size fuel (r.addLine l) (← finishLine? after)

/-- Reads a document; a byte-order mark in front is passed over. -/
def parse? (text : String) : Option Toml := do
  let cs := match text.toList with | '\ufeff' :: rest => rest | cs => cs
  let size := cs.length + 2
  let r ← statements? size size {} cs
  let entries ← build? r.lines r.sections.reverse
  some (.table .header entries)

end LuaGlue.Toml
