import LuaGlue.CType
import LuaGlue.Text.Blank
import LuaGlue.Text.Cut
import LuaGlue.Text.Numeral
import LuaGlue.Text.Word

/-!
# Reading a C type's spelling

`CType.parse` takes a spelling apart and never fails. A spelling with a parenthesis can only be a
function pointer; any other is read from both ends: bracket groups are peeled off the end
(`peelDims`), and what is left is read word by word from the left (`NamedType.add`).

The left part is a run of words, then stars, then at most one `&`. `const` counts for the base as
long as no star came before it; the other qualifiers and the tag words (`struct`, `enum`, …) carry
nothing and are skipped wherever they stand. A word *after* a star would be a parameter's name and
makes the spelling malformed.

The second half of the module has the spellings the generator needs most: a declaration of a name,
the type of a writable local, the element and the pointee of a type.
-/

set_option autoImplicit false

namespace LuaGlue

open Text

/-! ## Bracket groups -/

theorem dropWhile_length_le (p : Char → Bool) (cs : List Char) :
    (cs.dropWhile p).length ≤ cs.length := by
  induction cs with
  | nil => simp
  | cons c rest ih =>
    by_cases h : p c = true
    · simp only [List.dropWhile_cons_of_pos h, List.length_cons]
      omega
    · simp [List.dropWhile_cons_of_neg h]

/-- Peels bracket groups off the end of a text that is given back to front, while it ends in `]`.
A group runs from the last `[` to that `]`. Yields the text that is left, still back to front, and
the dimensions in the order they are met; `none` if a `]` has no `[`. -/
def peelDims (backwards : List Char) : Option (List Char × List (Option Nat)) :=
  match backwards with
  | ']' :: more =>
    match _h : more.dropWhile (· != '[') with
    | [] => none
    | _ :: left =>
      let inner := (more.takeWhile (· != '[')).reverse
      (peelDims (left.dropWhile isBlank)).map fun (rest, dims) =>
        (rest, natural? sizeBound (trim inner) :: dims)
  | _ => some (backwards, [])
termination_by backwards.length
decreasing_by
  have := dropWhile_length_le (· != '[') more
  have := dropWhile_length_le isBlank left
  simp_all
  omega

/-! ## Words and marks -/

/-- The pieces the rest of a spelling is made of. -/
inductive Lexeme where
  | word (letters : List Char)
  | star
  | ampersand
  deriving DecidableEq, Repr

/-- The word whose letters have been collected back to front, unless there are none. -/
def Lexeme.ofWord (backwards : List Char) : List Lexeme :=
  if backwards.isEmpty then [] else [.word backwards.reverse]

/-- Cuts a text at white space, `*` and `&`; the two marks are lexemes of their own. `word` holds
the letters of the word in progress, back to front. -/
def lexemesFrom (word : List Char) : List Char → List Lexeme
  | [] => Lexeme.ofWord word
  | c :: rest =>
    if c = '*' then Lexeme.ofWord word ++ .star :: lexemesFrom [] rest
    else if c = '&' then Lexeme.ofWord word ++ .ampersand :: lexemesFrom [] rest
    else if isBlank c then Lexeme.ofWord word ++ lexemesFrom [] rest
    else lexemesFrom (c :: word) rest

def lexemes (cs : List Char) : List Lexeme := lexemesFrom [] cs

/-- Words that qualify or tag a base name and say nothing the generator needs. -/
def isSilentWord (w : String) : Bool :=
  w == "volatile" || w == "restrict" || w == "__restrict" || w == "struct" || w == "enum" ||
    w == "union" || w == "class" || w == "typename"

/-- The most pointer levels that are counted. -/
def maxPointers : Nat := 255

/-- A type read so far and its next lexeme. -/
def NamedType.add (t : NamedType) : Lexeme → Option NamedType
  | .star =>
    if t.base.isEmpty || t.reference then none
    else some { t with pointers := min maxPointers (t.pointers + 1) }
  | .ampersand => if t.base.isEmpty || t.reference then none else some { t with reference := true }
  | .word letters =>
    let w := String.ofList letters
    if w == "const" then
      some { t with constBase := t.constBase || (t.pointers == 0 && !t.reference) }
    else if isSilentWord w then some t
    else if t.pointers > 0 || t.reference then none
    else some { t with base := if t.base.isEmpty then w else t.base ++ " " ++ w }

/-- A character that may stand in no name of a named type. -/
def isBracket (c : Char) : Bool := c == '[' || c == ']' || c == '(' || c == ')'

/-- Reads a trimmed spelling without parentheses. -/
def parseNamed (cs : List Char) : Option NamedType := do
  let (backwards, dims) ← peelDims cs.reverse
  let body := backwards.reverse
  if body.any isBracket then none
  let t ← (lexemes body).foldlM NamedType.add { base := "", dims := dims.reverse }
  if t.base.isEmpty then none else some t

/-! ## Function pointers -/

/-- What stands inside a parenthesis that is open already, and what comes after it. `depth` counts
the parentheses opened since. -/
def closeParen (depth : Nat) : List Char → Option (List Char × List Char)
  | [] => none
  | c :: rest =>
    if c = ')' then
      match depth with
      | 0 => some ([], rest)
      | d + 1 => (closeParen d rest).map fun (inside, after) => (c :: inside, after)
    else
      let d := if c = '(' then depth + 1 else depth
      (closeParen d rest).map fun (inside, after) => (c :: inside, after)

/-- Cuts a parameter list at the commas outside brackets, each part trimmed. `part` holds the part
in progress, back to front, and `depth` how many brackets are open, which may be less than none. -/
def splitParams (part : List Char) (depth : Int) : List Char → List (List Char)
  | [] => [trim part.reverse]
  | c :: rest =>
    if c = ',' ∧ depth = 0 then trim part.reverse :: splitParams [] 0 rest
    else
      let d :=
        if c = '(' || c = '[' || c = '<' then depth + 1
        else if c = ')' || c = ']' || c = '>' then depth - 1
        else depth
      splitParams (c :: part) d rest

/-- Whether a parenthesised group is the `(*name)` of a function pointer: a star, and nothing but
names, stars and white space. -/
def isDeclarator (cs : List Char) : Bool :=
  cs.contains '*' && cs.all fun c => isWordChar c || c == '_' || c == '*' || isBlank c

/-- The parameters of a function pointer: empty parts and `void` stand for none, `...` is the
variadic mark. -/
def readParams (parts : List String) : List String × Bool :=
  (parts.filter fun p => p != "" && p != "void" && p != "...", parts.contains "...")

/-- Reads a trimmed spelling with a parenthesis: `result (*name)(parameters)` and nothing after. -/
def parseFunctionPointer (cs : List Char) : Option FunctionPointer := do
  let (before, group) ← cutAtChar? '(' cs
  let (declarator, after) ← closeParen 0 group
  if !isDeclarator declarator then none
  match trim after with
  | '(' :: list =>
    let (inside, rest) ← closeParen 0 list
    if !rest.isEmpty then none
    let result := trim before
    if result.isEmpty then none
    let (params, variadic) := readParams ((splitParams [] 0 inside).map String.ofList)
    some { result := String.ofList result, params := params, variadic := variadic }
  | _ => none

/-! ## Any spelling -/

/-- Takes a spelling apart. -/
def CType.parse (spelling : String) : CType :=
  let cs := trim spelling.toList
  if cs.isEmpty then .malformed
  else if cs.contains '(' then
    match parseFunctionPointer cs with
    | some f => .function f
    | none => .malformed
  else
    match parseNamed cs with
    | some t => .named t
    | none => .malformed

/-! ## Spellings made from spellings -/

/-- A C declaration of `name`: `float[3]` gives `float name[3]`, `void (*)(int)` gives
`void (*name)(int)`. -/
def declare (spelling name : String) : String :=
  match CType.parse spelling with
  | .named t => t.renderScalar ++ " " ++ name ++ t.renderDims
  | .function f => f.result ++ " (*" ++ name ++ ")(" ++ f.renderParams ++ ")"
  | .malformed => trimmed spelling ++ " " ++ name

/-- The spelling of a writable local that holds a value so spelled. -/
def valueType (spelling : String) : String :=
  match CType.parse spelling with
  | .named t => t.unqualified.render
  | _ => trimmed spelling

/-- The element's spelling, for an array. -/
def elementType? (spelling : String) : Option String :=
  match CType.parse spelling with
  | .named t => t.element?.map NamedType.render
  | _ => none

/-- The pointee's spelling, for a pointer that is no array. -/
def pointeeType? (spelling : String) : Option String :=
  match CType.parse spelling with
  | .named t => t.pointee?.map NamedType.render
  | _ => none

/-- Whether a spelling has `const` on its base. -/
def hasConstBase (spelling : String) : Bool :=
  match CType.parse spelling with
  | .named t => t.constBase
  | _ => false

/-- A declaration of a writable local for a value spelled `spelling`. -/
def declareLocal (spelling name : String) : String := declare (valueType spelling) name

end LuaGlue
