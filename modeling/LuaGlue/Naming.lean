import LuaGlue.Manifest
import LuaGlue.Text.Case

/-!
# Script names

Every name a script sees is derived here from a native name: functions in snake case, structs and
enums in Pascal case, enum members and constants with what they have in common taken off. The
parts of the generator all ask this module, so they cannot disagree.

Stripping never leaves nothing: a name that would vanish keeps its native spelling.
-/

set_option autoImplicit false

namespace LuaGlue

open Text

/-! ## Reserved words -/

/-- The words a Lua program cannot use as a name. -/
def scriptKeywords : List String :=
  ["and", "break", "do", "else", "elseif", "end", "false", "for", "function", "goto", "if", "in",
   "local", "nil", "not", "or", "repeat", "return", "then", "true", "until", "while"]

def isScriptKeyword (name : String) : Bool := scriptKeywords.contains name

/-! ## Cases -/

/-- What parts a new word from the text before it, which ends in `last`: an underscore, unless
the text is empty or ends in one already. -/
def wordGap (last : Option Char) : List Char :=
  match last with
  | none => []
  | some c => if c == '_' then [] else ['_']

/-- Whether a capital begins a new word after `prev` when `next` follows it: after a small letter
or a digit, and at the end of a run of capitals that a small letter follows. -/
def beginsWord (prev : Option Char) (next : List Char) : Bool :=
  match prev with
  | none => false
  | some p =>
    isSmall p || p.isDigit ||
      (isCapital p && match next with | n :: _ => isSmall n | [] => false)

/-- What one character of a name becomes in snake case: `prev` is the character before it, `last`
the one written last, and `next` what follows it. -/
def snakePiece (prev last : Option Char) (c : Char) (next : List Char) : List Char :=
  if c == '_' then wordGap last
  else if isCapital c then (if beginsWord prev next then wordGap last else []) ++ small c
  else [c]

/-- Snake case of the rest of a name: `prev` is the character before it and `last` the one written
last. -/
def snakeFrom (prev last : Option Char) : List Char → List Char
  | [] => []
  | c :: rest =>
    let piece := snakePiece prev last c rest
    piece ++ snakeFrom (some c) (piece.getLast?.or last) rest

/-- Snake case of a name given as characters. -/
def snakeChars (cs : List Char) : List Char := dropEndWhile (· == '_') (snakeFrom none none cs)

/-- `ColorEdit4` is `color_edit4`; capitals in a row stay together (`GetIO` is `get_io`,
`RGBToHSV` is `rgb_to_hsv`) and digits belong to the word before them. -/
def snakeCase (name : String) : String := String.ofList (snakeChars name.toList)

/-- The parts of a name between underscores, empty ones left out. -/
def nameParts (cs : List Char) : List (List Char) :=
  (splitAtChar '_' cs).filter (!·.isEmpty)

/-- The name's parts joined, each with a capital in front. -/
def pascalCase (cs : List Char) : List Char :=
  (nameParts cs).flatMap fun
    | [] => []
    | first :: rest => capital first ++ rest

/-! ## Prefixes of enum members -/

/-- A stem longer than `best` that `name` begins with and goes beyond. -/
def longerStem (name : List Char) (best : Option (List Char)) (stem : List Char) :
    Option (List Char) :=
  if stem.isPrefixOf name && stem.length < name.length then
    match best with
    | some b => if b.length ≤ stem.length then some stem else best
    | none => some stem
  else best

/-- The longest of some stems that `name` begins with and goes beyond. -/
def longestStem? (stems : List (List Char)) (name : List Char) : Option (List Char) :=
  stems.foldl (longerStem name) none

/-- A type's name without the ending `_t` and without underscores at its end. -/
def bareTypeName (cs : List Char) : List Char :=
  dropEndWhile (· == '_') ((dropTail? ['_', 't'] cs).getD cs)

namespace Naming

/-- Takes the module's name and stem from the interface where the manifest is silent. -/
def fillFrom (n : Naming) (i : Interface) : Naming :=
  { n with
    module := if n.module.isEmpty then i.module.getD "" else n.module
    stem := if n.stem.isEmpty then i.stem.getD "" else n.stem }

/-- The first half of metatable names. -/
def metatableHome (n : Naming) : String :=
  if n.metatableSpace.isEmpty then n.module else n.metatableSpace

/-- The C function that installs the module. -/
def entryPointName (n : Naming) : String :=
  match n.entryPoint with
  | some name => name
  | none =>
    if n.metatableHome == n.module then "luaopen_" ++ n.module
    else "luaopen_" ++ n.metatableHome ++ "_" ++ n.module

/-! ## Functions -/

/-- A function's script name, reserved words not yet considered: `sg_make_buffer` is
`make_buffer`, `b2World_Step` is `world_step`. -/
def functionName (n : Naming) (native : String) : String :=
  String.ofList (snakeChars (dropStem n.stem.toList native.toList))

/-- The names under which a script name is registered. -/
def registeredNames (n : Naming) (script : String) : List String :=
  if isScriptKeyword script then
    match n.keywordPolicy with
    | .alias => [script, script ++ "_"]
    | .rename => [script ++ "_"]
  else [script]

/-! ## Structs and enums -/

/-- A type's name without the longest stem that fits. -/
def stripType (n : Naming) (native : List Char) : List Char :=
  let stems := (n.typeStems.map String.toList ++ [n.stem.toList]).filter (!·.isEmpty)
  match longestStem? stems native with
  | some stem => native.drop stem.length
  | none => native

/-- The script name of a struct or enum: `sg_buffer_desc` is `BufferDesc`, `ImGuiWindowFlags_` is
`WindowFlags`. -/
def typeName (n : Naming) (native : String) : String :=
  let pascal := pascalCase (bareTypeName (n.stripType native.toList))
  match pascal with
  | [] => String.ofList (pascalCase native.toList)
  | c :: _ =>
    if c.isDigit then String.ofList (pascalCase native.toList) else String.ofList pascal

/-- The registry key of a struct's metatable, such as `sokol.BufferDesc`. -/
def metatable (n : Naming) (native : String) : String := n.metatableHome ++ "." ++ n.typeName native

/-! ## Enum members and constants -/

/-- What members of an enum may begin with, in capitals: the enum's name as it is, with its words
run together and in snake case, and the library's stem. -/
def memberStems (n : Naming) (enum : String) : List (List Char) :=
  let base := bareTypeName enum.toList
  let squashed :=
    match nameParts base with
    | first :: second :: rest =>
      let joined := asciiCapitals (first ++ '_' :: (second :: rest).flatten ++ ['_'])
      ['_' :: joined, joined]
    | _ => []
  let snake := snakeChars base
  squashed ++ [asciiCapitals (base ++ ['_']), asciiCapitals base] ++
    (if snake != base then [asciiCapitals (snake ++ ['_'])] else []) ++
    (if n.stem.isEmpty then []
     else ['_' :: asciiCapitals n.stem.toList, asciiCapitals n.stem.toList])

/-- A member's name without the longest stem that fits, cases compared as one. -/
def stripMember (n : Naming) (enum : String) (item : List Char) : List Char :=
  match longestStem? (n.memberStems enum) (asciiCapitals item) with
  | none => item
  | some stem =>
    match (item.drop stem.length).dropWhile (· == '_') with
    | [] => item
    | short => short

/-- The short name of an enum's member. -/
def memberName (n : Naming) (enum item : String) : String :=
  let short := n.stripMember enum item.toList
  String.ofList (if n.capitalEnumItems then asciiCapitals short else short)

/-- The name of a loose constant: without the stem, in capitals. -/
def constName (n : Naming) (item : String) : String :=
  let stem := ((n.constStem.getD n.stem).toList)
  let name := item.toList
  let stripped :=
    if !stem.isEmpty && stem.length < name.length &&
        (asciiCapitals stem).isPrefixOf (asciiCapitals name) then
      (name.drop stem.length).dropWhile (· == '_')
    else name
  String.ofList (asciiCapitals (if stripped.isEmpty then name else stripped))

end Naming

end LuaGlue
