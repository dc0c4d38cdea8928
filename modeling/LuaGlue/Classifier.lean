import LuaGlue.CType.Parse
import LuaGlue.TypeIndex

/-!
# From a spelling to its category

Classification goes by the shape of a spelling: references and qualifiers first, then arrays, then
aliases, then pointers; only a base name is ever looked up. It never fails. Chains of aliases,
array elements and signatures are followed for a bounded number of steps (`maxSteps`), past which
a spelling is `unknown`.

Answers are remembered. The memo is an observable part of the rules and not just a shortcut: an
answer that was found near the end of a long chain is remembered under its bare spelling, and is
the answer for that spelling from then on. Within one run every spelling therefore has one
category, but which one may depend on what was asked before. An entry of the memo is never looked
up and then replaced: `classifyFrom` writes an entry only for a spelling it did not find, and the
newest entry of a spelling is the one that counts.
-/

set_option autoImplicit false

namespace LuaGlue

open Text

/-! ## Names every C compiler knows -/

/-- The words an integer type is made of: `unsigned long long`, `short int`, `char`. -/
structure IntegerWords where
  signed : Bool := true
  char : Bool := false
  short : Bool := false
  long : Bool := false

/-- One word of an integer type; of `signed` and `unsigned` the last one counts. -/
def IntegerWords.add (w : IntegerWords) (word : String) : Option IntegerWords :=
  match word with
  | "unsigned" => some { w with signed := false }
  | "signed" => some { w with signed := true }
  | "char" => some { w with char := true }
  | "short" => some { w with short := true }
  | "long" => some { w with long := true }
  | "int" => some w
  | _ => none

/-- The width on a machine with 64-bit `long` and pointers. -/
def IntegerWords.bits (w : IntegerWords) : Nat :=
  if w.char then 8 else if w.short then 16 else if w.long then 64 else 32

/-- An integer type spelled with C's own words, in any order. -/
def keywordInteger? (base : String) : Option IntegerKind :=
  match words base.toList with
  | [] => none
  | ws =>
    ((ws.map String.ofList).foldlM IntegerWords.add {}).map fun w =>
      { bits := w.bits, signed := w.signed }

/-- The category of a language keyword or a typedef of the C library. -/
def builtin? (base : String) : Option Category :=
  match base with
  | "void" => some .void
  | "bool" | "_Bool" => some .bool
  | "float" => some (.float .single)
  | "double" | "long double" => some (.float .double)
  | "int8_t" => some (.integer ⟨8, true⟩)
  | "uint8_t" => some (.integer ⟨8, false⟩)
  | "int16_t" => some (.integer ⟨16, true⟩)
  | "uint16_t" | "char16_t" => some (.integer ⟨16, false⟩)
  | "int32_t" | "wchar_t" => some (.integer ⟨32, true⟩)
  | "uint32_t" | "char32_t" => some (.integer ⟨32, false⟩)
  | "int64_t" | "ssize_t" | "intptr_t" | "ptrdiff_t" => some (.integer ⟨64, true⟩)
  | "uint64_t" | "size_t" | "uintptr_t" => some (.integer ⟨64, false⟩)
  | _ => (keywordInteger? base).map .integer

/-! ## The memo -/

/-- Categories by spelling; the newest entry of a spelling stands first and counts. -/
structure Memo where
  entries : List (String × Category) := []

namespace Memo

def find? (m : Memo) (spelling : String) : Option Category := m.entries.lookup spelling

def insert (m : Memo) (spelling : String) (c : Category) : Memo := ⟨(spelling, c) :: m.entries⟩

end Memo

/-- An answer that may look up and extend the memo. -/
abbrev Classifying := StateM Memo

/-- An answer that starts with an empty memo. -/
def Classifying.fresh {α : Type} (q : Classifying α) : α := (q {}).1

/-! ## Classification -/

/-- The category of a base name without pointers. -/
def classifyBase (index : TypeIndex) (base : String) : Category :=
  match builtin? base with
  | some c => c
  | none =>
    match index.shape? base with
    | some shape => .structValue base shape
    | none =>
      if index.enums.contains base then .enum base
      else if index.isIntegerName base then .integer ⟨32, true⟩
      else .unknown

/-- The category of one pointer to a base name that is no alias. -/
def classifyPointer (index : TypeIndex) (base : String) (isConst : Bool) : Category :=
  if base == "char" then .cstring
  else
    match classifyBase index base with
    | .structValue name shape => .structPointer name shape isConst
    | .bool => .pointer .bool isConst
    | .integer k => .pointer (.integer k) isConst
    | .float k => .pointer (.float k) isConst
    | .enum name => .pointer (.enum name) isConst
    -- void, and whatever the library never declares
    | _ => .handle isConst

/-- The spelling an aliased base name stands for, with the `const` and the pointers around it. -/
def NamedType.spellAlias (t : NamedType) (target : String) : String :=
  (if t.constBase then "const " else "") ++ target ++
    String.ofList (List.replicate t.pointers '*')

/-- The category of a named type; `next` classifies the spelling one step further on. -/
def classifyNamed (index : TypeIndex) (next : String → Classifying Category) (t : NamedType) :
    Classifying Category :=
  if t.reference then
    -- a reference to a constant passes like a value, any other cannot cross the boundary
    if t.constBase && t.pointers == 0 && t.dims.isEmpty then next t.unqualified.render
    else pure .unknown
  else
    match t.dims with
    | some (n + 1) :: inner => do
      match ← next { t with dims := inner }.render with
      | .unknown | .void => pure .unknown
      | elem => pure (.fixedArray elem (n + 1))
    | _ :: _ => pure .unknown
    | [] =>
      match index.alias? t.base with
      | some target => next (t.spellAlias target)
      | none =>
        match t.pointers with
        | 0 => pure (classifyBase index t.base)
        | 1 => pure (classifyPointer index t.base t.constBase)
        | _ => pure .unknown

/-- The category of a spelling with `steps` steps left to take. -/
def classifyFrom (index : TypeIndex) (steps : Nat) (spelling : String) : Classifying Category := do
  match (← get).find? spelling with
  | some c => pure c
  | none =>
    let c ← match steps with
      | 0 => pure .unknown
      | rest + 1 =>
        match CType.parse spelling with
        | .named t => classifyNamed index (classifyFrom index rest) t
        | .function f => do
          let result ← classifyFrom index rest f.result
          let params ← f.params.mapM (classifyFrom index rest)
          pure (.callback result params f.variadic)
        | .malformed => pure .unknown
    modify (·.insert spelling c)
    pure c

/-- How many spellings a chain of aliases, elements and signatures may run through. -/
def maxSteps : Nat := 9

/-- The category of a spelling. -/
def classify (index : TypeIndex) (spelling : String) : Classifying Category :=
  classifyFrom index maxSteps spelling

/-- Whether a parameter so spelled is an output; `marked` is its declaration's own word. -/
def Category.isOutputWhen (c : Category) (marked : Bool) : Bool :=
  if marked then c.isMarkedOutput else c.isOutput

end LuaGlue
