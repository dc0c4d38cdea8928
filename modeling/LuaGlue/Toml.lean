/-!
# TOML values

A parsed document, and the rules by which the statements of a document build it. A manifest holds
texts, integers, booleans, arrays and tables. Floats and dates are read as well, because a record
written as an array may end in values nobody looks at; of a float nothing is kept.

A table remembers how it came to be (`TableForm`), because that decides who may add to it later:

- a header `[a.b]` opens `b` for the lines below it and calls `a` into being;
- a dotted key `b.c = 1` may add to a table that dotted keys made, and may pass *through* one that
  a header called into being;
- an inline table is complete as written.

`Toml.define` and `Toml.openAt` state these rules; both fail where TOML forbids a redefinition.
-/

set_option autoImplicit false

namespace LuaGlue

/-- How a table came to be. -/
inductive TableForm where
  /-- Written with braces. -/
  | inline
  /-- Made by a dotted key. -/
  | dotted
  /-- Called into being by the header of a table inside it. -/
  | implied
  /-- Opened by its own header. -/
  | header
  deriving DecidableEq, Repr

inductive Toml where
  | str (s : String)
  | int (n : Int)
  | bool (b : Bool)
  /-- Any float; nothing depends on which one it is. -/
  | float
  /-- A date, a time or both, in its canonical notation. -/
  | moment (text : String)
  | array (items : List Toml)
  | table (form : TableForm) (entries : List (String × Toml))
  /-- An array of tables, each opened by a header in double brackets. -/
  | tables (items : List (List (String × Toml)))
  deriving Repr, Inhabited

namespace Toml

/-- The entries of a table, in the order they were made. -/
abbrev Entries := List (String × Toml)

/-- Entries with the value of `key` set; a new key goes to the end. -/
def setEntry (key : String) (value : Toml) : Entries → Entries
  | [] => [(key, value)]
  | (k, v) :: rest => if k == key then (key, value) :: rest else (k, v) :: setEntry key value rest

/-- All but the last item, and the last one. -/
def unsnoc? {α : Type} (xs : List α) : Option (List α × α) :=
  xs.getLast?.map fun last => (xs.dropLast, last)

/-- Adds `path = value` to a table. `top` says that the table is the one the statement stands in;
further inside, the table that receives the value must have been made by dotted keys. -/
def define (value : Toml) : (top : Bool) → (form : TableForm) → List String → Entries → Option Entries
  | _, _, [], _ => none
  | top, form, [key], entries =>
    if top || form == .dotted then
      match entries.lookup key with
      | none => some (entries ++ [(key, value)])
      | some _ => none
    else none
  | _, _, key :: next :: path, entries =>
    match entries.lookup key with
    | none => do
      let inner ← define value false .dotted (next :: path) []
      some (entries ++ [(key, .table .dotted inner)])
    | some (.table form' inner) =>
      if form' == .dotted || form' == .implied then do
        let inner' ← define value false form' (next :: path) inner
        some (setEntry key (.table form' inner') entries)
      else none
    | some (.tables items) => do
      let (before, last) ← unsnoc? items
      let last' ← define value false .header (next :: path) last
      some (setEntry key (.tables (before ++ [last'])) entries)
    | some _ => none

/-- Opens the table a header names and lets `fill` put the lines below the header into it. A header
in double brackets (`many`) adds a table to an array of tables. -/
def openAt (many : Bool) (fill : Entries → Option Entries) : List String → Entries → Option Entries
  | [], _ => none
  | [key], entries =>
    match many, entries.lookup key with
    | false, none => do
      let filled ← fill []
      some (entries ++ [(key, .table .header filled)])
    | false, some (.table .implied inner) => do
      let filled ← fill inner
      some (setEntry key (.table .header filled) entries)
    | true, none => do
      let filled ← fill []
      some (entries ++ [(key, .tables [filled])])
    | true, some (.tables items) => do
      let filled ← fill []
      some (setEntry key (.tables (items ++ [filled])) entries)
    | _, _ => none
  | key :: next :: path, entries =>
    match entries.lookup key with
    | none => do
      let inner ← openAt many fill (next :: path) []
      some (entries ++ [(key, .table .implied inner)])
    | some (.table .inline _) => none
    | some (.table form inner) => do
      let inner' ← openAt many fill (next :: path) inner
      some (setEntry key (.table form inner') entries)
    | some (.tables items) => do
      let (before, last) ← unsnoc? items
      let last' ← openAt many fill (next :: path) last
      some (setEntry key (.tables (before ++ [last'])) entries)
    | some _ => none

/-- A line `path = value`. -/
structure Line where
  path : List String
  value : Toml

/-- A header and the lines below it. -/
structure Section where
  many : Bool
  path : List String
  lines : List Line

/-- Entries with some lines added in order. -/
def defineAll (form : TableForm) (lines : List Line) (entries : Entries) : Option Entries :=
  lines.foldlM (fun es line => define line.value true form line.path es) entries

/-- The table of a document: the lines before the first header, then section by section. -/
def build? (lines : List Line) (sections : List Section) : Option Entries := do
  let root ← defineAll .header lines []
  sections.foldlM (fun es s => openAt s.many (defineAll .header s.lines) s.path es) root

/-! ## Reading values off -/

def str? : Toml → Option String
  | str s => some s
  | _ => none

def bool? : Toml → Option Bool
  | bool b => some b
  | _ => none

/-- A count: an integer that is not negative. -/
def count? : Toml → Option Nat
  | int (.ofNat n) => some n
  | _ => none

/-- An array whose items are all read by `item`; an array of tables is an array. -/
def list? {α : Type} (item : Toml → Option α) : Toml → Option (List α)
  | array items => items.mapM item
  | tables items => items.mapM fun entries => item (.table .header entries)
  | _ => none

/-- The key under which a date is found where a table is wanted. -/
def momentKey : String := "$__toml_private_datetime"

/-- A table with free keys, whose values are all read by `item`; the keys in ascending order. A date
counts as a table with its notation as the one entry. -/
def map? {α : Type} (item : Toml → Option α) : Toml → Option (List (String × α))
  | moment text => (item (str text)).map fun x => [(momentKey, x)]
  | table _ entries => do
    let read ← entries.mapM fun (key, value) => (item value).map fun x => (key, x)
    some (read.mergeSort fun a b => a.1 ≤ b.1)
  | _ => none

/-- The values of a table with fixed keys, other keys being refused. An array may list the values
in the order of the keys instead; then surplus values are passed over. -/
def record? (order : List String) : Toml → Option (String → Option Toml)
  | table _ entries =>
    if entries.all fun (key, _) => order.contains key then some fun key => entries.lookup key
    else none
  | array items => some fun key => (order.zip items).lookup key
  | tables items =>
    some fun key => (order.zip (items.map (table .header))).lookup key
  | _ => none

/-- Nothing inside, as a variant without data is written in table form. -/
def isEmpty : Toml → Bool
  | array items => items.isEmpty
  | tables items => items.isEmpty
  | table _ entries => entries.isEmpty
  | _ => false

/-- One of some named variants: its name, or a table with the name as its one key and nothing
inside. -/
def variant? {α : Type} (variants : List (String × α)) : Toml → Option α
  | str s => variants.lookup s
  | table _ [(name, value)] => if value.isEmpty then variants.lookup name else none
  | _ => none

/-- A key that must be there. -/
def need {α : Type} (read : Toml → Option α) (value : Option Toml) : Option α := value.bind read

/-- A key that stands for `default` when it is left out. -/
def orElse {α : Type} (default : α) (read : Toml → Option α) (value : Option Toml) : Option α :=
  match value with
  | none => some default
  | some t => read t

end Toml

end LuaGlue
