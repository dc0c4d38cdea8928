import LuaGlue.Code.Term

/-!
# C code

Generated code as a tree: lines, blocks, and branches. `Code` is a list and a tree at once — every
constructor but `done` carries the code that comes after it — so that a proof about generated code
is one induction, and so that a block cannot be opened without being closed.
-/

set_option autoImplicit false

namespace LuaGlue

/-- A local that is declared: its full declaration and the name in it. -/
structure Local where
  declaration : String
  name : String
  deriving DecidableEq, Repr

/-- A local whose type is written before its name and no further. -/
def Local.plain (type name : String) : Local := ⟨type ++ " " ++ name, name⟩

inductive Line where
  /-- `f(…);` -/
  | call (c : Call)
  /-- `(void)f(…);` -/
  | discard (c : Call)
  /-- `(void)name;` -/
  | unused (name : String)
  | assign (p : Place) (e : Expr)
  | declare (x : Local) (e : Expr)
  /-- `if (c) line` on one line. -/
  | onlyIf (c : Cond) (l : Line)
  | ret (e : Expr)
  | retVoid
  /-- Marks the buffer number `bit` as not owned. -/
  | disown (bit : Nat)
  | prototype (result : String) (f : Symbol) (params : String)
  /-- `typedef result (*f)(params);` -/
  | functionType (result : String) (f : Symbol) (params : String)
  /-- A constant of an enumeration or an entry of a table of functions. -/
  | item (s : Symbol)
  /-- An entry of a registration table. -/
  | registration (name : String) (f : Symbol)
  /-- A gap for a value that cannot cross the boundary. -/
  | placeholder (what : String)
  /-- A line for the preprocessor. -/
  | directive (s : String)
  | blank
  | text (s : String)
  deriving DecidableEq, Repr

/-- What the gap for a value that cannot cross the boundary is marked with. -/
def placeholderMark : String := "TETHER_UNSUPPORTED"

/-- The line's text without indentation and line end. -/
protected def Line.render : Line → String
  | call c => c.render ++ ";"
  | discard c => "(void)" ++ c.render ++ ";"
  | unused name => "(void)" ++ name ++ ";"
  | assign p e => p.render ++ " = " ++ e.render ++ ";"
  | declare x e => x.declaration ++ " = " ++ e.render ++ ";"
  | onlyIf c l => "if (" ++ c.render ++ ") " ++ l.render
  | ret e => "return " ++ e.render ++ ";"
  | retVoid => "return;"
  | disown bit => "owned &= ~" ++ ownershipMask bit ++ ";"
  | prototype result f params => result ++ " " ++ f.spelling ++ "(" ++ params ++ ");"
  | functionType result f params =>
    "typedef " ++ result ++ " (*" ++ f.spelling ++ ")(" ++ params ++ ");"
  | item s => s.spelling ++ ","
  | registration name f => "\x7b\"" ++ name ++ "\", " ++ f.spelling ++ "\x7d,"
  | placeholder what => "/* " ++ placeholderMark ++ ": " ++ what ++ " */"
  | directive s => s
  | blank => ""
  | text s => s

/-- What stands before the brace of a block. -/
inductive Head where
  | bare
  /-- `result f(params)` -/
  | define (result : String) (f : Symbol) (params : String)
  /-- `for (type v = 0; v < bound; v++)` -/
  | count (type v bound : String)
  /-- `type f[size] =` -/
  | table (type : String) (f : Symbol) (size : String)
  | text (s : String)
  deriving DecidableEq, Repr

protected def Head.render : Head → String
  | bare => ""
  | define result f params => result ++ " " ++ f.spelling ++ "(" ++ params ++ ")"
  | count type v bound =>
    "for (" ++ type ++ " " ++ v ++ " = 0; " ++ v ++ " < " ++ bound ++ "; " ++ v ++ "++)"
  | table type f size => type ++ " " ++ f.spelling ++ "[" ++ size ++ "] ="
  | text s => s

/-- How a block ends. -/
inductive Ending where
  | brace
  /-- With a semicolon, as a table or an enumeration does. -/
  | semicolon
  /-- With the name that a `typedef` gives. -/
  | named (name : String)
  deriving DecidableEq, Repr

protected def Ending.render : Ending → String
  | brace => "\x7d"
  | semicolon => "\x7d;"
  | named name => "\x7d " ++ name ++ ";"

/-- Code, each piece with what comes after it. -/
inductive Code where
  | done
  | line (l : Line) (next : Code)
  | block (head : Head) (body : Code) (ending : Ending) (next : Code)
  /-- `if (c) yes else no`; no code for `no` means that there is no `else`. -/
  | branch (c : Cond) (yes no : Code) (next : Code)
  deriving DecidableEq, Repr

namespace Code

/-- One piece of code after another. -/
protected def append : Code → Code → Code
  | done, after => after
  | line l next, after => line l (next.append after)
  | block head body ending next, after => block head body ending (next.append after)
  | branch c yes no next, after => branch c yes no (next.append after)

instance : Append Code := ⟨Code.append⟩

/-- A block by itself. -/
def blockOf (head : Head) (body : Code) (ending : Ending := .brace) : Code :=
  block head body ending done

/-- A branch by itself. -/
def branchOf (c : Cond) (yes : Code) (no : Code := done) : Code := branch c yes no done

/-- Pieces of code in a row. -/
def seq : List Code → Code
  | [] => done
  | c :: rest => c ++ seq rest

/-- Lines in a row. -/
def ofLines : List Line → Code
  | [] => done
  | l :: rest => line l (ofLines rest)

theorem append_def (a b : Code) : a ++ b = a.append b := rfl

@[simp] theorem done_append (a : Code) : done ++ a = a := rfl

@[simp] theorem line_append (l : Line) (a b : Code) : line l a ++ b = line l (a ++ b) := rfl

@[simp] theorem block_append (h : Head) (body : Code) (e : Ending) (a b : Code) :
    block h body e a ++ b = block h body e (a ++ b) := rfl

@[simp] theorem branch_append (c : Cond) (yes no a b : Code) :
    branch c yes no a ++ b = branch c yes no (a ++ b) := rfl

@[simp] theorem append_done (a : Code) : a ++ done = a := by
  induction a with
  | done => rfl
  | line l next ih => simp [ih]
  | block h body e next _ ih => simp [ih]
  | branch c yes no next _ _ ih => simp [ih]

theorem append_assoc (a b c : Code) : a ++ b ++ c = a ++ (b ++ c) := by
  induction a with
  | done => rfl
  | line l next ih => simp [ih]
  | block h body e next _ ih => simp [ih]
  | branch c yes no next _ _ ih => simp [ih]

end Code

end LuaGlue
