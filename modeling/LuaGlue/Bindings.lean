import LuaGlue.Constants
import LuaGlue.Function.Wrapper
import LuaGlue.Userdata.Binding

/-!
# What was written

The pieces of one run: code chunk by chunk in the order of the interface, what each chunk binds, and
which declarations were left out. The registration tables, the entry point and the stub file are all
made from these lists, so they cannot disagree about names.
-/

set_option autoImplicit false

namespace LuaGlue

/-- A declaration that was left out. -/
structure Problem where
  /-- The native name; a group of constants is called by its position. -/
  name : String
  fault : Fault
  deriving DecidableEq, Repr

def Problem.message (p : Problem) : String := p.name ++ ": " ++ p.fault.message

structure Bindings where
  chunks : List Code := []
  functions : List FunctionBinding := []
  structs : List StructBinding := []
  enums : List EnumBinding := []
  consts : List ConstBinding := []
  problems : List Problem := []

/-- A comment's text with every end of a comment broken up. -/
def breakCommentEnds : List Char → List Char
  | '*' :: '/' :: rest => '*' :: ' ' :: '/' :: breakCommentEnds rest
  | c :: rest => c :: breakCommentEnds rest
  | [] => []

/-- The comment in place of a declaration that was left out. -/
def problemComment (p : Problem) : Code :=
  .ofLines
    [.text ("/* tether: '" ++ p.name ++ "' not generated: " ++
      String.ofList (breakCommentEnds p.fault.message.toList) ++ " */"),
     .blank]

namespace Bindings

/-- Adds what was written for a declaration: the code, and its binding through `record`. -/
def add {α : Type} (b : Bindings) (record : α → Bindings → Bindings) (binding : α) (code : Code) :
    Bindings :=
  let b' := record binding b
  { b' with chunks := b'.chunks ++ [code] }

/-- Adds a declaration that is left out. -/
def leaveOut (b : Bindings) (name : String) (fault : Fault) : Bindings :=
  let p : Problem := ⟨name, fault⟩
  { b with chunks := b.chunks ++ [problemComment p], problems := b.problems ++ [p] }

def addFunction (f : FunctionBinding) (b : Bindings) : Bindings :=
  { b with functions := b.functions ++ [f] }

def addStruct (s : StructBinding) (b : Bindings) : Bindings :=
  { b with structs := b.structs ++ [s] }

def addEnum (e : EnumBinding) (b : Bindings) : Bindings := { b with enums := b.enums ++ [e] }

def addConsts (c : ConstBinding) (b : Bindings) : Bindings := { b with consts := b.consts ++ [c] }

end Bindings

end LuaGlue
