import LuaGlue.Proofs.Naming.Identifiers

/-!
# The names in a stub file

A stub file is read by a language server as a program, so what stands where a name is to stand has to be
one: the constructors, the tables of enums and their keys, the constants, the functions and their parameters.
Here the file is cut into pieces, of which some are such names (`StubPiece.name`); put together the pieces are the file
(`renderStubs_pieces`), and the names come from the bindings and nowhere else (`mem_stubNames`).
-/

set_option autoImplicit false

namespace LuaGlue

/-! ## Pieces -/

/-- A piece of a stub file: what stands where a name is to stand, or other text. -/
inductive StubPiece where
  | name (name : String)
  | text (text : String)
  deriving DecidableEq, Repr

namespace StubPiece

def spelling : StubPiece → String
  | name s | text s => s

def name? : StubPiece → Option String
  | name s => some s
  | text _ => none

/-- The pieces put together. -/
def spell (pieces : List StubPiece) : String := String.join (pieces.map spelling)

/-- The names among some pieces. -/
def names (pieces : List StubPiece) : List String := pieces.filterMap name?

section

variable (a b : List StubPiece) {α : Type} (as : List α) (f : α → List StubPiece)

@[simp] theorem spell_append : spell (a ++ b) = spell a ++ spell b := by
  rw [spell, List.map_append, String.join_append]
  rfl

@[simp] theorem spell_nil : spell [] = "" := rfl

@[simp] theorem spell_cons (p : StubPiece) : spell (p :: a) = p.spelling ++ spell a := by
  rw [spell, List.map_cons, String.join_cons]
  rfl

/-- What is written thing by thing. -/
theorem join_pieces {stub : α → String} (h : ∀ x, stub x = spell (f x)) :
    String.join (as.map stub) = spell (as.flatMap f) := by
  induction as with
  | nil => rfl
  | cons x rest ih => rw [List.map_cons, String.join_cons, h, ih, List.flatMap_cons, spell_append]

theorem join_texts (stub : α → String) :
    String.join (as.map stub) = spell (as.map fun x => text (stub x)) := by
  rw [spell, List.map_map]
  rfl

@[simp] theorem names_append : names (a ++ b) = names a ++ names b := List.filterMap_append

@[simp] theorem names_nil : names [] = [] := rfl

@[simp] theorem names_cons_name (s : String) : names (name s :: a) = s :: names a := rfl

@[simp] theorem names_cons_text (s : String) : names (text s :: a) = names a := rfl

@[simp] theorem names_texts (stub : α → String) : names (as.map fun x => text (stub x)) = [] :=
  List.filterMap_eq_nil_iff.mpr fun p hp => by
    obtain ⟨x, -, rfl⟩ := List.mem_map.mp hp
    rfl

@[simp] theorem names_flatMap : names (as.flatMap f) = as.flatMap fun x => names (f x) :=
  List.filterMap_flatMap

end

end StubPiece

/-! ## The pieces of a file -/

section

open StubPiece

def constructorPieces (s : StructBinding) : List StubPiece :=
  [text "---@field ", name s.scriptName, text (" fun(t?: table): " ++ s.metatable ++ "\n")]

/-- A name with its value, between other text. -/
def memberPieces (before after : String) (m : ConstMember) : List StubPiece :=
  [text before, name m.name, text (" = " ++ toString m.value ++ after)]

def enumPieces (module : String) (e : EnumBinding) : List StubPiece :=
  [text ("---@enum " ++ module ++ "."), name e.scriptName, text ("\n" ++ module ++ "."),
    name e.scriptName, text " = \x7b\n"] ++
  e.members.flatMap (memberPieces "    " ",\n") ++ [text "\x7d\n\n"]

def constPieces (module : String) (c : ConstBinding) : List StubPiece :=
  c.members.flatMap (memberPieces (module ++ ".") "\n") ++ [text "\n"]

def argPieces (a : ScriptArg) : List StubPiece :=
  [text "---@param ", name (argName a.name),
    text ((if a.optional then "?" else "") ++ " " ++ a.luaType ++ "\n")]

/-- A function under the one of its names that a script can write. -/
def functionPieces (module : String) (f : FunctionBinding) : List StubPiece :=
  f.args.flatMap argPieces ++ f.results.map (fun r => text (resultStub r)) ++
  [text ("function " ++ module ++ "."), name (argName f.names.scriptName), text "("] ++
  (f.args.map fun a => name (argName a.name)).intersperse (text ", ") ++ [text ") end\n\n"]

/-- The pieces of the stub file of a module. -/
def stubPieces (n : Naming) (b : Bindings) : List StubPiece :=
  [text ("---@meta\n\n" ++ stubLine ["---@class ", n.module])] ++
  b.structs.flatMap constructorPieces ++
  [text (stubLine ["local ", n.module, " = \x7b\x7d\n"])] ++
  b.structs.map (fun s => text (structStub s)) ++
  b.enums.flatMap (enumPieces n.module) ++
  b.consts.flatMap (constPieces n.module) ++
  b.functions.flatMap (functionPieces n.module) ++
  [text (stubLine ["return ", n.module])]

end

/-! ## Put together -/

open StubPiece

theorem constructorStub_pieces (s : StructBinding) :
    stubLine ["---@field ", s.scriptName, " fun(t?: table): ", s.metatable] =
      spell (constructorPieces s) := by
  simp [constructorPieces, stubLine, spelling, String.append_assoc]

theorem enumStub_pieces (module : String) (e : EnumBinding) :
    enumStub module e = spell (enumPieces module e) := by
  have hmembers := join_pieces e.members (memberPieces "    " ",\n")
    fun m => show stubLine ["    ", m.name, " = ", toString m.value, ","] = _ by
      simp [memberPieces, stubLine, spelling, String.append_assoc]
  rw [enumStub, hmembers]
  simp [enumPieces, stubLine, spelling, String.append_assoc]

theorem constStub_pieces (module : String) (c : ConstBinding) :
    constStub module c = spell (constPieces module c) := by
  have hmembers := join_pieces c.members (memberPieces (module ++ ".") "\n")
    fun m => show stubLine [module, ".", m.name, " = ", toString m.value] = _ by
      simp [memberPieces, stubLine, spelling, String.append_assoc]
  rw [constStub, hmembers]
  simp [constPieces, spelling]

theorem argStub_pieces (a : ScriptArg) : argStub a = spell (argPieces a) := by
  simp [argStub, argPieces, stubLine, spelling, String.append_assoc]

/-- Names with a separator between them. -/
theorem spell_intersperse (sep : String) (names : List String) :
    spell ((names.map name).intersperse (text sep)) = sep.intercalate names := by
  induction names with
  | nil => rfl
  | cons first rest ih =>
    cases rest with
    | nil => simp [spelling]
    | cons second others =>
      rw [List.map_cons] at ih
      rw [List.map_cons, List.map_cons, List.intersperse_cons_cons, spell_cons, spell_cons, ih,
        String.intercalate_cons_cons, String.append_assoc]
      rfl

theorem functionStub_pieces (module : String) (f : FunctionBinding) :
    functionStub module f (argName f.names.scriptName) = spell (functionPieces module f) := by
  have hargs := join_pieces f.args argPieces argStub_pieces
  have hresults := join_texts f.results resultStub
  have hparams : ", ".intercalate (f.args.map fun a => argName a.name) =
      spell ((f.args.map fun a => name (argName a.name)).intersperse (text ", ")) := by
    rw [← spell_intersperse, List.map_map]
    rfl
  simp [functionStub, functionPieces, stubLine, spelling, hargs, hresults, hparams,
    String.append_assoc]

/-- **The pieces are the file.** -/
theorem renderStubs_pieces (n : Naming) (b : Bindings) :
    renderStubs n b = spell (stubPieces n b) := by
  have hstructs := join_pieces b.structs constructorPieces constructorStub_pieces
  have hclasses := join_texts b.structs structStub
  have henums := join_pieces b.enums (enumPieces n.module) (enumStub_pieces n.module)
  have hconsts := join_pieces b.consts (constPieces n.module) (constStub_pieces n.module)
  have hfunctions : String.join (b.functions.flatMap fun f =>
        ((n.registeredNames f.names.scriptName).filter (!isScriptKeyword ·)).map
          (functionStub n.module f)) =
      spell (b.functions.flatMap (functionPieces n.module)) := by
    simp only [usable_registeredNames, List.map_cons, List.map_nil, functionStub_pieces,
      ← List.map_eq_flatMap]
    exact join_pieces b.functions _ fun _ => rfl
  unfold renderStubs
  dsimp only
  rw [hstructs, hclasses, henums, hconsts, hfunctions]
  simp [stubPieces, spelling, String.append_assoc]

/-! ## The names -/

theorem names_intersperse (sep : String) (names : List String) :
    StubPiece.names ((names.map name).intersperse (text sep)) = names := by
  induction names with
  | nil => rfl
  | cons first rest ih =>
    cases rest with
    | nil => rfl
    | cons second others =>
      rw [List.map_cons] at ih
      rw [List.map_cons, List.map_cons, List.intersperse_cons_cons]
      exact congrArg (first :: ·) ih

/-- **The names in a stub file**, in the order in which they stand there. -/
theorem stubPieces_names (n : Naming) (b : Bindings) :
    StubPiece.names (stubPieces n b) =
      b.structs.map (·.scriptName) ++
      (b.enums.flatMap fun e => e.scriptName :: e.scriptName :: e.members.map (·.name)) ++
      (b.consts.flatMap fun c => c.members.map (·.name)) ++
      b.functions.flatMap fun f => f.args.map (fun a => argName a.name) ++
        argName f.names.scriptName :: f.args.map fun a => argName a.name := by
  have hparams (args : List ScriptArg) :
      StubPiece.names ((args.map fun a => name (argName a.name)).intersperse (text ", ")) =
        args.map fun a => argName a.name := by
    rw [← names_intersperse ", " (args.map fun a => argName a.name), List.map_map]
    rfl
  simp [stubPieces, constructorPieces, enumPieces, constPieces, functionPieces, memberPieces, argPieces,
    hparams, ← List.map_eq_flatMap]

end LuaGlue
