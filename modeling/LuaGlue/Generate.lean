import LuaGlue.Stub.Render
import LuaGlue.CFile

/-!
# Generating a module

From an interface and a manifest to the C file, the stub file and the list of what was left out. A
run never fails: a declaration whose glue cannot be written is replaced by a comment.

Structs come first, because other code may call their constructors and converters: all bound structs
are written, those that fail are unbound, and the rest are written again, until none fails
(`settle`). Every round but the last unbinds a struct, so there are at most as many rounds as bound
structs and one more. Then the declarations are gone through in order.
-/

set_option autoImplicit false

namespace LuaGlue

/-- What a run yields. -/
structure Generated where
  code : String
  stubs : String
  problems : List Problem
  /-- How many gaps the code marks. -/
  placeholders : Nat

def Generated.hasHardProblems (g : Generated) : Bool := g.problems.any (·.fault.isHard)

/-- What a step wrote, or why it broke off, as a chunk by itself: temporaries are named from the
beginning. -/
def chunk {α : Type} (m : Draft α) : Classifying (Except Fault (α × Code)) := fun memo =>
  let (o, s) := m.run { memo := memo, temporaries := 0 }
  (o.toExcept, s.memo)

/-! ## Structs -/

/-- Bound structs that were written, and those that failed. -/
structure Settled where
  written : List (String × StructBinding × Code) := []
  failed : List (String × Fault) := []

/-- Writes the bound structs among some declarations. -/
def structRound (ctx : Context) : List StructDecl → Classifying Settled
  | [] => pure {}
  | s :: rest => do
    if !ctx.isBound s.name then structRound ctx rest
    else
      match ← chunk (bindStruct ctx s) with
      | .ok (binding, code) =>
        let r ← structRound ctx rest
        return { r with written := (s.name, binding, code) :: r.written }
      | .error fault =>
        let r ← structRound ctx rest
        return { r with failed := (s.name, fault) :: r.failed }

/-- Writes the bound structs round by round, for at most so many rounds, unbinding what fails. -/
def settleWithin : Nat → Context → List (String × Fault) → Classifying (Context × Settled)
  | 0, ctx, failed => pure (ctx, { failed := failed })
  | rounds + 1, ctx, failed => do
    let r ← structRound ctx ctx.interface.structs
    if r.failed.isEmpty then return (ctx, { r with failed := failed })
    else settleWithin rounds (ctx.unbind (r.failed.map (·.1))) (failed ++ r.failed)

/-- Writes the bound structs until none fails. -/
def settle (ctx : Context) : Classifying (Context × Settled) :=
  settleWithin (ctx.bound.length + 1) ctx []

/-! ## Declarations in order -/

/-- Whether a function gets a wrapper at all. -/
def isWrapped (m : Manifest) (f : FunctionDecl) : Bool := !m.isExcluded f.name && !f.variadic

/-- The functions that get a wrapper, with their positions. -/
def candidates (m : Manifest) (decls : List Declaration) : List Candidate :=
  decls.zipIdx.filterMap fun (d, position) =>
    match d with
    | .function f => if isWrapped m f then some ⟨position, f⟩ else none
    | _ => none

/-- What going through the declarations carries along: the pieces so far, and the names of the
structs and enums met. -/
structure Progress where
  bindings : Bindings := {}
  seen : List String := []

/-- Adds the outcome of a chunk, or leaves the declaration `name` out. -/
def Progress.conclude {α : Type} (p : Progress) (name : String)
    (record : α → Bindings → Bindings) : Except Fault (α × Code) → Progress
  | .ok (binding, code) => { p with bindings := p.bindings.add record binding code }
  | .error fault => { p with bindings := p.bindings.leaveOut name fault }

/-- Whether the name of a struct or enum was met before, and the names met then. -/
def Progress.meet (p : Progress) (name : String) : Bool × Progress :=
  (p.seen.contains name, { p with seen := name :: p.seen })

/-- Adds a struct as it was settled. A struct that is not bound adds nothing. -/
def Progress.addStruct (p : Progress) (settled : Settled) (s : StructDecl) : Progress :=
  match p.meet s.name with
  | (true, p') => p'
  | (false, p') =>
    match settled.failed.lookup s.name with
    | some fault => { p' with bindings := p'.bindings.leaveOut s.name fault }
    | none =>
      match settled.written.lookup s.name with
      | some (binding, code) =>
        { p' with bindings := p'.bindings.add Bindings.addStruct binding code }
      | none => p'

/-- Adds an enum, unless the manifest leaves it out or its name was met before. -/
def Progress.addEnum (p : Progress) (ctx : Context) (e : EnumDecl) : Classifying Progress :=
  if ctx.manifest.isExcluded e.name then pure p
  else
    match p.meet e.name with
    | (true, p') => pure p'
    | (false, p') => do
      return p'.conclude e.name Bindings.addEnum (← chunk (bindEnum ctx e))

/-- Adds the declaration at a position. -/
def Progress.addDecl (p : Progress) (ctx : Context) (settled : Settled) (plan : OverloadPlan)
    (position : Nat) : Declaration → Classifying Progress
  | .struct s => pure (p.addStruct settled s)
  | .enum e => p.addEnum ctx e
  | .consts g => do
    return p.conclude ("consts#" ++ toString position) Bindings.addConsts
      (← chunk (bindConsts ctx g position))
  | .function f =>
    match plan.names? position with
    | none => pure p
    | some (.error fault) => pure { p with bindings := p.bindings.leaveOut f.name fault }
    | some (.ok names) => do
      return p.conclude f.name Bindings.addFunction (← chunk (wrapFunction ctx f names))

/-- Adds declarations from a position on. -/
def Progress.addDecls (ctx : Context) (settled : Settled) (plan : OverloadPlan) (p : Progress)
    (position : Nat) : List Declaration → Classifying Progress
  | [] => pure p
  | d :: rest => do
    let p' ← p.addDecl ctx settled plan position d
    addDecls ctx settled plan p' (position + 1) rest

/-! ## A whole run -/

/-- The final context, the callback slots and the bindings of a run. -/
def bindAll (i : Interface) (m : Manifest) :
    Classifying (Context × List CallbackSlot × Bindings) := do
  let initial ← Context.build i m
  let (ctx, settled) ← settle initial
  let plan ← OverloadPlan.build ctx (candidates m i.decls)
  let bound := i.structs.filter fun s => (settled.written.lookup s.name).isSome
  let slots ← collectSlots ctx bound
  let p ← Progress.addDecls ctx settled plan {} 0 i.decls
  return (ctx, slots, p.bindings)

/-- Generates the module of an interface whose owned buffers are attached. -/
def generate (i : Interface) (m : Manifest) : Generated :=
  let (ctx, slots, b) := Classifying.fresh (bindAll i m)
  let file := cFile ctx slots b
  { code := file.text
    stubs := renderStubs ctx.naming b
    problems := b.problems
    placeholders := file.placeholders }

end LuaGlue
