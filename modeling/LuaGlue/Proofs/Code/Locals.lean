import LuaGlue.Code.Basic

/-!
# Variables of code

What code declares: the locals of its own scope (`Code.locals`), and all variables at any depth, those that loops
count with included (`Code.declared`). What a local is declared with is `Code.Introduces`.
-/

set_option autoImplicit false

namespace LuaGlue

/-! ## Locals -/

/-- The local that a line declares. -/
def Line.local? : Line → Option String
  | .declare x _ => some x.name
  | _ => none

/-- The locals that code declares, but not those that are local to a block or a branch of it. -/
def Code.locals : Code → List String
  | .done => []
  | .line l next => l.local?.toList ++ next.locals
  | .block _ _ _ next | .branch _ _ _ next => next.locals

/-- The locals of the function that code begins with the definition of. -/
def Code.bodyLocals : Code → List String
  | .block _ body _ _ => body.locals
  | _ => []

namespace Code

@[simp] theorem locals_done : done.locals = [] := rfl

@[simp] theorem locals_line (l : Line) (next : Code) :
    (line l next).locals = l.local?.toList ++ next.locals := rfl

@[simp] theorem locals_block (head : Head) (body : Code) (ending : Ending) (next : Code) :
    (block head body ending next).locals = next.locals := rfl

@[simp] theorem locals_branch (c : Cond) (yes no next : Code) :
    (branch c yes no next).locals = next.locals := rfl

@[simp] theorem locals_blockOf (head : Head) (body : Code) : (blockOf head body).locals = [] := rfl

@[simp] theorem locals_branchOf (c : Cond) (yes no : Code) : (branchOf c yes no).locals = [] := rfl

@[simp] theorem locals_append (a b : Code) : (a ++ b).locals = a.locals ++ b.locals := by
  induction a with
  | done => rfl
  | line l next ih => simp [ih]
  | block head body ending next _ ih => exact ih
  | branch c yes no next _ _ ih => exact ih

@[simp] theorem locals_seq (codes : List Code) : (seq codes).locals = codes.flatMap locals := by
  induction codes with
  | nil => rfl
  | cons c rest ih => rw [seq, locals_append, ih, List.flatMap_cons]

@[simp] theorem locals_ofLines (ls : List Line) : (ofLines ls).locals = ls.filterMap Line.local? := by
  induction ls with
  | nil => rfl
  | cons l rest ih =>
    rw [ofLines, locals_line, ih]
    cases h : l.local? <;> simp [h]

end Code

@[simp] theorem Line.local?_declare (x : Local) (e : Expr) : (Line.declare x e).local? = some x.name := rfl

/-! ## Variables at any depth -/

/-- The variable that a loop counts with. -/
def Head.counter? : Head → Option String
  | .count _ v _ => some v
  | _ => none

/-- The variables that code declares, at any depth. -/
def Code.declared : Code → List String
  | .done => []
  | .line l next => l.local?.toList ++ next.declared
  | .block head body _ next => head.counter?.toList ++ (body.declared ++ next.declared)
  | .branch _ yes no next => yes.declared ++ (no.declared ++ next.declared)

namespace Code

@[simp] theorem declared_done : done.declared = [] := rfl

@[simp] theorem declared_line (l : Line) (next : Code) :
    (line l next).declared = l.local?.toList ++ next.declared := rfl

@[simp] theorem declared_blockOf (head : Head) (body : Code) :
    (blockOf head body).declared = head.counter?.toList ++ body.declared := by
  rw [blockOf, declared, declared_done, List.append_nil]

@[simp] theorem declared_branchOf (c : Cond) (yes no : Code) :
    (branchOf c yes no).declared = yes.declared ++ no.declared := by
  rw [branchOf, declared, declared_done, List.append_nil]

@[simp] theorem declared_append (a b : Code) : (a ++ b).declared = a.declared ++ b.declared := by
  induction a with
  | done => rfl
  | line l next ih => simp [ih]
  | block head body ending next _ ih => simp [declared, ih]
  | branch c yes no next _ _ ih => simp [declared, ih]

@[simp] theorem declared_ofLines (ls : List Line) : (ofLines ls).declared = ls.filterMap Line.local? := by
  induction ls with
  | nil => rfl
  | cons l rest ih =>
    rw [ofLines, declared_line, ih]
    cases h : l.local? <;> simp [h]

end Code

/-! ## What locals are declared with -/

/-- At some depth, the code declares the local, and with that value. -/
def Code.Introduces (x : Local) (e : Expr) : Code → Prop
  | .done => False
  | .line l next => l = .declare x e ∨ next.Introduces x e
  | .block _ body _ next => body.Introduces x e ∨ next.Introduces x e
  | .branch _ yes no next => yes.Introduces x e ∨ no.Introduces x e ∨ next.Introduces x e

namespace Code

section

variable {x : Local} {e : Expr} {a b next : Code}

@[simp] theorem introduces_done : ¬ done.Introduces x e := id

@[simp] theorem introduces_line {l : Line} :
    (line l next).Introduces x e ↔ l = .declare x e ∨ next.Introduces x e := Iff.rfl

@[simp] theorem introduces_blockOf {head : Head} : (blockOf head a).Introduces x e ↔ a.Introduces x e := by
  rw [blockOf, Introduces, or_iff_left introduces_done]

@[simp] theorem introduces_branchOf {c : Cond} :
    (branchOf c a b).Introduces x e ↔ a.Introduces x e ∨ b.Introduces x e := by
  rw [branchOf, Introduces, or_iff_left introduces_done]

@[simp] theorem introduces_append : (a ++ b).Introduces x e ↔ a.Introduces x e ∨ b.Introduces x e := by
  induction a with
  | done => simp
  | line l next ih => simp [ih, or_assoc]
  | block head body ending next _ ih => simp only [block_append, Introduces, ih, or_assoc]
  | branch c yes no next _ _ ih => simp only [branch_append, Introduces, ih, or_assoc]

end

end Code

end LuaGlue
