import LuaGlue.Marshal.Basic
import LuaGlue.Proofs.Code.Calls

/-!
# The scope of the keep table

The keep table's position is in the local `keep`. Code that hands it on has to stand where the local
is declared: after its declaration, in the same block or in a block inside. `Code.keepInScope` checks
just that.
-/

set_option autoImplicit false

namespace LuaGlue

/-- Hands the local `keep` to a converter or to the function that adds to the keep table. -/
def Call.passesKeep (c : Call) : Bool :=
  match c.callee with
  | .generated (.converter _) | .support .keep =>
    c.args.contains (.value (.name keepLocal)) || c.args.contains (.at (.held keepLocal))
  | _ => false

/-- `int keep = lua_gettop(L);` -/
def Line.declaresKeep (l : Line) : Bool :=
  l == .declare (.plain "int" keepLocal) (.call (Api.gettop.on []))

/-- Whether `keep` is handed on only where it is declared; `declared` says whether it is at the
beginning. -/
def Code.keepInScope (declared : Bool) : Code → Bool
  | .done => true
  | .line l next =>
    (declared || !l.calls.any Call.passesKeep) && next.keepInScope (declared || l.declaresKeep)
  | .block _ body _ next => body.keepInScope declared && next.keepInScope declared
  | .branch c yes no next =>
    (declared || !c.calls.any Call.passesKeep) && yes.keepInScope declared &&
      no.keepInScope declared && next.keepInScope declared

namespace Code

/-- Whether there is a call in the code that hands `keep` on. -/
def passesKeep (code : Code) : Bool := code.calls.any Call.passesKeep

section

variable {l : Line} {head : Head} {ending : Ending} {c : Cond} {a b next yes no : Code}

@[simp] theorem passesKeep_done : done.passesKeep = false := rfl

@[simp] theorem passesKeep_line :
    (line l next).passesKeep = (l.calls.any Call.passesKeep || next.passesKeep) := List.any_append

@[simp] theorem passesKeep_block :
    (block head a ending next).passesKeep = (a.passesKeep || next.passesKeep) := List.any_append

@[simp] theorem passesKeep_branch :
    (branch c yes no next).passesKeep =
      (c.calls.any Call.passesKeep || (yes.passesKeep || (no.passesKeep || next.passesKeep))) := by
  simp only [passesKeep, calls, List.any_append]

@[simp] theorem passesKeep_append : (a ++ b).passesKeep = (a.passesKeep || b.passesKeep) := by
  simp only [passesKeep, calls_append, List.any_append]

end

/-- Code that calls nothing but the API hands nothing on. -/
theorem All.passesKeep_eq_false {code : Code} (h : code.All fun c => c.isApi = true) :
    code.passesKeep = false := by
  refine List.any_eq_false.mpr fun c hc hkeep => ?_
  have hapi : c.isApi = true := h c hc
  unfold Call.isApi at hapi
  unfold Call.passesKeep at hkeep
  split at hapi <;> simp_all

/-- Once `keep` is declared, nothing can go wrong. -/
theorem keepInScope_declared (code : Code) : code.keepInScope true = true := by
  induction code with
  | done => rfl
  | line l next ih => simp [keepInScope, ih]
  | block head body ending next ihb ih => simp [keepInScope, ihb, ih]
  | branch c yes no next ihy iho ih => simp [keepInScope, ihy, iho, ih]

/-- Code that does not ask for the height of the stack declares no `keep`. -/
def AsksNoHeight (code : Code) : Prop := code.All fun c => c ≠ Api.gettop.on []

theorem All.asksNoHeight {code : Code} (h : code.All fun c => c.isPlain = true) :
    code.AsksNoHeight := by
  refine h.mono fun c hc => ?_
  rintro rfl
  exact absurd hc (by decide)

/-- Code that does not declare `keep` itself, and stands where it is not declared, must not hand it
on. -/
theorem keepInScope_eq {code : Code} (h : code.AsksNoHeight) :
    code.keepInScope false = !code.passesKeep := by
  induction code with
  | done => rfl
  | line l next ih =>
    -- only a line that asks for the height can declare `keep`
    have hdeclares : l.declaresKeep = false := by
      unfold Line.declaresKeep
      rw [beq_eq_false_iff_ne]
      rintro rfl
      exact h (Api.gettop.on []) List.mem_cons_self rfl
    have hnext := ih fun c hc => h c (List.mem_append_right _ hc)
    rw [keepInScope, hdeclares, Bool.false_or, Bool.false_or, hnext, passesKeep_line, Bool.not_or]
  | block head body ending next ihb ih =>
    have hbody := ihb fun c hc => h c (List.mem_append_left _ hc)
    have hnext := ih fun c hc => h c (List.mem_append_right _ hc)
    rw [keepInScope, hbody, hnext, passesKeep_block, Bool.not_or]
  | branch c yes no next ihy iho ih =>
    have hyes := ihy fun c' hc => h c' (List.mem_append_right _ (List.mem_append_left _ hc))
    have hno := iho fun c' hc =>
      h c' (List.mem_append_right _ (List.mem_append_right _ (List.mem_append_left _ hc)))
    have hnext := ih fun c' hc =>
      h c' (List.mem_append_right _ (List.mem_append_right _ (List.mem_append_right _ hc)))
    simp only [keepInScope, hyes, hno, hnext, passesKeep_branch, Bool.false_or, Bool.not_or,
      Bool.and_assoc]

/-- Where the keep table is put on the stack first, everything after it may use it. -/
theorem keepInScope_keepTable (before : List Line)
    (hb : ∀ l ∈ before, ∀ c ∈ l.calls, c.passesKeep = false) (code : Code) :
    (ofLines (before ++ keepTable) ++ code).keepInScope false = true := by
  induction before with
  | nil =>
    have hdeclares : Line.declaresKeep
        (.declare (.plain "int" keepLocal) (.call (Api.gettop.on []))) = true := by decide
    have hnew : (Api.newtable.on []).passesKeep = false := rfl
    have hask : (Api.gettop.on []).passesKeep = false := rfl
    simp [keepTable, ofLines, keepInScope, hdeclares, hnew, hask, keepInScope_declared, Line.calls,
      Expr.calls]
  | cons l rest ih =>
    have hl : l.calls.any Call.passesKeep = false := by
      simpa using hb l List.mem_cons_self
    have hrest := ih fun l hm => hb l (List.mem_cons_of_mem _ hm)
    simp only [List.cons_append, ofLines, line_append, keepInScope, hl, Bool.not_false, Bool.or_true,
      Bool.true_and, Bool.false_or]
    cases l.declaresKeep with
    | true => exact keepInScope_declared _
    | false => exact hrest

end Code

end LuaGlue
