import LuaGlue.Code.Basic

/-!
# Runs of generated code

A run of a piece of code is the list of calls it makes, in order, together with whether it leaves
the function. Nothing decides a condition: both arms of a branch are runs of it, and a loop is run
any number of times. So what holds of every run holds of every path through the text, whatever the
opaque parts of the text evaluate to.

Runs compose (`Run.andThen`): after a run that has left the function there is nothing more. The
rules of `Code.Runs` follow the constructors of `Code`, and `Code.runs_append` is the one fact that
does not.
-/

set_option autoImplicit false

namespace LuaGlue

/-- The calls made on the way, and whether the way has left the function. -/
structure Run where
  calls : List Call
  left : Bool
  deriving DecidableEq, Repr

namespace Run

/-- A run that goes on behind its code. -/
def through (calls : List Call) : Run := ⟨calls, false⟩

/-- One run after another, unless the first one has left the function. -/
def andThen (r r' : Run) : Run := if r.left then r else ⟨r.calls ++ r'.calls, r'.left⟩

@[simp] theorem andThen_of_left {r : Run} (h : r.left = true) (r' : Run) : r.andThen r' = r := by
  simp [andThen, h]

@[simp] theorem andThen_of_through {r : Run} (h : r.left = false) (r' : Run) :
    r.andThen r' = ⟨r.calls ++ r'.calls, r'.left⟩ := by
  simp [andThen, h]

theorem andThen_assoc (r₁ r₂ r₃ : Run) :
    (r₁.andThen r₂).andThen r₃ = r₁.andThen (r₂.andThen r₃) := by
  cases h₁ : r₁.left with
  | true => simp [h₁]
  | false =>
    cases h₂ : r₂.left with
    | true => simp [andThen, h₁, h₂]
    | false => simp [andThen, h₁, h₂]

end Run

/-! ## Expressions and lines -/

/-- The calls a condition makes. -/
def Cond.calls : Cond → List Call
  | .holds c | .fails c => [c]
  | .isString i => [Api.on .type [.at i]]
  | .callFails nargs nresults => [Api.on .pcall [.number nargs, .number nresults, .number 0]]
  | .notNull .. | .isNull .. | .keyIs _ | .owns _ | .text _ => []

/-- The calls an expression makes, one list for each way to evaluate it. -/
def Expr.ways : Expr → List (List Call)
  | .call c => [[c]]
  | .cast _ e | .target e => e.ways
  | .choose c yes no => (yes.ways ++ no.ways).map (c.calls ++ ·)
  | .value _ | .address _ | .entry .. | .text _ => [[]]

/-- The runs of a line. -/
def Line.runs : Line → List Run
  | .call c | .discard c => [.through [c]]
  | .assign _ e | .declare _ e => e.ways.map .through
  | .onlyIf c l => .through c.calls :: l.runs.map (Run.through c.calls).andThen
  | .ret e => e.ways.map (⟨·, true⟩)
  | .retVoid => [⟨[], true⟩]
  | .unused _ | .disown _ | .prototype .. | .functionType .. | .item _ | .registration ..
  | .placeholder _ | .directive _ | .blank | .text _ => [.through []]

/-! ## Code -/

/-- Whether a block is a loop. -/
def Head.isLoop : Head → Bool
  | .count .. => true
  | .bare | .define .. | .table .. | .text _ => false

/-- `code.Runs r`: `r` is a run of the code and of what comes after it in the same block. -/
inductive Code.Runs : Code → Run → Prop where
  | done : Runs .done (.through [])
  | line {l next r r'} (hl : r ∈ l.runs) (hn : Runs next r') : Runs (.line l next) (r.andThen r')
  | block {head body ending next r r'} (hh : head.isLoop = false) (hb : Runs body r)
      (hn : Runs next r') : Runs (.block head body ending next) (r.andThen r')
  | loopEnds {head body ending next r} (hh : head.isLoop = true) (hn : Runs next r) :
      Runs (.block head body ending next) r
  | loopAgain {head body ending next r r'} (hh : head.isLoop = true) (hb : Runs body r)
      (hl : Runs (.block head body ending next) r') :
      Runs (.block head body ending next) (r.andThen r')
  | yes {c yes no next r r'} (hy : Runs yes r) (hn : Runs next r') :
      Runs (.branch c yes no next) ((Run.through c.calls).andThen (r.andThen r'))
  | no {c yes no next r r'} (ho : Runs no r) (hn : Runs next r') :
      Runs (.branch c yes no next) ((Run.through c.calls).andThen (r.andThen r'))

theorem Expr.ways_ne_nil (e : Expr) : e.ways ≠ [] := by
  induction e with
  | cast _ e ih | target e ih => exact ih
  | choose c yes no ihy _ => simp [Expr.ways, ihy]
  | value _ | call _ | address _ | entry _ _ | text _ => simp [Expr.ways]

theorem Line.runs_ne_nil (l : Line) : l.runs ≠ [] := by
  cases l with
  | assign p e | declare x e | ret e => simp [Line.runs, e.ways_ne_nil]
  | _ => simp [Line.runs]

namespace Code

/-- There is always a way through. -/
theorem exists_runs (code : Code) : ∃ r, code.Runs r := by
  induction code with
  | done => exact ⟨_, .done⟩
  | line l next ih =>
    obtain ⟨r', hn⟩ := ih
    obtain ⟨r, hl⟩ := List.exists_mem_of_ne_nil _ l.runs_ne_nil
    exact ⟨_, .line hl hn⟩
  | block head body ending next ihb ih =>
    obtain ⟨r, hb⟩ := ihb
    obtain ⟨r', hn⟩ := ih
    cases hh : head.isLoop with
    | true => exact ⟨_, .loopAgain hh hb (.loopEnds hh hn)⟩
    | false => exact ⟨_, .block hh hb hn⟩
  | branch c yes no next ihy _ ih =>
    obtain ⟨r, hy⟩ := ihy
    obtain ⟨r', hn⟩ := ih
    exact ⟨_, .yes hy hn⟩

/-- If the code after a block comes in two pieces, so do the runs of the block and of that code. The
induction is on the run, because a loop runs its own block again. -/
private theorem runs_block_append {head : Head} {body next b : Code} {ending : Ending} {r : Run}
    (h : (block head body ending (next ++ b)).Runs r)
    (hn : ∀ {r}, (next ++ b).Runs r → ∃ r₁ r₂, next.Runs r₁ ∧ b.Runs r₂ ∧ r = r₁.andThen r₂) :
    ∃ r₁ r₂, (block head body ending next).Runs r₁ ∧ b.Runs r₂ ∧ r = r₁.andThen r₂ := by
  generalize hc : block head body ending (next ++ b) = code at h
  induction h with
  | done | line _ _ | yes _ _ | no _ _ => cases hc
  | block hh hb hrest =>
    cases hc
    obtain ⟨r₁, r₂, h₁, h₂, rfl⟩ := hn hrest
    exact ⟨_, r₂, .block hh hb h₁, h₂, (Run.andThen_assoc _ _ _).symm⟩
  | loopEnds hh hrest =>
    cases hc
    obtain ⟨r₁, r₂, h₁, h₂, rfl⟩ := hn hrest
    exact ⟨r₁, r₂, .loopEnds hh h₁, h₂, rfl⟩
  | loopAgain hh hb _ _ ih =>
    cases hc
    obtain ⟨r₁, r₂, h₁, h₂, rfl⟩ := ih rfl
    exact ⟨_, r₂, .loopAgain hh hb h₁, h₂, (Run.andThen_assoc _ _ _).symm⟩

/-- A run of two pieces of code in a row is a run of the first and then a run of the second. -/
theorem runs_append {a b : Code} :
    ∀ {r : Run}, (a ++ b).Runs r → ∃ r₁ r₂, a.Runs r₁ ∧ b.Runs r₂ ∧ r = r₁.andThen r₂ := by
  induction a with
  | done => intro r h; exact ⟨_, r, .done, h, rfl⟩
  | line l next ih =>
    intro r h
    rw [line_append] at h
    cases h with
    | line hl hn =>
      obtain ⟨r₁, r₂, h₁, h₂, rfl⟩ := ih hn
      exact ⟨_, r₂, .line hl h₁, h₂, (Run.andThen_assoc _ _ _).symm⟩
  | block head body ending next _ ih =>
    intro r h
    rw [block_append] at h
    exact runs_block_append h ih
  | branch c yes no next _ _ ih =>
    intro r h
    rw [branch_append] at h
    cases h with
    | yes hy hn =>
      obtain ⟨r₁, r₂, h₁, h₂, rfl⟩ := ih hn
      exact ⟨_, r₂, .yes hy h₁, h₂, by simp only [Run.andThen_assoc]⟩
    | no ho hn =>
      obtain ⟨r₁, r₂, h₁, h₂, rfl⟩ := ih hn
      exact ⟨_, r₂, .no ho h₁, h₂, by simp only [Run.andThen_assoc]⟩

/-- A run of the first of two pieces of code and then a run of the second is a run of both in a row. -/
theorem Runs.append {a b : Code} {r₁ r₂ : Run} (ha : a.Runs r₁) (hb : b.Runs r₂) :
    (a ++ b).Runs (r₁.andThen r₂) := by
  induction ha with
  | done => simpa [Run.through] using hb
  | line hl _ ih =>
    rw [Run.andThen_assoc]
    exact .line hl ih
  | block hh hbody _ _ ih =>
    rw [Run.andThen_assoc]
    exact .block hh hbody ih
  | loopEnds hh _ ih => exact .loopEnds hh ih
  | loopAgain hh hbody _ _ ih =>
    rw [Run.andThen_assoc]
    exact .loopAgain hh hbody ih
  | yes hy _ _ ih =>
    rw [Run.andThen_assoc, Run.andThen_assoc]
    exact .yes hy ih
  | no ho _ _ ih =>
    rw [Run.andThen_assoc, Run.andThen_assoc]
    exact .no ho ih

end Code

end LuaGlue
