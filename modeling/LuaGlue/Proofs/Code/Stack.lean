import LuaGlue.Proofs.Code.Run
import Mathlib.Algebra.Ring.Int.Defs

/-!
# The height of the Lua stack

`code.Climbs P h h'` says that every run of the code, begun at height `h`, goes through to the end of
the code and ends at height `h'`, and that each call on the way is made at a height `P` allows. Two
conditions are of use:

* `code.Leaves n` is the contract of a template: wherever it begins, it leaves `n` values more, and
  the stack is never lower in between than at the beginning.
* `Above floor` also looks at the positions a call mentions. Counted from where the code of a wrapper's
  argument begins, it says that whatever the code takes off the top it has put there itself.

There is one rule for each constructor of `Code`, and a rule for a loop: its body has to leave the
height as it was.
-/

set_option autoImplicit false

namespace LuaGlue

/-- How many values a call leaves on the stack more than there were. `keep` takes the value on top
into the keep table; all other calls that are not the API's are opaque, and so are the API calls that
marshaling makes no use of. -/
def Call.effect (c : Call) : Int :=
  match c.callee with
  | .api .pushboolean | .api .pushcfunction | .api .pushinteger | .api .pushlightuserdata
  | .api .pushnil | .api .pushnumber | .api .pushstring | .api .pushvalue
  | .api .createtable | .api .newtable | .api .newuserdata | .api .rawgeti => 1
  | .api .rawseti => -1
  | .api .pop => if c.args = [.state, .number 1] then -1 else 0
  | .support .keep => -1
  | _ => 0

/-- The height after some calls. -/
def heightAfter (h : Int) (calls : List Call) : Int := h + (calls.map Call.effect).sum

@[simp] theorem heightAfter_nil (h : Int) : heightAfter h [] = h := by simp [heightAfter]

@[simp] theorem heightAfter_cons (h : Int) (c : Call) (calls : List Call) :
    heightAfter h (c :: calls) = heightAfter (h + c.effect) calls := by
  simp only [heightAfter, List.map_cons, List.sum_cons]
  omega

theorem heightAfter_append (h : Int) (calls calls' : List Call) :
    heightAfter h (calls ++ calls') = heightAfter (heightAfter h calls) calls' := by
  simp only [heightAfter, List.map_append, List.sum_append]
  omega

/-- The run goes through, from height `h` to height `h'`, and makes each call at a height that `P`
allows. -/
structure Run.Climbs (P : Int → Call → Prop) (r : Run) (h h' : Int) : Prop where
  through : r.left = false
  ends : heightAfter h r.calls = h'
  each : ∀ calls c, calls ++ [c] <+: r.calls → P (heightAfter h calls) c

namespace Run.Climbs

variable {P Q : Int → Call → Prop} {r r' : Run} {h h' h'' : Int}

theorem mono (hr : r.Climbs P h h') (hPQ : ∀ x c, P x c → Q x c) : r.Climbs Q h h' :=
  ⟨hr.through, hr.ends, fun calls c hp => hPQ _ _ (hr.each calls c hp)⟩

theorem andThen (hr : r.Climbs P h h') (hr' : r'.Climbs P h' h'') : (r.andThen r').Climbs P h h'' := by
  rw [Run.andThen_of_through hr.through]
  refine ⟨hr'.through, ?_, ?_⟩
  · rw [heightAfter_append, hr.ends, hr'.ends]
  · intro calls c hp
    -- the call is made in the first run, or all of the first run comes before it
    have hr₁ := List.prefix_append r.calls r'.calls
    rcases List.prefix_or_prefix_of_prefix hp hr₁ with hfirst | hsecond
    · exact hr.each calls c hfirst
    · rcases List.prefix_concat_iff.mp hsecond with heq | hbefore
      · exact hr.each calls c (heq ▸ List.prefix_rfl)
      · obtain ⟨rest, rfl⟩ := hbefore
        rw [heightAfter_append, hr.ends]
        rw [List.append_assoc] at hp
        exact hr'.each rest c ((List.prefix_append_right_inj r.calls).mp hp)

/-- A way through calls that leave the stack alone. -/
theorem still {calls : List Call} (hc : ∀ c ∈ calls, c.effect = 0 ∧ P h c) :
    (Run.through calls).Climbs P h h := by
  induction calls with
  | nil =>
    exact ⟨rfl, heightAfter_nil h, fun calls c hp => absurd (List.prefix_nil.mp hp) (by simp)⟩
  | cons c rest ih =>
    obtain ⟨hzero, hP⟩ := hc c List.mem_cons_self
    have hrest := ih fun c hm => hc c (List.mem_cons_of_mem _ hm)
    have hend : h + c.effect = h := by omega
    refine ⟨rfl, ?_, fun calls c' hp => ?_⟩
    · exact (heightAfter_cons h c rest).trans (hend.symm ▸ hrest.ends)
    · cases calls with
      | nil =>
        obtain ⟨rfl, -⟩ := List.cons_prefix_cons.mp hp
        simpa using hP
      | cons d calls =>
        obtain ⟨rfl, hrest'⟩ := List.cons_prefix_cons.mp hp
        rw [heightAfter_cons, hend]
        exact hrest.each calls c' hrest'

/-- A single call. -/
theorem call {c : Call} (hP : P h c) (he : h + c.effect = h') : (Run.through [c]).Climbs P h h' := by
  refine ⟨rfl, by simpa [Run.through] using he, fun calls c' hp => ?_⟩
  cases calls with
  | nil =>
    obtain ⟨rfl, -⟩ := List.cons_prefix_cons.mp hp
    simpa using hP
  | cons d calls =>
    obtain ⟨-, hrest⟩ := List.cons_prefix_cons.mp hp
    exact absurd (List.prefix_nil.mp hrest) (by simp)

end Run.Climbs

/-- Every run of the code climbs from `h` to `h'`. -/
def Code.Climbs (P : Int → Call → Prop) (code : Code) (h h' : Int) : Prop :=
  ∀ r, code.Runs r → r.Climbs P h h'

namespace Code.Climbs

variable {P Q : Int → Call → Prop} {code next : Code} {h h' h'' : Int}

theorem mono (hc : code.Climbs P h h') (hPQ : ∀ x c, P x c → Q x c) : code.Climbs Q h h' :=
  fun r hr => (hc r hr).mono hPQ

theorem done : Code.done.Climbs P h h := by
  intro r hr
  cases hr
  exact .still (by simp)

theorem line {l : Line} (hl : ∀ r ∈ l.runs, r.Climbs P h h') (hn : next.Climbs P h' h'') :
    (Code.line l next).Climbs P h h'' := by
  intro r hr
  cases hr with
  | line hm hnext => exact (hl _ hm).andThen (hn _ hnext)

theorem call {c : Call} (hP : P h c) (he : h + c.effect = h') (hn : next.Climbs P h' h'') :
    (Code.line (.call c) next).Climbs P h h'' :=
  line (fun _ hr => List.mem_singleton.mp hr ▸ .call hP he) hn

theorem block {head : Head} {body : Code} {ending : Ending} (hh : head.isLoop = false)
    (hb : body.Climbs P h h') (hn : next.Climbs P h' h'') :
    (Code.block head body ending next).Climbs P h h'' := by
  intro r hr
  cases hr with
  | block _ hbody hnext => exact (hb _ hbody).andThen (hn _ hnext)
  | loopEnds hl _ | loopAgain hl _ _ => rw [hh] at hl; cases hl

/-- A loop keeps the height that its body keeps. -/
theorem loop {head : Head} {body : Code} {ending : Ending} (hh : head.isLoop = true)
    (hb : body.Climbs P h h) (hn : next.Climbs P h h') :
    (Code.block head body ending next).Climbs P h h' := by
  intro r hr
  -- by induction on the run, since a run of a loop contains a run of the same loop
  generalize hc : Code.block head body ending next = code at hr
  induction hr with
  | done | line _ _ | yes _ _ | no _ _ => cases hc
  | block hl _ _ => cases hc; rw [hh] at hl; cases hl
  | loopEnds _ hnext => cases hc; exact hn _ hnext
  | loopAgain _ hbody _ _ ih => cases hc; exact (hb _ hbody).andThen (ih rfl)

theorem branch {c : Cond} {yes no : Code} (hc : ∀ call ∈ c.calls, call.effect = 0 ∧ P h call)
    (hy : yes.Climbs P h h') (ho : no.Climbs P h h') (hn : next.Climbs P h' h'') :
    (Code.branch c yes no next).Climbs P h h'' := by
  intro r hr
  cases hr with
  | yes hyes hnext => exact (Run.Climbs.still hc).andThen ((hy _ hyes).andThen (hn _ hnext))
  | no hno hnext => exact (Run.Climbs.still hc).andThen ((ho _ hno).andThen (hn _ hnext))

theorem append {a b : Code} (ha : a.Climbs P h h') (hb : b.Climbs P h' h'') :
    (a ++ b).Climbs P h h'' := by
  intro r hr
  obtain ⟨r₁, r₂, h₁, h₂, rfl⟩ := Code.runs_append hr
  exact (ha _ h₁).andThen (hb _ h₂)

/-- The same climb counted from `k` values further down. -/
theorem shift (hc : code.Climbs P h h') (k : Int) (hPQ : ∀ x c, P x c → Q (x - k) c) :
    code.Climbs Q (h - k) (h' - k) := by
  have hmove : ∀ calls, heightAfter (h - k) calls = heightAfter h calls - k := by
    intro calls
    simp only [heightAfter]
    omega
  intro r hr
  have hclimb := hc r hr
  refine ⟨hclimb.through, ?_, fun calls c hp => ?_⟩
  · rw [hmove, hclimb.ends]
  · rw [hmove]
    exact hPQ _ _ (hclimb.each calls c hp)

end Code.Climbs

/-! ## The two conditions -/

/-- On every path the code goes through, leaves `n` values more on the stack, and never goes below
the height it begins at, from which heights are counted. -/
def Code.Leaves (code : Code) (n : Int) : Prop :=
  code.Climbs (fun height c => 0 ≤ height + c.effect) 0 n

/-- How many values have to be on the stack for a position to be one of them, as far as it is counted
from the top. -/
def StackIndex.depth : StackIndex → Int
  | .top => 1
  | .belowTop => 2
  | .slot _ | .held _ => 0

theorem StackIndex.depth_nonneg (i : StackIndex) : 0 ≤ i.depth := by
  cases i <;> simp [StackIndex.depth]

/-- The call leaves at least `floor` values, and the positions from the top that it mentions are
filled. -/
structure Above (floor : Int) (height : Int) (c : Call) : Prop where
  floor_le : floor ≤ height + c.effect
  filled : ∀ i, Arg.at i ∈ c.args → i.depth ≤ height

theorem Code.Climbs.leaves {code : Code} {h h' : Int} (hc : code.Climbs (Above h) h h') :
    code.Leaves (h' - h) := by
  have := hc.shift (Q := fun height c => 0 ≤ height + c.effect) h fun x c hx => by
    have := hx.floor_le
    omega
  rwa [Int.sub_self] at this

theorem Code.Climbs.lower {code : Code} {floor floor' h h' : Int} (hf : floor ≤ floor')
    (hc : code.Climbs (Above floor') h h') : code.Climbs (Above floor) h h' :=
  hc.mono fun _ _ hx => ⟨Int.le_trans hf hx.floor_le, hx.filled⟩

theorem Code.Leaves.append {a b : Code} {n k : Int} (ha : a.Leaves n) (hb : b.Leaves k)
    (hn : 0 ≤ n) : (a ++ b).Leaves (n + k) := by
  have := Code.Climbs.shift hb (Q := fun height c => 0 ≤ height + c.effect) (-n)
    fun x c hx => by omega
  refine Code.Climbs.append ha ?_
  rwa [show 0 - -n = n by omega, show k - -n = n + k by omega] at this

/-! ## Lines that leave the stack alone -/

/-- A call that leaves the stack alone and finds the positions it mentions filled, at height `h`. -/
structure Call.Still (h : Int) (c : Call) : Prop where
  effect : c.effect = 0
  filled : ∀ i, Arg.at i ∈ c.args → i.depth ≤ h

/-- The same of every call that evaluates an expression. -/
def Expr.Still (h : Int) (e : Expr) : Prop := ∀ calls ∈ e.ways, ∀ c ∈ calls, c.Still h

/-- The same of every call that decides a condition. -/
def Cond.Still (h : Int) (c : Cond) : Prop := ∀ call ∈ c.calls, call.Still h

/-- A line that goes through, of such calls. -/
def Line.Still (h : Int) (l : Line) : Prop :=
  ∀ r ∈ l.runs, r.left = false ∧ ∀ c ∈ r.calls, c.Still h

variable {h : Int}

theorem Expr.Still.call {c : Call} (hc : c.Still h) : (Expr.call c).Still h := by
  simpa [Expr.Still, Expr.ways] using hc

theorem Expr.Still.value (p : Place) : (Expr.value p).Still h := by simp [Expr.Still, Expr.ways]

theorem Expr.Still.text (s : String) : (Expr.text s).Still h := by simp [Expr.Still, Expr.ways]

theorem Expr.Still.address (name : String) : (Expr.address name).Still h := by
  simp [Expr.Still, Expr.ways]

theorem Expr.Still.cast {type : String} {e : Expr} (he : e.Still h) : (Expr.cast type e).Still h := he

theorem Expr.Still.choose {c : Cond} {yes no : Expr} (hc : c.Still h) (hy : yes.Still h)
    (ho : no.Still h) : (Expr.choose c yes no).Still h := by
  intro calls hm
  obtain ⟨arm, harm, rfl⟩ := List.mem_map.mp hm
  have harms : ∀ call ∈ arm, call.Still h :=
    (List.mem_append.mp harm).elim (hy arm) (ho arm)
  exact fun call hcall => (List.mem_append.mp hcall).elim (hc call) (harms call)

theorem Line.Still.assign {p : Place} {e : Expr} (he : e.Still h) : (Line.assign p e).Still h := by
  intro r hr
  obtain ⟨calls, hc, rfl⟩ := List.mem_map.mp hr
  exact ⟨rfl, he calls hc⟩

theorem Line.Still.declare {x : Local} {e : Expr} (he : e.Still h) : (Line.declare x e).Still h := by
  intro r hr
  obtain ⟨calls, hc, rfl⟩ := List.mem_map.mp hr
  exact ⟨rfl, he calls hc⟩

theorem Line.Still.call {c : Call} (hc : c.Still h) : (Line.call c).Still h := by
  simpa [Line.Still, Line.runs, Run.through] using hc

theorem Line.Still.discard {c : Call} (hc : c.Still h) : (Line.discard c).Still h := by
  simpa [Line.Still, Line.runs, Run.through] using hc

theorem Line.Still.onlyIf {c : Cond} {l : Line} (hc : c.Still h) (hl : l.Still h) :
    (Line.onlyIf c l).Still h := by
  intro r hr
  rcases List.mem_cons.mp hr with rfl | hr
  · exact ⟨rfl, hc⟩
  · obtain ⟨r', hr', rfl⟩ := List.mem_map.mp hr
    obtain ⟨hleft, hcalls⟩ := hl r' hr'
    exact ⟨hleft, fun call hm => (List.mem_append.mp hm).elim (hc call) (hcalls call)⟩

/-- Lines without calls are still. -/
theorem Line.Still.of_runs {l : Line} (hl : l.runs = [.through []]) : l.Still h := by
  intro r hr
  rw [hl, List.mem_singleton] at hr
  subst hr
  exact ⟨rfl, by simp [Run.through]⟩

theorem Call.Still.above {c : Call} {floor : Int} (hc : c.Still h) (hf : floor ≤ h) :
    c.effect = 0 ∧ Above floor h c :=
  ⟨hc.effect, by rw [hc.effect]; omega, hc.filled⟩

namespace Code.Climbs

theorem still {l : Line} {next : Code} {floor h' : Int} (hl : l.Still h) (hf : floor ≤ h)
    (hn : next.Climbs (Above floor) h h') : (Code.line l next).Climbs (Above floor) h h' := by
  refine line (fun r hr => ?_) hn
  obtain ⟨hleft, hcalls⟩ := hl r hr
  have := Run.Climbs.still fun c hc => (hcalls c hc).above hf
  rwa [Run.through, ← hleft] at this

theorem ofLines {ls : List Line} {floor : Int} (hls : ∀ l ∈ ls, l.Still h) (hf : floor ≤ h) :
    (Code.ofLines ls).Climbs (Above floor) h h := by
  induction ls with
  | nil => exact done
  | cons l rest ih =>
    exact still (hls l List.mem_cons_self) hf (ih fun l hm => hls l (List.mem_cons_of_mem _ hm))

theorem branchStill {c : Cond} {yes no next : Code} {floor h' h'' : Int} (hc : c.Still h)
    (hf : floor ≤ h) (hy : yes.Climbs (Above floor) h h') (ho : no.Climbs (Above floor) h h')
    (hn : next.Climbs (Above floor) h' h'') :
    (Code.branch c yes no next).Climbs (Above floor) h h'' :=
  branch (fun call hm => (hc call hm).above hf) hy ho hn

end Code.Climbs

end LuaGlue
