import LuaGlue.Proofs.Code.Stack

/-!
# How high the Lua stack gets

`Code.Leaves` says where the stack is in the end, and that it is never lower on the way than at the
beginning. How high it gets on the way is told from two sides: all runs stay below a ceiling
(`Code.Climbs (Below top)`), and some run comes to a height (`Code.Reaches`). The first composes like
every climb; for the second there is one rule for each place in the code where the height may be
reached.
-/

set_option autoImplicit false

namespace LuaGlue

/-! ## Ceilings -/

/-- The call leaves at most `top` values. -/
def Below (top height : Int) (c : Call) : Prop := height + c.effect ≤ top

/-- A climb below a ceiling is below it at every point. -/
theorem Run.Climbs.below {top h h' : Int} {r : Run} (hr : r.Climbs (Below top) h h') (ht : h ≤ top)
    {calls : List Call} (hp : calls <+: r.calls) : heightAfter h calls ≤ top := by
  rcases List.eq_nil_or_concat calls with rfl | ⟨before, c, rfl⟩
  · rwa [heightAfter_nil]
  · rw [List.concat_eq_append] at hp ⊢
    have hlast := hr.each before c hp
    rw [heightAfter_append, heightAfter_cons, heightAfter_nil]
    exact hlast

namespace Code.Climbs

variable {code next yes no : Code} {top top' h h' h'' : Int}

theorem raise (hc : code.Climbs (Below top) h h') (ht : top ≤ top') :
    code.Climbs (Below top') h h' :=
  hc.mono fun _ _ hx => Int.le_trans hx ht

/-- A line that leaves the stack alone. -/
theorem pass {l : Line} (hl : l.Still h) (ht : h ≤ top) (hn : next.Climbs (Below top) h h') :
    (Code.line l next).Climbs (Below top) h h' := by
  refine line (fun r hr => ?_) hn
  obtain ⟨hleft, hcalls⟩ := hl r hr
  have := Run.Climbs.still (P := Below top) fun c hc =>
    ⟨(hcalls c hc).effect, show h + c.effect ≤ top by rw [(hcalls c hc).effect]; omega⟩
  rwa [Run.through, ← hleft] at this

/-- A call that puts one value on the stack. -/
theorem put {c : Call} (he : c.effect = 1) (ht : h + 1 ≤ top) (hn : next.Climbs (Below top) (h + 1) h') :
    (Code.line (.call c) next).Climbs (Below top) h h' :=
  call (show h + c.effect ≤ top by rw [he]; exact ht) (by rw [he]) hn

/-- A branch on a condition that leaves the stack alone. -/
theorem fork {c : Cond} (hc : c.Still h) (ht : h ≤ top) (hy : yes.Climbs (Below top) h h')
    (ho : no.Climbs (Below top) h h') (hn : next.Climbs (Below top) h' h'') :
    (Code.branch c yes no next).Climbs (Below top) h h'' :=
  branch (fun call hm => ⟨(hc call hm).effect,
    show h + call.effect ≤ top by rw [(hc call hm).effect]; omega⟩) hy ho hn

end Code.Climbs

/-! ## Heights that are reached -/

/-- Some run of the code, begun at height `h`, comes to height `top`. -/
def Code.Reaches (code : Code) (h top : Int) : Prop :=
  ∃ r calls, code.Runs r ∧ calls <+: r.calls ∧ heightAfter h calls = top

/-- What a run has called first, it has called whatever comes after it. -/
theorem Run.prefix_andThen (r r' : Run) : r.calls <+: (r.andThen r').calls := by
  cases hl : r.left with
  | true => simp [Run.andThen_of_left hl]
  | false =>
    rw [Run.andThen_of_through hl]
    exact List.prefix_append _ _

namespace Code

variable {P : Int → Call → Prop} {a b body next yes : Code} {h h' top : Int}

theorem Climbs.reaches (hc : a.Climbs P h h') : a.Reaches h h' := by
  obtain ⟨r, hr⟩ := a.exists_runs
  exact ⟨r, r.calls, hr, List.prefix_rfl, (hc r hr).ends⟩

namespace Reaches

/-- In the first of two pieces of code. -/
theorem first (ha : a.Reaches h top) (b : Code) : (a ++ b).Reaches h top := by
  obtain ⟨r, calls, hr, hp, htop⟩ := ha
  obtain ⟨r', hr'⟩ := b.exists_runs
  exact ⟨_, calls, hr.append hr', hp.trans (r.prefix_andThen r'), htop⟩

/-- In the second of two pieces of code, once the first has been gone through. -/
theorem second (ha : a.Climbs P h h') (hb : b.Reaches h' top) : (a ++ b).Reaches h top := by
  obtain ⟨r, hr⟩ := a.exists_runs
  obtain ⟨r', calls, hr', hp, htop⟩ := hb
  have hclimb := ha r hr
  refine ⟨_, r.calls ++ calls, hr.append hr', ?_, ?_⟩
  · rw [Run.andThen_of_through hclimb.through]
    exact (List.prefix_append_right_inj r.calls).mpr hp
  · rw [heightAfter_append, hclimb.ends, htop]

/-- Behind a line. -/
theorem line {l : Line} (hl : (Code.line l .done).Climbs P h h') (hn : next.Reaches h' top) :
    (Code.line l next).Reaches h top :=
  second hl hn

/-- Inside a block, whether it is a loop or not. -/
theorem block {head : Head} {ending : Ending} (hb : body.Reaches h top) (next : Code) :
    (Code.block head body ending next).Reaches h top := by
  obtain ⟨r, calls, hr, hp, htop⟩ := hb
  obtain ⟨r', hr'⟩ := next.exists_runs
  cases hh : head.isLoop with
  | true => exact ⟨_, calls, .loopAgain hh hr (.loopEnds hh hr'), hp.trans (r.prefix_andThen r'), htop⟩
  | false => exact ⟨_, calls, .block hh hr hr', hp.trans (r.prefix_andThen r'), htop⟩

/-- In the first arm of a branch, whose condition makes no call. -/
theorem arm {c : Cond} (hc : c.calls = []) (hy : yes.Reaches h top) (no next : Code) :
    (Code.branch c yes no next).Reaches h top := by
  obtain ⟨r, calls, hr, hp, htop⟩ := hy
  obtain ⟨r', hr'⟩ := next.exists_runs
  refine ⟨_, calls, .yes hr hr', ?_, htop⟩
  rw [hc, Run.andThen_of_through rfl]
  exact hp.trans (r.prefix_andThen r')

end Reaches

end Code

end LuaGlue
