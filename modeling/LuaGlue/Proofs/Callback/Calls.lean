import LuaGlue.Proofs.Callback.DispatcherCode
import LuaGlue.Proofs.Code.Calls
import LuaGlue.Proofs.Marshal.Positions

/-!
# What a callback calls

When native code calls a trampoline, no script function is running that a Lua error could leave. So all calls
in a callback field's code are *harmless*: of a function of the API that raises no error, of the report
of a failed closure, or of the dispatcher, whose code is part of the field's (`Dispatches.harmless`,
`poolCode_harmless`). Of the results only those are converted that are read in a single line; a converter,
which may build a userdata, is never called.
-/

set_option autoImplicit false

namespace LuaGlue

/-- A call that raises no Lua error. -/
def Call.isHarmless (c : Call) : Bool :=
  match c.callee with
  | .api f => !f.raises
  | .support f => f == .callbackError
  | .generated (.dispatcher ..) => true
  | _ => false

/-- Every call in the code is harmless. -/
abbrev Code.Harmless (code : Code) : Prop := code.All fun c => c.isHarmless = true

theorem Call.isHarmless_of_isPushing {c : Call} (h : c.isPushing = true) : c.isHarmless = true := by
  obtain ⟨callee, args⟩ := c
  cases callee with
  | api f => cases f <;> first | rfl | cases h
  | _ => cases h

theorem Code.All.seq {P : Call → Prop} {cs : List Code} (h : ∀ c ∈ cs, c.All P) : (Code.seq cs).All P := by
  induction cs with
  | nil => exact .done
  | cons c rest ih =>
    obtain ⟨hc, hrest⟩ := List.forall_mem_cons.mp h
    exact .append hc (ih hrest)

section

variable {ctx : Context} {m : Memo}

/-! ## Arguments and results -/

theorem ArgumentsPushed.harmless {i : Nat} {params : List String} {n n' : Nat} {code : Code}
    (h : ArgumentsPushed ctx m i params n code n') : code.Harmless := by
  induction h with
  | nil => exact .done
  | cons head _ ih => exact .append (head.pushing.mono fun _ => Call.isHarmless_of_isPushing) ih

theorem ReturnsZero.harmless {code : Code} (h : ReturnsZero code) : code.Harmless := by
  cases h with
  | void | literal => exact .line (by simp [Line.calls, Expr.calls]) .done
  | stored => exact .ofLines (by simp [Line.calls, Expr.calls])

/-- The results that are converted are read in a single line, which raises nothing if it is read
leniently. -/
theorem readLine?_harmless {spelling : String} {place : Place} {index : StackIndex} {c : Category}
    {l : Line} (hc : c.isCallbackResult = true)
    (hl : readLine? ctx .lenient spelling place index c = some l) :
    ∀ call ∈ l.calls, call.isHarmless = true := by
  unfold readLine? at hl
  cases c with
  | handle isConst | pointer _ isConst =>
    obtain rfl := Option.some.inj hl
    cases isConst <;>
    simp [readPointer, Line.calls, Expr.calls, Cond.calls, Api.on, Call.isHarmless, Api.raises]
  | bool | integer _ | float _ | enum _ =>
    obtain rfl := Option.some.inj hl
    simp [assignCast, Line.calls, Expr.calls, Api.on, Call.isHarmless, Api.raises,
      ReadMode.integerApi, ReadMode.numberApi]
  | _ => cases hc

theorem Reads.harmless {result : String} {category : Category} {place : Place} {index : StackIndex}
    {n n' : Nat} {code : Code} (hmemo : m.find? result = some category)
    (hc : category.isCallbackResult = true)
    (h : Reads ctx m (.value .lenient result place index) n code n') : code.Harmless := by
  cases h with
  | oneLine hfind hl =>
    obtain rfl := Option.some.inj (hmemo.symm.trans hfind)
    exact .line (readLine?_harmless hc hl) .done
  | bound hfind _ _ | «foreign» hfind _ _ _ | foreignRange hfind _ _ _ | array hfind _ _
  | tupleValue hfind _ =>
    obtain rfl := Option.some.inj (hmemo.symm.trans hfind)
    cases hc

theorem ResultAnswered.harmless {result : String} {category : Category} {code : Code}
    (hmemo : m.find? result = some category) (h : ResultAnswered ctx m result category code) :
    code.Harmless := by
  cases h with
  | converted hc inside =>
    refine .line (by simp [Line.calls, Expr.calls]) (.append (inside.harmless hmemo hc) (.ofLines ?_))
    simp [popOne, Line.calls, Expr.calls, Api.on, Call.isHarmless, Api.raises]
  | zero _ _ hz => exact hz.harmless
  | void _ => exact .done

/-! ## Dispatchers and trampolines -/

theorem Dispatches.harmless {p : DispatcherPieces} {site result : String} {category : Category}
    {params : List String} (hmemo : m.find? result = some category)
    (hd : Dispatches ctx m result category params p) :
    (p.body ctx site result category params.length).Harmless := by
  obtain ⟨n, n', harguments⟩ := hd.arguments
  have hreport (message : Arg) : ∀ c ∈ (reportFailure site message).calls, c.isHarmless = true := by
    simp [reportFailure, Line.calls, Call.isHarmless]
  have hgap : (resultGap result category).Harmless := by
    unfold resultGap
    split
    · exact .line (by simp [Line.calls]) .done
    · exact .done
  have hcalling : (p.calling ctx site result category params.length).Harmless := by
    refine .append hgap (.branch ?_ (.append (.ofLines ?_) hd.failed.harmless) .done
      (hd.answer.harmless hmemo))
    · simp [Cond.calls, Api.on, Call.isHarmless, Api.raises]
    · simp [failureLines, reportFailure, popOne, Line.calls, Expr.calls, Api.on, Call.isHarmless, Api.raises]
  refine .branch (by simp [Cond.calls]) hd.unused.harmless .done (.line (by simp [Line.calls, Expr.calls])
    (.branch ?_ (.line (hreport _) hd.overflow.harmless) .done
      (.line ?_ (.append harguments.harmless hcalling))))
  · simp [Cond.calls, Api.on, Call.isHarmless, Api.raises]
  · simp [Line.calls, Api.on, Call.isHarmless, Api.raises]

theorem trampolineCode_harmless (owner field result : String) (category : Category) (params : String)
    (nargs entry : Nat) : (trampolineCode owner field result category params nargs entry).Harmless := by
  refine .block (.line ?_ .done) .done
  split <;> simp [Line.calls, Expr.calls, Call.isHarmless]

theorem poolCode_harmless (owner field result : String) (category : Category) (params : String)
    (nargs : Nat) : (poolCode owner field result category params nargs).Harmless := by
  have hblank : (Code.ofLines [.blank]).Harmless := .ofLines (by simp [Line.calls])
  have hpool : ∀ c ∈ (List.range poolSize).map
      (trampolineCode owner field result category params nargs), c.Harmless := by
    intro c hc
    obtain ⟨entry, -, rfl⟩ := List.mem_map.mp hc
    exact trampolineCode_harmless _ _ _ _ _ _ entry
  refine .append hblank (.append (.seq hpool) (.append (.ofLines (by simp [Line.calls]))
    (.append (.block (.ofLines ?_) .done) hblank)))
  intro l hl
  obtain ⟨entry, -, rfl⟩ := List.mem_map.mp hl
  simp [Line.calls]

/-- **A callback field's code calls nothing that raises a Lua error**, but for the closure, which it calls
protected. -/
theorem trampolines_harmless {owner : String} {field : Field} {s s' : Scratch} {code : Code}
    (h : trampolines ctx owner field s = (.written () code, s')) : code.Harmless := by
  obtain ⟨f, category, declared, params, p, -, hmemo, hd, rfl⟩ := trampolines_written h
  exact .block (hd.harmless hmemo) (poolCode_harmless _ _ _ _ _ _)

end

end LuaGlue
