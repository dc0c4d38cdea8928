import LuaGlue.Proofs.Function.Pieces
import LuaGlue.Proofs.Keep.Reach

/-!
# The keep table of a wrapper

A wrapper asks of each unit whether it needs a keep table (`ParamUnit.AsksKeep`), and the code of
each unit hands one on or does not (`ParamUnit.UsesKeep`). `wrapper_keepInScope_iff` says what that
comes to: in a wrapper, `keep` is handed on only where it is declared if and only if, should some unit
use the keep table, some unit — that one or another — has asked for it.
-/

set_option autoImplicit false

namespace LuaGlue

variable {ctx : Context} {m : Memo}

namespace ParamUnit

/-- Whether a table is copied into a buffer, which goes into the keep table whatever it holds. -/
def isBuffered : ParamUnit → Bool
  | .arrayCount .. => true
  | .fixedArray .. => false
  | .single _ category output =>
    if output then false
    else
      match category with
      | .pointer _ true => true
      | _ => false

/-- The spelling of the value that is read, if one is. -/
def read? : ParamUnit → Option String
  | .arrayCount _ _ elem => some elem
  | .fixedArray _ elem size _ => some (arraySpelling elem size)
  | .single p category output =>
    if output then pointeeType? p.type
    else
      match category with
      | .pointer _ true => pointeeType? p.type
      | .structPointer _ _ true => (pointeeType? p.type).map valueType
      | .callback .. | .unknown => none
      | _ => some p.type

/-- The spelling that is looked at beforehand: of an array, that of an element. -/
def asked? : ParamUnit → Option String
  | .fixedArray _ elem _ _ => some elem
  | u => u.read?

/-- The code of the unit hands the keep table on. -/
def UsesKeep (ctx : Context) (m : Memo) (u : ParamUnit) : Prop :=
  u.isBuffered = true ∨ ∃ spelling, u.read? = some spelling ∧ ∃ k, ReachesBound ctx m k spelling

/-- A keep table is asked for on behalf of the unit. -/
def AsksKeep (ctx : Context) (m : Memo) (u : ParamUnit) : Prop :=
  u.isBuffered = true ∨ ∃ spelling, u.asked? = some spelling ∧
    ∃ k, k < maxNesting ∧ ReachesBound ctx m k spelling

end ParamUnit

/-! ## What is asked -/

theorem needsKeep?_grows (ctx : Context) (spelling? : Option String) :
    (needsKeep? ctx spelling?).Grows := by
  cases spelling? with
  | none => exact Classifying.Grows.pure false
  | some spelling => exact needsKeep_grows ctx spelling

theorem needsKeep?_decides {spelling? : Option String} :
    (needsKeep? ctx spelling?).DecidesAt (fun M => ∃ spelling, spelling? = some spelling ∧
      ∃ k, k < maxNesting ∧ ReachesBound ctx M k spelling) m := by
  cases spelling? with
  | none => exact .pure fun M _ => ⟨fun h => absurd h (by decide), fun ⟨_, h, _⟩ => by cases h⟩
  | some spelling =>
    refine .congr (needsKeep_grows ctx spelling) needsKeep_decides fun M _ => ?_
    simp only [Option.some.injEq, exists_eq_left']

theorem ParamUnit.needsScratch_grows (ctx : Context) (u : ParamUnit) : (u.needsScratch ctx).Grows := by
  unfold needsScratch
  split
  · exact Classifying.Grows.pure true
  · exact needsKeep_grows ctx _
  · split
    · exact needsKeep?_grows ctx _
    · split
      · exact Classifying.Grows.pure true
      · exact needsKeep?_grows ctx _
      iterate 2 exact Classifying.Grows.pure false
      · exact needsKeep_grows ctx _

theorem ParamUnit.needsScratch_decides (u : ParamUnit) :
    (u.needsScratch ctx).DecidesAt (u.AsksKeep ctx) m := by
  have buffered {u : ParamUnit} (hu : u.isBuffered = true) :
      Classifying.DecidesAt (pure true) (u.AsksKeep ctx) m :=
    .pure fun M _ => ⟨fun _ => .inl hu, fun _ => rfl⟩
  have optional (spelling? : Option String) {u : ParamUnit} (hu : u.isBuffered = false)
      (hs : u.asked? = spelling?) : (needsKeep? ctx spelling?).DecidesAt (u.AsksKeep ctx) m := by
    refine .congr (needsKeep?_grows ctx spelling?) needsKeep?_decides fun M _ => ?_
    simp only [AsksKeep, hu, hs, Bool.false_eq_true, false_or]
  cases u with
  | arrayCount array count elem => exact buffered rfl
  | fixedArray p elem size writable => exact optional (some elem) rfl rfl
  | single p category output =>
    cases output with
    | true => exact optional _ rfl rfl
    | false =>
      cases category with
      | pointer pointee isConst =>
        cases isConst with
        | true => exact buffered rfl
        | false => exact optional (some p.type) rfl rfl
      | structPointer name shape isConst =>
        cases isConst with
        | true => exact optional _ rfl rfl
        | false => exact optional (some p.type) rfl rfl
      | callback _ _ _ | unknown => exact optional none rfl rfl
      | _ => exact optional (some p.type) rfl rfl

/-! ## What is used -/

section

variable {slot n n' : Nat} {inside : Code}

theorem bufferCode_passesKeep (elem n buffer k target : String) (count : Option CountTarget) :
    (bufferCode elem slot n buffer k target count inside).passesKeep = true := by
  have keep : Call.passesKeep (Support.keep.on [.value (.name keepLocal)]) = true := by decide
  simp [bufferCode, bufferLines, Code.ofLines, Line.calls, keep]

theorem guardedCode_passesKeep (optional : Bool) :
    (guardedCode optional slot inside).passesKeep = inside.passesKeep := by
  cases optional with
  | true => simp [guardedCode, Code.branchOf, present, Cond.calls, Api.on, Call.passesKeep]
  | false => rfl

theorem outputCode_passesKeep (p : Param) (pointee : String) (zero : Category) :
    (outputCode ctx p pointee zero slot inside).passesKeep = inside.passesKeep := by
  unfold outputCode
  split <;>
    simp [Code.branchOf, present, Line.calls, Expr.calls, Cond.calls, Api.on, Call.passesKeep]

theorem constPointerCode_passesKeep (p : Param) :
    (constPointerCode ctx p slot inside).passesKeep = inside.passesKeep := by
  simp [constPointerCode, Code.branchOf, assignCast, Line.calls, Expr.calls, Cond.calls, Api.on,
    Call.passesKeep]

theorem constStructCode_passesKeep (p : Param) (pointee : String) (zero : Category) :
    (constStructCode ctx p pointee zero slot inside).passesKeep = inside.passesKeep := by
  simp [constStructCode, Code.branchOf, assignCast, present, Line.calls, Expr.calls, Cond.calls,
    Api.on, Call.passesKeep]

theorem arrayCountCode_passesKeep (array count : Param) :
    (arrayCountCode ctx array count slot inside).passesKeep = inside.passesKeep := by
  unfold arrayCountCode
  dsimp only
  split <;>
    simp [Code.branchOf, Code.blockOf, present, Line.calls, Expr.calls, Cond.calls, Api.on,
      Call.passesKeep]

theorem BufferReads.passesKeep {elem target : String} {count : Option CountTarget} {code : Code}
    (h : BufferReads ctx m elem slot target count n code n') : code.passesKeep = true := by
  cases h with
  | elements _ => exact bufferCode_passesKeep _ _ _ _ _ _

/-- **The code of a unit hands the keep table on if and only if the unit uses it.** -/
theorem UnitReads.passesKeep_iff {u : ParamUnit} {code : Code} {r : UnitCode}
    (h : UnitReads ctx m slot u n code n' r) : code.passesKeep = true ↔ u.UsesKeep ctx m := by
  have buffered {u : ParamUnit} {code inside : Code} (hu : u.isBuffered = true)
      (hcode : code.passesKeep = inside.passesKeep) (hin : inside.passesKeep = true) :
      code.passesKeep = true ↔ u.UsesKeep ctx m :=
    ⟨fun _ => .inl hu, fun _ => hcode.trans hin⟩
  have value {u : ParamUnit} {code inside : Code} {mode : ReadMode} {spelling : String}
      {place : Place} {index : StackIndex} (hu : u.isBuffered = false)
      (hs : u.read? = some spelling) (hcode : code.passesKeep = inside.passesKeep)
      (hin : Reads ctx m (.value mode spelling place index) n inside n') :
      code.passesKeep = true ↔ u.UsesKeep ctx m := by
    rw [hcode, hin.passesKeep_iff]
    simp only [ReadJob.Reaches, ParamUnit.UsesKeep, hu, hs, Bool.false_eq_true, false_or,
      Option.some.injEq, exists_eq_left']
  cases h with
  | output hp _ inside => exact value rfl hp (outputCode_passesKeep _ _ _) inside
  | constPointer _ _ inside =>
    exact buffered rfl (constPointerCode_passesKeep _) inside.passesKeep
  | constStruct hp _ inside => exact value rfl hp (constStructCode_passesKeep _ _ _) inside
  | @gap p category _ hc =>
    -- a gap neither copies a table nor reads a value
    have hnothing : (ParamUnit.single p category false).isBuffered = false ∧
        (ParamUnit.single p category false).read? = none := by
      rcases hc with hc | hc <;> cases category <;> first | exact ⟨rfl, rfl⟩ | cases hc
    refine iff_of_false Bool.false_ne_true ?_
    rintro (hbuffered | ⟨spelling, hread, -⟩)
    · rw [hnothing.1] at hbuffered
      cases hbuffered
    · rw [hnothing.2] at hread
      cases hread
  | @plain p category _ _ _ hc inside =>
    have hu : (ParamUnit.single p category false).isBuffered = false := by
      cases category with
      | pointer _ isConst => cases isConst <;> first | rfl | cases hc
      | _ => rfl
    have hs : (ParamUnit.single p category false).read? = some p.type := by
      cases category with
      | pointer _ isConst | structPointer _ _ isConst => cases isConst <;> first | rfl | cases hc
      | _ => first | rfl | cases hc
    exact value hu hs (guardedCode_passesKeep _) inside
  | arrayCount _ inside => exact buffered rfl (arrayCountCode_passesKeep _ _) inside.passesKeep
  | fixedArray _ inside => exact value rfl rfl (guardedCode_passesKeep _) inside

end

/-! ## The wrapper -/

theorem UnitsRead.passesKeep_iff {slot : Nat} {units : List ParamUnit} {s s' : Scratch}
    {codes : List Code} {given : List UnitCode} {M : Memo}
    (h : UnitsRead ctx slot units s codes given s') (hM : s'.memo.Grows M) :
    (Code.seq codes).passesKeep = true ↔ ∃ u ∈ units, u.UsesKeep ctx M := by
  induction h with
  | nil => simp [Code.seq]
  | cons head tail ih =>
    have hhead := ((readUnit_reads head).mono (tail.grows.trans hM)).passesKeep_iff
    rw [Code.seq, Code.passesKeep_append, Bool.or_eq_true, hhead, ih hM]
    simp only [List.mem_cons, exists_eq_or_imp]

/-- The native call is given locals of its own and knows nothing of the keep table. -/
theorem callLines_noKeep (ctx : Context) (f : FunctionDecl) (result : String) (category : Category)
    (args : List String) :
    (Code.ofLines (callLines ctx f result category args)).passesKeep = false ∧
      (Code.ofLines (callLines ctx f result category args)).AsksNoHeight := by
  obtain ⟨before, call, after, hlines, hbefore, hafter, hcall, -⟩ :=
    callLines_split ctx f result category args
  have hcalls : (Code.ofLines (callLines ctx f result category args)).calls =
      [nativeCall ctx f args] := by
    rw [hlines, Code.ofLines_append, Code.calls_append, Code.ofLines, Code.calls, hcall,
      (ofLines_quiet hbefore).1, (ofLines_quiet hafter).1]
    rfl
  refine ⟨?_, fun c hc => ?_⟩
  · rw [Code.passesKeep, hcalls]
    rfl
  · rw [hcalls, List.mem_singleton] at hc
    rw [hc]
    simp [nativeCall, Api.on]

/-- What a wrapper does after its prologue. -/
def WrapperPieces.rest (w : WrapperPieces) (ctx : Context) (f : FunctionDecl) : Code :=
  .seq w.reads ++ (.ofLines (w.callLines ctx f) ++ (w.returnCode ++ (w.outputCode ++
    .line (.ret (.text (toString w.results.length))) .done)))

section

variable {f : FunctionDecl} {s t t' s' : Scratch} {w : WrapperPieces}

/-- Only the arguments can hand the keep table on. -/
theorem Wraps.rest_passesKeep (h : Wraps ctx f s t t' s' w) :
    (w.rest ctx f).passesKeep = (Code.seq w.reads).passesKeep := by
  obtain ⟨n, hreturned, houtputs⟩ := h.results
  have hcall := (callLines_noKeep ctx f (Text.trimmed f.returnType) w.category
    (w.given.flatMap (·.nativeArgs))).1
  simp [WrapperPieces.rest, WrapperPieces.callLines, hcall, hreturned.api.passesKeep_eq_false,
    houtputs.api.passesKeep_eq_false, Line.calls, Expr.calls]

theorem Wraps.rest_asksNoHeight (h : Wraps ctx f s t t' s' w) : (w.rest ctx f).AsksNoHeight := by
  obtain ⟨n, hreturned, houtputs⟩ := h.results
  have api {code : Code} (h : code.All fun c => c.isApi = true) : code.AsksNoHeight :=
    Code.All.asksNoHeight (h.mono fun _ hc => Call.isPlain_of_isApi hc)
  refine .append h.reads.plain.asksNoHeight (.append (callLines_noKeep _ _ _ _ _).2 ?_)
  refine .append (api hreturned.api) (.append (api houtputs.api) ?_)
  exact .line (fun c hc => absurd hc List.not_mem_nil) .done

/-- Whether there is a keep table is what the units have asked for. -/
theorem Wraps.scratch_iff (h : Wraps ctx f s t t' s' w) :
    w.scratch = true ↔ ∃ u ∈ w.units, u.AsksKeep ctx s'.memo := by
  have hdecides : Classifying.DecidesAt (w.units.anyM (ParamUnit.needsScratch ctx))
      (fun M => ∃ u ∈ w.units, u.AsksKeep ctx M) ((pairParams ctx f.name f.params).run s.memo).2 :=
    .anyM (ParamUnit.needsScratch_grows ctx) fun u _ m => u.needsScratch_decides
  have hgrows := h.reads.grows.trans h.grows
  unfold Classifying.DecidesAt at hdecides
  rw [← h.scratch] at hdecides
  exact hdecides _ hgrows

end

/-- **In a wrapper, the keep table is handed on only where it is declared if and only if it is not
the case that units use it none of which has asked for it.** -/
theorem wrapper_keepInScope_iff {f : FunctionDecl} {names : FunctionNames} {s s' : Scratch}
    {binding : FunctionBinding} {code : Code}
    (h : wrapFunction ctx f names s = (.written binding code, s')) :
    let units := ((pairParams ctx f.name f.params).run s.memo).1
    code.keepInScope false = true ↔
      ((∃ u ∈ units, u.UsesKeep ctx s'.memo) → ∃ u ∈ units, u.AsksKeep ctx s'.memo) := by
  obtain ⟨w, t, t', hw, rfl, -⟩ := wrapFunction_written h
  have hcode : (w.code ctx f names).keepInScope false = (w.body ctx f).keepInScope false := by
    simp [WrapperPieces.code, Code.keepInScope, Line.calls]
  have huses := hw.reads.passesKeep_iff hw.grows
  have hasks := hw.scratch_iff
  dsimp only
  rw [← hw.units, ← huses, ← hasks, hcode]
  change (Code.ofLines (scratchLines w.scratch w.units.length) ++ w.rest ctx f).keepInScope false = true
    ↔ _
  cases hscratch : w.scratch with
  | true =>
    -- both sides hold: the table comes first, and some unit has asked for it
    refine iff_of_true (Code.keepInScope_keepTable [_] (fun l hl c hc => ?_) _)
      fun _ => rfl
    rw [List.mem_singleton.mp hl] at hc
    rw [List.mem_singleton.mp hc]
    rfl
  | false =>
    change (w.rest ctx f).keepInScope false = true ↔ _
    rw [Code.keepInScope_eq hw.rest_asksNoHeight, hw.rest_passesKeep]
    cases (Code.seq w.reads).passesKeep <;> simp

end LuaGlue
