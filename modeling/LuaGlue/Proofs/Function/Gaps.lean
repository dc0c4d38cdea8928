import LuaGlue.Proofs.Function.Pairing
import LuaGlue.Proofs.Function.WrapperCode
import LuaGlue.Proofs.Marshal.Balance
import LuaGlue.Proofs.Marshal.Gaps

/-!
# What a wrapper marks

A wrapper has a placeholder of its own for a parameter that cannot cross the boundary, beside those of
the values it reads and pushes. Put together: a wrapper marks a gap if and only if one of its units or
its result comes to a value that cannot cross (`wrapFunction_marks_iff`). Since a parameter by itself is
in that case as soon as its category is `unknown` or a callback, none of them goes unmarked.
-/

set_option autoImplicit false

namespace LuaGlue

/-! ## Units -/

/-- By the categories in the memo, a unit of parameters comes to a value that cannot cross the
boundary: as it is read, or as it is pushed after the call. -/
def ParamUnit.HasGap (ctx : Context) (m : Memo) : ParamUnit → Prop
  | .single p _ true => ∃ pointee, pointeeType? p.type = some pointee ∧
      (HasPart Category.isGap ctx m .read pointee ∨ HasPart Category.isGap ctx m .push pointee)
  | .single p (.pointer _ true) false =>
      ∃ elem, pointeeType? p.type = some elem ∧ HasPart Category.isGap ctx m .read elem
  | .single p (.structPointer _ _ true) false =>
      ∃ pointee, (pointeeType? p.type).map valueType = some pointee ∧
        HasPart Category.isGap ctx m .read pointee
  | .single p category false =>
      category.isGap = true ∨ HasPart Category.isGap ctx m .read p.type
  | .arrayCount _ _ elem => HasPart Category.isGap ctx m .read elem
  | .fixedArray _ elem size writable =>
      HasPart Category.isGap ctx m .read (arraySpelling elem size) ∨
        (writable = true ∧ HasPart Category.isGap ctx m .push (arraySpelling elem size))

section

variable {ctx : Context} {m : Memo}

theorem ParamUnit.hasGap_plain {p : Param} {category : Category}
    (h : category.isReadSpecially = false) : (ParamUnit.single p category false).HasGap ctx m ↔
      category.isGap = true ∨ HasPart Category.isGap ctx m .read p.type := by
  cases category with
  | pointer pointee isConst | structPointer name shape isConst =>
    cases isConst with
    | true => cases h
    | false => rfl
  | callback _ _ _ | unknown => cases h
  | _ => rfl

/-- A parameter by itself whose category cannot cross is a gap: it is no output. -/
theorem ParamUnit.hasGap_single {p : Param} {category : Category} {marked : Bool}
    (h : category.isGap = true) :
    (ParamUnit.single p category (category.isOutputWhen marked)).HasGap ctx m := by
  cases category with
  | callback _ _ _ | unknown => cases marked <;> exact .inl rfl
  | _ => cases h

theorem Reads.marks_value_iff {mode : ReadMode} {spelling : String} {place : Place}
    {index : StackIndex} {n n' : Nat} {code : Code}
    (h : Reads ctx m (.value mode spelling place index) n code n') :
    code.Marks ↔ HasPart Category.isGap ctx m .read spelling :=
  h.marks_iff.trans exists_eq_left

theorem Pushes.marks_value_iff {spelling : String} {source : Place} {n n' : Nat} {code : Code}
    (h : Pushes ctx m (.value spelling source) n code n') :
    code.Marks ↔ HasPart Category.isGap ctx m .push spelling :=
  h.marks_iff.trans exists_eq_left

theorem guardedCode_marks {optional : Bool} {slot : Nat} {inside : Code} :
    (guardedCode optional slot inside).Marks ↔ inside.Marks := by
  cases optional <;> simp [guardedCode, Code.branchOf, Code.marks_branch, Code.not_marks_done]

theorem outputCode_marks {p : Param} {pointee : String} {zero : Category} {slot : Nat}
    {inside : Code} : (outputCode ctx p pointee zero slot inside).Marks ↔ inside.Marks := by
  cases h : p.hasDefault <;>
    simp [outputCode, h, Code.branchOf, Code.marks_line, Code.marks_branch, Event.isPlaceholder,
      Code.not_marks_done]

theorem bufferCode_marks {elem : String} {slot : Nat} {n buffer k target : String}
    {count : Option CountTarget} {inside : Code} :
    (bufferCode elem slot n buffer k target count inside).Marks ↔ inside.Marks := by
  have hbefore : ¬ (Code.ofLines (bufferLines (valueType elem) slot n buffer)).Marks := by
    simp [bufferLines, Code.marks_ofLines, Event.isPlaceholder]
  have hafter : ¬ (Code.ofLines (bufferResults n buffer target count)).Marks := by
    cases count <;> simp [bufferResults, Code.marks_ofLines, Event.isPlaceholder]
  simp [bufferCode, Code.marks_append, Code.marks_block, Code.marks_line, hbefore, hafter,
    Event.isPlaceholder, popOne, Code.not_marks_done]

theorem constPointerCode_marks {p : Param} {slot : Nat} {buffer : Code} :
    (constPointerCode ctx p slot buffer).Marks ↔ buffer.Marks := by
  simp [constPointerCode, Code.branchOf, Code.marks_line, Code.marks_branch, assignCast,
    Event.isPlaceholder, Code.not_marks_done]

theorem constStructCode_marks {p : Param} {pointee : String} {zero : Category} {slot : Nat}
    {inside : Code} : (constStructCode ctx p pointee zero slot inside).Marks ↔ inside.Marks := by
  simp [constStructCode, Code.branchOf, Code.marks_line, Code.marks_branch, Code.marks_append,
    assignCast, Event.isPlaceholder, Code.not_marks_done]

theorem arrayCountCode_marks {array count : Param} {slot : Nat} {buffer : Code} :
    (arrayCountCode ctx array count slot buffer).Marks ↔ buffer.Marks := by
  cases h : array.hasDefault <;>
    simp [arrayCountCode, h, Code.branchOf, Code.blockOf, Code.marks_line, Code.marks_branch,
      Code.marks_block, Event.isPlaceholder, Code.not_marks_done]

theorem BufferReads.marks_iff {elem : String} {slot : Nat} {target : String}
    {count : Option CountTarget} {n n' : Nat} {code : Code}
    (h : BufferReads ctx m elem slot target count n code n') :
    code.Marks ↔ HasPart Category.isGap ctx m .read elem := by
  cases h with
  | elements inside => exact bufferCode_marks.trans inside.marks_value_iff

/-- **A unit marks a gap, where it is read or where it is pushed after the call, if and only if it comes
to a value that cannot cross the boundary.** -/
theorem UnitReads.marks_iff {slot : Nat} {u : ParamUnit} {n n' : Nat} {code : Code} {r : UnitCode}
    (h : UnitReads ctx m slot u n code n' r) :
    (code.Marks ∨ ∃ o, r.output = some o ∧ HasPart Category.isGap ctx m .push o.type) ↔
      u.HasGap ctx m := by
  cases h with
  | output hp _ inside =>
    simp [ParamUnit.HasGap, hp, outputOf, outputCode_marks, inside.marks_value_iff]
  | constPointer hp _ inside =>
    simp [ParamUnit.HasGap, hp, constPointerCode_marks, inside.marks_iff]
  | constStruct hp _ inside =>
    simp [ParamUnit.HasGap, hp, constStructCode_marks, inside.marks_value_iff]
  | @gap p category _ hc =>
    have hgap := Category.isGap_iff.mpr hc
    have hmarks : (Code.ofLines (gapLines ctx p category)).Marks :=
      Code.marks_ofLines.mpr ⟨_, List.mem_cons_self, rfl⟩
    refine iff_of_true (.inl hmarks) ?_
    cases category <;> first | exact .inl hgap | cases hgap
  | @plain p category _ _ _ hc inside =>
    have hline : (Event.line (.declare (localOf p.type p.localName)
        (.text (ctx.zeroInit category)))).isPlaceholder = false := rfl
    have hgap : category.isGap = false := by
      cases category <;> first | rfl | cases hc
    rw [ParamUnit.hasGap_plain hc, hgap, Code.marks_line, hline, guardedCode_marks, inside.marks_value_iff]
    simp
  | arrayCount _ inside => simp [ParamUnit.HasGap, arrayCountCode_marks, inside.marks_iff]
  | @fixedArray _ _ _ writable _ _ _ _ _ inside =>
    rw [Code.marks_line, guardedCode_marks, inside.marks_value_iff]
    cases writable <;> simp [ParamUnit.HasGap, Event.isPlaceholder]

/-! ## The result and the outputs -/

theorem pushOutputCode_marks {o : OutputValue} {inside : Code} :
    (pushOutputCode ctx o inside).Marks ↔ inside.Marks := by
  cases h : o.guard <;>
    simp [pushOutputCode, h, Code.branchOf, pushNil, Code.marks_branch, Code.marks_line,
      Event.isPlaceholder, Code.not_marks_done]

theorem OutputsPushed.marks_iff {outputs : List OutputValue} {n n' : Nat} {code : Code}
    {results : List ScriptResult} (h : OutputsPushed ctx m outputs n code n' results) :
    code.Marks ↔ ∃ o ∈ outputs, HasPart Category.isGap ctx m .push o.type := by
  induction h with
  | nil => simp [Code.not_marks_done]
  | cons head _ _ ih =>
    rw [Code.marks_append, pushOutputCode_marks, head.marks_value_iff, ih]
    simp

/-- Nothing is pushed for `void`, and `void` is no gap. -/
theorem ResultPushed.marks_iff {spelling : String} {category : Category} {n n' : Nat} {code : Code}
    {results : List ScriptResult} (h : ResultPushed ctx m spelling category n code n' results)
    (hc : m.find? spelling = some category) :
    code.Marks ↔ HasPart Category.isGap ctx m .push spelling := by
  cases h with
  | void hv =>
    refine iff_of_false Code.not_marks_done (not_hasGap_leaf hc ?_ ?_ ?_) <;>
      cases category <;> first | rfl | cases hv
  | value _ inside => exact inside.marks_value_iff

/-! ## The wrapper -/

theorem not_marks_scratchLines {scratch : Bool} {units : Nat} :
    ¬ (Code.ofLines (scratchLines scratch units)).Marks := by
  cases scratch <;> simp [scratchLines, keepTable, Code.marks_ofLines, Event.isPlaceholder]

theorem not_marks_callLines {f : FunctionDecl} {result : String} {category : Category}
    {args : List String} : ¬ (Code.ofLines (callLines ctx f result category args)).Marks := by
  rw [Code.marks_ofLines]
  unfold callLines
  cases ctx.manifest.dummyBackend.filter fun d => d.appliesTo f.name with
  | none => cases category.isVoid <;> simp [Event.isPlaceholder]
  | some dummy =>
    dsimp only
    cases dummy.returns.lookup f.name <;> cases category.isVoid <;>
      simp [Event.isPlaceholder, or_imp, forall_and]

/-- What the units that are read mark, here and after the call, over every later memo. -/
theorem UnitsRead.marks_iff {slot : Nat} {units : List ParamUnit} {s s' : Scratch}
    {codes : List Code} {given : List UnitCode} (h : UnitsRead ctx slot units s codes given s')
    (hm : s'.memo.Grows m) :
    ((∃ code ∈ codes, code.Marks) ∨
        ∃ o ∈ given.filterMap (·.output), HasPart Category.isGap ctx m .push o.type) ↔
      ∃ u ∈ units, u.HasGap ctx m := by
  induction h with
  | nil => simp
  | @cons _ u _ _ code r _ _ _ _ head tail ih =>
    have hunit := ((readUnit_reads head).mono (tail.grows.trans hm)).marks_iff
    simp only [List.mem_cons, exists_eq_or_imp]
    rw [← ih hm, ← hunit]
    cases ho : r.output with
    | none => simp [ho, or_assoc]
    | some o =>
      simp only [List.filterMap_cons, ho, List.mem_cons, exists_eq_or_imp, Option.some.injEq,
        exists_eq_left']
      exact or_or_or_comm

/-- **A wrapper marks a gap if and only if one of its units, or its result, comes to a value that cannot
cross the boundary.** -/
theorem wrapFunction_marks_iff {f : FunctionDecl} {names : FunctionNames} {binding : FunctionBinding}
    {s s' : Scratch} {code : Code}
    (h : wrapFunction ctx f names s = (.written binding code, s')) :
    code.Marks ↔
      (∃ u ∈ ((pairParams ctx f.name f.params).run s.memo).1, u.HasGap ctx s'.memo) ∨
        HasPart Category.isGap ctx s'.memo .push (Text.trimmed f.returnType) := by
  obtain ⟨w, t, t', hw, rfl, rfl⟩ := wrapFunction_written h
  obtain ⟨n, hresult, houtputs⟩ := hw.results
  rw [← hw.units, ← hw.reads.marks_iff hw.grows, ← hresult.marks_iff hw.category,
    ← houtputs.marks_iff]
  have hlines : ¬ (Code.ofLines (w.callLines ctx f)).Marks := not_marks_callLines
  simp only [WrapperPieces.code, WrapperPieces.body, Code.marks_block, Code.marks_append,
    Code.marks_seq, Code.marks_line, hlines, not_marks_scratchLines, Code.not_marks_done,
    Event.isPlaceholder, false_or, or_false, Bool.false_eq_true]
  constructor
  · rintro (hread | hreturn | hout)
    · exact .inl (.inl hread)
    · exact .inr hreturn
    · exact .inl (.inr hout)
  · rintro ((hread | hout) | hreturn)
    · exact .inl hread
    · exact .inr (.inr hout)
    · exact .inr (.inl hreturn)

end

/-! ## Nothing goes unmarked, and nothing else is marked -/

/-- **What is written for a value marks a gap if and only if expanding its type comes to a category that
cannot cross the boundary** — through the elements of arrays and the members of tuples and, for pushing
only, through pointers to tuples — and every spelling it comes to has been classified. A wrapper marks a
gap if and only if one of its units or its result does; so it has one for every parameter by itself, and
for every result, that is unknown or a callback. -/
theorem gaps_marked (ctx : Context) (s s' : Scratch) (code : Code) :
    (∀ spelling source, push ctx spelling source s = (.written () code, s') →
      Classified ctx s'.memo .push spelling ∧
      ∀ p : Page, p.placeholders < (p.putAll code.events).placeholders ↔
        HasPart Category.isGap ctx s'.memo .push spelling) ∧
    (∀ mode spelling place index, read ctx mode spelling place index s = (.written () code, s') →
      Classified ctx s'.memo .read spelling ∧
      ∀ p : Page, p.placeholders < (p.putAll code.events).placeholders ↔
        HasPart Category.isGap ctx s'.memo .read spelling) ∧
    (∀ f names binding, wrapFunction ctx f names s = (.written binding code, s') →
      let units := ((pairParams ctx f.name f.params).run s.memo).1
      ∀ p : Page,
        (p.placeholders < (p.putAll code.events).placeholders ↔
          (∃ u ∈ units, u.HasGap ctx s'.memo) ∨
            HasPart Category.isGap ctx s'.memo .push (Text.trimmed f.returnType)) ∧
        (∀ q category output, .single q category output ∈ units → category.isGap = true →
          p.placeholders < (p.putAll code.events).placeholders) ∧
        (∀ category, s'.memo.find? (Text.trimmed f.returnType) = some category →
          category.isGap = true → p.placeholders < (p.putAll code.events).placeholders)) := by
  refine ⟨fun spelling source hw => ?_, fun mode spelling place index hw => ?_,
    fun f names binding hw => ?_⟩
  · have hpushes := push_pushes hw
    exact ⟨hpushes.classified _ rfl, fun p => (code.page_grows_iff p).trans hpushes.marks_value_iff⟩
  · have hreads := read_reads hw
    exact ⟨hreads.classified _ rfl, fun p => (code.page_grows_iff p).trans hreads.marks_value_iff⟩
  · have hmarks := wrapFunction_marks_iff hw
    intro units p
    rw [code.page_grows_iff p]
    refine ⟨hmarks, fun q category output hmem hgap => hmarks.mpr (.inl ⟨_, hmem, ?_⟩),
      fun category hc hgap => hmarks.mpr (.inr ⟨0, _, category, .self, hc, hgap⟩)⟩
    -- whether it is an output goes by the category, and one that cannot cross is none
    obtain ⟨_, hmade⟩ := pairParams_made hmem
    obtain ⟨-, rfl⟩ := hmade.single_inv
    exact ParamUnit.hasGap_single hgap

/-- A tuple of a number and a callback. -/
def eventContext : Context :=
  Classifying.fresh
    (Context.build {} { types := { tuples := [("Event", ["id:int", "run:void (*)(int)"])] } })

/-- A function that takes a callback and returns a value of a type nobody knows. -/
def subscribe : FunctionDecl where
  name := "subscribe"
  type := "mystery (void (*)(int))"
  returnType := "mystery"
  params := [⟨"run", "void (*)(int)", false, false, false⟩]
  variadic := false

theorem gaps_marked_event :
    (∃ code s', push eventContext "Event[2]" (.name "v") {} = (.written () code, s') ∧
      HasPart Category.isGap eventContext s'.memo .push "Event[2]") ∧
    (∃ code s', read eventContext .checked "Event*" (.name "v") (.slot 1) {} =
      (.written () code, s') ∧ ¬ HasPart Category.isGap eventContext s'.memo .read "Event*") ∧
    (∃ binding code s', wrapFunction eventContext subscribe ⟨"l_subscribe", "subscribe"⟩ {} =
      (.written binding code, s') ∧ 0 < (({} : Page).putAll code.events).placeholders) := by
  refine ⟨?_, ?_, ?_⟩
  · obtain ⟨_, code, s', hw, htest⟩ := Draft.exists_written
      (push eventContext "Event[2]" (.name "v")) {} (fun c => 0 < c.placeholders) (by decide +kernel)
    have hgrows := (code.page_grows_iff {}).mpr (by simpa [Code.Marks] using htest)
    exact ⟨code, s', hw, (((gaps_marked eventContext {} s' code).1 _ _ hw).2 {}).mp hgrows⟩
  · obtain ⟨_, code, s', hw, htest⟩ := Draft.exists_written
      (read eventContext .checked "Event*" (.name "v") (.slot 1)) {} (fun c => c.placeholders = 0)
      (by decide +kernel)
    refine ⟨code, s', hw, fun hgap => ?_⟩
    have hgrows := (((gaps_marked eventContext {} s' code).2.1 _ _ _ _ hw).2 {}).mpr hgap
    exact absurd ((code.page_grows_iff {}).mp hgrows) (by simpa [Code.Marks] using htest)
  · obtain ⟨binding, code, s', hw, -⟩ := Draft.exists_written
      (wrapFunction eventContext subscribe ⟨"l_subscribe", "subscribe"⟩) {} (fun _ => true)
      (by decide +kernel)
    have hresult : ((wrapFunction eventContext subscribe ⟨"l_subscribe", "subscribe"⟩ {}).2.memo.find?
        "mystery").any Category.isGap = true := by decide +kernel
    rw [hw, Option.any_eq_true] at hresult
    obtain ⟨category, hc, hgap⟩ := hresult
    have hgrows := ((gaps_marked eventContext {} s' code).2.2 _ _ _ hw {}).2.2 category hc hgap
    exact ⟨binding, code, s', hw, hgrows⟩

end LuaGlue
