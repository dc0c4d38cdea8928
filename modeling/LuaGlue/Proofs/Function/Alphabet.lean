import LuaGlue.Proofs.Function.WrapperCode
import LuaGlue.Proofs.Marshal.Alphabet

/-!
# Wrappers in an alphabet

A wrapper is written with the names and spellings of its function, and so is what it hands on: units, their
native arguments and the outputs. The names it is given are made from those of functions, of structs and of
enums, whether or not they could be given out.
-/

set_option autoImplicit false

namespace LuaGlue

open Draft Text

variable {P : Char → Prop}

/-! ## Units -/

def Param.Over (P : Char → Prop) (p : Param) : Prop := Text.Over P p.name ∧ Text.Over P p.type

def ParamUnit.Over (P : Char → Prop) : ParamUnit → Prop
  | .single p category _ => p.Over P ∧ category.Over P
  | .arrayCount array count elem => array.Over P ∧ count.Over P ∧ Text.Over P elem
  | .fixedArray p elem _ _ => p.Over P ∧ Text.Over P elem

variable [Alphabet P] {ctx : Context}

theorem configuredArray?_over {function : String} {p : Param} {u : ParamUnit} (hp : p.Over P)
    (hu : configuredArray? ctx function p = some u) : u.Over P := by
  obtain ⟨size, -, hu⟩ := Option.bind_eq_some_iff.mp hu
  obtain ⟨elem, helem, hu⟩ := Option.bind_eq_some_iff.mp hu
  exact Option.some.inj hu ▸ ⟨hp, pointeeType?_over hp.2 helem⟩

theorem declaredArray?_over {p : Param} {category : Category} {u : ParamUnit} (hp : p.Over P)
    (hu : declaredArray? p category = some u) : u.Over P := by
  unfold declaredArray? at hu
  split at hu
  · obtain ⟨elem, helem, rfl⟩ := Option.map_eq_some_iff.mp hu
    exact ⟨hp, elementType?_over hp.2 helem⟩
  · cases hu

variable (h : ctx.Over P)

include h

theorem countedElem?_stays {p : Param} {category : Category} {next : Option Param}
    (hp : p.Over P) :
    (countedElem? ctx p category next).Stays P fun elem => ∀ e ∈ elem, Text.Over P e := by
  unfold countedElem?
  split
  · exact .pure (by simp)
  · split
    · refine h.categoryOf.bind fun c _ => ?_
      split
      · exact .pure fun e he => pointeeType?_over hp.2 he
      · exact .pure (by simp)
    · exact .pure (by simp)

theorem pairParams_stays (function : String) : ∀ params : List Param, (∀ p ∈ params, p.Over P) →
    (pairParams ctx function params).Stays P fun units => ∀ u ∈ units, u.Over P
  | [], _ => .pure (by simp)
  | p :: rest, hparams => by
    obtain ⟨hp, hrest⟩ := List.forall_mem_cons.mp hparams
    unfold pairParams
    refine h.categoryOf.bind fun category hcategory => ?_
    dsimp only
    split
    · rename_i array harray
      have harray : array.Over P := by
        rcases Option.or_eq_some_iff.mp harray with hu | ⟨-, hu⟩
        · exact configuredArray?_over hp hu
        · exact declaredArray?_over hp hu
      exact (pairParams_stays function rest hrest).bind fun units hunits =>
        .pure (List.forall_mem_cons.mpr ⟨harray, hunits⟩)
    · refine (countedElem?_stays h hp).bind fun elem? helem => ?_
      cases elem? with
      | none =>
        exact (pairParams_stays function rest hrest).bind fun units hunits =>
          .pure (List.forall_mem_cons.mpr ⟨⟨hp, hcategory⟩, hunits⟩)
      | some elem =>
        cases rest with
        | nil => exact .pure (List.forall_mem_singleton.mpr ⟨hp, hcategory⟩)
        | cons count rest' =>
          obtain ⟨hcount, hrest'⟩ := List.forall_mem_cons.mp hrest
          exact (pairParams_stays function rest' hrest').bind fun units hunits =>
            .pure (List.forall_mem_cons.mpr ⟨⟨hp, hcount, helem elem rfl⟩, hunits⟩)
  termination_by params => params.length

omit [Alphabet P] in
theorem needsScratch_stays (u : ParamUnit) : (u.needsScratch ctx).Stays P fun _ => True := by
  unfold ParamUnit.needsScratch
  split
  · exact .pure trivial
  · exact needsKeep_stays h _
  · split
    · exact needsKeep?_stays h _
    · split
      · exact .pure trivial
      · exact needsKeep?_stays h _
      · exact .pure trivial
      · exact .pure trivial
      · exact needsKeep_stays h _

/-! ## Arguments -/

/-- What a unit hands on is over `P`. -/
def OutputValue.Over (P : Char → Prop) (o : OutputValue) : Prop :=
  Text.Over P o.type ∧ o.place.Over P ∧ ∀ pointer ∈ o.guard, Text.Over P pointer

def UnitCode.Over (P : Char → Prop) (c : UnitCode) : Prop :=
  (∀ a ∈ c.nativeArgs, Text.Over P a) ∧ ∀ o ∈ c.output, o.Over P

omit h in
theorem Param.Over.localName {p : Param} (hp : p.Over P) : Text.Over P p.localName :=
  over_append.mpr ⟨over_literal (by decide), hp.1⟩

omit h in
theorem localOf_over {spelling name : String} (hs : Text.Over P spelling) (hn : Text.Over P name) :
    Text.Over P (localOf spelling name).declaration := by
  dsimp only [localOf]
  exact declareLocal_over hs hn

omit [Alphabet P] h in
theorem present_over (slot : Nat) : (present slot).Over P := by simp [present]

omit h in
/-- A unit with one native argument and no output. -/
theorem plain_over {p : Param} (hp : p.Over P) (arg : ScriptArg) :
    (⟨arg, [p.localName], none⟩ : UnitCode).Over P :=
  ⟨List.forall_mem_singleton.mpr hp.localName, by simp⟩

theorem readBuffer_writes {elem target : String} {slot : Nat} {count : Option CountTarget}
    (helem : Text.Over P elem) (ht : Text.Over P target)
    (hcount : ∀ c ∈ count, Text.Over P c.name ∧ Text.Over P c.type) :
    (readBuffer ctx elem slot target count).Writes P := by
  have htype := valueType_over helem
  unfold readBuffer
  refine Stays.temp.bind fun n hn => Stays.temp.bind fun buffer hbuffer =>
    Stays.temp.bind fun k hk => .andThen (.lines ?_) fun _ => ?_
  · simp (disch := decide) [over_literal, htype, hn, hbuffer]
  refine .andThen (.block ⟨over_literal (by decide), hk, hn⟩ ?_) fun _ => ?_
  · refine .andThen (.line ?_) fun _ => ?_
    · simp (disch := decide) [over_literal, hk]
    · have hplace : Place.Over P (.element (.name buffer) k) := ⟨hbuffer, hk⟩
      refine .andThen (read_writes h helem hplace trivial) fun _ => .line ?_
      simp [popOne]
  · refine .andThen (.line ⟨ht, hbuffer⟩) fun _ => ?_
    cases count with
    | none => exact .pure trivial
    | some c => exact .line ⟨(hcount c rfl).1, (hcount c rfl).2, hn⟩

theorem readOutput_stays {p : Param} (hp : p.Over P) (slot : Nat) :
    (readOutput ctx p slot).Stays P (UnitCode.Over P) := by
  have hname := hp.localName
  unfold readOutput
  dsimp only
  split
  · exact .fail hp.2
  · rename_i pointee hpointee
    have hpointee := pointeeType?_over hp.2 hpointee
    have hval : Text.Over P (p.localName ++ "_val") :=
      over_append.mpr ⟨hname, over_literal (by decide)⟩
    have hread : (read ctx .lenient pointee (.name (p.localName ++ "_val")) (.slot slot)).Writes P :=
      read_writes h hpointee hval trivial
    refine (h.asked pointee).bind fun c _ => ?_
    refine .andThen (.line ⟨localOf_over hpointee hval, Context.Over.zeroInit c⟩) fun _ => ?_
    split
    · refine .andThen (.line ⟨localOf_over hp.2 hname, .inl Context.Over.null⟩) fun _ => ?_
      refine .andThen (.branch (present_over slot) trivial
        (.andThen (.line ⟨hname, hval⟩) fun _ => hread)) fun _ => .pure ?_
      exact ⟨List.forall_mem_singleton.mpr hname, fun o ho =>
        Option.some.inj ho ▸ ⟨hpointee, hname, fun _ hg => Option.some.inj hg ▸ hname⟩⟩
    · refine .andThen (.line ⟨localOf_over hp.2 hname, hval⟩) fun _ => ?_
      refine .andThen (.branch (present_over slot) trivial hread) fun _ => .pure ?_
      exact ⟨List.forall_mem_singleton.mpr hname, fun o ho =>
        Option.some.inj ho ▸ ⟨hpointee, hval, fun _ hg => absurd hg (by simp)⟩⟩

theorem readConstPointer_writes {p : Param} (hp : p.Over P) (slot : Nat) :
    (readConstPointer ctx p slot).Writes P := by
  have hname := hp.localName
  have htype := valueType_over hp.2
  unfold readConstPointer
  dsimp only
  split
  · exact .fail hp.2
  · rename_i elem helem
    refine .andThen (.line ⟨localOf_over hp.2 hname, .inl Context.Over.null⟩) fun _ => ?_
    refine .andThen (.branch (by simp) ?_ ?_) fun _ => .andThen (h.asked elem).writes fun _ => .pure trivial
    · simp [assignCast, htype, hname]
    · exact readBuffer_writes h (pointeeType?_over hp.2 helem) hname (by simp)

theorem readConstStruct_writes {p : Param} {category : Category} (hp : p.Over P) (slot : Nat) :
    (readConstStruct ctx p category slot).Writes P := by
  have hname := hp.localName
  unfold readConstStruct
  dsimp only
  split
  · exact .fail hp.2
  · rename_i pointee hsome
    obtain ⟨spelling, hspelling, rfl⟩ := Option.map_eq_some_iff.mp hsome
    have hpointee := valueType_over (pointeeType?_over hp.2 hspelling)
    have hval : Text.Over P (p.localName ++ "_val") :=
      over_append.mpr ⟨hname, over_literal (by decide)⟩
    refine (h.asked (valueType spelling)).bind fun c _ => .andThen (.lines ?_) fun _ => ?_
    · exact List.forall_mem_cons.mpr
        ⟨.declare (declare_over hpointee hval) (Context.Over.zeroInit c),
          List.forall_mem_singleton.mpr ⟨localOf_over hp.2 hname, .inl Context.Over.null⟩⟩
    · refine .andThen (.orElseIf (by simp) ?_ (present_over slot) ?_) fun _ => .pure trivial
      · exact ⟨assignCast_over (valueType_over hp.2) hname trivial, trivial⟩
      · exact .andThen (read_writes h hpointee hval trivial) fun _ => .line ⟨hname, hval⟩

theorem readSingle_stays {p : Param} {category : Category} (hp : p.Over P) (output : Bool)
    (slot : Nat) : (readSingle ctx p category output slot).Stays P (UnitCode.Over P) := by
  have hname := hp.localName
  have hdeclare : (Line.declare (localOf p.type p.localName) (.text (ctx.zeroInit category))).Over P :=
    ⟨localOf_over hp.2 hname, Context.Over.zeroInit category⟩
  unfold readSingle
  dsimp only
  split
  · exact readOutput_stays h hp slot
  · split
    · exact .andThen (readConstPointer_writes h hp slot) fun arg => .pure (plain_over hp arg)
    · exact .andThen (readConstStruct_writes h hp slot) fun arg => .pure (plain_over hp arg)
    · refine .andThen (.lines (List.forall_mem_cons.mpr ⟨?_, List.forall_mem_singleton.mpr hdeclare⟩))
        fun _ => .pure (plain_over hp _)
      simp (disch := decide) [over_literal, hp.1, hp.2]
    · refine .andThen (.lines (List.forall_mem_cons.mpr ⟨?_, List.forall_mem_singleton.mpr hdeclare⟩))
        fun _ => .pure (plain_over hp _)
      simp (disch := decide) [over_literal, hp.1, hp.2]
    · refine .andThen (.line hdeclare) fun _ => ?_
      exact .andThen (.branchWhen (present_over slot) (read_writes h hp.2 hname trivial)) fun _ =>
        .pure (plain_over hp _)

theorem readArrayCount_stays {array count : Param} {elem : String} (ha : array.Over P)
    (hc : count.Over P) (he : Text.Over P elem) (slot : Nat) :
    (readArrayCount ctx array count elem slot).Stays P (UnitCode.Over P) := by
  have hname := ha.localName
  have hcount := hc.localName
  have htype := valueType_over hc.2
  have hcopy : (do
      Draft.line (.call (Api.checktype.on [.at (.slot slot), .text "LUA_TTABLE"]))
      readBuffer ctx elem slot array.localName
        (some ⟨count.localName, valueType count.type⟩) : Draft Unit).Writes P := by
    refine .andThen (.line ?_) fun _ => readBuffer_writes h he hname ?_
    · simp (disch := decide) [over_literal]
    · simp [hcount, htype]
  unfold readArrayCount
  refine .andThen (.lines ?_) fun _ => ?_
  · have hdeclare := localOf_over ha.2 hname
    have hnull : Text.Over P ctx.null := Context.Over.null
    simp (disch := decide) [over_literal, hdeclare, hcount, htype, hnull]
  · have hcode : (⟨⟨array.name, "", array.hasDefault⟩, [array.localName, count.localName], none⟩ :
        UnitCode).Over P := ⟨by simp [hname, hcount], by simp⟩
    dsimp only
    split
    · exact .andThen (.branch (present_over slot) trivial hcopy) fun _ =>
        .andThen (h.asked elem).writes fun _ => .pure hcode
    · exact .andThen (.block trivial hcopy) fun _ =>
        .andThen (h.asked elem).writes fun _ => .pure hcode

theorem readFixedArray_stays {p : Param} {elem : String} {size : Nat} {writable : Bool}
    (hp : p.Over P) (he : Text.Over P elem) (slot : Nat) :
    (readFixedArray ctx p elem size writable slot).Stays P (UnitCode.Over P) := by
  have hname := hp.localName
  have harray : Text.Over P (arraySpelling elem size) := by
    have htype := valueType_over he
    simp (disch := decide) [arraySpelling, over_literal, htype]
  unfold readFixedArray
  refine .andThen (.line (.declare (declare_over harray hname) (.inr Context.Over.emptyBraces)))
    fun _ => ?_
  refine .andThen (.branchWhen (present_over slot) (read_writes h harray hname trivial)) fun _ => ?_
  refine .andThen (h.asked elem).writes fun _ => .pure ⟨List.forall_mem_singleton.mpr hname, ?_⟩
  split
  · simpa [OutputValue.Over] using ⟨harray, hname⟩
  · simp

theorem readUnit_stays {u : ParamUnit} (hu : u.Over P) (slot : Nat) :
    (readUnit ctx slot u).Stays P (UnitCode.Over P) := by
  cases u with
  | single p category output => exact readSingle_stays h hu.1 output slot
  | arrayCount array count elem => exact readArrayCount_stays h hu.1 hu.2.1 hu.2.2 slot
  | fixedArray p elem size writable => exact readFixedArray_stays h hu.1 hu.2 slot

theorem readUnits_stays {units : List ParamUnit} (hu : ∀ u ∈ units, u.Over P) : ∀ slot : Nat,
    (readUnits ctx slot units).Stays P fun codes => ∀ c ∈ codes, c.Over P := by
  induction units with
  | nil => exact fun _ => .pure (by simp)
  | cons u rest ih =>
    intro slot
    obtain ⟨hfirst, hrest⟩ := List.forall_mem_cons.mp hu
    refine (readUnit_stays h hfirst (slot + 1)).bind fun code hcode => ?_
    exact (ih hrest (slot + 1)).bind fun codes hcodes =>
      .pure (List.forall_mem_cons.mpr ⟨hcode, hcodes⟩)

/-! ## The call and the results -/

omit [Alphabet P] in
theorem nativeCall_over {f : FunctionDecl} {args : List String} (hf : Text.Over P f.name)
    (hargs : ∀ a ∈ args, Text.Over P a) : (nativeCall ctx f args).Over P := by
  refine ⟨h.callName hf, fun a ha => ?_⟩
  obtain ⟨name, hname, rfl⟩ := List.mem_map.mp ha
  exact hargs name hname

theorem callLines_over {f : FunctionDecl} {result : String} {category : Category}
    {args : List String} (hf : Text.Over P f.name) (hresult : Text.Over P result)
    (hargs : ∀ a ∈ args, Text.Over P a) : ∀ l ∈ callLines ctx f result category args, l.Over P := by
  have hcall := nativeCall_over h hf hargs
  have hlocal : Text.Over P resultLocal := over_literal (by decide)
  have hdeclaration := localOf_over hresult hlocal
  unfold callLines
  dsimp only
  split
  · split
    · exact List.forall_mem_singleton.mpr hcall
    · exact List.forall_mem_singleton.mpr ⟨hdeclaration, hcall⟩
  · rename_i dummy hdummy
    have hdummy := h.dummyBackend (Option.filter_eq_some_iff.mp hdummy).1
    refine List.forall_mem_append.mpr ⟨List.forall_mem_append.mpr ⟨List.forall_mem_append.mpr
      ⟨List.forall_mem_append.mpr ⟨?_, ?_⟩, ?_⟩, ?_⟩, ?_⟩
    · split
      · simp
      · exact List.forall_mem_singleton.mpr ⟨hdeclaration, Context.Over.zeroInit category⟩
    · refine List.forall_mem_singleton.mpr (over_append.mpr ⟨over_literal (by decide), hdummy _ ?_⟩)
      simp [DummyBackend.texts]
    · split
      · rename_i value hvalue
        obtain ⟨before, after, heq, -⟩ := List.lookup_eq_some_iff.mp hvalue
        split
        · simp
        · refine List.forall_mem_singleton.mpr ⟨hlocal, .inl (hdummy value ?_)⟩
          simp [DummyBackend.texts, heq]
      · simp
    · intro l hl
      obtain ⟨a, ha, rfl⟩ := List.mem_map.mp hl
      exact hargs a ha
    · refine List.forall_mem_cons.mpr ⟨over_literal (by decide), List.forall_mem_cons.mpr ⟨?_,
        List.forall_mem_singleton.mpr (over_literal (by decide))⟩⟩
      split
      · exact hcall
      · exact ⟨hlocal, hcall⟩

theorem pushOutput_writes {o : OutputValue} (ho : o.Over P) : (pushOutput ctx o).Writes P := by
  have hpush := push_writes h ho.1 ho.2.1
  unfold pushOutput
  split
  · rename_i pointer hpointer
    refine .andThen (.branch ⟨ho.2.2 pointer hpointer, Context.Over.null⟩ ⟨pushNil_over, trivial⟩ hpush)
      fun _ => ?_
    exact .andThen (h.asked o.type).writes fun _ => .pure trivial
  · exact .andThen hpush fun _ => .andThen (h.asked o.type).writes fun _ => .pure trivial

theorem pushOutputs_writes {outputs : List OutputValue} (ho : ∀ o ∈ outputs, o.Over P) :
    (pushOutputs ctx outputs).Writes P := by
  induction outputs with
  | nil => exact .pure trivial
  | cons o rest ih =>
    obtain ⟨hfirst, hrest⟩ := List.forall_mem_cons.mp ho
    exact .andThen (pushOutput_writes h hfirst) fun _ => .andThen (ih hrest) fun _ => .pure trivial

theorem pushResult_writes {result : String} (hresult : Text.Over P result) (category : Category) :
    (pushResult ctx result category).Writes P := by
  unfold pushResult
  split
  · exact .pure trivial
  · exact .andThen (push_writes h hresult (over_literal (by decide) : Text.Over P resultLocal))
      fun _ => .pure trivial

/-! ## The wrapper -/

def FunctionNames.Over (P : Char → Prop) (n : FunctionNames) : Prop :=
  Text.Over P n.cName ∧ Text.Over P n.scriptName

omit [Alphabet P] h in
theorem FunctionDecl.over_params {f : FunctionDecl} (hf : ∀ t ∈ f.texts, Text.Over P t) :
    ∀ p ∈ f.params, p.Over P := fun _ hp => FunctionDecl.over_param hf hp

theorem wrapperRest_stays {f : FunctionDecl} {names : FunctionNames} {units : List ParamUnit}
    (hf : ∀ t ∈ f.texts, Text.Over P t) (hu : ∀ u ∈ units, u.Over P) :
    (wrapperRest ctx f names units).Stays P fun b => b.names = names := by
  have hname : Text.Over P f.name := hf _ (by simp [FunctionDecl.texts])
  have hreturn : Text.Over P f.returnType := hf _ (by simp [FunctionDecl.texts])
  unfold wrapperRest
  refine (readUnits_stays h hu 0).bind fun codes hcodes => ?_
  refine .andThen (h.asked _).writes fun category => ?_
  refine .andThen (.lines (callLines_over h hname hreturn.trimmed ?_)) fun _ => ?_
  · intro a ha
    obtain ⟨code, hcode, ha⟩ := List.mem_flatMap.mp ha
    exact (hcodes code hcode).1 a ha
  refine .andThen (pushResult_writes h hreturn.trimmed category) fun returned => ?_
  refine .andThen (pushOutputs_writes h ?_) fun outputs => ?_
  · intro o ho
    obtain ⟨code, hcode, ho⟩ := List.mem_filterMap.mp ho
    exact (hcodes code hcode).2 o ho
  · exact .andThen (.line (.inl (over_toString _))) fun _ => .pure rfl

/-- **A wrapper stays in the alphabet** of its function and of the names it is given. -/
theorem wrapFunction_stays {f : FunctionDecl} {names : FunctionNames}
    (hf : ∀ t ∈ f.texts, Text.Over P t) (hnames : names.Over P) :
    (wrapFunction ctx f names).Stays P fun b => b.names.Over P := by
  have hbody : (wrapperBody ctx f names).Stays P fun b => b.names = names := by
    refine (Stays.asking (pairParams_stays h f.name f.params (FunctionDecl.over_params hf))).bind
      fun units hunits => .block ⟨over_literal (by decide), hnames.1, over_literal (by decide)⟩ ?_
    have hrest : (wrapperRest ctx f names units).Stays P fun b => b.names = names :=
      wrapperRest_stays h hf hunits
    refine Stays.bind (.asking (.anyM fun u _ => needsScratch_stays h u)) fun scratch _ => ?_
    cases scratch with
    | true => exact .andThen (.lines (List.forall_mem_cons.mpr ⟨by simp, keepTable_over⟩)) fun _ => hrest
    | false => exact hrest
  exact hbody.bind fun b hb => .andThen (.line trivial) fun _ => .pure (hb ▸ hnames)

/-! ## The names that are given out -/

omit [Alphabet P] in
theorem overloadSuffix_stays [NameAlphabet P] (f : FunctionDecl) :
    (overloadSuffix ctx f).Stays P (Text.Over P) :=
  .bind (.mapM fun _ _ => h.categoryOf) fun _ hcategories => .pure (suffixOf_over hcategories)

theorem ownNames_stays {base : String} {group : List Candidate} {c : Candidate}
    (hbase : Text.Over P base) (hc : Text.Over P c.function.name) :
    (c.ownNames ctx base group).Stays P (StaysOrFails P (FunctionNames.Over P)) := by
  have hcName : Text.Over P ("l_" ++ c.function.name) := over_append.mpr ⟨over_literal (by decide), hc⟩
  unfold Candidate.ownNames
  split
  · refine (overloadSuffix_stays h c.function).bind fun suffix hsuffix => ?_
    refine (Classifying.Stays.anyM fun other _ =>
      (overloadSuffix_stays h other.function).bind fun _ _ => .pure trivial).bind fun found _ => ?_
    cases found with
    | true => exact .pure ⟨hbase, hsuffix⟩
    | false => exact .pure ⟨over_append.mpr ⟨hcName, hsuffix⟩, over_append.mpr ⟨hbase, hsuffix⟩⟩
  · exact .pure ⟨hcName, hbase⟩

theorem planFrom_stays {all : List (String × Candidate)} :
    ∀ (rest : List (String × Candidate)) (taken : List (String × String)),
      (∀ e ∈ rest, Text.Over P e.1 ∧ Text.Over P e.2.function.name) →
      (∀ e ∈ taken, Text.Over P e.2) →
      (planFrom ctx all taken rest).Stays P fun entries =>
        ∀ e ∈ entries, StaysOrFails P (FunctionNames.Over P) e.2
  | [], _, _, _ => .pure (by simp)
  | (base, c) :: rest, taken, hall, htaken => by
    obtain ⟨⟨hbase, hc⟩, hrest⟩ := List.forall_mem_cons.mp hall
    rw [planFrom]
    refine (ownNames_stays h hbase hc).bind fun names hnames => ?_
    cases names with
    | error fault =>
      exact (planFrom_stays rest taken hrest htaken).bind fun entries hentries =>
        .pure (List.forall_mem_cons.mpr ⟨hnames, hentries⟩)
    | ok names =>
      dsimp only
      split
      · rename_i first hfirst
        obtain ⟨before, after, heq, -⟩ := List.lookup_eq_some_iff.mp hfirst
        have hfirst : Text.Over P first := htaken (names.scriptName, first) (by rw [heq]; simp)
        exact (planFrom_stays rest taken hrest htaken).bind fun entries hentries =>
          .pure (List.forall_mem_cons.mpr ⟨⟨hnames.2, hfirst⟩, hentries⟩)
      · exact (planFrom_stays rest _ hrest (List.forall_mem_cons.mpr ⟨hc, htaken⟩)).bind
          fun entries hentries => .pure (List.forall_mem_cons.mpr ⟨hnames, hentries⟩)

/-- **All names that are given out are in the alphabet**, and the reasons why one could not be. -/
theorem OverloadPlan.build_stays {functions : List Candidate}
    (hf : ∀ c ∈ functions, Text.Over P c.function.name) :
    (OverloadPlan.build ctx functions).Stays P fun plan =>
      ∀ e ∈ plan.entries, StaysOrFails P (FunctionNames.Over P) e.2 := by
  refine (planFrom_stays h _ [] (fun e he => ?_) (by simp)).bind fun entries hentries => .pure hentries
  obtain ⟨c, hc, rfl⟩ := List.mem_map.mp he
  exact ⟨functionName_over (hf c hc), hf c hc⟩

end LuaGlue
