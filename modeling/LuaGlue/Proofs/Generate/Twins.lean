import LuaGlue.Generate
import LuaGlue.Proofs.Classifier.Memo

/-!
# Contexts that classify alike

Everything that is written depends on the table of names only through the answers of the classifier, and on
the interface only through its declarations. So a context may be replaced by one with other dependencies
and another table, if the classifier answers alike (`Context.Twin`): whatever step of a run is taken in it,
it writes the same. There is one equation for each step that asks the classifier, itself or through
another; a step that asks nothing is the same by definition.
-/

set_option autoImplicit false

namespace LuaGlue

open Draft

/-- Other dependencies, and another table by which every spelling has the same category. -/
structure Context.Twin (ctx : Context) where
  dependencies : List DependencyType
  index : TypeIndex
  same : LuaGlue.classify index = ctx.classify

namespace Context.Twin

variable {ctx : Context} (t : ctx.Twin)

/-- The other context. -/
def context : Context :=
  { ctx with interface := { ctx.interface with dependencies := t.dependencies }, index := t.index }

/-- Unbinding structs does not tell them apart. -/
def unbind (names : List String) : (ctx.unbind names).Twin := ⟨t.dependencies, t.index, t.same⟩

theorem classify_eq : t.context.classify = ctx.classify := t.same

theorem categoryOf_eq : t.context.categoryOf = ctx.categoryOf := by
  funext spelling
  rw [Context.categoryOf, t.classify_eq]
  rfl

/-! ## Marshaling -/

theorem keepsWithin_eq (levels : Nat) :
    keepsWithin t.context levels = keepsWithin ctx levels := by
  induction levels with
  | zero => rfl
  | succ levels ih =>
    funext spelling
    unfold keepsWithin
    rw [t.classify_eq, ih]
    rfl

theorem needsKeep_eq : needsKeep t.context = needsKeep ctx := t.keepsWithin_eq maxNesting

theorem needsKeep?_eq : needsKeep? t.context = needsKeep? ctx := by
  funext spelling?
  cases spelling? with
  | none => rfl
  | some spelling => exact congrFun t.needsKeep_eq spelling

theorem returnZero_eq : returnZero t.context = returnZero ctx := by
  funext spelling
  unfold returnZero
  rw [t.categoryOf_eq]
  rfl

theorem pushWith_eq (tuple : String → Place → Draft Unit) (rank : Nat) :
    pushWith t.context tuple rank = pushWith ctx tuple rank := by
  induction rank with
  | zero =>
    funext spelling source
    unfold pushWith
    rw [t.categoryOf_eq]
    rfl
  | succ rank ih =>
    funext spelling source
    unfold pushWith
    rw [t.categoryOf_eq]
    refine bind_congr fun category => ?_
    cases category with
    | structValue name shape => cases shape <;> rfl
    | fixedArray elem size =>
      cases elementType? spelling with
      | none => rfl
      | some elem =>
        dsimp only
        rw [ih]
    | _ => rfl

theorem pushTuple_eq (levels : Nat) :
    pushTuple t.context levels = pushTuple ctx levels := by
  induction levels with
  | zero => rfl
  | succ levels ih =>
    funext name source
    unfold pushTuple
    simp only [ih, t.pushWith_eq]
    rfl

theorem push_eq : push t.context = push ctx := by
  funext spelling source
  unfold push
  rw [t.pushTuple_eq, t.pushWith_eq]

theorem readWith_eq (tuple : ReadMode → String → Place → StackIndex → Draft Unit) (rank : Nat) :
    readWith t.context tuple rank = readWith ctx tuple rank := by
  induction rank with
  | zero =>
    funext mode spelling place index
    unfold readWith
    rw [t.categoryOf_eq]
    rfl
  | succ rank ih =>
    funext mode spelling place index
    unfold readWith
    rw [t.categoryOf_eq]
    refine bind_congr fun category => ?_
    cases category with
    | structValue name shape => cases shape <;> rfl
    | fixedArray elem size =>
      cases elementType? spelling with
      | none => rfl
      | some elem =>
        dsimp only
        rw [ih]
    | _ => rfl

theorem readTuple_eq (levels : Nat) :
    readTuple t.context levels = readTuple ctx levels := by
  induction levels with
  | zero => rfl
  | succ levels ih =>
    funext mode name place index
    unfold readTuple
    simp only [ih, t.readWith_eq]
    rfl

theorem read_eq : read t.context = read ctx := by
  funext mode spelling place index
  unfold read
  rw [t.readTuple_eq, t.readWith_eq]

/-! ## Structs -/

theorem bindableFields_eq (owner : String) (fields : List Field) :
    bindableFields t.context owner fields = bindableFields ctx owner fields := by
  induction fields with
  | nil => rfl
  | cons f rest ih =>
    unfold bindableFields
    rw [t.classify_eq, ih]

theorem collectSlots_eq (structs : List StructDecl) :
    collectSlots t.context structs = collectSlots ctx structs := by
  induction structs with
  | nil => rfl
  | cons s rest ih =>
    unfold collectSlots
    rw [t.bindableFields_eq, ih]

theorem pushArguments_eq (params : List String) (i : Nat) :
    pushArguments t.context i params = pushArguments ctx i params := by
  induction params generalizing i with
  | nil => rfl
  | cons spelling rest ih =>
    unfold pushArguments
    rw [t.push_eq, ih]

theorem dispatcherBody_eq : dispatcherBody t.context = dispatcherBody ctx := by
  funext site result category params
  unfold dispatcherBody
  rw [t.returnZero_eq, t.read_eq, t.pushArguments_eq]
  rfl

theorem trampolines_eq : trampolines t.context = trampolines ctx := by
  funext owner field
  unfold trampolines
  rw [t.categoryOf_eq, t.dispatcherBody_eq]
  rfl

theorem nestedStruct?_eq : nestedStruct? t.context = nestedStruct? ctx := by
  funext f
  unfold nestedStruct?
  rw [t.classify_eq]
  rfl

theorem flattenedMembers_eq (outer : String) (nested : StructDecl) (taken : List String)
    (fields : List Field) : flattenedMembers t.context outer nested taken fields =
      flattenedMembers ctx outer nested taken fields := by
  induction fields generalizing taken with
  | nil => rfl
  | cons f rest ih =>
    unfold flattenedMembers
    simp only [t.classify_eq, ih]

theorem fieldAccessors_eq : fieldAccessors t.context = fieldAccessors ctx := by
  funext s taken f
  unfold fieldAccessors
  simp only [t.classify_eq, t.nestedStruct?_eq, t.flattenedMembers_eq]
  rfl

theorem accessorsFrom_eq (s : StructDecl) (taken : List String) (fields : List Field) :
    accessorsFrom t.context s taken fields = accessorsFrom ctx s taken fields := by
  induction fields generalizing taken with
  | nil => rfl
  | cons f rest ih =>
    unfold accessorsFrom
    simp only [t.fieldAccessors_eq, ih]

theorem accessors_eq : accessors t.context = accessors ctx := by
  funext s
  exact t.accessorsFrom_eq s _ _

theorem bufferGetter_eq : bufferGetter t.context = bufferGetter ctx := by
  funext a countField elem
  unfold bufferGetter
  rw [t.push_eq]
  rfl

theorem getter_eq : getter t.context = getter ctx := by
  funext struct a
  unfold getter
  rw [t.bufferGetter_eq, t.push_eq]

theorem bufferSetter_eq : bufferSetter t.context = bufferSetter ctx := by
  funext a bit countField countType elem
  unfold bufferSetter
  rw [t.needsKeep_eq, t.read_eq]
  rfl

theorem valueSetter_eq : valueSetter t.context = valueSetter ctx := by
  funext a
  unfold valueSetter
  rw [t.categoryOf_eq, t.needsKeep_eq, t.read_eq]

theorem setter_eq : setter t.context = setter ctx := by
  funext struct a
  unfold setter
  rw [t.valueSetter_eq, t.bufferSetter_eq]
  rfl

theorem callbackCode_eq (s : StructDecl) (accessors : List Accessor) :
    callbackCode t.context s accessors = callbackCode ctx s accessors := by
  induction accessors with
  | nil => rfl
  | cons a rest ih =>
    unfold callbackCode
    rw [t.trampolines_eq, ih]

theorem fieldCode_eq (struct : String) (accessors : List Accessor) :
    fieldCode t.context struct accessors = fieldCode ctx struct accessors := by
  induction accessors with
  | nil => rfl
  | cons a rest ih =>
    unfold fieldCode
    rw [t.getter_eq, t.setter_eq, ih]

theorem byteRangeOf?_eq : byteRangeOf? t.context = byteRangeOf? ctx := by
  funext struct
  unfold byteRangeOf?
  rw [t.classify_eq]
  rfl

theorem luaType_eq : luaType t.context = luaType ctx := by
  -- the recursion runs through lists as well, so unfolding takes it in one piece
  delta luaType
  rfl

theorem accessorBinding_eq (a : Accessor) : a.binding t.context = a.binding ctx := by
  unfold Accessor.binding
  rw [t.classify_eq, t.luaType_eq]

theorem bindStruct_eq : bindStruct t.context = bindStruct ctx := by
  funext s
  unfold bindStruct
  simp only [t.accessors_eq, t.callbackCode_eq, t.fieldCode_eq, t.byteRangeOf?_eq, t.accessorBinding_eq]
  rfl

/-! ## Functions -/

theorem countedElem?_eq : countedElem? t.context = countedElem? ctx := by
  funext p category next
  unfold countedElem?
  rw [t.classify_eq]
  rfl

theorem pairParams_eq (function : String) (params : List Param) :
    pairParams t.context function params = pairParams ctx function params := by
  induction params using pairParams.induct with
  | case1 => rfl
  | case2 p rest ih after =>
    unfold pairParams
    rw [t.classify_eq, t.countedElem?_eq, ih]
    cases rest with
    | nil => rfl
    | cons count rest' =>
      dsimp only at after ⊢
      rw [after]
      rfl

theorem overloadSuffix_eq : overloadSuffix t.context = overloadSuffix ctx := by
  funext f
  unfold overloadSuffix
  rw [t.classify_eq]
  rfl

theorem ownNames_eq (base : String) (group : List Candidate) (c : Candidate) :
    c.ownNames t.context base group = c.ownNames ctx base group := by
  unfold Candidate.ownNames
  rw [t.overloadSuffix_eq]

theorem planFrom_eq (all : List (String × Candidate)) (taken : List (String × String))
    (rest : List (String × Candidate)) :
    planFrom t.context all taken rest = planFrom ctx all taken rest := by
  induction rest generalizing taken with
  | nil => rfl
  | cons entry rest ih =>
    unfold planFrom
    simp only [t.ownNames_eq, ih]

theorem overloadPlan_eq (functions : List Candidate) :
    OverloadPlan.build t.context functions = OverloadPlan.build ctx functions := by
  unfold OverloadPlan.build
  simp only [t.planFrom_eq]
  rfl

theorem needsScratch_eq (u : ParamUnit) : u.needsScratch t.context = u.needsScratch ctx := by
  unfold ParamUnit.needsScratch
  rw [t.needsKeep_eq, t.needsKeep?_eq]

theorem readBuffer_eq : readBuffer t.context = readBuffer ctx := by
  funext elem slot target count
  unfold readBuffer
  rw [t.read_eq]

theorem readOutput_eq : readOutput t.context = readOutput ctx := by
  funext p slot
  unfold readOutput
  rw [t.categoryOf_eq, t.read_eq, t.luaType_eq]
  rfl

theorem readConstPointer_eq : readConstPointer t.context = readConstPointer ctx := by
  funext p slot
  unfold readConstPointer
  rw [t.categoryOf_eq, t.readBuffer_eq, t.luaType_eq]
  rfl

theorem readConstStruct_eq : readConstStruct t.context = readConstStruct ctx := by
  funext p category slot
  unfold readConstStruct
  rw [t.categoryOf_eq, t.read_eq, t.luaType_eq]
  rfl

theorem readSingle_eq : readSingle t.context = readSingle ctx := by
  funext p category output slot
  unfold readSingle
  rw [t.readOutput_eq, t.readConstPointer_eq, t.readConstStruct_eq, t.read_eq, t.luaType_eq]
  rfl

theorem readArrayCount_eq : readArrayCount t.context = readArrayCount ctx := by
  funext array count elem slot
  unfold readArrayCount
  rw [t.readBuffer_eq, t.categoryOf_eq, t.luaType_eq]
  rfl

theorem readFixedArray_eq : readFixedArray t.context = readFixedArray ctx := by
  funext p elem size writable slot
  unfold readFixedArray
  rw [t.read_eq, t.categoryOf_eq, t.luaType_eq]
  rfl

theorem readUnit_eq : readUnit t.context = readUnit ctx := by
  funext slot u
  unfold readUnit
  rw [t.readSingle_eq, t.readArrayCount_eq, t.readFixedArray_eq]

theorem readUnits_eq (units : List ParamUnit) (slot : Nat) :
    readUnits t.context slot units = readUnits ctx slot units := by
  induction units generalizing slot with
  | nil => rfl
  | cons u rest ih =>
    unfold readUnits
    rw [t.readUnit_eq, ih]

theorem pushOutput_eq : pushOutput t.context = pushOutput ctx := by
  funext o
  unfold pushOutput
  rw [t.push_eq, t.categoryOf_eq, t.luaType_eq]
  rfl

theorem pushResult_eq : pushResult t.context = pushResult ctx := by
  funext result category
  unfold pushResult
  rw [t.push_eq, t.luaType_eq]

theorem pushOutputs_eq (outputs : List OutputValue) :
    pushOutputs t.context outputs = pushOutputs ctx outputs := by
  induction outputs with
  | nil => rfl
  | cons o rest ih =>
    unfold pushOutputs
    rw [t.pushOutput_eq, ih]

theorem wrapperBody_eq : wrapperBody t.context = wrapperBody ctx := by
  funext f names
  unfold wrapperBody
  simp only [t.pairParams_eq, t.needsScratch_eq, t.readUnits_eq, t.categoryOf_eq, t.pushResult_eq, t.pushOutputs_eq]
  rfl

theorem wrapFunction_eq : wrapFunction t.context = wrapFunction ctx := by
  funext f names
  unfold wrapFunction
  rw [t.wrapperBody_eq]

/-! ## Modules -/

theorem structRound_eq (structs : List StructDecl) :
    structRound t.context structs = structRound ctx structs := by
  induction structs with
  | nil => rfl
  | cons s rest ih =>
    unfold structRound
    rw [t.bindStruct_eq, ih]
    rfl

theorem addDecl_eq (p : Progress) (settled : Settled) (plan : OverloadPlan) (position : Nat)
    (d : Declaration) :
    p.addDecl t.context settled plan position d = p.addDecl ctx settled plan position d := by
  unfold Progress.addDecl
  rw [t.wrapFunction_eq]
  rfl

theorem addDecls_eq (settled : Settled) (plan : OverloadPlan) (p : Progress) (position : Nat)
    (decls : List Declaration) :
    Progress.addDecls t.context settled plan p position decls =
      Progress.addDecls ctx settled plan p position decls := by
  induction decls generalizing p position with
  | nil => rfl
  | cons d rest ih =>
    unfold Progress.addDecls
    simp only [t.addDecl_eq, ih]

/-- Settling ends in a twin of the context it ends in otherwise. -/
theorem settleWithin_eq {rounds : Nat} : ∀ {ctx ctx' : Context} (t : ctx.Twin)
    {failed : List (String × Fault)} {m m' : Memo} {settled : Settled},
      (settleWithin rounds ctx failed).run m = ((ctx', settled), m') →
      ∃ t' : ctx'.Twin, (settleWithin rounds t.context failed).run m =
        ((t'.context, settled), m') := by
  induction rounds with
  | zero =>
    intro ctx ctx' t failed m m' settled h
    obtain ⟨heq, rfl⟩ := Classifying.run_pure_eq.mp h
    cases heq
    exact ⟨t, rfl⟩
  | succ rounds ih =>
    intro ctx ctx' t failed m m' settled h
    obtain ⟨r, m₁, hround, h₁⟩ := Classifying.run_bind_eq.mp h
    have hround' : (structRound t.context ctx.interface.structs).run m = (r, m₁) := by
      rw [t.structRound_eq, hround]
    by_cases hempty : r.failed.isEmpty = true
    · rw [if_pos hempty] at h₁
      obtain ⟨heq, rfl⟩ := Classifying.run_pure_eq.mp h₁
      cases heq
      refine ⟨t, Classifying.run_bind_eq.mpr ⟨r, _, hround', ?_⟩⟩
      rw [if_pos hempty]
      rfl
    · rw [if_neg hempty] at h₁
      obtain ⟨t', hrest⟩ := ih (t.unbind (r.failed.map (·.1))) h₁
      refine ⟨t', Classifying.run_bind_eq.mpr ⟨r, m₁, hround', ?_⟩⟩
      rw [if_neg hempty]
      exact hrest

end Context.Twin

end LuaGlue
