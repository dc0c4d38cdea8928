import LuaGlue.Proofs.Callback.DispatcherCode
import LuaGlue.Proofs.Marshal.References
import LuaGlue.Proofs.Userdata.Setters

/-!
# What a struct's code mentions

The outline of a struct's code is a function of its name and its accessors: the trampolines of its
callback fields, its getters and setters, and the five functions that are made for the struct as a
whole (`structOutline`, `bindStruct_outlined`). All that its code refers to besides converters is its
own, but for the slots of its callback fields.
-/

set_option autoImplicit false

namespace LuaGlue

open Draft

/-! ## Outlines -/

/-- A trampoline calls the dispatcher with an entry of the pool. -/
def trampolineOutline (owner field : String) (entry : Nat) : List Mention :=
  [.defines (.trampoline owner field entry), .refers (.dispatcher owner field),
   .refers (.slot owner field)]

/-- The table of the trampolines, with the type of its entries. -/
def tableOutline (owner field : String) : List Mention :=
  .defines (.callbackType owner field) :: .defines (.trampolineTable owner field) ::
    (List.range poolSize).map fun entry => .refers (.trampoline owner field entry)

/-- The dispatcher of a callback field, its trampolines and their table. -/
def poolOutline (owner field : String) : List Mention :=
  [.defines (.dispatcher owner field)] ++
    ((List.range poolSize).flatMap (trampolineOutline owner field) ++ tableOutline owner field)

namespace Accessor

/-- The getter of a field. -/
def getterOutline (struct : String) (a : Accessor) : List Mention :=
  if a.readable then [.defines (.getter struct a.key)] else []

/-- The setter of a field; that of a callback refers to the pool and the table of the field. -/
def setterOutline (struct : String) (a : Accessor) : List Mention :=
  if a.writable then
    .defines (.setter struct a.key) ::
      (if a.access == .callback then
        [.refers (.slot struct a.key), .refers (.trampolineTable struct a.key)] else [])
  else []

end Accessor

/-- The setters among some accessors, called in order. -/
def setterCalls (struct : String) (as : List Accessor) : List Mention :=
  (as.filter (·.writable)).map fun a => .refers (.setter struct a.key)

def getterCalls (struct : String) (as : List Accessor) : List Mention :=
  (as.filter (·.readable)).map fun a => .refers (.getter struct a.key)

/-- The functions made for the struct as a whole. -/
def dispatchOutline (struct : String) (as : List Accessor) : List Mention :=
  (.defines (.constructor struct) :: setterCalls struct as) ++
    ([.defines (.converter struct), .refers (.constructor struct)] ++
      ((.defines (.indexer struct) :: getterCalls struct as) ++
        ((.defines (.newIndexer struct) :: setterCalls struct as) ++
          if as.any (·.isOwnedBuffer) then [.defines (.collector struct)] else [])))

def structOutline (struct : String) (as : List Accessor) : List Mention :=
  (as.filter (·.access == .callback)).flatMap (fun a => poolOutline struct a.key) ++
    (as.flatMap (fun a => a.getterOutline struct ++ a.setterOutline struct) ++
      dispatchOutline struct as)

/-! ## Trampolines -/

section

variable (ctx : Context)

theorem pushArguments_converting :
    ∀ (params : List String) (i : Nat), ctx.Converting (pushArguments ctx i params) := by
  intro params
  induction params with
  | nil => intro _; exact .pure ()
  | cons spelling rest ih =>
    intro i
    exact (push_converting ctx _ _).bind fun _ => ih _

theorem answerResult_converting (result : String) (category : Category) :
    ctx.Converting (answerResult ctx result category) := by
  unfold answerResult
  split
  · exact (OnlyConverts.line rfl).bind fun _ => (read_converting ctx _ _ _ _).bind fun _ =>
      .lines rfl
  · split
    · exact returnZero_converting ctx result
    · exact .pure ()

theorem callClosure_converting (site result : String) (category : Category) (nargs : Nat) :
    ctx.Converting (callClosure ctx site result category nargs) :=
  (OnlyConverts.branch rfl rfl
    ((OnlyConverts.lines rfl).bind fun _ => returnZero_converting ctx result)).bind fun _ =>
      answerResult_converting ctx result category

theorem dispatcherBody_converting (site result : String) (category : Category)
    (params : List String) : ctx.Converting (dispatcherBody ctx site result category params) := by
  have zero := returnZero_converting ctx result
  have calling := callClosure_converting ctx site result category params.length
  unfold dispatcherBody
  dsimp only
  refine (OnlyConverts.branch rfl rfl zero).bind fun _ => (OnlyConverts.line rfl).bind fun _ => ?_
  refine (OnlyConverts.branch rfl rfl ((OnlyConverts.line rfl).bind fun _ => zero)).bind fun _ => ?_
  refine (OnlyConverts.line rfl).bind fun _ => (pushArguments_converting ctx params 0).bind fun _ => ?_
  cases !category.isVoid && !category.isCallbackResult with
  | true => exact (OnlyConverts.line rfl).bind fun _ => calling
  | false => exact calling

theorem trampolineCode_mentions (owner field result : String) (category : Category)
    (params : String) (nargs entry : Nat) :
    (trampolineCode owner field result category params nargs entry).mentions =
      trampolineOutline owner field entry := by
  have hargs : ((List.range nargs).map fun i => Arg.value (.name (callbackParam i))).flatMap
      Arg.symbols = [] := by
    simp [List.flatMap_map, Arg.symbols]
  unfold trampolineCode
  dsimp only
  rw [Code.mentions_blockOf]
  split <;>
    simp [Head.mentions, Code.mentions, Line.mentions, Expr.symbols, Call.symbols, Callee.symbols,
      hargs, trampolineOutline, Arg.symbols]

theorem poolCode_mentions (owner field result : String) (category : Category) (params : String)
    (nargs : Nat) :
    (poolCode owner field result category params nargs).mentions =
      (List.range poolSize).flatMap (trampolineOutline owner field) ++ tableOutline owner field := by
  unfold poolCode tableOutline
  -- the size of the pool plays no part
  generalize List.range poolSize = pool
  simp only [Code.mentions_seq, List.flatMap_cons, List.flatMap_nil, Code.mentions_ofLines,
    Code.mentions_blockOf, List.flatMap_map, trampolineCode_mentions]
  simp [Line.mentions, Head.mentions, Symbol.asItem, List.map_eq_flatMap]

variable {ctx} {s s' : Scratch} {u : Unit} {code : Code}

theorem trampolines_outlined {owner : String} {field : Field}
    (h : trampolines ctx owner field s = (.written u code, s')) :
    code.Outlined ctx.Bound (poolOutline owner field.name) := by
  obtain ⟨signature, _, _, _, hsignature, h₁, rfl⟩ := bind_written.mp h
  obtain ⟨-, rfl, rfl⟩ := ofExcept_written.mp hsignature
  obtain ⟨category, _, _, _, hask, h₂, rfl⟩ := bind_written.mp h₁
  obtain ⟨rfl, -, -⟩ := Context.categoryOf_written hask
  obtain ⟨_, _, _, _, hblock, hpool, rfl⟩ := bind_written.mp h₂
  obtain ⟨rfl, -⟩ := write_written.mp hpool
  refine (OnlyConverts.define (dispatcherBody_converting ctx _ _ _ _) hblock).append ?_
  refine .of_mentions (poolCode_mentions owner field.name _ category _ _) fun m hm => ?_
  rcases List.mem_append.mp hm with hm | hm
  · obtain ⟨entry, -, hm⟩ := List.mem_flatMap.mp hm
    simp only [trampolineOutline, List.mem_cons, List.not_mem_nil, or_false] at hm
    rcases hm with rfl | rfl | rfl <;> rfl
  · simp only [tableOutline, List.mem_cons, List.mem_map] at hm
    rcases hm with rfl | rfl | ⟨_, -, rfl⟩ <;> rfl

theorem callbackCode_outlined {struct : StructDecl} :
    ∀ {as : List Accessor} {s s' : Scratch} {u : Unit} {code : Code},
      callbackCode ctx struct as s = (.written u code, s') →
      code.Outlined ctx.Bound
        ((as.filter (·.access == .callback)).flatMap fun a => poolOutline struct.name a.key) := by
  intro as
  induction as with
  | nil =>
    intro s s' u code h
    obtain ⟨-, rfl, -⟩ := pure_written.mp h
    exact .of_mentions rfl (by simp)
  | cons a rest ih =>
    intro s s' u code h
    unfold callbackCode at h
    cases hcallback : a.access == .callback with
    | false =>
      rw [hcallback] at h
      rw [List.filter_cons, hcallback]
      exact ih h
    | true =>
      rw [hcallback] at h
      rw [List.filter_cons, hcallback, if_pos rfl, List.flatMap_cons]
      cases hfield : struct.field? a.key with
      | none =>
        rw [hfield] at h
        obtain ⟨_, _, _, _, hfail, -, -⟩ := bind_written.mp h
        exact absurd hfail fail_written
      | some field =>
        rw [hfield] at h
        obtain ⟨_, _, _, _, htrampolines, hrest, rfl⟩ := bind_written.mp h
        have hname : field.name = a.key := by simpa using List.find?_some hfield
        rw [← hname]
        exact (trampolines_outlined htrampolines).append (ih hrest)

end

/-! ## Getters and setters -/

section

variable {ctx : Context} {struct : String} {a : Accessor} {s s' : Scratch} {u : Unit} {code : Code}

theorem getter_outlined (h : getter ctx struct a s = (.written u code, s')) :
    code.Outlined ctx.Bound [.defines (.getter struct a.key)] := by
  unfold getter at h
  obtain ⟨_, _, _, _, hblock, hblank, rfl⟩ := bind_written.mp h
  obtain ⟨rfl, rfl⟩ := line_written.mp hblank
  refine Code.Outlined.blank (OnlyConverts.define ?_ hblock)
  split
  · refine (OnlyConverts.lines rfl).bind fun _ => .block rfl ?_
    exact (push_converting ctx _ _).bind fun _ => .line rfl
  · exact push_converting ctx _ _

theorem anchoring_converting (ctx : Context) (keep anchored : Bool) (key : String) :
    ctx.Converting (if keep then lines (anchorKeep key)
      else if anchored then line (anchor key valueIndex) else line (.unused "ud")) := by
  split
  · exact .lines rfl
  · split <;> exact .line rfl

theorem valueSetter_converting (ctx : Context) (a : Accessor) : ctx.Converting (valueSetter ctx a) := by
  unfold valueSetter
  refine (ctx.categoryOf_converting a.type).bind fun category =>
    (OnlyConverts.asking _).bind fun keep => ?_
  have hend := anchoring_converting ctx keep category.needsAnchor a.key
  have hread : ctx.Converting (do
      read ctx .checked a.type a.place valueIndex
      if category.isUnknown then lines [.unused "self", .unused "value"]
      if keep then lines (anchorKeep a.key)
      else if category.needsAnchor then line (anchor a.key valueIndex)
      else line (.unused "ud")) := by
    refine (read_converting ctx _ _ _ _).bind fun _ => ?_
    cases category.isUnknown with
    | true => exact (OnlyConverts.lines rfl).bind fun _ => hend
    | false => exact hend
  cases keep with
  | true => exact (OnlyConverts.lines rfl).bind fun _ => hread
  | false => exact hread

theorem bufferSetter_converting (ctx : Context) (a : Accessor) (bit : Nat)
    (countField countType elem : String) :
    ctx.Converting (bufferSetter ctx a bit countField countType elem) := by
  unfold bufferSetter
  dsimp only
  refine (OnlyConverts.asking _).bind fun keep => (OnlyConverts.line rfl).bind fun _ => ?_
  have hend := anchoring_converting ctx keep true a.key
  have fill (ls : List Line) (hls : ls.flatMap Line.mentions = []) : ctx.Converting (do
      lines ls
      block (.count "lua_Integer" "i" "n") do
        line (.call (Api.rawgeti.on [.at valueIndex, .succ "i"]))
        read ctx .lenient elem (.element (.name "buf") "i") .top
        line popOne) := by
    refine (OnlyConverts.lines hls).bind fun _ => .block rfl ((OnlyConverts.line rfl).bind fun _ => ?_)
    exact (read_converting ctx _ _ _ _).bind fun _ => .line rfl
  cases keep with
  | true =>
    exact (OnlyConverts.lines rfl).bind fun _ => (OnlyConverts.lines rfl).bind fun _ =>
      (OnlyConverts.branch rfl rfl (fill _ rfl)).bind fun _ => hend
  | false =>
    exact (OnlyConverts.lines rfl).bind fun _ =>
      (OnlyConverts.branch rfl rfl (fill _ rfl)).bind fun _ => hend

theorem setter_outlined (h : setter ctx struct a s = (.written u code, s')) :
    code.Outlined ctx.Bound (.defines (.setter struct a.key) ::
      if a.access == .callback then
        [.refers (.slot struct a.key), .refers (.trampolineTable struct a.key)] else []) := by
  unfold setter at h
  obtain ⟨_, _, _, _, hblock, hblank, rfl⟩ := bind_written.mp h
  obtain ⟨rfl, rfl⟩ := line_written.mp hblank
  cases ha : a.access with
  | value =>
    rw [ha] at hblock
    exact ((valueSetter_converting ctx a).define hblock).blank
  | callback =>
    rw [ha] at hblock
    obtain ⟨body, hbody, rfl⟩ := block_written.mp hblock
    obtain ⟨rfl, -⟩ := lines_written.mp hbody
    exact .of_mentions rfl (by simp [Mention.isConversion])
  | ownedCount pointer =>
    rw [ha] at hblock
    obtain ⟨body, hbody, rfl⟩ := block_written.mp hblock
    exact absurd hbody fail_written
  | ownedBuffer bit countField countType elem =>
    rw [ha] at hblock
    exact ((bufferSetter_converting ctx a bit countField countType elem).define hblock).blank

theorem fieldCode_outlined {ctx : Context} {struct : String} :
    ∀ {as : List Accessor} {s s' : Scratch} {u : Unit} {code : Code},
      fieldCode ctx struct as s = (.written u code, s') →
      code.Outlined ctx.Bound
        (as.flatMap fun a => a.getterOutline struct ++ a.setterOutline struct) := by
  intro as
  induction as with
  | nil =>
    intro s s' u code h
    obtain ⟨-, rfl, -⟩ := pure_written.mp h
    exact .of_mentions rfl (by simp)
  | cons a rest ih =>
    intro s s' u code h
    unfold fieldCode at h
    rw [List.flatMap_cons, List.append_assoc]
    -- the setter, if there is one, and what comes after
    have setting {t : Scratch} {code : Code} (h : (do
        if a.writable then setter ctx struct a
        fieldCode ctx struct rest) t = (.written u code, s')) :
        code.Outlined ctx.Bound (a.setterOutline struct ++
          rest.flatMap fun a => a.getterOutline struct ++ a.setterOutline struct) := by
      unfold Accessor.setterOutline
      cases hw : a.writable with
      | true =>
        rw [hw] at h
        obtain ⟨_, _, _, _, hset, hrest, rfl⟩ := bind_written.mp h
        exact (setter_outlined hset).append (ih hrest)
      | false =>
        rw [hw] at h
        exact ih h
    unfold Accessor.getterOutline
    cases hr : a.readable with
    | true =>
      rw [hr] at h
      obtain ⟨_, _, _, _, hget, hrest, rfl⟩ := bind_written.mp h
      exact (getter_outlined hget).append (setting hrest)
    | false =>
      rw [hr] at h
      exact setting h

end

/-! ## The functions for the struct as a whole -/

section

variable (ctx : Context) (struct : String) (as : List Accessor) (range : Option ByteRange)

theorem scriptFunction_mentions (f : Symbol) (body : Code) :
    (scriptFunction f body).mentions = .defines f :: body.mentions := by
  simp [scriptFunction, Code.mentions_blockOf, Head.mentions, Line.mentions]

theorem initFields_mentions :
    ((as.filter (·.writable)).flatMap (initField struct)).flatMap Line.mentions =
      setterCalls struct as := by
  rw [List.flatMap_assoc]
  simp [setterCalls, initField, Line.mentions, Cond.symbols, Api.on, Call.symbols, Callee.symbols,
    Arg.symbols, popOne, selfValue, udValue, List.map_eq_flatMap]

theorem constructorCode_mentions : (constructorCode ctx struct as range).mentions =
    .defines (.constructor struct) :: setterCalls struct as := by
  unfold constructorCode
  dsimp only
  rw [scriptFunction_mentions]
  simp only [Code.mentions_seq, List.flatMap_cons, List.flatMap_nil, Code.mentions_ofLines,
    Code.mentions_branchOf, initFields_mentions]
  cases range <;> simp [Line.mentions, Expr.symbols, Cond.symbols, Api.on, Call.symbols,
    Callee.symbols, Arg.symbols, selfValue, Code.mentions_branchOf, takeBytes, declareLen, anchor,
    Support.on, udValue]

theorem converterCode_mentions : (converterCode ctx struct range).mentions =
    [.defines (.converter struct), .refers (.constructor struct)] := by
  cases range <;> rfl

theorem indexCode_mentions : (indexCode ctx struct as).mentions =
    .defines (.indexer struct) :: getterCalls struct as := by
  unfold indexCode
  rw [scriptFunction_mentions]
  simp [Line.mentions, Expr.symbols, Cond.symbols, Api.on, Call.symbols, Callee.symbols,
    Arg.symbols, selfValue, Code.mentions_branchOf, checkSelf, checkKey, getterCalls,
    List.map_eq_flatMap, List.flatMap_assoc]

/-- Assigning a key calls the setter, if there is one. -/
theorem assignKey_mentions (scriptName : String) (a : Accessor) :
    (assignKey struct scriptName a).flatMap Line.mentions =
      if a.writable then [.refers (.setter struct a.key)] else [] := by
  unfold assignKey Accessor.writable
  cases a.access <;> simp [Line.mentions, Expr.symbols, keyError, Api.on, Call.symbols,
    Callee.symbols, Arg.symbols, selfValue]

theorem newIndexCode_mentions (scriptName : String) :
    (newIndexCode ctx struct scriptName as).mentions =
      .defines (.newIndexer struct) :: setterCalls struct as := by
  have hkeys : as.flatMap (fun a => if a.writable then [Mention.refers (.setter struct a.key)] else []) =
      setterCalls struct as := by
    induction as with
    | nil => rfl
    | cons a rest ih =>
      rw [List.flatMap_cons, ih]
      unfold setterCalls
      cases hw : a.writable <;> simp [hw]
  unfold newIndexCode
  rw [scriptFunction_mentions]
  simp [Line.mentions, Expr.symbols, Cond.symbols, Api.on, Call.symbols, Callee.symbols,
    Arg.symbols, Code.mentions_branchOf, checkSelf, checkKey, keyError, List.flatMap_map,
    assignKey_mentions, hkeys]

theorem collectBuffer_mentions (a : Accessor) : (collectBuffer ctx a).mentions = [] := by
  unfold collectBuffer
  split <;> rfl

theorem collectorCode_mentions :
    (collectorCode ctx struct as).mentions = [.defines (.collector struct)] := by
  unfold collectorCode
  rw [scriptFunction_mentions]
  simp [Line.mentions, Expr.symbols, Api.on, Call.symbols, Callee.symbols, Arg.symbols, checkSelf,
    Support.on, List.flatMap_map, collectBuffer_mentions]

end

theorem dispatchOutline_plain (struct : String) (as : List Accessor) :
    ∀ m ∈ dispatchOutline struct as, m.isConversion = false := by
  intro m hm
  simp only [dispatchOutline, setterCalls, getterCalls, List.mem_append, List.mem_cons,
    List.mem_map, List.not_mem_nil, or_false] at hm
  rcases hm with (rfl | ⟨_, -, rfl⟩) | (rfl | rfl) | (rfl | ⟨_, -, rfl⟩) | (rfl | ⟨_, -, rfl⟩) | hm
  iterate 8 rfl
  split at hm
  · rw [List.mem_singleton.mp hm]
    rfl
  · exact absurd hm List.not_mem_nil

/-- **The outline of a struct's code** is that of its accessors. -/
theorem bindStruct_outlined {ctx : Context} {struct : StructDecl} {s s' : Scratch}
    {binding : StructBinding} {code : Code}
    (h : bindStruct ctx struct s = (.written binding code, s')) :
    ∃ fields, ((accessors ctx struct).run s.memo).1 = .ok fields ∧
      code.Outlined ctx.Bound (structOutline struct.name fields) ∧
      binding.native = struct.name ∧ binding.hasCollector = fields.any (·.isOwnedBuffer) := by
  obtain ⟨fields, range, pools, glue, _, _, hfields, -, hcallback, hfield, -, rfl, describes⟩ :=
    bindStruct_parts h
  refine ⟨fields, hfields, ?_, describes.native, describes.hasCollector⟩
  refine (callbackCode_outlined hcallback).append ((fieldCode_outlined hfield).append ?_)
  refine .of_mentions ?_ (dispatchOutline_plain struct.name fields)
  have hcollector : (if fields.any (·.isOwnedBuffer) then collectorCode ctx struct.name fields
      else .done).mentions =
      if fields.any (·.isOwnedBuffer) then [.defines (.collector struct.name)] else [] := by
    split
    · exact collectorCode_mentions ctx struct.name fields
    · rfl
  simp only [wholeCode, Code.mentions_seq, List.flatMap_cons, List.flatMap_nil,
    constructorCode_mentions, converterCode_mentions, indexCode_mentions, newIndexCode_mentions,
    hcollector, dispatchOutline, List.append_nil]

end LuaGlue
