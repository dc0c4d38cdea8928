import LuaGlue.Proofs.Userdata.Deeds
import LuaGlue.Proofs.Userdata.Origins
import LuaGlue.Proofs.Userdata.References
import Mathlib.Data.List.Nodup

/-!
# What a struct does with its buffers

All that the text of a struct does with memory and with the struct is done by its setters, by its
constructor when it takes the bytes of a string, and by its collector (`bindStruct_deeds`). From that
comes the discipline of the buffers: each of them is freed by its own setter and by the collector, both
times only if the struct owns it, and is forgotten at once; and its setter lets go of the old buffer
before it allocates the new one, and owns the new one before it fetches an element, so that an error
while it is filled neither leaks it nor frees it twice (`buffers_handled`).
-/

set_option autoImplicit false

namespace LuaGlue

/-! ## The deeds of a setter -/

/-- The memory of a field is freed. -/
def Accessor.freed (a : Accessor) : Deed := .free [.cast "void*" a.place]

/-- The setter of a field. -/
def Accessor.setterSite (struct : String) (a : Accessor) : Site := ⟨some (.setter struct a.key), []⟩

/-- What the setter of a buffer does, in its order. -/
def Accessor.refills (ctx : Context) (struct : String) (a : Accessor) (bit : Nat)
    (countField countType : String) : List (Site × Deed) :=
  let setter := a.setterSite struct
  let nonempty := setter.under (.text "n > 0")
  [(setter.under (.owns bit), a.freed),
   (setter, .assign a.path (.text ctx.null)),
   (setter, .assign countField (.text "0")),
   (setter, .disown bit),
   (setter, .record [.state, udValue, .value (.name "owned")]),
   (nonempty, .allocate),
   (nonempty, .assign a.path (.value (.name "buf"))),
   (nonempty, .assign countField (.cast (valueType countType) (.value (.name "n")))),
   (nonempty, .record [.state, udValue, .ownedWith bit]),
   (nonempty, .fetch)]

section

variable {ctx : Context} {m : Memo} {struct : String} {a : Accessor}

theorem keepLines_idle (keep : Bool) : (Code.ofLines (keepLines keep)).Idle := by
  cases keep with
  | true => exact .idleLine (fun _ => rfl) (.idleLine (fun _ => rfl) .done)
  | false => exact .done

theorem anchorLines_idle (keep anchored : Bool) (key : String) :
    (Code.ofLines (anchorLines keep anchored key)).Idle := by
  cases keep with
  | true =>
    exact .idleLine (fun _ => rfl) (.idleLine (fun _ => rfl) (.idleLine (fun _ => rfl)
      (.idleLine (fun _ => rfl) .done)))
  | false => cases anchored <;> exact .idleLine (fun _ => rfl) .done

theorem valueSetterCode_deeds {key : String} {category : Category} {keep : Bool} {inside : Code}
    {P : Deed → Prop} (h : inside.DeedsIn P) : (valueSetterCode key category keep inside).DeedsIn P := by
  have hunused : (Code.ofLines
      (if category.isUnknown then [.unused "self", .unused "value"] else [])).Idle := by
    split
    · exact .idleLine (fun _ => rfl) (.idleLine (fun _ => rfl) .done)
    · exact .done
  exact .append ((keepLines_idle keep).mono fun _ => False.elim) (.append h
    (.append (hunused.mono fun _ => False.elim) ((anchorLines_idle _ _ _).mono fun _ => False.elim)))

section

variable {bit : Nat} {countField countType elem : String} (site : Site)

theorem releaseLines_deeds :
    (Code.ofLines (releaseLines ctx a bit countField)).deeds site =
      [(site.under (.owns bit), a.freed),
       (site, .assign a.path (.text ctx.null)),
       (site, .assign countField (.text "0")),
       (site, .disown bit),
       (site, .record [.state, udValue, .value (.name "owned")])] := by
  simp [releaseLines, freeIfOwned, Line.deeds, Expr.calls, Cond.calls, Call.deeds, Api.on, Support.on,
    List.filterMap_cons, Arg.filled?, Accessor.place, Accessor.freed, udValue]

theorem allocateLines_deeds :
    (Code.ofLines (allocateLines ctx a bit countField countType elem)).deeds site =
      [(site, .allocate),
       (site, .assign a.path (.value (.name "buf"))),
       (site, .assign countField (.cast (valueType countType) (.value (.name "n")))),
       (site, .record [.state, udValue, .ownedWith bit])] := by
  simp [allocateLines, Line.deeds, Expr.calls, Cond.calls, Call.deeds, Api.on, Support.on,
    List.filterMap_cons, Arg.filled?, Accessor.place, udValue]

theorem fillCode_deeds {inside : Code} (h : inside.Idle) :
    (fillCode inside).deeds site = [(site, .fetch)] := by
  have hpop : (Code.line popOne .done).deeds site = [] := rfl
  have hbody : (inside ++ .line popOne .done).deeds site = [] := by
    rw [Code.deeds_append, h.deeds_eq, hpop, List.append_nil]
  simp [fillCode, Code.blockOf, Code.deeds, Site.inside, hbody, Line.deeds, Call.deeds, Api.on]

end

/-- The setter of a buffer does what it should, in this order. -/
theorem bufferSetterCode_deeds {bit : Nat} {countField countType elem : String} {keep : Bool}
    {inside : Code} (h : inside.Idle) :
    (bufferSetterCode ctx a bit countField countType elem keep inside).deeds (a.setterSite struct) =
      a.refills ctx struct bit countField countType := by
  have hcheck (site : Site) :
      (Line.call (Api.checktype.on [.at valueIndex, .text "LUA_TTABLE"])).deeds site = [] := rfl
  rw [bufferSetterCode, refillCode, Code.deeds, hcheck, Code.deeds_append, (keepLines_idle keep).deeds_eq,
    Code.deeds_append, releaseLines_deeds, Code.deeds, Code.deeds_append, allocateLines_deeds,
    fillCode_deeds _ h, (anchorLines_idle keep true a.key).deeds_eq]
  rfl

/-- What a setter writes, unless it sets a buffer: its own field. -/
theorem Sets.deeds {body : Code} (h : Sets ctx m struct a body) (hp : a.access = .callback → a.path = a.key)
    (ha : a.isOwnedBuffer = false) : body.DeedsIn (Deed.Writes (some a.path)) := by
  cases h with
  | value ha' hc hk inside => exact valueSetterCode_deeds (inside.deeds (by simp [ReadJob.table?]))
  | callback ha' =>
    refine .idleLine (fun _ => rfl) (.line ?_ .done)
    rw [hp ha']
    exact assign_writes rfl
  | ownedBuffer ha' hk inside => simp [Accessor.isOwnedBuffer, ha'] at ha

theorem Sets.refills {body : Code} (h : Sets ctx m struct a body) {bit : Nat}
    {countField countType elem : String} (ha : a.access = .ownedBuffer bit countField countType elem) :
    body.deeds (a.setterSite struct) = a.refills ctx struct bit countField countType := by
  cases h with
  | ownedBuffer ha' hk inside =>
    cases ha.symm.trans ha'
    exact bufferSetterCode_deeds (inside.idle rfl)
  | value ha' | callback ha' => cases ha.symm.trans ha'

end

/-! ## Getters and pools -/

section

variable {ctx : Context} {struct : String} {a : Accessor} {s s' : Scratch} {u : Unit} {code : Code}

theorem bufferGetter_idle {countField elem : String}
    (h : bufferGetter ctx a countField elem s = (.written u code, s')) : code.Idle := by
  obtain ⟨_, h₁, rfl⟩ := Draft.lines_bind_written.mp h
  obtain ⟨_, hbody, rfl⟩ := Draft.block_written.mp h₁
  obtain ⟨_, _, _, _, hpush, hstore, rfl⟩ := Draft.bind_written.mp hbody
  obtain ⟨rfl, -⟩ := Draft.line_written.mp hstore
  exact .append (.idleLine (fun _ => rfl) (.idleLine (fun _ => rfl) (.idleLine (fun _ => rfl) .done)))
    (.block (.append (push_pushes hpush).idle (.idleLine (fun _ => rfl) .done)) .done)

/-- A getter only looks. -/
theorem getter_idle (h : getter ctx struct a s = (.written u code, s')) : code.Idle := by
  unfold getter at h
  obtain ⟨_, _, _, _, hblock, hblank, rfl⟩ := Draft.bind_written.mp h
  obtain ⟨rfl, rfl⟩ := Draft.line_written.mp hblank
  obtain ⟨body, hbody, rfl⟩ := Draft.block_written.mp hblock
  have hidle : body.Idle := by
    cases ha : a.access with
    | ownedBuffer bit countField countType elem =>
      rw [ha] at hbody
      exact bufferGetter_idle hbody
    | value | callback | ownedCount pointer =>
      rw [ha] at hbody
      exact (push_pushes hbody).idle
  exact .append (.block hidle .done) (.idleLine (fun _ => rfl) .done)

theorem callbackCode_idle {struct : StructDecl} :
    ∀ {as : List Accessor} {s s' : Scratch} {u : Unit} {code : Code},
      callbackCode ctx struct as s = (.written u code, s') → code.Idle := by
  intro as
  induction as with
  | nil =>
    intro s s' u code h
    obtain ⟨-, rfl, -⟩ := Draft.pure_written.mp h
    exact .done
  | cons a rest ih =>
    intro s s' u code h
    unfold callbackCode at h
    cases hcallback : a.access == .callback with
    | false =>
      rw [hcallback] at h
      exact ih h
    | true =>
      rw [hcallback] at h
      cases hfield : struct.field? a.key with
      | none =>
        rw [hfield] at h
        obtain ⟨_, _, _, _, hfail, -, -⟩ := Draft.bind_written.mp h
        exact absurd hfail Draft.fail_written
      | some field =>
        rw [hfield] at h
        obtain ⟨_, _, _, _, htrampolines, hrest, rfl⟩ := Draft.bind_written.mp h
        exact (trampolines_idle htrampolines).append (ih hrest)

end

/-! ## Code that does everything in its setters -/

namespace Code

/-- What setters do. -/
def setterDeeds (setters : List (Symbol × Code)) : List (Site × Deed) :=
  setters.flatMap fun (f, body) => body.deeds ⟨some f, []⟩

/-- All that the code does is done by the setters it defines. -/
def InSetters (code : Code) : Prop := code.deeds {} = setterDeeds code.setters

theorem InSetters.append {a b : Code} (ha : a.InSetters) (hb : b.InSetters) : (a ++ b).InSetters := by
  rw [InSetters, deeds_append, setters_append, ha, hb, setterDeeds, setterDeeds, setterDeeds,
    List.flatMap_append]

theorem Idle.inSetters {code : Code} (h : code.Idle) (hs : code.setters = []) : code.InSetters := by
  rw [InSetters, h.deeds_eq, hs]
  rfl

end Code

theorem fieldCode_inSetters {ctx : Context} {struct : String} :
    ∀ {accessors : List Accessor} {s s' : Scratch} {u : Unit} {code : Code},
      fieldCode ctx struct accessors s = (.written u code, s') → code.InSetters := by
  intro accessors
  induction accessors with
  | nil =>
    intro s s' u code h
    obtain ⟨-, rfl, -⟩ := Draft.pure_written.mp h
    rfl
  | cons a rest ih =>
    intro s s' u code h
    unfold fieldCode at h
    have setting {t : Scratch} {code : Code} (h : (do
        if a.writable then setter ctx struct a
        fieldCode ctx struct rest) t = (.written u code, s')) : code.InSetters := by
      cases hw : a.writable with
      | true =>
        rw [hw] at h
        obtain ⟨_, _, _, _, hset, hrest, rfl⟩ := Draft.bind_written.mp h
        obtain ⟨body, -, rfl⟩ := setter_written hset
        refine Code.InSetters.append ?_ (ih hrest)
        simp [Code.InSetters, Code.setterDeeds, Code.setters, Code.definitions, Symbol.isSetter, Code.deeds,
          Site.inside, Line.deeds]
      | false =>
        rw [hw] at h
        exact ih h
    cases hr : a.readable with
    | true =>
      rw [hr] at h
      obtain ⟨_, _, _, _, hget, hrest, rfl⟩ := Draft.bind_written.mp h
      obtain ⟨body, hbody⟩ := getter_written hget
      exact ((getter_idle hget).inSetters (by rw [hbody, Code.setters_define rfl]; rfl)).append
        (setting hrest)
    | false =>
      rw [hr] at h
      exact setting h

/-! ## The functions made for a struct as a whole -/

/-- The constructor takes the bytes of a string. -/
def rangeDeeds (struct : String) : Option ByteRange → List (Site × Deed)
  | none => []
  | some range =>
    let site : Site := ⟨some (.constructor struct), [.isString (.slot 1)]⟩
    [(site, .assign range.pointer (.call (Api.tolstring.on [.at (.slot 1), .address "len"]))),
     (site, .assign range.size (.value (.name "len")))]

def collectorSite (struct : String) : Site := ⟨some (.collector struct), []⟩

/-- What the collector does with a buffer. -/
def Accessor.collects (ctx : Context) (struct : String) (a : Accessor) : List (Site × Deed) :=
  match a.access with
  | .ownedBuffer bit countField _ _ =>
    let owned := (collectorSite struct).under (.owns bit)
    [(owned, a.freed),
     (owned, .assign a.path (.text ctx.null)),
     (owned, .assign countField (.text "0"))]
  | _ => []

/-- What the collector does: buffer by buffer, and then it records that none of them is owned. -/
def collectorDeeds (ctx : Context) (struct : String) (as : List Accessor) : List (Site × Deed) :=
  as.flatMap (Accessor.collects ctx struct) ++
    [(collectorSite struct, .record [.state, .number 1, .number 0])]

section

variable (ctx : Context) (struct : String) (as : List Accessor)

theorem constructorCode_deeds (range : Option ByteRange) :
    (constructorCode ctx struct as range).deeds {} = rangeDeeds struct range := by
  have hfields : (Code.ofLines ((as.filter (·.writable)).flatMap (initField struct))).Idle := by
    refine .idleLines fun l hl site => ?_
    obtain ⟨a, -, hl⟩ := List.mem_flatMap.mp hl
    simp only [initField, List.mem_cons, List.not_mem_nil, or_false] at hl
    rcases hl with rfl | rfl | rfl <;> rfl
  cases range <;>
    simp [constructorCode, scriptFunction, Code.deeds, Code.blockOf, Code.branchOf, Site.inside, Site.under,
      hfields.deeds_eq, Line.deeds, Expr.calls, Cond.calls, Call.deeds, Api.on, Support.on, takeBytes,
      declareLen, anchor, selfValue, udValue, List.filterMap_cons, Arg.filled?, rangeDeeds]

/-- What a converter ends with adds no deed to the lines before it. -/
theorem keepAndSucceed_idle {ls : List Line} (h : ∀ l ∈ ls, ∀ site, l.deeds site = []) :
    (Code.ofLines (ls ++ keepAndSucceed)).Idle := by
  refine .idleLines (List.forall_mem_append.mpr ⟨h, fun l hl site => ?_⟩)
  rcases List.mem_pair.mp hl with rfl | rfl <;> rfl

theorem converterCode_idle (range : Option ByteRange) : (converterCode ctx struct range).Idle := by
  have hrange : Code.Idle (match range with
      | none => .done
      | some r => .branchOf (.isString (.held "idx"))
        (.ofLines
          ([declareLen,
            .call ⟨.libc "memset", [.value (.name "out"), .number 0, .sizeof struct]⟩] ++
            takeBytes r "out" (.held "idx") ++ [.call (Api.pushvalue.on [.at (.held "idx")])] ++
              keepAndSucceed))) := by
    cases range with
    | none => exact .done
    | some r =>
      exact .branch rfl (keepAndSucceed_idle (by
        simp [takeBytes, declareLen, Line.deeds, Expr.calls, Call.deeds, Api.on, Arg.filled?,
          Place.selfPath?])) .done .done
  refine .append (.block ?_ .done) (.append (.idleLine (fun _ => rfl) .done) .done)
  refine .append (.idleLine (fun _ => rfl) (.idleLine (fun _ => rfl) .done)) (.append
    (.branch rfl (keepAndSucceed_idle ?_) .done .done) (.append hrange (.append
      (keepAndSucceed_idle ?_) .done)))
  · simp [Line.deeds, Expr.calls, Call.deeds, Api.on, Arg.filled?, Place.selfPath?]
  · simp [Line.deeds, Expr.calls, Cond.calls, Call.deeds, Api.on, Arg.filled?, Place.selfPath?]

theorem scriptFunction_idle {f : Symbol} {body : Code} (h : body.Idle) : (scriptFunction f body).Idle :=
  .append (.block h .done) (.append (.idleLine (fun _ => rfl) .done) .done)

theorem indexCode_idle : (indexCode ctx struct as).Idle := by
  refine scriptFunction_idle (.append (.idleLine (fun _ => rfl) (.idleLine (fun _ => rfl) .done))
    (.append (.seq fun c hc => ?_) (.append (.idleLine (fun _ => rfl) .done) .done)))
  obtain ⟨a, -, rfl⟩ := List.mem_map.mp hc
  exact .branch rfl (.idleLine (fun _ => rfl) (.idleLine (fun _ => rfl) .done)) .done .done

theorem newIndexCode_idle (scriptName : String) : (newIndexCode ctx struct scriptName as).Idle := by
  refine scriptFunction_idle (.append (.idleLine (fun _ => rfl) (.idleLine (fun _ => rfl) .done))
    (.append (.seq fun c hc => ?_) (.append (.idleLine (fun _ => rfl) .done) .done)))
  obtain ⟨a, -, rfl⟩ := List.mem_map.mp hc
  refine .branch rfl ?_ .done .done
  unfold assignKey
  split
  · exact .idleLine (fun _ => rfl) .done
  · exact .idleLine (fun _ => rfl) (.idleLine (fun _ => rfl) .done)

theorem collectBuffer_deeds (a : Accessor) :
    (collectBuffer ctx a).deeds (collectorSite struct) = a.collects ctx struct := by
  unfold collectBuffer Accessor.collects
  cases a.access with
  | ownedBuffer bit countField countType elem =>
    simp [Code.deeds, Code.branchOf, Line.deeds, Expr.calls, Cond.calls, Call.deeds, Accessor.place,
      Accessor.freed]
  | value | callback | ownedCount pointer => rfl

theorem collectorCode_deeds :
    (collectorCode ctx struct as).deeds {} = collectorDeeds ctx struct as := by
  have hbuffers : (as.map (collectBuffer ctx)).flatMap (Code.deeds (collectorSite struct)) =
      as.flatMap (Accessor.collects ctx struct) := by
    rw [List.flatMap_map]
    exact congrArg (as.flatMap ·) (funext fun a => collectBuffer_deeds ctx struct a)
  have hsite : (⟨some (.collector struct), []⟩ : Site) = collectorSite struct := rfl
  simp [collectorCode, scriptFunction, Code.deeds, Code.blockOf, Site.inside, Line.deeds, Expr.calls,
    Call.deeds, Api.on, Support.on, checkSelf, List.filterMap_cons, Arg.filled?, hsite, hbuffers, collectorDeeds]

/-- What the functions made for a struct as a whole do. -/
theorem wholeCode_deeds (range : Option ByteRange) :
    (wholeCode ctx struct as range).deeds {} = rangeDeeds struct range ++
      if as.any (·.isOwnedBuffer) then collectorDeeds ctx struct as else [] := by
  have hcollector : (if as.any (·.isOwnedBuffer) then collectorCode ctx struct as else .done).deeds {} =
      if as.any (·.isOwnedBuffer) then collectorDeeds ctx struct as else [] := by
    split
    · exact collectorCode_deeds ctx struct as
    · rfl
  simp only [wholeCode, Code.deeds_seq, List.flatMap_cons, List.flatMap_nil, constructorCode_deeds,
    (converterCode_idle ctx struct range).deeds_eq, (indexCode_idle ctx struct as).deeds_eq,
    (newIndexCode_idle ctx struct as _).deeds_eq, hcollector, List.nil_append, List.append_nil]

end

/-- **All that a struct's code does** is done by its setters, by the constructor that takes the bytes of a
string, and by the collector. -/
theorem bindStruct_deeds {ctx : Context} {struct : StructDecl} {s s' : Scratch}
    {binding : StructBinding} {code : Code}
    (h : bindStruct ctx struct s = (.written binding code, s')) :
    ∃ fields range, ((accessors ctx struct).run s.memo).1 = .ok fields ∧
      (∀ r, range = some r → ctx.byteRange? struct.name = some r) ∧
      code.deeds {} = Code.setterDeeds code.setters ++ (rangeDeeds struct.name range ++
        if fields.any (·.isOwnedBuffer) then collectorDeeds ctx struct.name fields else []) := by
  obtain ⟨fields, range, pools, glue, _, _, hfields, hrange, hcallback, hfield, -, rfl, -⟩ :=
    bindStruct_parts h
  refine ⟨fields, range, hfields, hrange, ?_⟩
  rw [Code.deeds_append, (callbackCode_idle hcallback).deeds_eq, Code.deeds_append,
    fieldCode_inSetters hfield, wholeCode_deeds, Code.setters_append, callbackCode_setters hcallback,
    Code.setters_append, wholeCode_setters, List.nil_append, List.nil_append, List.append_nil]

/-! ## The discipline of the buffers -/

/-- The number of the buffer that is accessed. -/
def Accessor.bit? (a : Accessor) : Option Nat :=
  match a.access with
  | .ownedBuffer bit _ _ _ => some bit
  | _ => none

theorem Accessor.bit?_eq_some {a : Accessor} {bit : Nat} (h : a.bit? = some bit) :
    ∃ countField countType elem, a.access = .ownedBuffer bit countField countType elem := by
  unfold Accessor.bit? at h
  split at h <;> cases h
  exact ⟨_, _, _, ‹_›⟩

/-- How one of the buffers of a struct is dealt with. -/
structure Accessor.Handled (ctx : Context) (struct : String) (a : Accessor) (bit : Nat)
    (countField countType : String) (deeds : List (Site × Deed)) : Prop where
  /-- It is freed in two places, by its setter and by the collector, in both if it is owned. -/
  freed : deeds.filter (·.2 = a.freed) =
    [((a.setterSite struct).under (.owns bit), a.freed),
     ((collectorSite struct).under (.owns bit), a.freed)]
  /-- All that its setter does. -/
  refilled : deeds.filter (·.1.function = some (.setter struct a.key)) =
    a.refills ctx struct bit countField countType

/-- If only one of several sources has what is looked for, all of it comes from there. -/
theorem filter_flatMap_eq {α β : Type} {f : α → List β} {p : β → Bool} {x : α} :
    ∀ {l : List α}, x ∈ l → l.Nodup → (∀ y ∈ l, y ≠ x → (f y).filter p = []) →
      (l.flatMap f).filter p = (f x).filter p := by
  intro l
  induction l with
  | nil => exact fun hx _ _ => absurd hx List.not_mem_nil
  | cons y rest ih =>
    intro hx hnodup h
    obtain ⟨hy, hrest⟩ := List.nodup_cons.mp hnodup
    obtain ⟨hhead, htail⟩ := List.forall_mem_cons.mp h
    rw [List.flatMap_cons, List.filter_append]
    rcases List.mem_cons.mp hx with rfl | hx
    · have hothers : (rest.flatMap f).filter p = [] := by
        rw [List.filter_flatMap, List.flatMap_eq_nil_iff]
        exact fun z hz => htail z hz fun heq => hy (heq ▸ hz)
      rw [hothers, List.append_nil]
    · rw [hhead fun heq => hy (heq ▸ hx), ih hx hrest htail, List.nil_append]

theorem Accessor.freed_inj {a a' : Accessor} : a.freed = a'.freed ↔ a.path = a'.path := by
  simp [Accessor.freed, Accessor.place]

theorem Accessor.freed_isFree (a : Accessor) : a.freed.isFree = true := rfl

theorem Deed.Writes.not_isFree {path? : Option String} {d : Deed} (h : d.Writes path?) :
    d.isFree = false := by
  obtain ⟨path, -, hd⟩ := h
  cases d <;> first | rfl | cases hd

section

variable {ctx : Context} {struct : String} {a a' : Accessor} {bit : Nat}
  {countField countType elem : String}

theorem Accessor.refills_free {d : Site × Deed} (hd : d ∈ a.refills ctx struct bit countField countType)
    (hfree : d.2.isFree = true) : d = ((a.setterSite struct).under (.owns bit), a.freed) := by
  simp only [Accessor.refills, List.mem_cons, List.not_mem_nil, or_false] at hd
  rcases hd with rfl | rfl | rfl | rfl | rfl | rfl | rfl | rfl | rfl | rfl
  · rfl
  all_goals cases hfree

theorem Accessor.refills_filter :
    (a.refills ctx struct bit countField countType).filter (·.2 = a.freed) =
      [((a.setterSite struct).under (.owns bit), a.freed)] := by
  simp [Accessor.refills, Accessor.freed]

theorem Accessor.collects_free {d : Site × Deed} (hd : d ∈ a.collects ctx struct)
    (hfree : d.2.isFree = true) : a.isOwnedBuffer = true ∧ d.2 = a.freed := by
  unfold Accessor.collects at hd
  unfold Accessor.isOwnedBuffer
  cases ha : a.access with
  | ownedBuffer bit countField countType elem =>
    rw [ha] at hd
    simp only [List.mem_cons, List.not_mem_nil, or_false] at hd
    rcases hd with rfl | rfl | rfl
    · exact ⟨rfl, rfl⟩
    all_goals cases hfree
  | value | callback | ownedCount pointer =>
    rw [ha] at hd
    exact absurd hd List.not_mem_nil

theorem Accessor.collects_filter (ha : a.access = .ownedBuffer bit countField countType elem) :
    (a.collects ctx struct).filter (·.2 = a.freed) =
      [((collectorSite struct).under (.owns bit), a.freed)] := by
  simp [Accessor.collects, ha, Accessor.freed]

theorem Accessor.collects_function {d : Site × Deed} (hd : d ∈ a.collects ctx struct) :
    d.1.function = some (.collector struct) := by
  unfold Accessor.collects at hd
  split at hd
  · simp only [List.mem_cons, List.not_mem_nil, or_false] at hd
    rcases hd with rfl | rfl | rfl <;> rfl
  · exact absurd hd List.not_mem_nil

theorem collectorDeeds_function {as : List Accessor} {d : Site × Deed}
    (hd : d ∈ collectorDeeds ctx struct as) : d.1.function = some (.collector struct) := by
  rcases List.mem_append.mp hd with hd | hd
  · obtain ⟨a, -, hd⟩ := List.mem_flatMap.mp hd
    exact Accessor.collects_function hd
  · rw [List.mem_singleton.mp hd]
    rfl

theorem rangeDeeds_function {range : Option ByteRange} {d : Site × Deed}
    (hd : d ∈ rangeDeeds struct range) : d.1.function = some (.constructor struct) := by
  cases range with
  | none => exact absurd hd List.not_mem_nil
  | some range =>
    simp only [rangeDeeds, List.mem_cons, List.not_mem_nil, or_false] at hd
    rcases hd with rfl | rfl <;> rfl

theorem rangeDeeds_not_free {range : Option ByteRange} {d : Site × Deed}
    (hd : d ∈ rangeDeeds struct range) : d.2.isFree = false := by
  cases range with
  | none => exact absurd hd List.not_mem_nil
  | some range =>
    simp only [rangeDeeds, List.mem_cons, List.not_mem_nil, or_false] at hd
    rcases hd with rfl | rfl <;> rfl

end

/-- The deeds of a struct's text, with the accessors and the setters that they come from. -/
structure DeedsOf (ctx : Context) (m : Memo) (struct : StructDecl) (fields : List Accessor)
    (setters : List (Accessor × Code)) (range : Option ByteRange) (deeds : List (Site × Deed)) : Prop where
  accessors : ∀ a ∈ fields, a.Of struct
  keys : (fields.map (·.key)).Nodup
  writable : setters.map (·.1) = fields.filter (·.writable)
  bodies : ∀ p ∈ setters, Sets ctx m struct.name p.1 p.2
  byteRange : ∀ r, range = some r → ctx.byteRange? struct.name = some r
  deeds_eq : deeds = setters.flatMap (fun p => p.2.deeds (p.1.setterSite struct.name)) ++
    (rangeDeeds struct.name range ++
      if fields.any (·.isOwnedBuffer) then collectorDeeds ctx struct.name fields else [])

theorem bindStruct_deedsOf {ctx : Context} {struct : StructDecl} {s s' : Scratch}
    {binding : StructBinding} {code : Code} (hnames : (struct.fields.map (·.name)).Nodup)
    (h : bindStruct ctx struct s = (.written binding code, s')) :
    ∃ fields setters range, ((accessors ctx struct).run s.memo).1 = .ok fields ∧
      DeedsOf ctx s'.memo struct fields setters range (code.deeds {}) := by
  obtain ⟨fields, range, hfields, hrange, hdeeds⟩ := bindStruct_deeds h
  obtain ⟨fields', setters, hfields', hsetters⟩ := bindStruct_written h
  obtain rfl := Except.ok.inj (hfields.symm.trans hfields')
  have hrun : (accessors ctx struct).run s.memo = (.ok fields, ((accessors ctx struct).run s.memo).2) :=
    Prod.ext hfields rfl
  refine ⟨fields, setters, range, hfields, accessors_of hrun, accessors_keys_nodup hrun hnames,
    hsetters.accessors, hsetters.bodies, hrange, ?_⟩
  rw [hdeeds, hsetters.defined, Code.setterDeeds, List.flatMap_map]
  rfl

namespace DeedsOf

variable {ctx : Context} {m : Memo} {struct : StructDecl} {fields : List Accessor}
  {setters : List (Accessor × Code)} {range : Option ByteRange} {deeds : List (Site × Deed)}
  {a : Accessor} {bit : Nat} {countField countType elem : String}

theorem mem_fields (h : DeedsOf ctx m struct fields setters range deeds) {p : Accessor × Code}
    (hp : p ∈ setters) : p.1 ∈ fields :=
  (List.mem_filter.mp (h.writable ▸ List.mem_map_of_mem (f := Prod.fst) hp)).1

/-- A field that can be assigned has a setter. -/
theorem exists_setter (h : DeedsOf ctx m struct fields setters range deeds) (ha : a ∈ fields)
    (hw : a.writable = true) : ∃ body, (a, body) ∈ setters := by
  have hmem : a ∈ setters.map (·.1) := h.writable ▸ List.mem_filter.mpr ⟨ha, hw⟩
  obtain ⟨⟨_, body⟩, hp, rfl⟩ := List.mem_map.mp hmem
  exact ⟨body, hp⟩

theorem setters_keys (h : DeedsOf ctx m struct fields setters range deeds) :
    (setters.map fun p => p.1.key).Nodup := by
  have hkeys : (setters.map fun p => p.1.key) = (fields.filter (·.writable)).map (·.key) := by
    rw [← h.writable, List.map_map]
    rfl
  rw [hkeys]
  exact h.keys.sublist (List.filter_sublist.map _)

theorem setter_inj (h : DeedsOf ctx m struct fields setters range deeds) {p q : Accessor × Code}
    (hp : p ∈ setters) (hq : q ∈ setters) (heq : p.1.key = q.1.key) : p = q :=
  List.inj_on_of_nodup_map h.setters_keys hp hq heq

/-- Whatever the text of a struct does stands in one of its setters, in the constructor or in the
collector. -/
theorem mem_iff (h : DeedsOf ctx m struct fields setters range deeds) {d : Site × Deed} :
    d ∈ deeds ↔ (∃ p ∈ setters, d ∈ p.2.deeds (p.1.setterSite struct.name)) ∨
      d ∈ rangeDeeds struct.name range ∨
        fields.any (·.isOwnedBuffer) = true ∧ d ∈ collectorDeeds ctx struct.name fields := by
  rw [h.deeds_eq, List.mem_append, List.mem_append, List.mem_flatMap]
  cases fields.any (·.isOwnedBuffer) <;> simp

/-- A setter frees nothing but the buffer that it sets. -/
theorem setter_free (h : DeedsOf ctx m struct fields setters range deeds) {p : Accessor × Code}
    (hp : p ∈ setters) {d : Site × Deed} (hd : d ∈ p.2.deeds (p.1.setterSite struct.name))
    (hfree : d.2.isFree = true) : p.1.isOwnedBuffer = true ∧ d.2 = p.1.freed := by
  cases hbuffer : p.1.access with
  | ownedBuffer bit countField countType elem =>
    rw [(h.bodies p hp).refills hbuffer] at hd
    exact ⟨by rw [Accessor.isOwnedBuffer, hbuffer], by rw [Accessor.refills_free hd hfree]⟩
  | value | callback | ownedCount pointer =>
    have hcallback := (h.accessors p.1 (h.mem_fields hp)).callback_path
    have hwrites := (h.bodies p hp).deeds hcallback (by rw [Accessor.isOwnedBuffer, hbuffer]) _ d hd
    rw [hwrites.not_isFree] at hfree
    cases hfree

/-- **Nothing else is freed than the buffers of the struct.** -/
theorem isFree (h : DeedsOf ctx m struct fields setters range deeds) {d : Site × Deed} (hd : d ∈ deeds)
    (hfree : d.2.isFree = true) : ∃ a ∈ fields, a.isOwnedBuffer = true ∧ d.2 = a.freed := by
  rcases h.mem_iff.mp hd with ⟨p, hp, hd⟩ | hd | ⟨-, hd⟩
  · exact ⟨p.1, h.mem_fields hp, h.setter_free hp hd hfree⟩
  · rw [rangeDeeds_not_free hd] at hfree
    cases hfree
  · rcases List.mem_append.mp hd with hd | hd
    · obtain ⟨a, ha, hd⟩ := List.mem_flatMap.mp hd
      exact ⟨a, ha, Accessor.collects_free hd hfree⟩
    · rw [List.mem_singleton.mp hd] at hfree
      cases hfree

/-- Buffers of one key are one, and so are buffers in one place. -/
theorem buffer_inj (h : DeedsOf ctx m struct fields setters range deeds) {a' : Accessor} (ha : a ∈ fields)
    (ha' : a' ∈ fields) (hbuffer : a.isOwnedBuffer = true) (hbuffer' : a'.isOwnedBuffer = true)
    (heq : a.freed = a'.freed) : a = a' := by
  have hpath {a : Accessor} (ha : a ∈ fields) (hbuffer : a.isOwnedBuffer = true) : a.path = a.key := by
    cases haccess : a.access with
    | ownedBuffer bit countField countType elem => exact ((h.accessors a ha).buffer_entry haccess).1
    | value | callback | ownedCount pointer =>
      rw [Accessor.isOwnedBuffer, haccess] at hbuffer
      cases hbuffer
  refine List.inj_on_of_nodup_map h.keys ha ha' ?_
  rw [← hpath ha hbuffer, ← hpath ha' hbuffer']
  exact Accessor.freed_inj.mp heq

theorem fields_nodup (h : DeedsOf ctx m struct fields setters range deeds) : fields.Nodup :=
  h.keys.of_map _

theorem any_of_mem (ha : a ∈ fields) (haccess : a.access = .ownedBuffer bit countField countType elem) :
    a.isOwnedBuffer = true ∧ a.writable = true ∧ fields.any (·.isOwnedBuffer) = true := by
  have hbuffer : a.isOwnedBuffer = true := by rw [Accessor.isOwnedBuffer, haccess]
  exact ⟨hbuffer, by rw [Accessor.writable, haccess], List.any_eq_true.mpr ⟨a, ha, hbuffer⟩⟩

/-- **A buffer is handled** by its setter and by the collector. -/
theorem handled (h : DeedsOf ctx m struct fields setters range deeds) (ha : a ∈ fields)
    (haccess : a.access = .ownedBuffer bit countField countType elem) :
    a.Handled ctx struct.name bit countField countType deeds := by
  obtain ⟨hbuffer, hwritable, hany⟩ := any_of_mem ha haccess
  obtain ⟨body, hsetter⟩ := h.exists_setter ha hwritable
  have hbody := (h.bodies _ hsetter).refills haccess
  rw [h.deeds_eq, if_pos hany]
  constructor
  · have hsetters : (setters.flatMap fun p => p.2.deeds (p.1.setterSite struct.name)).filter
        (·.2 = a.freed) = [((a.setterSite struct.name).under (.owns bit), a.freed)] := by
      rw [filter_flatMap_eq hsetter (h.setters_keys.of_map _), hbody, Accessor.refills_filter]
      intro p hp hne
      refine List.filter_eq_nil_iff.mpr fun d hd heq => ?_
      rw [decide_eq_true_iff] at heq
      obtain ⟨hbuffer', hfreed⟩ := h.setter_free hp hd (by rw [heq]; rfl)
      have hsame := h.buffer_inj (h.mem_fields hp) ha hbuffer' hbuffer (hfreed.symm.trans heq)
      exact hne (h.setter_inj hp hsetter (congrArg Accessor.key hsame))
    have hcollector : (collectorDeeds ctx struct.name fields).filter (·.2 = a.freed) =
        [((collectorSite struct.name).under (.owns bit), a.freed)] := by
      have hlast : [(collectorSite struct.name, Deed.record [.state, .number 1, .number 0])].filter
          (·.2 = a.freed) = [] := by
        simp [Accessor.freed]
      rw [collectorDeeds, List.filter_append, hlast, List.append_nil, filter_flatMap_eq ha h.fields_nodup,
        Accessor.collects_filter haccess]
      intro a' ha' hne
      refine List.filter_eq_nil_iff.mpr fun d hd heq => ?_
      rw [decide_eq_true_iff] at heq
      obtain ⟨hbuffer', hfreed⟩ := Accessor.collects_free hd (by rw [heq]; rfl)
      exact hne (h.buffer_inj ha' ha hbuffer' hbuffer (hfreed.symm.trans heq))
    have hrange : (rangeDeeds struct.name range).filter (·.2 = a.freed) = [] := by
      refine List.filter_eq_nil_iff.mpr fun d hd heq => ?_
      have hnot := rangeDeeds_not_free hd
      rw [decide_eq_true_iff.mp heq, Accessor.freed_isFree] at hnot
      cases hnot
    rw [List.filter_append, List.filter_append, hsetters, hrange, hcollector]
    rfl
  · have hsetters : (setters.flatMap fun p => p.2.deeds (p.1.setterSite struct.name)).filter
        (·.1.function = some (.setter struct.name a.key)) =
          a.refills ctx struct.name bit countField countType := by
      rw [filter_flatMap_eq hsetter (h.setters_keys.of_map _), hbody]
      · refine List.filter_eq_self.mpr fun d hd => decide_eq_true ?_
        rw [← hbody] at hd
        exact Code.deeds_function rfl d hd
      · intro p hp hne
        refine List.filter_eq_nil_iff.mpr fun d hd heq => hne ?_
        have hfunction := (Code.deeds_function rfl d hd).symm.trans (decide_eq_true_iff.mp heq)
        refine h.setter_inj hp hsetter ?_
        simpa using hfunction
    have hothers : (rangeDeeds struct.name range ++ collectorDeeds ctx struct.name fields).filter
        (·.1.function = some (.setter struct.name a.key)) = [] := by
      refine List.filter_eq_nil_iff.mpr fun d hd heq => ?_
      rw [decide_eq_true_iff] at heq
      rcases List.mem_append.mp hd with hd | hd
      · rw [rangeDeeds_function hd] at heq
        cases heq
      · rw [collectorDeeds_function hd] at heq
        cases heq
    rw [List.filter_append, hsetters, hothers, List.append_nil]

/-- The collector deals with every buffer, and then records that none is owned. -/
theorem collector (h : DeedsOf ctx m struct fields setters range deeds) :
    deeds.filter (·.1.function = some (.collector struct.name)) =
      if fields.any (·.isOwnedBuffer) then collectorDeeds ctx struct.name fields else [] := by
  have hsetters : (setters.flatMap fun p => p.2.deeds (p.1.setterSite struct.name)).filter
      (·.1.function = some (.collector struct.name)) = [] := by
    refine List.filter_eq_nil_iff.mpr fun d hd heq => ?_
    obtain ⟨p, -, hd⟩ := List.mem_flatMap.mp hd
    cases (Code.deeds_function rfl d hd).symm.trans (decide_eq_true_iff.mp heq)
  have hrange : (rangeDeeds struct.name range).filter
      (·.1.function = some (.collector struct.name)) = [] := by
    refine List.filter_eq_nil_iff.mpr fun d hd heq => ?_
    cases (rangeDeeds_function hd).symm.trans (decide_eq_true_iff.mp heq)
  rw [h.deeds_eq, List.filter_append, List.filter_append, hsetters, hrange, List.nil_append,
    List.nil_append]
  split
  · exact List.filter_eq_self.mpr fun d hd => decide_eq_true (collectorDeeds_function hd)
  · rfl

/-- No two buffers have one bit. -/
theorem bits (h : DeedsOf ctx m struct fields setters range deeds) :
    (fields.filterMap Accessor.bit?).Nodup := by
  refine List.pairwise_filterMap.mpr (h.fields_nodup.imp_of_mem ?_)
  intro a a' ha ha' hne bit hbit bit' hbit' heq
  obtain ⟨_, _, _, haccess⟩ := Accessor.bit?_eq_some hbit
  obtain ⟨_, _, _, haccess'⟩ := Accessor.bit?_eq_some (heq ▸ hbit')
  exact hne (List.inj_on_of_nodup_map h.keys ha ha'
    ((h.accessors a ha).key_eq (h.accessors a' ha') haccess haccess'))

end DeedsOf

/-- A collector is among what is mentioned exactly if there are buffers. -/
theorem collector_mem_structOutline {struct : String} {as : List Accessor} :
    .defines (.collector struct) ∈ structOutline struct as ↔ as.any (·.isOwnedBuffer) = true := by
  have hpool (a : Accessor) : Mention.defines (.collector struct) ∉ poolOutline struct a.key := by
    simp [poolOutline, trampolineOutline, tableOutline]
  have hfield (a : Accessor) :
      Mention.defines (.collector struct) ∉ a.getterOutline struct ++ a.setterOutline struct := by
    unfold Accessor.getterOutline Accessor.setterOutline
    cases a.readable <;> cases a.writable <;> cases a.access == .callback <;> simp
  have hdispatch : Mention.defines (.collector struct) ∈ dispatchOutline struct as ↔
      as.any (·.isOwnedBuffer) = true := by
    unfold dispatchOutline setterCalls getterCalls
    cases as.any (·.isOwnedBuffer) <;> simp
  rw [structOutline, List.mem_append, List.mem_append, List.mem_flatMap, List.mem_flatMap, hdispatch]
  simp only [hpool, hfield, and_false, exists_false, false_or]

/-- **The buffers of a struct.** Each of them is freed in two places, by its setter and by the collector,
both times if the bit of its own is set; its setter lets go of it before it allocates, and owns the new
memory before it fetches an element; and the collector, which there is exactly if there are buffers, nulls
all that it frees and at last clears all bits. -/
theorem buffers_handled {ctx : Context} {struct : StructDecl} {s s' : Scratch}
    {binding : StructBinding} {code : Code} (hnames : (struct.fields.map (·.name)).Nodup)
    (h : bindStruct ctx struct s = (.written binding code, s')) :
    ∃ fields, ((accessors ctx struct).run s.memo).1 = .ok fields ∧
      (∀ a ∈ fields, ∀ bit countField countType elem,
        a.access = .ownedBuffer bit countField countType elem →
          bit < struct.ownedBuffers.length ∧
          a.Handled ctx struct.name bit countField countType (code.deeds {})) ∧
      (fields.filterMap Accessor.bit?).Nodup ∧
      (∀ d ∈ code.deeds {}, d.2.isFree = true → ∃ a ∈ fields, a.isOwnedBuffer = true ∧ d.2 = a.freed) ∧
      (code.deeds {}).filter (·.1.function = some (.collector struct.name)) =
        (if fields.any (·.isOwnedBuffer) then collectorDeeds ctx struct.name fields else []) ∧
      (.defines (.collector struct.name) ∈ code.mentions ↔ ∃ a ∈ fields, a.isOwnedBuffer = true) ∧
      (binding.hasCollector = true ↔ ∃ a ∈ fields, a.isOwnedBuffer = true) := by
  obtain ⟨fields, setters, range, hfields, hdeeds⟩ := bindStruct_deedsOf hnames h
  obtain ⟨fields', hfields', houtlined, -, hcollector⟩ := bindStruct_outlined h
  obtain rfl := Except.ok.inj (hfields.symm.trans hfields')
  refine ⟨fields, hfields, fun a ha bit countField countType elem haccess => ⟨?_, hdeeds.handled ha haccess⟩,
    hdeeds.bits, fun d hd hfree => hdeeds.isFree hd hfree, hdeeds.collector, ?_, ?_⟩
  · obtain ⟨-, hentry⟩ := (hdeeds.accessors a ha).buffer_entry haccess
    exact (List.getElem?_eq_some_iff.mp hentry).1
  · rw [← List.any_eq_true, ← collector_mem_structOutline, ← houtlined.outline_eq, Code.outline,
      List.mem_filter]
    exact ⟨fun hm => ⟨hm, rfl⟩, And.left⟩
  · rw [hcollector, List.any_eq_true]

/-! ## A struct with two buffers -/

/-- An entry for each buffer, one of them twice, and one for a field that is none. -/
def polyline : StructDecl :=
  ⟨"Polyline", [⟨"points", "float*"⟩, ⟨"count", "int"⟩, ⟨"closed", "bool"⟩, ⟨"marks", "const char**"⟩,
    ⟨"mark_count", "size_t"⟩],
    [⟨"nothing", "count"⟩, ⟨"points", "count"⟩, ⟨"points", "mark_count"⟩, ⟨"marks", "mark_count"⟩]⟩

def polylineContext : Context :=
  Classifying.fresh (Context.build { decls := [.struct polyline] } {})

/-- The entries that find no field of their own take no bit away. -/
theorem buffers_handled_polyline : ∃ binding code s',
    bindStruct polylineContext polyline {} = (.written binding code, s') ∧
      (polyline.fields.map (·.name)).Nodup ∧ binding.hasCollector = true ∧
      Accessor.Handled polylineContext "Polyline"
        ⟨"points", "float*", "points", .ownedBuffer 1 "count" "int" "float"⟩ 1 "count" "int"
        (code.deeds {}) ∧
      Accessor.Handled polylineContext "Polyline"
        ⟨"marks", "const char**", "marks", .ownedBuffer 3 "mark_count" "size_t" "const char*"⟩ 3
        "mark_count" "size_t" (code.deeds {}) := by
  obtain ⟨binding, code, s', h, -⟩ := Draft.exists_written (bindStruct polylineContext polyline) {}
    (fun _ => true) (by decide +kernel)
  have hnames : (polyline.fields.map (·.name)).Nodup := by decide
  have haccessors : ((accessors polylineContext polyline).run {}).1 = .ok
      [⟨"points", "float*", "points", .ownedBuffer 1 "count" "int" "float"⟩,
       ⟨"count", "int", "count", .ownedCount "nothing"⟩,
       ⟨"closed", "bool", "closed", .value⟩,
       ⟨"marks", "const char**", "marks", .ownedBuffer 3 "mark_count" "size_t" "const char*"⟩,
       ⟨"mark_count", "size_t", "mark_count", .ownedCount "points"⟩] := by
    decide +kernel
  obtain ⟨fields, hfields, handled, -, -, -, -, hcollector⟩ := buffers_handled hnames h
  obtain rfl := Except.ok.inj (haccessors.symm.trans hfields)
  exact ⟨binding, code, s', h, hnames, hcollector.mpr ⟨_, List.mem_cons_self, rfl⟩,
    (handled _ (by simp) _ _ _ _ rfl).2, (handled _ (by simp) _ _ _ _ rfl).2⟩

end LuaGlue
