import LuaGlue.Proofs.Userdata.SetterCode
import LuaGlue.Userdata.Binding

/-!
# The setters of a struct

`code.definitions` are the functions a piece of code defines. Among those of a struct's code, the
setters are exactly one for each accessor that can be written, in the order of the accessors, and each
has a body by the rules of `Sets` (`bindStruct_written`).
-/

set_option autoImplicit false

namespace LuaGlue

/-! ## The functions a text defines -/

namespace Code

/-- The functions that are defined, each with its body. -/
def definitions : Code → List (Symbol × Code)
  | done => []
  | line _ next => next.definitions
  | block (.define _ f _) body _ next => (f, body) :: next.definitions
  | block _ _ _ next => next.definitions
  | branch _ _ _ next => next.definitions

theorem definitions_append (a b : Code) :
    (a ++ b).definitions = a.definitions ++ b.definitions := by
  induction a with
  | done => rfl
  | line l next ih => exact ih
  | block head body ending next _ ih => cases head <;> simp [definitions, ih]
  | branch c yes no next _ _ ih => exact ih

@[simp] theorem definitions_ofLines (ls : List Line) : (ofLines ls).definitions = [] := by
  induction ls with
  | nil => rfl
  | cons l rest ih => exact ih

end Code

/-- Whether a function assigns a field. -/
def Symbol.isSetter : Symbol → Bool
  | .setter _ _ => true
  | _ => false

namespace Code

/-- The setters that are defined, each with its body. -/
def setters (code : Code) : List (Symbol × Code) := code.definitions.filter (·.1.isSetter)

@[simp] theorem setters_append (a b : Code) : (a ++ b).setters = a.setters ++ b.setters := by
  simp only [setters, definitions_append, List.filter_append]

@[simp] theorem setters_ofLines (ls : List Line) : (ofLines ls).setters = [] := by
  simp [setters]

@[simp] theorem setters_done : done.setters = [] := rfl

theorem setters_line (l : Line) (next : Code) : (line l next).setters = next.setters := rfl

/-- A function that is no setter. -/
theorem setters_define {result params : String} {f : Symbol} {body next : Code} {ending : Ending}
    (hf : f.isSetter = false) : (block (.define result f params) body ending next).setters =
      next.setters := by
  simp [setters, definitions, hf]

theorem setters_seq {cs : List Code} (h : ∀ c ∈ cs, c.setters = []) : (seq cs).setters = [] := by
  induction cs with
  | nil => rfl
  | cons c rest ih =>
    rw [seq, setters_append, h c List.mem_cons_self,
      ih fun c hc => h c (List.mem_cons_of_mem _ hc)]
    rfl

end Code

/-! ## Functions that are no setters -/

theorem scriptFunction_setters {f : Symbol} (hf : f.isSetter = false) (body : Code) :
    (scriptFunction f body).setters = [] :=
  Code.setters_define hf

theorem converterCode_setters (ctx : Context) (struct : String) (range : Option ByteRange) :
    (converterCode ctx struct range).setters = [] :=
  Code.setters_define rfl

section

variable {ctx : Context} {s s' : Scratch} {u : Unit} {code : Code}

theorem trampolines_setters {owner : String} {field : Field}
    (h : trampolines ctx owner field s = (.written u code, s')) : code.setters = [] := by
  obtain ⟨signature, _, _, _, hsignature, h₁, rfl⟩ := Draft.bind_written.mp h
  obtain ⟨-, rfl, rfl⟩ := Draft.ofExcept_written.mp hsignature
  obtain ⟨category, _, _, _, hask, h₂, rfl⟩ := Draft.bind_written.mp h₁
  obtain ⟨rfl, -, -⟩ := Context.categoryOf_written hask
  obtain ⟨_, _, _, _, hblock, hpool, rfl⟩ := Draft.bind_written.mp h₂
  obtain ⟨body, -, rfl⟩ := Draft.block_written.mp hblock
  obtain ⟨rfl, -⟩ := Draft.write_written.mp hpool
  have htrampolines : (Code.seq ((List.range poolSize).map (trampolineCode owner field.name
      (Text.trimmed signature.result) category
      (if (signature.params.mapIdx fun i spelling => declare spelling (callbackParam i)).isEmpty
        then "void" else ", ".intercalate
          (signature.params.mapIdx fun i spelling => declare spelling (callbackParam i)))
      signature.params.length))).setters = [] := by
    refine Code.setters_seq fun c hc => ?_
    obtain ⟨entry, -, rfl⟩ := List.mem_map.mp hc
    exact Code.setters_define rfl
  simp only [Code.done_append, Code.setters_append, Code.seq, htrampolines, Code.setters_ofLines,
    List.nil_append, List.append_nil, Code.setters_done]
  rfl

theorem callbackCode_setters {struct : StructDecl} :
    ∀ {as : List Accessor} {s s' : Scratch} {u : Unit} {code : Code},
      callbackCode ctx struct as s = (.written u code, s') → code.setters = [] := by
  intro as
  induction as with
  | nil =>
    intro s s' u code h
    obtain ⟨-, rfl, -⟩ := Draft.pure_written.mp h
    rfl
  | cons a rest ih =>
    intro s s' u code h
    unfold callbackCode at h
    cases hcallback : a.access == .callback with
    | false =>
      rw [hcallback] at h
      exact ih h
    | true =>
      rw [hcallback] at h
      cases hfield : struct.field? a.key with
      | none =>
        rw [hfield] at h
        obtain ⟨_, _, _, _, hfail, -, -⟩ := Draft.bind_written.mp h
        exact absurd hfail Draft.fail_written
      | some field =>
        rw [hfield] at h
        obtain ⟨_, _, _, _, htrampolines, hrest, rfl⟩ := Draft.bind_written.mp h
        rw [Code.setters_append, trampolines_setters htrampolines, ih hrest]
        rfl

end

/-! ## One setter for each accessor -/

/-- The code defines these setters and no others: one for each accessor that can be written, in order,
with a body by the rules. -/
structure SettersOf (ctx : Context) (m : Memo) (struct : String) (accessors : List Accessor)
    (code : Code) (setters : List (Accessor × Code)) : Prop where
  accessors : setters.map (·.1) = accessors.filter (·.writable)
  defined : code.setters = setters.map fun (a, body) => (.setter struct a.key, body)
  bodies : ∀ p ∈ setters, Sets ctx m struct p.1 p.2

theorem fieldCode_grows (ctx : Context) (struct : String) (accessors : List Accessor) :
    (fieldCode ctx struct accessors).Grows := by
  induction accessors with
  | nil => exact Draft.Grows.pure ()
  | cons a rest ih =>
    unfold fieldCode
    have setting : Draft.Grows (do
        if a.writable then setter ctx struct a
        fieldCode ctx struct rest) := by
      cases a.writable with
      | true => exact (setter_grows ctx struct a).bind fun _ => ih
      | false => exact ih
    cases a.readable with
    | true => exact (getter_grows ctx struct a).bind fun _ => setting
    | false => exact setting

theorem fieldCode_written {ctx : Context} {struct : String} :
    ∀ {accessors : List Accessor} {s s' : Scratch} {u : Unit} {code : Code},
      fieldCode ctx struct accessors s = (.written u code, s') →
      ∃ setters, SettersOf ctx s'.memo struct accessors code setters := by
  intro accessors
  induction accessors with
  | nil =>
    intro s s' u code h
    obtain ⟨-, rfl, -⟩ := Draft.pure_written.mp h
    exact ⟨[], rfl, rfl, by simp⟩
  | cons a rest ih =>
    intro s s' u code h
    unfold fieldCode at h
    -- a getter, if there is one, comes first and is passed over
    have setting {t : Scratch} {code : Code} (h : (do
        if a.writable then setter ctx struct a
        fieldCode ctx struct rest) t = (.written u code, s')) :
        ∃ setters, SettersOf ctx s'.memo struct (a :: rest) code setters := by
      cases hw : a.writable with
      | true =>
        rw [hw] at h
        obtain ⟨_, _, _, _, hset, hrest, rfl⟩ := Draft.bind_written.mp h
        obtain ⟨body, hbody, rfl⟩ := setter_written hset
        obtain ⟨setters, haccessors, hdefined, hbodies⟩ := ih hrest
        have hgrows := (fieldCode_grows ctx struct rest).of_written hrest
        refine ⟨(a, body) :: setters, ?_, ?_, ?_⟩
        · rw [List.map_cons, haccessors, List.filter_cons_of_pos hw]
        · rw [Code.setters_append, hdefined]
          rfl
        · exact List.forall_mem_cons.mpr ⟨hbody.mono hgrows, hbodies⟩
      | false =>
        rw [hw] at h
        obtain ⟨setters, haccessors, hdefined, hbodies⟩ := ih h
        refine ⟨setters, ?_, hdefined, hbodies⟩
        rw [haccessors, List.filter_cons_of_neg (by simp [hw])]
    cases hr : a.readable with
    | true =>
      rw [hr] at h
      obtain ⟨_, _, _, _, hget, hrest, rfl⟩ := Draft.bind_written.mp h
      obtain ⟨body, rfl⟩ := getter_written hget
      obtain ⟨setters, haccessors, hdefined, hbodies⟩ := setting hrest
      refine ⟨setters, haccessors, ?_, hbodies⟩
      rw [Code.setters_append, hdefined, Code.setters_define rfl, Code.setters_line,
        Code.setters_done, List.nil_append]
    | false =>
      rw [hr] at h
      exact setting h

/-! ## The struct -/

theorem byteRangeOf?_lasts (ctx : Context) (struct : String) : (byteRangeOf? ctx struct).Lasts := by
  refine (classify_lasts ctx.index struct).bind fun c => ?_
  split <;> exact .pure _

theorem byteRangeOf?_eq_some {ctx : Context} {struct : String} {m : Memo} {r : ByteRange}
    (h : ((byteRangeOf? ctx struct).run m).1 = some r) : ctx.byteRange? struct = some r := by
  unfold byteRangeOf? at h
  rw [Classifying.run_bind] at h
  split at h
  · exact h
  · cases h

theorem Accessor.binding_lasts (ctx : Context) (a : Accessor) : (a.binding ctx).Lasts := by
  unfold Accessor.binding
  split <;> exact (classify_lasts ctx.index _).bind fun _ => .pure _

theorem Accessor.binding_key {ctx : Context} (a : Accessor) (m : Memo) :
    ((a.binding ctx).run m).1.key = a.key := by
  unfold Accessor.binding
  split <;> rfl

/-- The functions made for the struct as a whole. -/
def wholeCode (ctx : Context) (struct : String) (fields : List Accessor) (range : Option ByteRange) :
    Code :=
  .seq
    [constructorCode ctx struct fields range,
     converterCode ctx struct range,
     indexCode ctx struct fields,
     newIndexCode ctx struct (ctx.naming.typeName struct) fields,
     if fields.any (·.isOwnedBuffer) then collectorCode ctx struct fields else .done]

/-- What a struct's binding says. -/
structure StructBinding.Describes (ctx : Context) (struct : String) (fields : List Accessor)
    (binding : StructBinding) : Prop where
  native : binding.native = struct
  scriptName : binding.scriptName = ctx.naming.typeName struct
  metatable : binding.metatable = ctx.metatable struct
  keys : binding.fields.map (·.key) = fields.map (·.key)
  hasCollector : binding.hasCollector = fields.any (·.isOwnedBuffer)

/-- The parts of a struct's code: the pools of its callback fields, its getters and setters, and the
functions made for it as a whole. -/
theorem bindStruct_parts {ctx : Context} {struct : StructDecl} {s s' : Scratch}
    {binding : StructBinding} {code : Code}
    (h : bindStruct ctx struct s = (.written binding code, s')) :
    ∃ fields range pools glue t t',
      ((accessors ctx struct).run s.memo).1 = .ok fields ∧
      (∀ r, range = some r → ctx.byteRange? struct.name = some r) ∧
      callbackCode ctx struct fields { s with memo := ((accessors ctx struct).run s.memo).2 } =
        (.written () pools, t) ∧
      fieldCode ctx struct.name fields t = (.written () glue, t') ∧ t'.memo.Grows s'.memo ∧
      code = pools ++ (glue ++ wholeCode ctx struct.name fields range) ∧
      binding.Describes ctx struct.name fields := by
  obtain ⟨answer, _, _, _, hask, h₁, rfl⟩ := Draft.bind_written.mp h
  obtain ⟨rfl, rfl, rfl⟩ := Draft.asking_written.mp hask
  obtain ⟨fields, _, _, _, hok, h₂, rfl⟩ := Draft.bind_written.mp h₁
  obtain ⟨hfields, rfl, rfl⟩ := Draft.ofExcept_written.mp hok
  obtain ⟨_, pools, t, _, hcallback, h₃, rfl⟩ := Draft.bind_written.mp h₂
  obtain ⟨_, glue, t', _, hfield, h₄, rfl⟩ := Draft.bind_written.mp h₃
  obtain ⟨range, _, _, _, hrange, h₅, rfl⟩ := Draft.bind_written.mp h₄
  have hrangeGrows := (Draft.Grows.asking (byteRangeOf?_lasts ctx struct.name).grows).of_written hrange
  obtain ⟨hasked, rfl, -⟩ := Draft.asking_written.mp hrange
  obtain ⟨_, _, _, _, hwrite, h₆, rfl⟩ := Draft.bind_written.mp h₅
  obtain ⟨rfl, rfl⟩ := Draft.write_written.mp hwrite
  obtain ⟨bindings, _, _, _, hbindings, hreturn, rfl⟩ := Draft.bind_written.mp h₆
  have hbindingGrows := (Draft.Grows.asking
    (Classifying.Lasts.mapM (Accessor.binding_lasts ctx) fields).grows).of_written hbindings
  obtain ⟨rfl, rfl, -⟩ := Draft.asking_written.mp hbindings
  obtain ⟨rfl, rfl, rfl⟩ := Draft.pure_written.mp hreturn
  refine ⟨fields, range, pools, glue, t, t', hfields, fun r hr => ?_, hcallback, hfield,
    hrangeGrows.trans hbindingGrows, ?_, rfl, rfl, rfl, ?_, rfl⟩
  · exact byteRangeOf?_eq_some (by rw [← hr, hasked])
  · simp only [Code.done_append, Code.append_done]
    rfl
  · exact Classifying.run_mapM_map (fun a m => Accessor.binding_key a m) fields _

/-- The functions made for the struct as a whole are no setters. -/
theorem wholeCode_setters (ctx : Context) (struct : String) (fields : List Accessor)
    (range : Option ByteRange) : (wholeCode ctx struct fields range).setters = [] := by
  refine Code.setters_seq fun c hc => ?_
  simp only [List.mem_cons, List.not_mem_nil, or_false] at hc
  rcases hc with rfl | rfl | rfl | rfl | rfl
  · exact scriptFunction_setters rfl _
  · exact converterCode_setters _ _ _
  · exact scriptFunction_setters rfl _
  · exact scriptFunction_setters rfl _
  · split
    · exact scriptFunction_setters rfl _
    · rfl

/-- **The setters of a struct** are one for each accessor that can be written, by the rules. -/
theorem bindStruct_written {ctx : Context} {struct : StructDecl} {s s' : Scratch}
    {binding : StructBinding} {code : Code}
    (h : bindStruct ctx struct s = (.written binding code, s')) :
    ∃ fields setters, ((accessors ctx struct).run s.memo).1 = .ok fields ∧
      SettersOf ctx s'.memo struct.name fields code setters := by
  obtain ⟨fields, range, pools, glue, _, t', hfields, -, hcallback, hfield, hgrows, rfl, -⟩ :=
    bindStruct_parts h
  obtain ⟨setters, haccessors, hdefined, hbodies⟩ := fieldCode_written hfield
  refine ⟨fields, setters, hfields, haccessors, ?_, fun p hp => (hbodies p hp).mono hgrows⟩
  rw [Code.setters_append, Code.setters_append, callbackCode_setters hcallback, hdefined,
    wholeCode_setters, List.append_nil, List.nil_append]

end LuaGlue
