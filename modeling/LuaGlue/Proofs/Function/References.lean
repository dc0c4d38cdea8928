import LuaGlue.Proofs.Function.WrapperCode
import LuaGlue.Proofs.Marshal.References

/-!
# What a wrapper refers to

A wrapper defines its function and, besides, only converts.
-/

set_option autoImplicit false

namespace LuaGlue

open Draft

variable (ctx : Context)

/-! ## Arguments -/

theorem readBuffer_converting (elem : String) (slot : Nat) (target : String)
    (count : Option CountTarget) : ctx.Converting (readBuffer ctx elem slot target count) := by
  unfold readBuffer
  refine OnlyConverts.temp.bind fun n => OnlyConverts.temp.bind fun buffer =>
    OnlyConverts.temp.bind fun k => (OnlyConverts.lines rfl).bind fun _ => ?_
  refine (OnlyConverts.block rfl ?_).bind fun _ => (OnlyConverts.line rfl).bind fun _ => ?_
  · exact (OnlyConverts.line rfl).bind fun _ => (read_converting ctx _ _ _ _).bind fun _ => .line rfl
  · cases count with
    | some c => exact .line rfl
    | none => exact .pure ()

theorem readOutput_converting (p : Param) (slot : Nat) : ctx.Converting (readOutput ctx p slot) := by
  unfold readOutput
  dsimp only
  cases pointeeType? p.type with
  | none => exact .fail _
  | some pointee =>
    refine (ctx.categoryOf_converting pointee).bind fun category =>
      (OnlyConverts.line rfl).bind fun _ => ?_
    cases p.hasDefault with
    | true =>
      refine (OnlyConverts.line rfl).bind fun _ => ?_
      exact (OnlyConverts.branch rfl rfl ((OnlyConverts.line rfl).bind fun _ =>
        read_converting ctx _ _ _ _)).bind fun _ => .pure _
    | false =>
      refine (OnlyConverts.line rfl).bind fun _ => ?_
      exact (OnlyConverts.branch rfl rfl (read_converting ctx _ _ _ _)).bind fun _ => .pure _

theorem readConstPointer_converting (p : Param) (slot : Nat) :
    ctx.Converting (readConstPointer ctx p slot) := by
  unfold readConstPointer
  dsimp only
  cases pointeeType? p.type with
  | none => exact .fail _
  | some elem =>
    refine (OnlyConverts.line rfl).bind fun _ => ?_
    exact (OnlyConverts.branch rfl rfl (readBuffer_converting ctx _ _ _ _)).bind fun _ =>
      (ctx.categoryOf_converting elem).bind fun _ => .pure _

theorem readConstStruct_converting (p : Param) (category : Category) (slot : Nat) :
    ctx.Converting (readConstStruct ctx p category slot) := by
  unfold readConstStruct
  dsimp only
  cases (pointeeType? p.type).map valueType with
  | none => exact .fail _
  | some pointee =>
    refine (ctx.categoryOf_converting pointee).bind fun _ => (OnlyConverts.lines rfl).bind fun _ => ?_
    refine (OnlyConverts.orElseIf rfl rfl rfl ?_).bind fun _ => .pure _
    exact (read_converting ctx _ _ _ _).bind fun _ => .line rfl

theorem readSingle_converting (p : Param) (category : Category) (output : Bool) (slot : Nat) :
    ctx.Converting (readSingle ctx p category output slot) := by
  unfold readSingle
  dsimp only
  split
  · exact readOutput_converting ctx p slot
  · split
    · exact (readConstPointer_converting ctx p slot).bind fun _ => .pure _
    · exact (readConstStruct_converting ctx p _ slot).bind fun _ => .pure _
    · exact (OnlyConverts.lines rfl).bind fun _ => .pure _
    · exact (OnlyConverts.lines rfl).bind fun _ => .pure _
    · exact (OnlyConverts.line rfl).bind fun _ =>
        (OnlyConverts.branchWhen rfl (read_converting ctx _ _ _ _)).bind fun _ => .pure _

theorem readArrayCount_converting (array count : Param) (elem : String) (slot : Nat) :
    ctx.Converting (readArrayCount ctx array count elem slot) := by
  unfold readArrayCount
  refine (OnlyConverts.lines rfl).bind fun _ => ?_
  have copying (countType : String) : ctx.Converting (do
      Draft.line (.call (Api.checktype.on [.at (.slot slot), .text "LUA_TTABLE"]))
      readBuffer ctx elem slot array.localName (some ⟨count.localName, countType⟩)) :=
    (OnlyConverts.line rfl).bind fun _ => readBuffer_converting ctx _ _ _ _
  cases array.hasDefault with
  | true => exact (OnlyConverts.branch rfl rfl (copying _)).bind fun _ =>
      (ctx.categoryOf_converting elem).bind fun _ => .pure _
  | false => exact (OnlyConverts.block rfl (copying _)).bind fun _ =>
      (ctx.categoryOf_converting elem).bind fun _ => .pure _

theorem readFixedArray_converting (p : Param) (elem : String) (size : Nat) (writable : Bool)
    (slot : Nat) : ctx.Converting (readFixedArray ctx p elem size writable slot) := by
  unfold readFixedArray
  exact (OnlyConverts.line rfl).bind fun _ =>
    (OnlyConverts.branchWhen rfl (read_converting ctx _ _ _ _)).bind fun _ =>
      (ctx.categoryOf_converting elem).bind fun _ => .pure _

theorem readUnit_converting (slot : Nat) (u : ParamUnit) : ctx.Converting (readUnit ctx slot u) := by
  cases u with
  | single p category output => exact readSingle_converting ctx p category output slot
  | arrayCount array count elem => exact readArrayCount_converting ctx array count elem slot
  | fixedArray p elem size writable => exact readFixedArray_converting ctx p elem size writable slot

theorem readUnits_converting :
    ∀ (units : List ParamUnit) (slot : Nat), ctx.Converting (readUnits ctx slot units) := by
  intro units
  induction units with
  | nil => intro _; exact .pure _
  | cons u rest ih =>
    intro slot
    exact (readUnit_converting ctx _ u).bind fun _ => (ih _).bind fun _ => .pure _

/-! ## The call and the results -/

theorem nativeCall_symbols (f : FunctionDecl) (args : List String) :
    (nativeCall ctx f args).symbols = [] := by
  simp [nativeCall, Call.symbols, Callee.symbols, List.flatMap_map, Arg.symbols]

theorem callLines_mentions (f : FunctionDecl) (result : String) (category : Category)
    (args : List String) : (callLines ctx f result category args).flatMap Line.mentions = [] := by
  have hcall := nativeCall_symbols ctx f args
  unfold callLines
  dsimp only
  split
  · split <;> simp [Line.mentions, Expr.symbols, hcall]
  · rw [List.flatMap_eq_nil_iff]
    intro l hl
    simp only [List.mem_append, List.mem_map, List.mem_cons, List.not_mem_nil, or_false] at hl
    rcases hl with (((hl | rfl) | hl) | ⟨a, -, rfl⟩) | (rfl | rfl | rfl)
    · split at hl
      · exact absurd hl List.not_mem_nil
      · rw [List.mem_singleton.mp hl]
        rfl
    · rfl
    · split at hl
      · split at hl
        · exact absurd hl List.not_mem_nil
        · rw [List.mem_singleton.mp hl]
          rfl
      · exact absurd hl List.not_mem_nil
    · rfl
    · rfl
    · split <;> simp [Line.mentions, Expr.symbols, hcall]
    · rfl

theorem pushOutput_converting (o : OutputValue) : ctx.Converting (pushOutput ctx o) := by
  unfold pushOutput
  split
  · exact (OnlyConverts.branch rfl rfl (push_converting ctx _ _)).bind fun _ =>
      (ctx.categoryOf_converting _).bind fun _ => .pure _
  · exact (push_converting ctx _ _).bind fun _ =>
      (ctx.categoryOf_converting _).bind fun _ => .pure _

theorem pushOutputs_converting (outputs : List OutputValue) :
    ctx.Converting (pushOutputs ctx outputs) := by
  induction outputs with
  | nil => exact .pure _
  | cons o rest ih =>
    exact (pushOutput_converting ctx o).bind fun _ => ih.bind fun _ => .pure _

theorem pushResult_converting (result : String) (category : Category) :
    ctx.Converting (pushResult ctx result category) := by
  unfold pushResult
  split
  · exact .pure _
  · exact (push_converting ctx _ _).bind fun _ => .pure _

/-! ## The wrapper -/

theorem wrapperRest_converting (f : FunctionDecl) (names : FunctionNames) (units : List ParamUnit) :
    ctx.Converting (wrapperRest ctx f names units) := by
  unfold wrapperRest
  refine (readUnits_converting ctx units 0).bind fun codes =>
    (ctx.categoryOf_converting _).bind fun category => ?_
  refine (OnlyConverts.lines (callLines_mentions ctx f _ _ _)).bind fun _ =>
    (pushResult_converting ctx _ _).bind fun returned => ?_
  exact (pushOutputs_converting ctx _).bind fun outputs =>
    (OnlyConverts.line rfl).bind fun _ => .pure _

/-- **A wrapper defines its function and calls converters.** -/
theorem wrapFunction_outlined {f : FunctionDecl} {names : FunctionNames} {s s' : Scratch}
    {binding : FunctionBinding} {code : Code}
    (h : wrapFunction ctx f names s = (.written binding code, s')) :
    code.Outlined ctx.Bound [.defines (.wrapper names.cName)] := by
  obtain ⟨made, _, _, _, hbody, hblank, rfl⟩ := bind_written.mp h
  obtain ⟨_, hreturn, rfl⟩ := line_bind_written.mp hblank
  obtain ⟨rfl, rfl, rfl⟩ := pure_written.mp hreturn
  obtain ⟨units, _, _, _, hpair, hdefine, rfl⟩ := bind_written.mp hbody
  obtain ⟨-, rfl, -⟩ := asking_written.mp hpair
  have hrest := wrapperRest_converting ctx f names units
  refine Code.Outlined.blank (OnlyConverts.define ?_ hdefine)
  refine (OnlyConverts.asking _).bind fun scratch => ?_
  cases scratch with
  | true => exact (OnlyConverts.lines rfl).bind fun _ => hrest
  | false => exact hrest

theorem wrapFunction_names {f : FunctionDecl} {names : FunctionNames} {s s' : Scratch}
    {binding : FunctionBinding} {code : Code}
    (h : wrapFunction ctx f names s = (.written binding code, s')) :
    binding.native = f.name ∧ binding.names = names := by
  obtain ⟨w, t, t', -, -, rfl⟩ := wrapFunction_written h
  exact ⟨rfl, rfl⟩

end LuaGlue
