import LuaGlue.Proofs.Function.Pairing
import LuaGlue.Proofs.Function.Respelling
import LuaGlue.Proofs.Function.WrapperCode
import LuaGlue.Proofs.Interface.Params
import LuaGlue.Proofs.Marshal.Locals

/-!
# Locals of a wrapper

A wrapper declares its locals one after another in its body: the position of the keep table, one local for each
native argument, beside it one for the value that an output or a pointer to a constant struct points to, and
one for the return value (`wrapFunction_locals`). Temporaries are all inside blocks, since what reads or pushes
a value declares nothing but inside of the block that it opens (`Reads.locals`, `Pushes.locals`).

The locals of arguments and values begin with `p_`, which the others do not, and go on with the parameter's name.
What may come about twice are names of parameters, and a name with `_val` behind it. So the locals are different
exactly if no name is given that is also made for a parameter without one, and no parameter is called like the
value of another one (`wrapper_locals_nodup_iff`).
-/

set_option autoImplicit false

namespace LuaGlue

/-! ## Values -/

section

variable {ctx : Context} {m : Memo} {n n' : Nat} {code : Code}

theorem OutputsPushed.locals {outputs : List OutputValue} {results : List ScriptResult}
    (h : OutputsPushed ctx m outputs n code n' results) : code.locals = [] := by
  induction h with
  | nil => rfl
  | @cons o _ _ _ _ _ _ _ _ head _ _ ih =>
    rw [Code.locals_append, ih, List.append_nil, pushOutputCode]
    cases o.guard with
    | some pointer => rfl
    | none => exact head.locals

theorem ResultPushed.locals {spelling : String} {category : Category} {results : List ScriptResult}
    (h : ResultPushed ctx m spelling category n code n' results) : code.locals = [] := by
  cases h with
  | void => rfl
  | value _ inside => exact inside.locals

end

/-! ## Units -/

/-- A unit has a second local for the value that its parameter points to: an output, and a pointer to a
constant struct. -/
def ParamUnit.hasValue : ParamUnit → Bool
  | .single _ _ true | .single _ (.structPointer _ _ true) false => true
  | _ => false

/-- What the locals of a unit are called after: the value, and the native arguments. -/
def ParamUnit.localStems (u : ParamUnit) : List String :=
  (if u.hasValue then [u.param.name ++ "_val"] else []) ++ u.params.map (·.name)

section

variable {ctx : Context} {m : Memo} {slot n n' : Nat} {u : ParamUnit} {code : Code} {r : UnitCode}

theorem guardedCode_locals {optional : Bool} {inside : Code} (h : inside.locals = []) :
    (guardedCode optional slot inside).locals = [] := by
  cases optional with
  | true => rfl
  | false => exact h

theorem Param.valueName_eq (p : Param) : p.valueName = "p_" ++ (p.name ++ "_val") := by
  rw [Param.valueName, Param.localName, String.append_assoc]

theorem ParamUnit.hasValue_plain {p : Param} {category : Category} (h : category.isReadSpecially = false) :
    (ParamUnit.single p category false).hasValue = false := by
  cases category with
  | structPointer name shape isConst =>
    cases isConst with
    | true => cases h
    | false => rfl
  | _ => rfl

theorem ParamUnit.hasValue_gap {p : Param} {category : Category}
    (h : category.isCallback = true ∨ category.isUnknown = true) :
    (ParamUnit.single p category false).hasValue = false := by
  cases category with
  | structPointer name shape isConst => rcases h with h | h <;> cases h
  | _ => rfl

/-- **A unit declares a local for each native argument and perhaps one for a value.** -/
theorem UnitReads.locals (h : UnitReads ctx m slot u n code n' r) :
    code.locals = u.localStems.map ("p_" ++ ·) := by
  cases h with
  | @output p _ _ _ _ _ _ _ _ inside =>
    rw [outputCode]
    cases p.hasDefault <;> exact congrArg (· :: _) p.valueName_eq
  | constPointer => rfl
  | @constStruct p => exact congrArg (· :: _) p.valueName_eq
  | gap hc =>
    rw [ParamUnit.localStems, ParamUnit.hasValue_gap hc]
    rfl
  | plain hc inside =>
    rw [ParamUnit.localStems, ParamUnit.hasValue_plain hc, Code.locals_line,
      guardedCode_locals inside.locals]
    rfl
  | @arrayCount array =>
    rw [arrayCountCode]
    cases array.hasDefault <;> rfl
  | fixedArray _ inside =>
    rw [Code.locals_line, guardedCode_locals inside.locals]
    rfl

theorem UnitsRead.locals {units : List ParamUnit} {s s' : Scratch} {codes : List Code}
    {given : List UnitCode} (h : UnitsRead ctx slot units s codes given s') :
    codes.flatMap Code.locals = (units.flatMap ParamUnit.localStems).map ("p_" ++ ·) := by
  induction h with
  | nil => rfl
  | cons head _ ih =>
    rw [List.flatMap_cons, List.flatMap_cons, List.map_append, (readUnit_reads head).locals, ih]

end

/-! ## The wrapper -/

theorem scratchLines_locals (scratch : Bool) (units : Nat) :
    (scratchLines scratch units).filterMap Line.local? = if scratch then [keepLocal] else [] := by
  cases scratch <;> rfl

theorem callLines_locals (ctx : Context) (f : FunctionDecl) (result : String) (category : Category)
    (args : List String) : (callLines ctx f result category args).filterMap Line.local? =
      if category.isVoid then [] else [resultLocal] := by
  have hunused : (args.map Line.unused).filterMap Line.local? = [] := by
    rw [List.filterMap_map]
    exact List.filterMap_eq_nil_iff.mpr fun a _ => rfl
  unfold callLines
  cases ctx.manifest.dummyBackend.filter fun d => d.appliesTo f.name with
  | none => cases category.isVoid <;> rfl
  | some dummy =>
    dsimp only
    rw [List.filterMap_append, List.filterMap_append, hunused]
    cases category.isVoid <;> cases dummy.returns.lookup f.name <;> rfl

/-- **The locals of a wrapper**: the keep table, those of each unit in order, and the return value. -/
theorem wrapFunction_locals {ctx : Context} {f : FunctionDecl} {names : FunctionNames}
    {binding : FunctionBinding} {s s' : Scratch} {code : Code}
    (h : wrapFunction ctx f names s = (.written binding code, s')) :
    ∃ scratch returns : Bool, code.bodyLocals = (if scratch then [keepLocal] else []) ++
      ((((pairParams ctx f.name f.params).run s.memo).1.flatMap ParamUnit.localStems).map ("p_" ++ ·) ++
        if returns then [resultLocal] else []) := by
  obtain ⟨w, t, t', hw, rfl, -⟩ := wrapFunction_written h
  obtain ⟨n, hreturn, houtputs⟩ := hw.results
  refine ⟨w.scratch, !w.category.isVoid, ?_⟩
  change (w.body ctx f).locals = _
  simp only [WrapperPieces.body, WrapperPieces.callLines, Code.locals_append, Code.locals_ofLines,
    Code.locals_seq, Code.locals_line, scratchLines_locals, callLines_locals, hw.reads.locals,
    hreturn.locals, houtputs.locals, hw.units]
  cases w.category.isVoid <;> simp [Line.local?]

/-! ## Different names -/

section

variable (units : List ParamUnit)

/-- The values are called after parameters of their own. -/
theorem units_params_sublist : (units.map (·.param)).Sublist (units.flatMap ParamUnit.params) := by
  induction units with
  | nil => exact List.Sublist.slnil
  | cons u rest ih =>
    have hfirst : [u.param].Sublist u.params := by
      cases u with
      | arrayCount array count elem => exact (List.nil_sublist [count]).cons_cons array
      | _ => exact List.Sublist.refl _
    exact hfirst.append ih

/-- All that locals are called after: what values are, and the names of the parameters. -/
theorem units_localStems_perm : (units.flatMap ParamUnit.localStems).Perm
    ((units.filter (·.hasValue)).map (·.param.name ++ "_val") ++
      (units.flatMap ParamUnit.params).map (·.name)) := by
  induction units with
  | nil => exact List.Perm.nil
  | cons u rest ih =>
    rw [List.flatMap_cons, List.flatMap_cons, List.map_append, ParamUnit.localStems]
    cases hu : u.hasValue with
    | true =>
      rw [List.filter_cons_of_pos hu, if_pos rfl, List.map_cons]
      refine List.Perm.cons _ ?_
      exact (ih.append_left _).trans (List.perm_append_comm_assoc ..)
    | false =>
      rw [List.filter_cons_of_neg (by simp [hu]), if_neg (by simp), List.nil_append]
      exact (ih.append_left _).trans (List.perm_append_comm_assoc ..)

theorem units_localStems_nodup_iff {params : List Param} (hparams : units.flatMap ParamUnit.params = params) :
    (units.flatMap ParamUnit.localStems).Nodup ↔ (params.map (·.name)).Nodup ∧
      ∀ u ∈ units, u.hasValue = true → u.param.name ++ "_val" ∉ params.map (·.name) := by
  rw [(units_localStems_perm units).nodup_iff, List.nodup_append', hparams]
  constructor
  · rintro ⟨-, hnames, hdisjoint⟩
    refine ⟨hnames, fun u hu hvalue => hdisjoint ?_⟩
    exact List.mem_map.mpr ⟨u, List.mem_filter.mpr ⟨hu, hvalue⟩, rfl⟩
  · rintro ⟨hnames, hvalues⟩
    refine ⟨?_, hnames, fun name hvalue => ?_⟩
    · have hown : (units.map (·.param.name)).Nodup := by
        have hsub := (units_params_sublist units).map (·.name)
        rw [hparams, List.map_map] at hsub
        exact hnames.sublist hsub
      have hvalued : ((units.filter (·.hasValue)).map (·.param.name)).Nodup :=
        hown.sublist (List.filter_sublist.map _)
      have hmarked : (((units.filter (·.hasValue)).map (·.param.name)).map (· ++ "_val")).Nodup :=
        hvalued.map fun a b h => (String.append_left_inj _).mp h
      rwa [List.map_map] at hmarked
    · obtain ⟨u, hu, rfl⟩ := List.mem_map.mp hvalue
      obtain ⟨hu, hhas⟩ := List.mem_filter.mp hu
      exact hvalues u hu hhas

end

/-- **The locals of a wrapper are different exactly if** no name is given to one parameter and made for another,
and none of them is the name of an output, or of a pointer to a constant struct, with `_val` behind it. -/
theorem wrapper_locals_nodup_iff {overloads : Bool} {text : String} {i : Interface} {f : FunctionDecl}
    {ctx : Context} {names : FunctionNames} {binding : FunctionBinding} {s s' : Scratch} {code : Code}
    (hparse : Interface.parse overloads text = .ok i) (hf : f ∈ i.functions)
    (hgiven : f.givenNames.Nodup)
    (h : wrapFunction ctx f names s = (.written binding code, s')) :
    code.bodyLocals.Nodup ↔ (∀ name ∈ f.givenNames, name ∉ f.madeNames) ∧
      ∀ u ∈ ((pairParams ctx f.name f.params).run s.memo).1, u.hasValue = true →
        u.param.name ++ "_val" ∉ f.params.map (·.name) := by
  have hnames : (f.params.map (·.name)).Nodup ↔ ∀ name ∈ f.givenNames, name ∉ f.madeNames := by
    rw [paramNames_nodup_iff hparse hf, and_iff_right hgiven]
  rw [← hnames, ← units_localStems_nodup_iff _ (pairParams_params ctx f.name f.params s.memo)]
  obtain ⟨scratch, returns, hlocals⟩ := wrapFunction_locals h
  rw [hlocals]
  generalize ((pairParams ctx f.name f.params).run s.memo).1.flatMap ParamUnit.localStems = stems
  have hother {x : String} (hx : x = keepLocal ∨ x = resultLocal) : x ∉ stems.map ("p_" ++ ·) := by
    intro hmem
    obtain ⟨stem, -, heq⟩ := List.mem_map.mp hmem
    have hchars := congrArg String.toList heq
    rw [String.toList_append] at hchars
    rcases hx with rfl | rfl <;> exact absurd (congrArg List.head? hchars) (by simp [keepLocal, resultLocal])
  have hstems : (stems.map ("p_" ++ ·)).Nodup ↔ stems.Nodup :=
    List.nodup_map_iff fun a b heq => (String.append_right_inj _).mp heq
  rw [← hstems]
  constructor
  · intro hall
    exact hall.sublist ((List.sublist_append_left _ _).trans (List.sublist_append_right _ _))
  · intro hstems
    have hkeep := hother (.inl rfl)
    have hret := hother (.inr rfl)
    cases scratch <;> cases returns <;>
      simp_all [List.nodup_append', List.nodup_cons, keepLocal, resultLocal]

/-- An output and a parameter without a name. -/
def measureText : String :=
  "[[\"func\",\"measure\",\"int (int *, float)\",[[\"size\",\"int *\"],[null,\"float\"]]]]"

def measureFunction : FunctionDecl where
  name := "measure"
  type := "int (int *, float)"
  returnType := "int"
  params := [⟨"size", "int *", false, false, false⟩, ⟨"arg1", "float", false, false, true⟩]
  variadic := false

def measureNames : FunctionNames := ⟨"l_measure", "measure"⟩

theorem wrapper_locals_nodup_measure :
    ∃ binding code s', wrapFunction bareContext measureFunction measureNames {} = (.written binding code, s') ∧
      code.bodyLocals = ["p_size_val", "p_size", "p_arg1", "ret"] ∧ code.bodyLocals.Nodup := by
  have hparse : Interface.parse false measureText = .ok { decls := [.function measureFunction] } := by
    decide +kernel
  obtain ⟨binding, code, s', h, hlocals⟩ :=
    Draft.exists_written (wrapFunction bareContext measureFunction measureNames) {}
      (fun code => code.bodyLocals == ["p_size_val", "p_size", "p_arg1", "ret"]) (by decide +kernel)
  refine ⟨binding, code, s', h, beq_iff_eq.mp hlocals, ?_⟩
  have hunits : ((pairParams bareContext measureFunction.name measureFunction.params).run {}).1.all
      (fun u => u.hasValue == false || measureFunction.params.all fun p => p.name != u.param.name ++ "_val") =
        true := by decide +kernel
  refine (wrapper_locals_nodup_iff hparse List.mem_cons_self (by decide) h).mpr ⟨by decide, ?_⟩
  intro u hu hvalue hmem
  obtain ⟨p, hp, hname⟩ := List.mem_map.mp hmem
  have htest := List.all_eq_true.mp hunits u hu
  rw [hvalue] at htest
  have hother := List.all_eq_true.mp htest p hp
  simp [hname] at hother

/-- A parameter that is called as one without a name will be, and one that is called as an output's value. -/
def clashText : String :=
  "[[\"func\",\"shift\",\"void (int, int)\",[[null,\"int\"],[\"arg0\",\"int\"]]],
    [\"func\",\"grow\",\"void (int *, int)\",[[\"x\",\"int *\"],[\"x_val\",\"int\"]]]]"

def shiftFunction : FunctionDecl where
  name := "shift"
  type := "void (int, int)"
  returnType := "void"
  params := [⟨"arg0", "int", false, false, true⟩, ⟨"arg0", "int", false, false, false⟩]
  variadic := false

def growFunction : FunctionDecl where
  name := "grow"
  type := "void (int *, int)"
  returnType := "void"
  params := [⟨"x", "int *", false, false, false⟩, ⟨"x_val", "int", false, false, false⟩]
  variadic := false

/-- Two locals of one name, though no two parameters are given one name. -/
theorem wrapper_locals_clash :
    Interface.parse false clashText = .ok { decls := [.function shiftFunction, .function growFunction] } ∧
      (shiftFunction.givenNames = ["arg0"] ∧ ∃ binding code s',
        wrapFunction bareContext shiftFunction ⟨"l_shift", "shift"⟩ {} = (.written binding code, s') ∧
          code.bodyLocals = ["p_arg0", "p_arg0"]) ∧
      growFunction.givenNames = ["x", "x_val"] ∧ ∃ binding code s',
        wrapFunction bareContext growFunction ⟨"l_grow", "grow"⟩ {} = (.written binding code, s') ∧
          code.bodyLocals = ["p_x_val", "p_x", "p_x_val"] := by
  have written (f : FunctionDecl) (names : FunctionNames) (locals : List String)
      (h : (wrapFunction bareContext f names {}).1.passes (fun code => code.bodyLocals == locals) = true) :
      ∃ binding code s', wrapFunction bareContext f names {} = (.written binding code, s') ∧
        code.bodyLocals = locals := by
    obtain ⟨binding, code, s', hwritten, hlocals⟩ := Draft.exists_written _ {} _ h
    exact ⟨binding, code, s', hwritten, beq_iff_eq.mp hlocals⟩
  refine ⟨by decide +kernel, ⟨by decide, ?_⟩, by decide, ?_⟩
  · exact written shiftFunction _ _ (by decide +kernel)
  · exact written growFunction _ _ (by decide +kernel)

end LuaGlue
