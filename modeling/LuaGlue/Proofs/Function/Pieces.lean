import LuaGlue.Proofs.Function.Pairing
import LuaGlue.Proofs.Function.Slots
import LuaGlue.Proofs.Function.WrapperCode

/-!
# The pieces of a wrapper

What is known about each piece of a wrapper: what the units contribute together, that one line calls
the library and the lines around it call nothing, and that what is announced as a result is what is
pushed.
-/

set_option autoImplicit false

namespace LuaGlue

variable {ctx : Context}

/-! ## The arguments -/

section

variable {slot : Nat} {units : List ParamUnit} {s s' : Scratch} {codes : List Code}
  {given : List UnitCode}

theorem UnitsRead.arg_names (h : UnitsRead ctx slot units s codes given s') :
    given.map (·.arg.name) = units.map (·.param.name) := by
  induction h with
  | nil => rfl
  | cons head _ ih => rw [List.map_cons, List.map_cons, (readUnit_reads head).arg_name, ih]

theorem UnitsRead.nativeArgs_eq (h : UnitsRead ctx slot units s codes given s') :
    given.flatMap (·.nativeArgs) = (units.flatMap ParamUnit.params).map Param.localName := by
  induction h with
  | nil => rfl
  | cons head _ ih =>
    rw [List.flatMap_cons, List.flatMap_cons, List.map_append, (readUnit_reads head).nativeArgs_eq, ih]

theorem UnitsRead.output_params (h : UnitsRead ctx slot units s codes given s') :
    (given.filterMap (·.output)).map (·.param) =
      (units.filter (·.isOutput)).map (·.param.name) := by
  induction h with
  | nil => rfl
  | @cons _ u _ _ _ r _ _ _ _ head _ ih =>
    have hout := (readUnit_reads head).output_param
    cases hu : u.isOutput with
    | true =>
      rw [hu, if_pos rfl] at hout
      obtain ⟨o, ho, hname⟩ := Option.map_eq_some_iff.mp hout
      rw [List.filterMap_cons_some ho, List.filter_cons_of_pos hu, List.map_cons, List.map_cons, ih,
        hname]
    | false =>
      rw [hu, if_neg (by simp), Option.map_eq_none_iff] at hout
      rw [List.filterMap_cons_none hout, List.filter_cons_of_neg (by simp [hu]), ih]

theorem UnitsRead.plain (h : UnitsRead ctx slot units s codes given s') :
    (Code.seq codes).All fun c => c.isPlain = true := by
  induction h with
  | nil => exact .done
  | cons head _ ih => exact .append ((readUnit_reads head).slotCode.calls.mono fun _ hc => hc.plain) ih

end

/-! ## The native call -/

/-- A line that calls nothing. -/
structure Line.Quiet (l : Line) : Prop where
  runs : l.runs = [.through []]
  calls : l.calls = []

theorem nativeCall_still (ctx : Context) (f : FunctionDecl) (args : List String) : (nativeCall ctx f args).Still 0 :=
  ⟨rfl, fun i hm => by simp [nativeCall] at hm⟩

/-- Whether or not there is a dummy backend, and whatever it returns, one line calls the library and
the lines around it call nothing. -/
theorem callLines_split (ctx : Context) (f : FunctionDecl) (result : String) (category : Category)
    (args : List String) :
    ∃ before call after, callLines ctx f result category args = before ++ call :: after ∧
      (∀ l ∈ before, l.Quiet) ∧ (∀ l ∈ after, l.Quiet) ∧
      call.calls = [nativeCall ctx f args] ∧ call.Still 0 := by
  have hcall := nativeCall_still ctx f args
  unfold callLines
  cases (ctx.manifest.dummyBackend.filter fun d => d.appliesTo f.name) with
  | none =>
    cases hv : category.isVoid with
    | true => exact ⟨[], .call (nativeCall ctx f args), [], by simp, by simp, by simp, rfl, .call hcall⟩
    | false =>
      exact ⟨[], .declare (localOf result resultLocal) (.call (nativeCall ctx f args)), [], by simp,
        by simp, by simp, rfl, .declare (.call hcall)⟩
  | some dummy =>
    have hafter : ∀ l ∈ [Line.directive "#endif"], l.Quiet :=
      fun l hl => List.mem_singleton.mp hl ▸ ⟨rfl, rfl⟩
    have hbefore : ∀ {zero value : List Line}, (∀ l ∈ zero, l.Quiet) → (∀ l ∈ value, l.Quiet) →
        ∀ l ∈ zero ++ [.directive ("#ifdef " ++ dummy.guard)] ++ value ++ args.map .unused ++
          [.directive "#else"], l.Quiet := by
      intro zero value hzero hvalue l hl
      simp only [List.mem_append, List.mem_singleton, List.mem_map] at hl
      rcases hl with (((hl | rfl) | hl) | ⟨_, _, rfl⟩) | rfl
      · exact hzero l hl
      · exact ⟨rfl, rfl⟩
      · exact hvalue l hl
      · exact ⟨rfl, rfl⟩
      · exact ⟨rfl, rfl⟩
    have hzero : ∀ l ∈ (if category.isVoid then []
        else [Line.declare (localOf result resultLocal) (.text (ctx.zeroInit category))]),
        l.Quiet := by
      intro l hl
      split at hl
      · exact absurd hl List.not_mem_nil
      · exact List.mem_singleton.mp hl ▸ ⟨rfl, rfl⟩
    have hvalue {value : List Line}
        (h : value = [] ∨ ∃ text, value = [Line.assign (.name resultLocal) (.text text)]) :
        ∀ l ∈ value, l.Quiet := by
      intro l hl
      rcases h with rfl | ⟨text, rfl⟩
      · exact absurd hl List.not_mem_nil
      · exact List.mem_singleton.mp hl ▸ ⟨rfl, rfl⟩
    refine ⟨_, if category.isVoid then .call (nativeCall ctx f args)
      else .assign (.name resultLocal) (.call (nativeCall ctx f args)), _,
      (List.append_assoc _ [_] [_, _]).symm, hbefore hzero (hvalue ?_), hafter, ?_, ?_⟩
    · split
      · split
        · exact .inl rfl
        · exact .inr ⟨_, rfl⟩
      · exact .inl rfl
    · split <;> rfl
    · split
      · exact .call hcall
      · exact .assign (.call hcall)

/-! ## The results -/

theorem ResultPushed.names {m : Memo} {spelling : String} {category : Category} {n n' : Nat}
    {code : Code} {results : List ScriptResult}
    (h : ResultPushed ctx m spelling category n code n' results) :
    results.map (·.name) = if category.isVoid then [] else [none] := by
  cases h with
  | void hv => rw [if_pos hv]; rfl
  | value hv _ => rw [if_neg (by simp [hv])]; rfl

theorem ResultPushed.leaves {m : Memo} {spelling : String} {category : Category} {n n' : Nat}
    {code : Code} {results : List ScriptResult}
    (h : ResultPushed ctx m spelling category n code n' results) : code.Leaves results.length := by
  cases h with
  | void _ => exact .done
  | value _ inside => exact inside.leaves

theorem ResultPushed.api {m : Memo} {spelling : String} {category : Category} {n n' : Nat}
    {code : Code} {results : List ScriptResult}
    (h : ResultPushed ctx m spelling category n code n' results) :
    code.All fun c => c.isApi = true := by
  cases h with
  | void _ => exact .done
  | value _ inside => exact inside.api

theorem pushNil_leaves : (Code.line pushNil .done).Leaves 1 :=
  (pushNil_climbs (h := 0)).leaves

theorem pushOutputCode_leaves (ctx : Context) {inside : Code} (h : inside.Leaves 1)
    (o : OutputValue) :
    (pushOutputCode ctx o inside).Leaves 1 := by
  unfold pushOutputCode
  split
  · exact .branch (by simp [Cond.calls]) h pushNil_leaves .done
  · exact h

theorem pushOutputCode_api {inside : Code} (h : inside.All fun c => c.isApi = true)
    (o : OutputValue) : (pushOutputCode ctx o inside).All fun c => c.isApi = true := by
  unfold pushOutputCode
  split
  · exact .branch (by simp [Cond.calls]) h
      (.line (fun _ hm => List.mem_singleton.mp hm ▸ rfl) .done) .done
  · exact h

section

variable {m : Memo} {outputs : List OutputValue} {n n' : Nat} {code : Code}
  {results : List ScriptResult}

theorem OutputsPushed.names (h : OutputsPushed ctx m outputs n code n' results) :
    results.map (·.name) = (outputs.map (·.param)).map some := by
  induction h with
  | nil => rfl
  | cons _ _ _ ih => rw [List.map_cons, ih]; rfl

theorem OutputsPushed.leaves (h : OutputsPushed ctx m outputs n code n' results) :
    code.Leaves results.length := by
  induction h with
  | nil => exact .done
  | @cons o _ _ _ _ _ _ _ results head _ _ ih =>
    have := (pushOutputCode_leaves ctx head.leaves o).append ih (by decide)
    rwa [List.length_cons, Int.natCast_add, Int.add_comm]

theorem OutputsPushed.api (h : OutputsPushed ctx m outputs n code n' results) :
    code.All fun c => c.isApi = true := by
  induction h with
  | nil => exact .done
  | cons head _ _ ih => exact .append (pushOutputCode_api head.api _) ih

end

/-! ## Lines around them -/

theorem ofLines_quiet {ls : List Line} (h : ∀ l ∈ ls, l.Quiet) :
    (Code.ofLines ls).calls = [] ∧ (Code.ofLines ls).Leaves 0 := by
  refine ⟨?_, (Code.Climbs.ofLines (fun l hl => .of_runs (h l hl).runs) (Int.le_refl 0)).leaves⟩
  rw [Code.calls_ofLines, List.flatMap_eq_nil_iff]
  exact fun l hl => (h l hl).calls

end LuaGlue
