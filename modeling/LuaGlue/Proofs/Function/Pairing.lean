import LuaGlue.Function.Units
import LuaGlue.Proofs.Classifier.Memo

/-!
# Units and parameters

Grouping a parameter list into units loses nothing, repeats nothing and moves nothing.
-/

set_option autoImplicit false

namespace LuaGlue

theorem configuredArray?_eq_some {ctx : Context} {function : String} {p : Param} {u : ParamUnit} :
    configuredArray? ctx function p = some u ↔
      ∃ size elem, ctx.manifest.arrayParamSize? function p.name = some size ∧
        pointeeType? p.type = some elem ∧ u = .fixedArray p elem size (!hasConstBase p.type) := by
  unfold configuredArray?
  cases ctx.manifest.arrayParamSize? function p.name with
  | none => simp
  | some size => cases pointeeType? p.type <;> simp [eq_comm]

theorem declaredArray?_eq_some {p : Param} {category : Category} {u : ParamUnit} :
    declaredArray? p category = some u ↔
      ∃ c size elem, category = .fixedArray c size ∧ elementType? p.type = some elem ∧
        u = .fixedArray p elem size (!hasConstBase p.type) := by
  unfold declaredArray?
  cases category with
  | fixedArray c size =>
    simp only [Option.map_eq_some_iff, Category.fixedArray.injEq]
    constructor
    · rintro ⟨elem, he, rfl⟩
      exact ⟨c, size, elem, ⟨rfl, rfl⟩, he, rfl⟩
    · rintro ⟨_, _, elem, ⟨rfl, rfl⟩, he, rfl⟩
      exact ⟨elem, he, rfl⟩
  | _ => simp

theorem configuredArray?_params {ctx : Context} {function : String} {p : Param} {u : ParamUnit}
    (h : configuredArray? ctx function p = some u) : u.params = [p] := by
  obtain ⟨size, elem, -, -, rfl⟩ := configuredArray?_eq_some.mp h
  rfl

theorem declaredArray?_params {p : Param} {category : Category} {u : ParamUnit}
    (h : declaredArray? p category = some u) : u.params = [p] := by
  obtain ⟨c, size, elem, -, -, rfl⟩ := declaredArray?_eq_some.mp h
  rfl

/-- **The units of a parameter list are consecutive pieces of it**, whatever the memo says. -/
theorem pairParams_params (ctx : Context) (function : String) :
    ∀ (params : List Param) (m : Memo),
      ((pairParams ctx function params).run m).1.flatMap ParamUnit.params = params
  | [], _ => rfl
  | p :: rest, m => by
    unfold pairParams
    rw [Classifying.run_bind]
    generalize (ctx.classify p.type).run m = answer
    obtain ⟨category, m₁⟩ := answer
    dsimp only
    cases harray : (configuredArray? ctx function p).or (declaredArray? p category) with
    | some array =>
      have hparams : array.params = [p] := by
        rcases Option.or_eq_some_iff.mp harray with h | ⟨-, h⟩
        · exact configuredArray?_params h
        · exact declaredArray?_params h
      simp only [Classifying.run_bind, Classifying.run_pure, List.flatMap_cons, hparams,
        pairParams_params ctx function rest m₁, List.cons_append, List.nil_append]
    | none =>
      rw [Classifying.run_bind]
      generalize (countedElem? ctx p category rest.head?).run m₁ = counted
      obtain ⟨elem?, m₂⟩ := counted
      dsimp only
      cases elem? with
      | none =>
        simp only [Classifying.run_bind, Classifying.run_pure, List.flatMap_cons, ParamUnit.params,
          pairParams_params ctx function rest m₂, List.cons_append, List.nil_append]
      | some elem =>
        cases rest with
        | nil => rfl
        | cons count rest' =>
          simp only [Classifying.run_bind, Classifying.run_pure, List.flatMap_cons, ParamUnit.params,
            pairParams_params ctx function rest' m₂, List.cons_append, List.nil_append]
  termination_by params => params.length

/-- How a unit comes about, given the category of its first parameter: by an entry of the manifest, by a
declaration as an array, by itself, or with a count. -/
inductive ParamUnit.MadeFrom (ctx : Context) (function : String) (category : Category) :
    ParamUnit → Prop where
  | configured {u} (h : configuredArray? ctx function u.param = some u) :
      MadeFrom ctx function category u
  | declared {u} (hno : configuredArray? ctx function u.param = none)
      (h : declaredArray? u.param category = some u) : MadeFrom ctx function category u
  | single {p} :
      MadeFrom ctx function category (.single p category (category.isOutputWhen p.markedOut))
  | counted {p count elem} : MadeFrom ctx function category (.arrayCount p count elem)

/-- Whether a parameter by itself is an output goes by its category and its declaration. -/
theorem ParamUnit.MadeFrom.single_inv {ctx : Context} {function : String} {c category : Category}
    {q : Param} {output : Bool} (h : (ParamUnit.single q category output).MadeFrom ctx function c) :
    category = c ∧ output = category.isOutputWhen q.markedOut := by
  generalize hu : ParamUnit.single q category output = u at h
  cases h with
  | configured h =>
    obtain ⟨_, _, -, -, harray⟩ := configuredArray?_eq_some.mp h
    cases hu.trans harray
  | declared _ h =>
    obtain ⟨_, _, _, -, -, harray⟩ := declaredArray?_eq_some.mp h
    cases hu.trans harray
  | single =>
    cases hu
    exact ⟨rfl, rfl⟩
  | counted => cases hu

/-- An array that no entry of the manifest made is one by its declaration. -/
theorem ParamUnit.MadeFrom.fixedArray_inv {ctx : Context} {function : String} {category : Category}
    {p : Param} {elem : String} {size : Nat} {writable : Bool}
    (h : (ParamUnit.fixedArray p elem size writable).MadeFrom ctx function category)
    (hconfigured : configuredArray? ctx function p = none) : elementType? p.type = some elem := by
  generalize hu : ParamUnit.fixedArray p elem size writable = u at h
  cases h with
  | configured h =>
    subst hu
    exact absurd h (by simp [ParamUnit.param, hconfigured])
  | declared _ h =>
    subst hu
    obtain ⟨_, _, elem', -, helem, heq⟩ := declaredArray?_eq_some.mp h
    rw [(ParamUnit.fixedArray.inj heq).2.1]
    exact helem
  | single => cases hu
  | counted => cases hu

theorem ParamUnit.param_eq {u : ParamUnit} {p : Param} (h : u.params = [p]) : u.param = p := by
  cases u <;> simp_all [params, param]

/-- **Every unit is made of a parameter that was classified on the way.** -/
theorem pairParams_made {ctx : Context} {function : String} {u : ParamUnit} :
    ∀ {params : List Param} {m : Memo}, u ∈ ((pairParams ctx function params).run m).1 →
      ∃ m₁, u.MadeFrom ctx function ((ctx.classify u.param.type).run m₁).1
  | [], _, h => nomatch h
  | p :: rest, m, h => by
    unfold pairParams at h
    rw [Classifying.run_bind] at h
    have here : ∀ {u : ParamUnit}, u.param = p →
        u.MadeFrom ctx function ((ctx.classify p.type).run m).1 →
        ∃ m₁, u.MadeFrom ctx function ((ctx.classify u.param.type).run m₁).1 :=
      fun hp hmade => ⟨m, by rwa [hp]⟩
    generalize hcategory : ((ctx.classify p.type).run m).1 = category at h here
    generalize ((ctx.classify p.type).run m).2 = m₁ at h
    cases harray : (configuredArray? ctx function p).or (declaredArray? p category) with
    | some array =>
      simp only [harray, Classifying.run_bind, Classifying.run_pure, List.mem_cons] at h
      rcases h with rfl | h
      · rcases Option.or_eq_some_iff.mp harray with hconf | ⟨hno, hdecl⟩
        · have hp := ParamUnit.param_eq (configuredArray?_params hconf)
          exact here hp (.configured (by rwa [hp]))
        · have hp := ParamUnit.param_eq (declaredArray?_params hdecl)
          exact here hp (.declared (by rwa [hp]) (by rwa [hp]))
      · exact pairParams_made h
    | none =>
      simp only [harray, Classifying.run_bind] at h
      generalize (countedElem? ctx p category rest.head?).run m₁ = counted at h
      obtain ⟨elem?, m₂⟩ := counted
      cases elem? with
      | none =>
        simp only [Classifying.run_bind, Classifying.run_pure, List.mem_cons] at h
        rcases h with rfl | h
        · exact here rfl .single
        · exact pairParams_made h
      | some elem =>
        cases rest with
        | nil =>
          obtain rfl := List.mem_singleton.mp h
          exact here rfl .single
        | cons count rest' =>
          simp only [Classifying.run_bind, Classifying.run_pure, List.mem_cons] at h
          rcases h with rfl | h
          · exact here rfl .counted
          · exact pairParams_made h
  termination_by params => params.length

end LuaGlue
