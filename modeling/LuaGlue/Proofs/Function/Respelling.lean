import LuaGlue.Proofs.Classifier.Arrays
import LuaGlue.Proofs.Function.Pairing
import LuaGlue.Function.Wrapper

/-!
# Declared arrays, spelled again

A parameter that is declared as an array is kept as the spelling of its element and a number. The wrapper
puts the two together again for its local, by writing the number behind the element: behind the dimensions
the element has itself. So the outermost dimension comes back as the innermost one (`parse_arraySpelling`).
A square array hides this, and so does an array with one dimension; for every other one the local has
another type than the parameter (`array_respelled_iff`).

The element comes back without a `const` of its own, which the local could not be written through. This is
another element only if an alias makes something else of the `const`, such as a pointer to a constant.
-/

set_option autoImplicit false

namespace LuaGlue

/-! ## Back together -/

/-- Turning a list by one place leaves it as it is if and only if its elements are all the same. -/
theorem append_singleton_eq_cons_iff {α : Type} {a : α} :
    ∀ {as : List α}, as ++ [a] = a :: as ↔ ∀ b ∈ as, b = a
  | [] => by simp
  | b :: as => by
    rw [List.cons_append, List.cons.injEq, List.forall_mem_cons]
    refine and_congr_right fun hb => ?_
    rw [hb]
    exact append_singleton_eq_cons_iff

/-- **The number is written behind all dimensions that the element has.** -/
theorem parse_arraySpelling {elem : String} {t : NamedType} {size : Nat}
    (h : CType.parse elem = .named t) (hsize : size < Text.sizeBound) :
    CType.parse (arraySpelling elem size) =
      .named { t.unqualified with dims := t.dims ++ [some size] } := by
  have ht := CType.wellFormed_of_parse h
  have hwell : NamedType.WellFormed { t.unqualified with dims := t.dims ++ [some size] } := by
    refine ⟨ht.base, ht.pointers, fun n hn => ?_⟩
    rcases List.mem_append.mp hn with hn | hn
    · exact ht.dims n hn
    · cases List.mem_singleton.mp hn
      exact hsize
  have hspelling : arraySpelling elem size =
      NamedType.render { t.unqualified with dims := t.dims ++ [some size] } := by
    rw [arraySpelling, valueType, h]
    apply String.toList_inj.mp
    simp only [renderDim, String.toList_append, NamedType.render_toList, List.flatMap_append,
      List.flatMap_cons, List.flatMap_nil, List.append_nil, List.append_assoc]
    rfl
  rw [hspelling, NamedType.parse_render hwell]

/-! ## Same category -/

/-- The category of a declared array and that of the array its local is spelled as, both dimension by
dimension. -/
theorem fresh_declared_and_respelled {index : TypeIndex} {spelling elem : String} {c : Category}
    {size : Nat} (helem : elementType? spelling = some elem)
    (hdecl : Classifying.fresh (classify index spelling) = .fixedArray c size) :
    ∃ t inner, CType.parse spelling = .named t ∧ t.dims = (size :: inner).map some ∧
      Classifying.fresh (classify index spelling) =
        (t.elementCategory index).arrayOf (size :: inner) ∧
      Classifying.fresh (classify index (arraySpelling elem size)) =
        (t.unqualified.elementCategory index).arrayOf (inner ++ [size]) := by
  obtain ⟨t, dim, rest, hread, hdims, helem⟩ := arrayDims_of_elementType? helem
  obtain ⟨href, dims, hmap, hpositive, hlength⟩ :=
    known_array hread (by simp [hdims]) (by rw [hdecl]; simp)
  have hdeclared :
      Classifying.fresh (classify index spelling) = (t.elementCategory index).arrayOf dims :=
    fresh_classify_array hread href hmap hpositive hlength
  -- the outermost dimension is the number the unit was made with
  obtain ⟨n, inner, rfl⟩ : ∃ n inner, dims = n :: inner := by
    cases dims with
    | nil => simp [hmap] at hdims
    | cons n inner => exact ⟨n, inner, rfl⟩
  obtain rfl : n = size := by
    rw [hdecl, Category.arrayOf] at hdeclared
    have hknown := Category.array_of_ne_unknown (by rw [← hdeclared]; simp)
    exact (Category.fixedArray.inj (hdeclared.trans hknown.2)).2.symm
  obtain rfl : rest = inner.map some := by
    rw [hmap] at hdims
    exact (List.cons.inj hdims).2.symm
  have hsize : n < Text.sizeBound := (CType.wellFormed_of_parse hread).dims n (by simp [hmap])
  refine ⟨t, inner, hread, hmap, hdeclared, ?_⟩
  have hturned : ∀ m ∈ inner ++ [n], 0 < m := fun m hm =>
    hpositive m (by simpa [or_comm] using hm)
  rw [fresh_classify_array (parse_arraySpelling helem hsize) rfl (by simp) hturned
    (by simpa using hlength)]
  have hcount : t.unqualified.dims.length = inner.length + 1 := by
    rw [NamedType.unqualified, hmap, List.length_map, List.length_cons]
  simp only [NamedType.elementCategory, hcount, List.length_append, List.length_map,
    List.length_singleton]
  rfl

/-- **The array that a declared array is spelled as for its local has the same category if and only if
all its dimensions are the same and its element is the same without the `const`.** Whatever was classified
before the parameters were paired: the spelling has the dimensions of the element, which are the
inner ones of the declaration, and then the outermost. -/
theorem array_respelled_iff {ctx : Context} {function : String} {params : List Param} {m : Memo}
    {p : Param} {elem : String} {size : Nat} {writable : Bool} {c : Category}
    (hunit : .fixedArray p elem size writable ∈ ((pairParams ctx function params).run m).1)
    (hconfigured : configuredArray? ctx function p = none)
    (hdecl : Classifying.fresh (ctx.classify p.type) = .fixedArray c size) :
    ∃ t inner, CType.parse p.type = .named t ∧ t.dims = (size :: inner).map some ∧
      Classifying.fresh (ctx.classify p.type) =
        (t.elementCategory ctx.index).arrayOf (size :: inner) ∧
      Classifying.fresh (ctx.classify (arraySpelling elem size)) =
        (t.unqualified.elementCategory ctx.index).arrayOf (inner ++ [size]) ∧
      (Classifying.fresh (ctx.classify (arraySpelling elem size)) =
          Classifying.fresh (ctx.classify p.type) ↔
        (∀ n ∈ inner, n = size) ∧
          t.unqualified.elementCategory ctx.index = t.elementCategory ctx.index) := by
  obtain ⟨_, hmade⟩ := pairParams_made hunit
  unfold Context.classify at hdecl ⊢
  obtain ⟨t, inner, hread, hdims, hdeclared, hrespelled⟩ :=
    fresh_declared_and_respelled (hmade.fixedArray_inv hconfigured) hdecl
  refine ⟨t, inner, hread, hdims, hdeclared, hrespelled, ?_⟩
  have hknown : (t.elementCategory ctx.index).arrayOf (size :: inner) ≠ .unknown := by
    rw [← hdeclared, hdecl]
    simp
  rw [hdeclared, hrespelled, eq_comm, Category.arrayOf_inj (by simp) hknown, eq_comm,
    append_singleton_eq_cons_iff, eq_comm (a := t.elementCategory ctx.index)]

/-- A context without any declarations. -/
def bareContext : Context := Classifying.fresh (Context.build {} {})

def squareMatrix : Param := ⟨"square", "const float[3][3]", false, false, false⟩

def wideMatrix : Param := ⟨"wide", "float[2][3]", false, false, false⟩

/-- How many elements an array has. -/
def Category.arraySize? : Category → Option Nat
  | .fixedArray _ size => some size
  | _ => none

theorem Category.arraySize?_eq_some {c : Category} {size : Nat} (h : c.arraySize? = some size) :
    ∃ elem, c = .fixedArray elem size := by
  cases c with
  | fixedArray elem n => exact ⟨elem, by rw [Option.some.inj h]⟩
  | _ => cases h

/-- Whether a unit is the array that a parameter is declared as. -/
def ParamUnit.isArrayOf (p : Param) (elem : String) (size : Nat) : ParamUnit → Bool
  | .fixedArray q e n _ => q == p && e == elem && n == size
  | _ => false

theorem ParamUnit.exists_of_any_isArrayOf {units : List ParamUnit} {p : Param} {elem : String}
    {size : Nat} (h : units.any (ParamUnit.isArrayOf p elem size) = true) :
    ∃ writable, .fixedArray p elem size writable ∈ units := by
  obtain ⟨u, hu, htest⟩ := List.any_eq_true.mp h
  cases u with
  | fixedArray q e n writable =>
    simp only [isArrayOf, Bool.and_eq_true, beq_iff_eq] at htest
    obtain ⟨⟨rfl, rfl⟩, rfl⟩ := htest
    exact ⟨writable, hu⟩
  | _ => cases htest

/-- A square matrix is spelled again as it was, but for its `const`. -/
theorem array_respelled_iff_square :
    (∃ writable, .fixedArray squareMatrix "const float[3]" 3 writable ∈
      ((pairParams bareContext "scale" [squareMatrix, wideMatrix]).run {}).1) ∧
    configuredArray? bareContext "scale" squareMatrix = none ∧
    (∃ c, Classifying.fresh (bareContext.classify squareMatrix.type) = .fixedArray c 3) ∧
    Classifying.fresh (bareContext.classify (arraySpelling "const float[3]" 3)) =
      Classifying.fresh (bareContext.classify squareMatrix.type) := by
  obtain ⟨writable, hunit⟩ : ∃ writable, .fixedArray squareMatrix "const float[3]" 3 writable ∈
      ((pairParams bareContext "scale" [squareMatrix, wideMatrix]).run {}).1 :=
    ParamUnit.exists_of_any_isArrayOf (by decide +kernel)
  have hconfigured : configuredArray? bareContext "scale" squareMatrix = none := by decide +kernel
  obtain ⟨c, hdecl⟩ : ∃ c, Classifying.fresh (bareContext.classify squareMatrix.type) =
      .fixedArray c 3 := Category.arraySize?_eq_some (by decide +kernel)
  refine ⟨⟨writable, hunit⟩, hconfigured, ⟨c, hdecl⟩, ?_⟩
  obtain ⟨t, inner, hread, hdims, -, -, hsame⟩ := array_respelled_iff hunit hconfigured hdecl
  have hparse : CType.parse squareMatrix.type =
      .named { base := "float", constBase := true, dims := [some 3, some 3] } := by decide +kernel
  have ht := CType.wellFormed_of_parse hread
  cases hread.symm.trans hparse
  refine hsame.mpr ⟨fun n hn => ?_, elementCategory_unqualified ht rfl (.inr (.inr rfl))⟩
  have hinner : inner.map some = [some 3] := (List.cons.inj hdims).2.symm
  simpa [hinner] using List.mem_map_of_mem (f := some) hn

/-- A matrix of two rows and three columns is spelled again with three rows and two columns. -/
theorem array_respelled_transposed :
    ¬ ∀ (ctx : Context) (function : String) (params : List Param) (p : Param) (elem : String)
      (size : Nat) (writable : Bool),
      .fixedArray p elem size writable ∈ ((pairParams ctx function params).run {}).1 →
        configuredArray? ctx function p = none →
          Classifying.fresh (ctx.classify (arraySpelling elem size)) =
            Classifying.fresh (ctx.classify p.type) := by
  intro hall
  obtain ⟨writable, hunit⟩ : ∃ writable, .fixedArray wideMatrix "float[3]" 2 writable ∈
      ((pairParams bareContext "scale" [squareMatrix, wideMatrix]).run {}).1 :=
    ParamUnit.exists_of_any_isArrayOf (by decide +kernel)
  have hsame := hall _ _ _ _ _ _ _ hunit (by decide +kernel)
  have hrows : (Classifying.fresh (bareContext.classify wideMatrix.type)).arraySize? = some 2 := by
    decide +kernel
  have hturned : (Classifying.fresh (bareContext.classify (arraySpelling "float[3]" 2))).arraySize? =
      some 3 := by decide +kernel
  rw [hsame, hrows] at hturned
  exact absurd hturned (by decide)

end LuaGlue
