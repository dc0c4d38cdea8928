import LuaGlue.Proofs.CType.RoundTrip
import LuaGlue.Proofs.Classifier.Memo

/-!
# Arrays, dimension by dimension

The classifier takes an array apart from the outside in: a step for every dimension, and what is left when
all are taken off is classified with the steps that remain (`NamedType.elementCategory`). So the category of an
array is that of its element in as many arrays as it has dimensions, in their order
(`fresh_classify_array`), and nothing else is a fixed array unless an alias hides one.

Asked alone, a chain of dimensions is not disturbed by the memo: nothing is written down before the end of
the chain is reached.
-/

set_option autoImplicit false

namespace LuaGlue

/-! ## Arrays in arrays -/

namespace Category

/-- The category of an array with `size` elements of a category, if there can be one. -/
def array (elem : Category) (size : Nat) : Category :=
  match elem with
  | .unknown | .void => .unknown
  | elem => .fixedArray elem size

/-- Arrays of arrays, the outermost dimension first. -/
def arrayOf (elem : Category) : List Nat → Category
  | [] => elem
  | size :: inner => (elem.arrayOf inner).array size

@[simp] theorem array_unknown (size : Nat) : Category.unknown.array size = .unknown := rfl

/-- A known array is one of its elements, and there are as many of them as it says. -/
theorem array_of_ne_unknown {elem : Category} {size : Nat} (h : elem.array size ≠ .unknown) :
    elem ≠ .unknown ∧ elem.array size = .fixedArray elem size := by
  cases elem with
  | unknown => exact absurd rfl h
  | void => exact absurd rfl h
  | _ => exact ⟨by simp, rfl⟩

theorem array_inj {elem elem' : Category} {size size' : Nat} (h : elem.array size ≠ .unknown) :
    elem.array size = elem'.array size' ↔ elem = elem' ∧ size = size' := by
  constructor
  · intro heq
    have h' : elem'.array size' ≠ .unknown := heq ▸ h
    rw [(array_of_ne_unknown h).2, (array_of_ne_unknown h').2] at heq
    exact Category.fixedArray.inj heq
  · rintro ⟨rfl, rfl⟩
    rfl

/-- Known arrays with equally many dimensions are the same if and only if their dimensions are and their
elements are. -/
theorem arrayOf_inj {elem elem' : Category} :
    ∀ {dims dims' : List Nat}, dims.length = dims'.length → elem.arrayOf dims ≠ .unknown →
      (elem.arrayOf dims = elem'.arrayOf dims' ↔ dims = dims' ∧ elem = elem')
  | [], [], _, _ => by simp [arrayOf]
  | size :: inner, size' :: inner', hlength, h => by
    have hinner : elem.arrayOf inner ≠ .unknown := (array_of_ne_unknown h).1
    rw [arrayOf, arrayOf, array_inj h, arrayOf_inj (Nat.succ.inj hlength) hinner, List.cons.injEq,
      and_right_comm, and_comm (a := inner = inner')]

end Category

/-! ## A step for every dimension -/

/-- The category of what an array is made of: all dimensions are taken off, each at the cost of a step. -/
def NamedType.elementCategory (index : TypeIndex) (t : NamedType) : Category :=
  Classifying.fresh (classifyFrom index (maxSteps - t.dims.length) { t with dims := [] }.render)

section

variable {index : TypeIndex} {t : NamedType}

/-- An empty memo is of no use for the first spelling. -/
theorem fresh_classifyFrom_succ {spelling : String} (h : CType.parse spelling = .named t) (k : Nat) :
    Classifying.fresh (classifyFrom index (k + 1) spelling) =
      Classifying.fresh (classifyNamed index (classifyFrom index k) t) := by
  change ((classifyFrom index (k + 1) spelling).run {}).1 = _
  rw [classifyFrom_run]
  change ((classifyAnew index (k + 1) spelling).run {}).1 = _
  unfold classifyAnew
  rw [h]
  rfl

theorem fresh_classifyFrom_zero (spelling : String) :
    Classifying.fresh (classifyFrom index 0 spelling) = .unknown := by
  change ((classifyFrom index 0 spelling).run {}).1 = _
  rw [classifyFrom_run]
  rfl

/-- How a type is spelled does not matter. -/
theorem fresh_classifyFrom_render {spelling : String} (h : CType.parse spelling = .named t) (k : Nat) :
    Classifying.fresh (classifyFrom index k spelling) =
      Classifying.fresh (classifyFrom index k t.render) := by
  cases k with
  | zero => rw [fresh_classifyFrom_zero, fresh_classifyFrom_zero]
  | succ k =>
    rw [fresh_classifyFrom_succ h,
      fresh_classifyFrom_succ (NamedType.parse_render (CType.wellFormed_of_parse h))]

theorem fresh_classifyNamed_array {next : String → Classifying Category} {n : Nat}
    {inner : List (Option Nat)} (href : t.reference = false) (hdims : t.dims = some (n + 1) :: inner) :
    Classifying.fresh (classifyNamed index next t) =
      (Classifying.fresh (next { t with dims := inner }.render)).array (n + 1) := by
  unfold classifyNamed
  simp only [href, hdims, Bool.false_eq_true, if_false]
  change ((_ >>= _ : Classifying Category).run {}).1 = _
  rw [Classifying.run_bind]
  unfold Classifying.fresh
  change _ = (((next _).run {}).1).array (n + 1)
  generalize (next _).run {} = answer
  obtain ⟨elem, m⟩ := answer
  cases elem <;> rfl

/-- With its outermost dimension taken off, a well-formed type is still one. -/
theorem NamedType.WellFormed.inner (h : t.WellFormed) {dim : Option Nat} {inner : List (Option Nat)}
    (hdims : t.dims = dim :: inner) : NamedType.WellFormed { t with dims := inner } :=
  h.element (by rw [NamedType.element?, hdims])

/-- **An array is its element in as many arrays as it has dimensions, in their order.** -/
theorem fresh_classifyFrom_array {k : Nat} :
    ∀ {dims : List Nat} {t : NamedType}, t.WellFormed → t.reference = false →
      t.dims = dims.map some → (∀ n ∈ dims, 0 < n) →
        Classifying.fresh (classifyFrom index (k + dims.length) t.render) =
          (Classifying.fresh (classifyFrom index k { t with dims := [] }.render)).arrayOf dims
  | [], t, _, _, hdims, _ => by
    obtain ⟨base, constBase, pointers, reference, _⟩ := t
    subst hdims
    rfl
  | size :: inner, t, ht, href, hdims, hsizes => by
    obtain ⟨n, rfl⟩ := Nat.exists_eq_add_one.mpr (hsizes size List.mem_cons_self)
    rw [List.length_cons, ← Nat.add_assoc, fresh_classifyFrom_succ (NamedType.parse_render ht),
      fresh_classifyNamed_array href hdims,
      fresh_classifyFrom_array (ht.inner hdims) href rfl
        fun m hm => hsizes m (List.mem_cons_of_mem _ hm)]
    rfl

/-- The `const` of a value counts only where an alias is looked up: the alias is replaced by its target as a
word by words, and what the target makes of the `const` is its own affair. -/
theorem elementCategory_unqualified (ht : t.WellFormed) (href : t.reference = false)
    (h : t.constBase = false ∨ t.pointers ≠ 0 ∨ index.alias? t.base = none) :
    t.unqualified.elementCategory index = t.elementCategory index := by
  by_cases hlost : t.constBase = true ∧ t.pointers = 0
  · obtain ⟨hconst, hpointers⟩ := hlost
    have halias : index.alias? t.base = none := by simpa [hconst, hpointers] using h
    have plain {u : NamedType} (hu : u.WellFormed) (hbase : u.base = t.base)
        (hp : u.pointers = 0) (hr : u.reference = false) (k : Nat) :
        Classifying.fresh (classifyFrom index (k + 1) { u with dims := [] }.render) =
          classifyBase index t.base := by
      have hread := NamedType.parse_render (t := { u with dims := [] })
        ⟨hu.base, hu.pointers, by simp⟩
      rw [fresh_classifyFrom_succ hread]
      unfold classifyNamed
      simp only [hr, hbase, halias, hp, Bool.false_eq_true, if_false]
      rfl
    unfold NamedType.elementCategory
    change Classifying.fresh (classifyFrom index (maxSteps - t.dims.length) _) = _
    cases maxSteps - t.dims.length with
    | zero => rw [fresh_classifyFrom_zero, fresh_classifyFrom_zero]
    | succ k => rw [plain ht.unqualified rfl hpointers rfl, plain ht rfl hpointers href]
  · have hsame : t.unqualified = t := by
      obtain ⟨base, constBase, pointers, reference, dims⟩ := t
      cases constBase <;> simp_all [NamedType.unqualified]
    rw [hsame]

/-- A known array says the number of its elements in every dimension, there is one at least, and the
dimensions leave a step for the element. The induction is on the steps. -/
theorem dims_of_known :
    ∀ {k : Nat} {t : NamedType}, t.WellFormed → t.reference = false →
      Classifying.fresh (classifyFrom index k t.render) ≠ .unknown →
        ∃ dims : List Nat, t.dims = dims.map some ∧ (∀ n ∈ dims, 0 < n) ∧
          dims.length < k
  | 0, _, _, _, hknown => absurd (fresh_classifyFrom_zero _) hknown
  | k + 1, t, ht, href, hknown => by
    rw [fresh_classifyFrom_succ (NamedType.parse_render ht)] at hknown
    cases hdims : t.dims with
    | nil => exact ⟨[], rfl, by simp, by simp⟩
    | cons dim inner =>
      have unsized (h : ∀ n, dim ≠ some (n + 1)) :
          Classifying.fresh (classifyNamed index (classifyFrom index k) t) = .unknown := by
        unfold classifyNamed
        simp only [href, hdims, Bool.false_eq_true, if_false]
        rcases dim with _ | _ | n
        · rfl
        · rfl
        · exact absurd rfl (h n)
      rcases dim with _ | _ | n
      · exact absurd (unsized (by simp)) hknown
      · exact absurd (unsized (by simp)) hknown
      · rw [fresh_classifyNamed_array href hdims] at hknown
        obtain ⟨dims, hmap, hsizes, hlength⟩ :=
          dims_of_known (ht.inner hdims) href (Category.array_of_ne_unknown hknown).1
        refine ⟨(n + 1) :: dims, ?_, List.forall_mem_cons.mpr ⟨Nat.succ_pos n, hsizes⟩,
          Nat.succ_lt_succ hlength⟩
        rw [show inner = dims.map some from hmap]
        rfl

/-- Only a value may be behind a reference, and no array. -/
theorem reference_of_known_array {k : Nat} (ht : t.WellFormed) (hdims : t.dims ≠ [])
    (hknown : Classifying.fresh (classifyFrom index k t.render) ≠ .unknown) : t.reference = false := by
  cases k with
  | zero => exact absurd (fresh_classifyFrom_zero _) hknown
  | succ k =>
    rw [fresh_classifyFrom_succ (NamedType.parse_render ht)] at hknown
    cases href : t.reference with
    | false => rfl
    | true =>
      refine absurd ?_ hknown
      unfold classifyNamed
      have hempty : t.dims.isEmpty = false := by simpa using hdims
      simp only [href, hempty, Bool.and_false, if_true]
      rfl

/-! ## The whole spelling -/

variable {spelling : String}

/-- **The category of an array, dimension by dimension**, if the limit leaves a step for each. -/
theorem fresh_classify_array (hread : CType.parse spelling = .named t) (href : t.reference = false)
    {dims : List Nat} (hdims : t.dims = dims.map some) (hpositive : ∀ n ∈ dims, 0 < n)
    (hlength : dims.length ≤ maxSteps) :
    Classifying.fresh (classify index spelling) = (t.elementCategory index).arrayOf dims := by
  have harray : Classifying.fresh (classifyFrom index (maxSteps - dims.length + dims.length) t.render) = _ :=
    fresh_classifyFrom_array (CType.wellFormed_of_parse hread) href hdims hpositive
  rw [Nat.sub_add_cancel hlength, ← fresh_classifyFrom_render hread] at harray
  rw [classify, harray, NamedType.elementCategory, hdims, List.length_map]

/-- A spelling with dimensions whose category is known is an array of that kind. -/
theorem known_array (hread : CType.parse spelling = .named t) (hne : t.dims ≠ [])
    (hknown : Classifying.fresh (classify index spelling) ≠ .unknown) :
    t.reference = false ∧ ∃ dims : List Nat, t.dims = dims.map some ∧ (∀ n ∈ dims, 0 < n) ∧
      dims.length ≤ maxSteps := by
  have ht := CType.wellFormed_of_parse hread
  rw [classify, fresh_classifyFrom_render hread] at hknown
  have href := reference_of_known_array ht hne hknown
  obtain ⟨dims, hdims, hpositive, hlength⟩ := dims_of_known ht href hknown
  exact ⟨href, dims, hdims, hpositive, Nat.le_of_lt hlength⟩

end

end LuaGlue
