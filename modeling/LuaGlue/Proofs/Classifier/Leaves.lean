import LuaGlue.Proofs.Classifier.Names

/-!
# Categories up to `const`

`Category.constless` is a category without what it says of `const`. Up to that a category is known by its leaf,
which is what an array has in it when all dimensions are taken off, and its sizes (`Category.constless_ext`).

Not every category is one the classifier comes to: integers have four widths, a struct has the shape that the
index says, and what a pointer points to is a scalar (`Category.Made`). So a leaf that is no callback is one of
a few plain ones, or a name and whether there is a pointer to it are all there is to it
(`Category.Made.leaf_cases`).
-/

set_option autoImplicit false

namespace LuaGlue

namespace Category

/-! ## Without `const` -/

mutual

/-- The category without what it says of `const`. -/
def constless : Category → Category
  | .structPointer name shape _ => .structPointer name shape false
  | .handle _ => .handle false
  | .pointer pointee _ => .pointer pointee.constless false
  | .fixedArray elem size => .fixedArray elem.constless size
  | .callback result params variadic => .callback result.constless (constlessAll params) variadic
  | c => c

/-- The categories without what they say of `const`. -/
def constlessAll : List Category → List Category
  | [] => []
  | c :: rest => c.constless :: constlessAll rest

end

/-! ## Leaves -/

/-- What is left of an array without its dimensions. -/
def leaf : Category → Category
  | .fixedArray elem _ => elem.leaf
  | c => c

/-- The sizes of an array, the innermost one first. -/
def sizes : Category → List Nat
  | .fixedArray elem size => elem.sizes ++ [size]
  | _ => []

/-- Whether the category is that of an array, which is marshaled element by element. -/
def isArray : Category → Bool
  | .fixedArray .. => true
  | _ => false

/-- What holds of everything that is no array, and of arrays if it does of what is in them. -/
@[elab_as_elim]
theorem arrayInduction {P : Category → Prop} (single : ∀ c : Category, c.isArray = false → P c)
    (array : ∀ elem size, P elem → P (.fixedArray elem size)) : ∀ c, P c
  | .fixedArray elem size => array elem size (arrayInduction single array elem)
  | .void | .bool | .integer _ | .float _ | .cstring | .structValue .. | .structPointer .. | .enum _
  | .handle _ | .pointer .. | .callback .. | .unknown => single _ rfl

theorem leaf_of_single {c : Category} (h : c.isArray = false) : c.leaf = c := by
  cases c <;> first | rfl | cases h

theorem sizes_of_single {c : Category} (h : c.isArray = false) : c.sizes = [] := by
  cases c <;> first | rfl | cases h

theorem isArray_constless (c : Category) : c.constless.isArray = c.isArray := by cases c <;> rfl

theorem isArray_leaf (c : Category) : c.leaf.isArray = false := by
  induction c using arrayInduction with
  | single c h => rwa [leaf_of_single h]
  | array elem size ih => exact ih

theorem names_leaf (c : Category) : c.leaf.names = c.names := by
  induction c using arrayInduction with
  | single c h => rw [leaf_of_single h]
  | array elem size ih => exact ih

/-- An array is its leaf with its dimensions put on again. -/
theorem foldl_sizes_leaf (c : Category) : c.sizes.foldl fixedArray c.leaf = c := by
  induction c using arrayInduction with
  | single c h => rw [sizes_of_single h, leaf_of_single h, List.foldl_nil]
  | array elem size ih =>
    rw [sizes, leaf, List.foldl_append, ih]
    rfl

theorem leaf_constless (c : Category) : c.constless.leaf = c.leaf.constless := by
  induction c using arrayInduction with
  | single c h => rw [leaf_of_single h, leaf_of_single ((isArray_constless c).trans h)]
  | array elem size ih => exact ih

theorem sizes_constless (c : Category) : c.constless.sizes = c.sizes := by
  induction c using arrayInduction with
  | single c h => rw [sizes_of_single h, sizes_of_single ((isArray_constless c).trans h)]
  | array elem size ih => rw [constless, sizes, sizes, ih]

/-- Up to `const`, a category is known by its leaf and its sizes. -/
theorem constless_ext {c c' : Category} (hleaf : c.leaf.constless = c'.leaf.constless)
    (hsizes : c.sizes = c'.sizes) : c.constless = c'.constless := by
  rw [← foldl_sizes_leaf c.constless, ← foldl_sizes_leaf c'.constless, leaf_constless, leaf_constless,
    sizes_constless, sizes_constless, hleaf, hsizes]

/-! ## What the classifier comes to -/

/-- A category as the classifier makes them, but for the signatures of callbacks. -/
def Made (index : TypeIndex) : Category → Prop
  | .integer kind => kind.bits ∈ [8, 16, 32, 64]
  | .structValue name shape | .structPointer name shape _ => index.shape? name = some shape
  | .enum name => index.shape? name = none
  | .pointer pointee _ => pointee.isScalar = true ∧ pointee.Made index
  | .fixedArray elem _ => elem.Made index
  | _ => True

variable {index : TypeIndex}

theorem made_classifyBase (base : String) : (classifyBase index base).Made index := by
  rcases classifyBase_cases index base with h | ⟨shape, hshape, h⟩ | ⟨hshape, -, h⟩ | h | h
  · obtain hc | hc | ⟨kind, hc⟩ | ⟨kind, hc, hbits⟩ := builtin?_cases h
    · rw [hc]
      trivial
    · rw [hc]
      trivial
    · rw [hc]
      trivial
    · rw [hc]
      exact hbits
  · rw [h]
    exact hshape
  · rw [h]
    exact hshape
  · rw [h]
    change 32 ∈ [8, 16, 32, 64]
    decide
  · rw [h]
    trivial

theorem made_classifyPointer (base : String) (isConst : Bool) :
    (classifyPointer index base isConst).Made index := by
  have hbase : (classifyBase index base).Made index := made_classifyBase base
  unfold classifyPointer
  split
  · trivial
  · -- what is behind the pointer is the category of the base name
    split <;> rename_i heq <;> simp_all [Made, isScalar]

theorem closed_made (index : TypeIndex) : Category.Closed index (Made index) where
  unknown := trivial
  base := made_classifyBase
  pointer := made_classifyPointer
  array := fun _ helem => helem
  callback := fun _ _ _ => trivial

theorem Made.leaf {c : Category} (h : c.Made index) : c.leaf.Made index := by
  induction c using arrayInduction with
  | single c hsingle => rwa [leaf_of_single hsingle]
  | array elem size ih => exact ih h

/-! ## Leaves with a name and plain ones -/

/-- The value of a struct or enum, or a pointer to it: the index says what the name is of. -/
def named (index : TypeIndex) (name : String) (pointer : Bool) : Category :=
  match index.shape? name, pointer with
  | some shape, false => .structValue name shape
  | some shape, true => .structPointer name shape false
  | none, false => .enum name
  | none, true => .pointer (.enum name) false

/-- The scalars without a name. -/
def numbers : List Category :=
  [.bool, .float .single, .float .double] ++
    [8, 16, 32, 64].flatMap fun bits => [.integer ⟨bits, true⟩, .integer ⟨bits, false⟩]

/-- The leaves without a name, but for callbacks. -/
def plain : List Category :=
  [.void, .cstring, .handle false, .unknown] ++ numbers ++ numbers.map (.pointer · false)

/-- A scalar is a number or an enum. -/
theorem Made.scalar_cases {c : Category} (h : c.Made index) (hscalar : c.isScalar = true) :
    (c ∈ numbers ∧ c.constless = c) ∨ ∃ name, c = .enum name ∧ index.shape? name = none := by
  cases c with
  | bool => exact .inl ⟨by simp [numbers], rfl⟩
  | float kind => exact .inl ⟨by cases kind <;> simp [numbers], rfl⟩
  | integer kind =>
    obtain ⟨bits, signed⟩ := kind
    have hbits : bits ∈ [8, 16, 32, 64] := h
    refine .inl ⟨List.mem_append_right _ (List.mem_flatMap.mpr ⟨bits, hbits, ?_⟩), rfl⟩
    cases signed <;> simp
  | enum name => exact .inr ⟨name, rfl, h⟩
  | _ => cases hscalar

/-- **Up to `const`, a leaf is a callback, a plain one or about one name**, and then the name and being a
pointer are all there is to it. -/
theorem Made.leaf_cases {c : Category} (h : c.Made index) (hsingle : c.isArray = false) :
    c.isCallback = true ∨ c.constless ∈ plain ∨
      ∃ name ∈ c.names, ∃ pointer, c.constless = named index name pointer := by
  have number {c : Category} (hc : c ∈ numbers) : c ∈ plain :=
    List.mem_append_left _ (List.mem_append_right _ hc)
  have scalar {c : Category} (h : c.Made index) (hscalar : c.isScalar = true) :
      c.constless ∈ plain ∨ ∃ name ∈ c.names, ∃ pointer, c.constless = named index name pointer := by
    obtain ⟨hc, heq⟩ | ⟨name, rfl, hshape⟩ := h.scalar_cases hscalar
    · rw [heq]
      exact .inl (number hc)
    · exact .inr ⟨name, List.mem_singleton_self name, false, by simp [named, hshape, constless]⟩
  cases c with
  | callback => exact .inl rfl
  | fixedArray => cases hsingle
  | void | cstring | handle _ | unknown => exact .inr (.inl (by simp [plain, constless]))
  | bool | float _ | integer _ | enum _ => exact .inr (scalar h rfl)
  | structValue name shape =>
    have hshape : index.shape? name = some shape := h
    exact .inr (.inr ⟨name, List.mem_singleton_self name, false, by simp [named, hshape, constless]⟩)
  | structPointer name shape isConst =>
    have hshape : index.shape? name = some shape := h
    exact .inr (.inr ⟨name, List.mem_singleton_self name, true, by simp [named, hshape, constless]⟩)
  | pointer pointee isConst =>
    obtain ⟨hc, heq⟩ | ⟨name, rfl, hshape⟩ := Made.scalar_cases h.2 h.1
    · refine .inr (.inl (List.mem_append_right _ (List.mem_map.mpr ⟨pointee, hc, ?_⟩)))
      rw [constless, heq]
    · exact .inr (.inr ⟨name, List.mem_singleton_self name, true, by simp [named, hshape, constless]⟩)

end Category

end LuaGlue
