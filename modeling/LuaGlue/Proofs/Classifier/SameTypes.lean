import LuaGlue.Classifier

/-!
# Tables that know the same types

The classifier asks a table of names only whether it has a name. So two tables with the same structs and
enums, in whatever order and however often, give every spelling the same category and leave the same memo
(`TypeIndex.SameTypes.classify_eq`).
-/

set_option autoImplicit false

namespace LuaGlue

/-- The same names, in whatever order and however often. -/
structure TypeIndex.SameTypes (a b : TypeIndex) : Prop where
  structs : ∀ name, name ∈ a.structs ↔ name ∈ b.structs
  enums : ∀ name, name ∈ a.enums ↔ name ∈ b.enums
  tuples : a.tuples = b.tuples
  byteRanges : a.byteRanges = b.byteRanges
  aliases : a.aliases = b.aliases
  integerStems : a.integerStems = b.integerStems

theorem contains_congr {l l' : List String} (h : ∀ name, name ∈ l ↔ name ∈ l') (name : String) :
    l.contains name = l'.contains name := by
  rw [Bool.eq_iff_iff, List.contains_iff_mem, List.contains_iff_mem, h]

namespace TypeIndex.SameTypes

variable {a b : TypeIndex} (h : a.SameTypes b)

include h

theorem classifyBase_eq : classifyBase a = classifyBase b := by
  funext base
  unfold classifyBase TypeIndex.shape? TypeIndex.isIntegerName
  rw [h.tuples, h.byteRanges, h.integerStems, contains_congr h.structs, contains_congr h.enums]

theorem classifyPointer_eq : classifyPointer a = classifyPointer b := by
  funext base isConst
  unfold classifyPointer
  rw [h.classifyBase_eq]

theorem classifyNamed_eq : classifyNamed a = classifyNamed b := by
  funext next t
  unfold classifyNamed TypeIndex.alias?
  rw [h.aliases, h.classifyBase_eq, h.classifyPointer_eq]

theorem classifyFrom_eq (steps : Nat) : classifyFrom a steps = classifyFrom b steps := by
  induction steps with
  | zero =>
    funext spelling
    unfold classifyFrom
    rfl
  | succ steps ih =>
    funext spelling
    unfold classifyFrom
    rw [h.classifyNamed_eq]
    simp only [ih]

/-- **Tables with the same types classify alike**, what is remembered included. -/
theorem classify_eq : classify a = classify b := by
  funext spelling
  rw [classify, h.classifyFrom_eq]
  rfl

end TypeIndex.SameTypes

end LuaGlue
