import LuaGlue.Proofs.CType.RoundTrip

/-!
# Parts of a type, spelling by spelling

Generation goes down a type by going down its spelling: it asks for the element, the pointee or the value
type, gets a spelling, and starts over with that. The same steps can be taken on the type itself, without
any spelling. Both ways agree at every depth (`parts_read_back`): each spelling on the way is read as exactly
the type that the steps lead to, and of the first type only what was stepped over is gone
(`NamedType.After`).
-/

set_option autoImplicit false

namespace LuaGlue

/-- A step into a type. -/
inductive PartStep where
  | element
  | pointee
  | unqualified
  deriving DecidableEq, Repr

namespace NamedType

/-- Where a step leads, if the type has such a part. -/
def part? (t : NamedType) : PartStep → Option NamedType
  | .element => t.element?
  | .pointee => t.pointee?
  | .unqualified => some t.unqualified

end NamedType

/-- The same step as generation takes it, from a spelling to the next one. -/
def spelledPart? (spelling : String) : PartStep → Option String
  | .element => elementType? spelling
  | .pointee => pointeeType? spelling
  | .unqualified => some (valueType spelling)

/-! ## What steps take away -/

namespace NamedType

variable {t u : NamedType} {step : PartStep} {steps : List PartStep}

/-- What is left of a type after steps: its base, the dimensions and pointers that no step took off, and
the reference unless some step dropped it. The base's `const` is only dropped where it is the value's own,
that is, where no pointer is left. -/
structure After (t : NamedType) (steps : List PartStep) (u : NamedType) : Prop where
  base : u.base = t.base
  dims : ∃ outer, outer.length = steps.count .element ∧ t.dims = outer ++ u.dims
  pointers : t.pointers = u.pointers + steps.count .pointee
  reference : u.reference = (t.reference && !steps.contains .unqualified)
  constBase : u.constBase = t.constBase ∨
    (u.constBase = false ∧ u.pointers = 0 ∧ .unqualified ∈ steps)

theorem element?_eq_some (h : t.element? = some u) :
    ∃ d, t.dims = d :: u.dims ∧ u = { t with dims := u.dims } := by
  unfold element? at h
  split at h
  · cases h
  · rename_i d inner hdims
    cases h
    exact ⟨d, hdims, rfl⟩

theorem pointee?_eq_some (h : t.pointee? = some u) :
    t.dims = [] ∧ t.pointers = u.pointers + 1 ∧ u = { t with pointers := u.pointers } := by
  unfold pointee? at h
  split at h
  · rename_i n hpointers hdims
    cases h
    exact ⟨hdims, hpointers, rfl⟩
  · cases h

theorem WellFormed.pointee (h : t.WellFormed) (hu : t.pointee? = some u) : u.WellFormed := by
  obtain ⟨-, hpointers, heq⟩ := pointee?_eq_some hu
  have hle : u.pointers ≤ maxPointers := by
    have := h.pointers
    omega
  rw [heq]
  exact ⟨h.base, hle, h.dims⟩

theorem WellFormed.part (h : t.WellFormed) (hu : t.part? step = some u) : u.WellFormed := by
  cases step with
  | element => exact h.element hu
  | pointee => exact h.pointee hu
  | unqualified =>
    cases hu
    exact h.unqualified

/-- One step in front of others. -/
theorem After.cons {v : NamedType} (hu : t.part? step = some u) (h : u.After steps v) :
    t.After (step :: steps) v := by
  obtain ⟨outer, hlength, hdims⟩ := h.dims
  cases step with
  | element =>
    obtain ⟨d, ht, heq⟩ := element?_eq_some hu
    rw [heq] at h
    refine ⟨h.base, ⟨d :: outer, by simp [hlength], by simp [ht, hdims]⟩, by simpa using h.pointers,
      by simpa using h.reference, by simpa using h.constBase⟩
  | pointee =>
    obtain ⟨-, hpointers, heq⟩ := pointee?_eq_some hu
    have hleft := h.pointers
    rw [heq] at h hdims
    refine ⟨h.base, ⟨outer, by simpa using hlength, hdims⟩, ?_, by simpa using h.reference,
      by simpa using h.constBase⟩
    rw [List.count_cons_self]
    omega
  | unqualified =>
    cases hu
    have hpointers : t.pointers = v.pointers + steps.count .pointee := h.pointers
    refine ⟨h.base, ⟨outer, by simpa using hlength, hdims⟩, by simpa using hpointers,
      by simpa [unqualified] using h.reference, ?_⟩
    have hconst := h.constBase
    simp only [unqualified] at hconst
    rcases hconst with hkept | ⟨hfalse, hzero, -⟩
    · by_cases hp : v.pointers = 0
      · cases hv : v.constBase with
        | false => exact .inr ⟨rfl, hp, List.mem_cons_self⟩
        | true =>
          rw [hv] at hkept
          exact .inl (Bool.and_eq_true_iff.mp hkept.symm).1.symm
      · have htarget : (t.pointers != 0) = true := by simp; omega
        rw [htarget, Bool.and_true] at hkept
        exact .inl hkept
    · exact .inr ⟨hfalse, hzero, List.mem_cons_self⟩

theorem After.refl (t : NamedType) : t.After [] t :=
  ⟨rfl, ⟨[], rfl, rfl⟩, rfl, by simp, .inl rfl⟩

/-- **What steps lead to is well formed, and only what they took off is gone.** -/
theorem WellFormed.parts (h : t.WellFormed) (hu : steps.foldlM part? t = some u) :
    u.WellFormed ∧ t.After steps u := by
  induction steps generalizing t with
  | nil =>
    cases hu
    exact ⟨h, .refl _⟩
  | cons step steps ih =>
    obtain ⟨v, hv, hrest⟩ := Option.bind_eq_some_iff.mp hu
    obtain ⟨hwell, hafter⟩ := ih (h.part hv) hrest
    exact ⟨hwell, hafter.cons hv⟩

end NamedType

/-! ## Steps on spellings -/

variable {spelling : String} {t : NamedType}

/-- A step on a spelling is read as that step on what the spelling is read as. -/
theorem parse_spelledPart? (h : CType.parse spelling = .named t) (step : PartStep) :
    (spelledPart? spelling step).map CType.parse = (t.part? step).map .named := by
  have hwell := CType.wellFormed_of_parse h
  have hread {u : NamedType} (hu : t.part? step = some u) :
      CType.parse u.render = .named u := NamedType.parse_render (hwell.part hu)
  cases step with
  | element =>
    simp only [spelledPart?, NamedType.part?, elementType?, h] at hread ⊢
    cases hu : t.element? with
    | none => rfl
    | some u => exact congrArg some (hread hu)
  | pointee =>
    simp only [spelledPart?, NamedType.part?, pointeeType?, h] at hread ⊢
    cases hu : t.pointee? with
    | none => rfl
    | some u => exact congrArg some (hread hu)
  | unqualified =>
    simp only [spelledPart?, NamedType.part?, valueType, h] at hread ⊢
    exact congrArg some (hread rfl)

theorem parse_foldlM_spelledPart? (h : CType.parse spelling = .named t) (steps : List PartStep) :
    (steps.foldlM spelledPart? spelling).map CType.parse =
      (steps.foldlM NamedType.part? t).map .named := by
  induction steps generalizing spelling t with
  | nil => exact congrArg some h
  | cons step steps ih =>
    have hstep := parse_spelledPart? h step
    rw [List.foldlM_cons, List.foldlM_cons]
    cases hs : spelledPart? spelling step with
    | none =>
      rw [hs] at hstep
      rw [Option.map_eq_none_iff.mp hstep.symm]
      rfl
    | some s =>
      rw [hs] at hstep
      obtain ⟨u, hu, hread⟩ := Option.map_eq_some_iff.mp hstep.symm
      rw [hu]
      exact ih hread.symm

/-- **Going down a type by its spellings loses nothing and adds nothing.** Whatever part steps lead to, its
canonical spelling is read back as that part; the spellings that the same steps lead to are read as those
parts; and a part has all of the first type except what the steps took off. -/
theorem parts_read_back (h : CType.parse spelling = .named t) (steps : List PartStep) :
    (∀ u, steps.foldlM NamedType.part? t = some u →
      CType.parse u.render = .named u ∧ t.After steps u) ∧
    (steps.foldlM spelledPart? spelling).map CType.parse =
      (steps.foldlM NamedType.part? t).map .named := by
  refine ⟨fun u hu => ?_, parse_foldlM_spelledPart? h steps⟩
  obtain ⟨hwell, hafter⟩ := (CType.wellFormed_of_parse h).parts hu
  exact ⟨NamedType.parse_render hwell, hafter⟩

/-- Two dimensions, one pointer and a qualifier taken off. -/
theorem parts_read_back_grid :
    CType.parse "struct Vec2 const * [4] [N]" =
        .named { base := "Vec2", constBase := true, pointers := 1, dims := [some 4, none] } ∧
      [.element, .element, .unqualified, .pointee, .unqualified].foldlM spelledPart?
        "struct Vec2 const * [4] [N]" = some "Vec2" ∧
      CType.parse "Vec2" = .named { base := "Vec2" } := by
  have hparse : CType.parse "struct Vec2 const * [4] [N]" =
      .named { base := "Vec2", constBase := true, pointers := 1, dims := [some 4, none] } := by
    decide +kernel
  refine ⟨hparse, by decide +kernel, ?_⟩
  exact ((parts_read_back hparse [.element, .element, .unqualified, .pointee, .unqualified]).1
    { base := "Vec2" } (by decide)).1

end LuaGlue
