import LuaGlue.Function.Overload
import LuaGlue.Proofs.Text.Alphabet

/-!
# What names are written with

Script names are made of the characters of native names, of their other cases, of letters, digits and
underscores. So they stay in every `NameAlphabet` that the native names are in.
-/

set_option autoImplicit false

namespace LuaGlue

open Text

variable {P : Char → Prop} [NameAlphabet P]

/-! ## Cases and parts -/

theorem underscore_mem : P '_' := NameAlphabet.word '_' (by decide)

theorem toUpper_mem {c : Char} (hc : P c) : P c.toUpper := by
  by_cases hascii : c.toNat < 0x80
  · refine NameAlphabet.capital c hc c.toUpper ?_
    rw [capital, if_pos hascii]
    exact List.mem_singleton.mpr rfl
  · rwa [Char.toUpper_eq_of_not_isLower]
    rw [isLower_iff]
    omega

theorem asciiCapitals_over {cs : List Char} (h : ∀ c ∈ cs, P c) : ∀ d ∈ asciiCapitals cs, P d := by
  intro d hd
  obtain ⟨c, hc, rfl⟩ := List.mem_map.mp hd
  exact toUpper_mem (h c hc)

theorem wordGap_over (last : Option Char) : ∀ d ∈ wordGap last, P d := by
  intro d hd
  unfold wordGap at hd
  split at hd
  · exact absurd hd List.not_mem_nil
  · split at hd
    · exact absurd hd List.not_mem_nil
    · rw [List.mem_singleton.mp hd]
      exact underscore_mem

theorem snakePiece_over (prev last : Option Char) {c : Char} (hc : P c) (next : List Char) :
    ∀ d ∈ snakePiece prev last c next, P d := by
  unfold snakePiece
  split
  · exact wordGap_over last
  · split
    · refine List.forall_mem_append.mpr ⟨?_, NameAlphabet.small c hc⟩
      split
      · exact wordGap_over last
      · simp
    · intro d hd
      rwa [List.mem_singleton.mp hd]

theorem snakeFrom_over : ∀ (cs : List Char) (prev last : Option Char), (∀ c ∈ cs, P c) →
    ∀ d ∈ snakeFrom prev last cs, P d := by
  intro cs
  induction cs with
  | nil => intro _ _ _ d hd; exact absurd hd List.not_mem_nil
  | cons c rest ih =>
    intro prev last h
    exact List.forall_mem_append.mpr ⟨snakePiece_over prev last (h c List.mem_cons_self) rest,
      ih _ _ fun d hd => h d (List.mem_cons_of_mem c hd)⟩

theorem snakeChars_over {cs : List Char} (h : ∀ c ∈ cs, P c) : ∀ d ∈ snakeChars cs, P d :=
  fun d hd => snakeFrom_over cs none none h d (mem_of_mem_dropEndWhile hd)

omit [NameAlphabet P] in
theorem mem_of_mem_splitAtChar {mark c : Char} :
    ∀ {cs part : List Char}, part ∈ splitAtChar mark cs → c ∈ part → c ∈ cs := by
  intro cs
  induction cs with
  | nil =>
    intro part hpart hc
    rw [List.mem_singleton.mp hpart] at hc
    exact hc
  | cons d rest ih =>
    intro part hpart hc
    rw [splitAtChar] at hpart
    split at hpart
    · rcases List.mem_cons.mp hpart with rfl | hpart
      · exact absurd hc List.not_mem_nil
      · exact List.mem_cons_of_mem d (ih hpart hc)
    · split at hpart
      · rw [List.mem_singleton.mp hpart] at hc
        exact List.mem_cons.mpr (.inl (List.mem_singleton.mp hc))
      · rename_i first others hsplit
        rcases List.mem_cons.mp hpart with rfl | hpart
        · rcases List.mem_cons.mp hc with rfl | hc
          · exact List.mem_cons_self
          · exact List.mem_cons_of_mem d (ih (hsplit ▸ List.mem_cons_self) hc)
        · exact List.mem_cons_of_mem d (ih (hsplit ▸ List.mem_cons_of_mem first hpart) hc)

theorem pascalCase_over {cs : List Char} (h : ∀ c ∈ cs, P c) : ∀ d ∈ pascalCase cs, P d := by
  intro d hd
  obtain ⟨part, hpart, hd⟩ := List.mem_flatMap.mp hd
  have hsub : ∀ c ∈ part, P c := fun c hc =>
    h c (mem_of_mem_splitAtChar (List.mem_filter.mp hpart).1 hc)
  cases part with
  | nil => exact absurd hd List.not_mem_nil
  | cons first rest =>
    rcases List.mem_append.mp hd with hd | hd
    · exact NameAlphabet.capital first (hsub first List.mem_cons_self) d hd
    · exact hsub d (List.mem_cons_of_mem first hd)

/-! ## What is left of a name -/

omit [NameAlphabet P] in
theorem mem_of_mem_dropStem {stem cs : List Char} {c : Char} (h : c ∈ dropStem stem cs) : c ∈ cs := by
  unfold dropStem at h
  split at h
  · exact h
  · rename_i rest hrest
    rw [← (List.isPrefixOf?_eq_some_iff_append_eq.mp hrest)]
    exact List.mem_append_right stem h
  · exact h

omit [NameAlphabet P] in
theorem mem_of_mem_dropTail? {tail cs rest : List Char} {c : Char} (h : dropTail? tail cs = some rest)
    (hc : c ∈ rest) : c ∈ cs := by
  obtain ⟨backwards, hprefix, rfl⟩ := Option.map_eq_some_iff.mp h
  rw [← List.mem_reverse, ← List.isPrefixOf?_eq_some_iff_append_eq.mp hprefix]
  exact List.mem_append_right _ (List.mem_reverse.mp hc)

omit [NameAlphabet P] in
theorem mem_of_mem_bareTypeName {cs : List Char} {c : Char} (h : c ∈ bareTypeName cs) : c ∈ cs := by
  have h := mem_of_mem_dropEndWhile h
  cases htail : dropTail? ['_', 't'] cs with
  | none =>
    rw [htail] at h
    exact h
  | some rest =>
    rw [htail] at h
    exact mem_of_mem_dropTail? htail h

omit [NameAlphabet P] in
theorem mem_of_mem_stripType {n : Naming} {cs : List Char} {c : Char} (h : c ∈ n.stripType cs) :
    c ∈ cs := by
  unfold Naming.stripType at h
  dsimp only at h
  split at h
  · exact List.mem_of_mem_drop h
  · exact h

omit [NameAlphabet P] in
theorem mem_of_mem_stripMember {n : Naming} {enum : String} {item : List Char} {c : Char}
    (h : c ∈ n.stripMember enum item) : c ∈ item := by
  unfold Naming.stripMember at h
  split at h
  · exact h
  · split at h
    · exact h
    · exact List.mem_of_mem_drop (mem_of_mem_dropWhile h)

/-- A constant's name without the stem, cases compared as one. -/
def Naming.stripConst (n : Naming) (item : List Char) : List Char :=
  let stem := (n.constStem.getD n.stem).toList
  let stripped :=
    if !stem.isEmpty && stem.length < item.length &&
        (asciiCapitals stem).isPrefixOf (asciiCapitals item) then
      (item.drop stem.length).dropWhile (· == '_')
    else item
  if stripped.isEmpty then item else stripped

theorem constName_eq (n : Naming) (item : String) :
    (n.constName item).toList = asciiCapitals (n.stripConst item.toList) :=
  String.toList_ofList

omit [NameAlphabet P] in
theorem mem_of_mem_stripConst {n : Naming} {item : List Char} {c : Char}
    (h : c ∈ n.stripConst item) : c ∈ item := by
  unfold Naming.stripConst at h
  dsimp only at h
  split at h
  · split at h
    · exact h
    · exact List.mem_of_mem_drop (mem_of_mem_dropWhile h)
  · split at h <;> exact h

/-! ## Script names -/

variable {n : Naming}

theorem functionName_over {native : String} (h : Over P native) : Over P (n.functionName native) :=
  over_ofList.mpr (snakeChars_over fun c hc => h c (mem_of_mem_dropStem hc))

theorem registeredNames_over {script name : String} (h : Over P script)
    (hname : name ∈ n.registeredNames script) : Over P name := by
  rcases mem_registeredNames hname with rfl | ⟨-, rfl⟩
  · exact h
  · exact over_append.mpr ⟨h, over_word (by decide)⟩

theorem typeName_over {native : String} (h : Over P native) : Over P (n.typeName native) := by
  have hstripped : ∀ d ∈ pascalCase (bareTypeName (n.stripType native.toList)), P d :=
    pascalCase_over fun c hc => h c (mem_of_mem_stripType (mem_of_mem_bareTypeName hc))
  unfold Naming.typeName
  dsimp only
  split
  · exact over_ofList.mpr (pascalCase_over h)
  · split
    · exact over_ofList.mpr (pascalCase_over h)
    · exact over_ofList.mpr hstripped

theorem memberName_over (enum : String) {item : String} (h : Over P item) :
    Over P (n.memberName enum item) := by
  have hshort : ∀ c ∈ n.stripMember enum item.toList, P c :=
    fun c hc => h c (mem_of_mem_stripMember hc)
  unfold Naming.memberName
  dsimp only
  split
  · exact over_ofList.mpr (asciiCapitals_over hshort)
  · exact over_ofList.mpr hshort

theorem constName_over {item : String} (h : Over P item) : Over P (n.constName item) := by
  rw [Over, constName_eq]
  exact asciiCapitals_over fun c hc => h c (mem_of_mem_stripConst hc)

/-! ## Suffixes -/

/-- The structs and enums in a category whose names its suffix is made from are over `P`. -/
def Category.Over (P : Char → Prop) : Category → Prop
  | .structValue name _ | .structPointer name _ _ | .enum name => Text.Over P name
  | .pointer pointee _ => pointee.Over P
  | .fixedArray elem _ => elem.Over P
  | _ => True

theorem snakeCase_over {name : String} (h : Over P name) : Over P (snakeCase name) :=
  over_ofList.mpr (snakeChars_over h)

theorem categoryToken_over : ∀ {c : Category}, c.Over P → Over P (categoryToken n c)
  | .void, _ | .bool, _ | .float .single, _ | .float .double, _ | .cstring, _ | .handle _, _
  | .callback .., _ | .unknown, _ => by
    unfold categoryToken
    exact over_word (by decide)
  | .integer k, _ => by
    unfold categoryToken IntegerKind.token
    refine over_append.mpr ⟨?_, ?_⟩
    · split <;> exact over_word (by decide)
    · split
      · exact over_empty
      · exact over_toString k.bits
  | .structValue .., h | .enum _, h => snakeCase_over (typeName_over h)
  | .structPointer .., h => over_append.mpr ⟨over_word (by decide), snakeCase_over (typeName_over h)⟩
  | .pointer pointee _, h =>
    over_append.mpr ⟨over_word (by decide), categoryToken_over (c := pointee) h⟩
  | .fixedArray elem size, h =>
    over_append.mpr ⟨categoryToken_over (c := elem) h, over_toString size⟩

theorem suffixOf_over {categories : List Category} (h : ∀ c ∈ categories, c.Over P) :
    Over P (suffixOf n categories) := by
  unfold suffixOf
  split
  · exact over_word (by decide)
  · refine over_join fun t ht => ?_
    obtain ⟨c, hc, rfl⟩ := List.mem_map.mp ht
    exact over_append.mpr ⟨over_word (by decide), categoryToken_over (h c hc)⟩

end LuaGlue
