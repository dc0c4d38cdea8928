import LuaGlue.Proofs.CType.Marked
import LuaGlue.Proofs.Classifier.Arrays
import LuaGlue.Proofs.Classifier.Inert

/-!
# `const` on a value

A `const` on a value says nothing about what the value points to, so it should make no difference to the
category. For names that are no aliases it makes none (`fresh_const_of_not_alias`). An alias, however, is
replaced by its target as a word by words, and the `const` that was on the value is then in front of the target,
where it may mean something else: it may land on what a pointer points to, make a reference one to a constant,
or become part of a function pointer's result.

`ConstLands` follows the `const` through aliases, elements and results to such a place. The category changes
exactly if there is one (`categoryWithin_const_ne_iff`, `fresh_const_eq_iff`).
-/

set_option autoImplicit false

namespace LuaGlue

/-! ## Named types without the memo -/

/-- The category of a named type, given answers for the spelling it leads to. -/
def namedCategory (index : TypeIndex) (answer : String → Category) (t : NamedType) : Category :=
  if t.reference then
    if t.constBase && t.pointers == 0 && t.dims.isEmpty then answer t.unqualified.render else .unknown
  else
    match t.dims with
    | some (n + 1) :: inner => (answer { t with dims := inner }.render).array (n + 1)
    | _ :: _ => .unknown
    | [] =>
      match index.alias? t.base with
      | some target => answer (t.spellAlias target)
      | none =>
        match t.pointers with
        | 0 => classifyBase index t.base
        | 1 => classifyPointer index t.base t.constBase
        | _ => .unknown

section

variable {index : TypeIndex} {answer : String → Category} {t : NamedType}

theorem namedCategory_reference (href : t.reference = true) : namedCategory index answer t =
    if t.constBase && t.pointers == 0 && t.dims.isEmpty then answer t.unqualified.render else .unknown := by
  rw [namedCategory, if_pos href]

theorem namedCategory_array (href : t.reference = false) {n : Nat} {inner : List (Option Nat)}
    (hdims : t.dims = some (n + 1) :: inner) :
    namedCategory index answer t = (answer { t with dims := inner }.render).array (n + 1) := by
  rw [namedCategory, if_neg (by simp [href]), hdims]

theorem namedCategory_unsized (href : t.reference = false) {dim : Option Nat} {inner : List (Option Nat)}
    (hdims : t.dims = dim :: inner) (hsize : ∀ n, dim ≠ some (n + 1)) :
    namedCategory index answer t = .unknown := by
  rw [namedCategory, if_neg (by simp [href]), hdims]
  rcases dim with _ | _ | n
  · rfl
  · rfl
  · exact absurd rfl (hsize n)

theorem namedCategory_alias (href : t.reference = false) (hdims : t.dims = []) {target : String}
    (halias : index.alias? t.base = some target) :
    namedCategory index answer t = answer (t.spellAlias target) := by
  rw [namedCategory, if_neg (by simp [href]), hdims]
  simp only [halias]

theorem namedCategory_base (href : t.reference = false) (hdims : t.dims = [])
    (halias : index.alias? t.base = none) : namedCategory index answer t =
      match t.pointers with
      | 0 => classifyBase index t.base
      | 1 => classifyPointer index t.base t.constBase
      | _ => .unknown := by
  rw [namedCategory, if_neg (by simp [href]), hdims]
  simp only [halias]

/-- A named type leads to one spelling at most, so an empty memo stays without influence. -/
theorem fresh_classifyNamed_eq (next : String → Classifying Category) (t : NamedType) :
    Classifying.fresh (classifyNamed index next t) =
      namedCategory index (fun s => Classifying.fresh (next s)) t := by
  cases href : t.reference with
  | true =>
    rw [namedCategory_reference href, classifyNamed, if_pos href]
    split <;> rfl
  | false =>
    have hvalue : ¬ t.reference = true := by simp [href]
    cases hdims : t.dims with
    | nil =>
      cases halias : index.alias? t.base with
      | some target =>
        rw [namedCategory_alias href hdims halias, classifyNamed, if_neg hvalue, hdims]
        simp only [halias]
      | none =>
        rw [namedCategory_base href hdims halias, classifyNamed, if_neg hvalue, hdims]
        simp only [halias]
        rcases t.pointers with _ | _ | n <;> rfl
    | cons dim inner =>
      by_cases hsize : ∀ n, dim ≠ some (n + 1)
      · rw [namedCategory_unsized href hdims hsize, classifyNamed, if_neg hvalue, hdims]
        rcases dim with _ | _ | n
        · rfl
        · rfl
        · exact absurd rfl (hsize n)
      · push Not at hsize
        obtain ⟨n, rfl⟩ := hsize
        rw [fresh_classifyNamed_array href hdims, namedCategory_array href hdims]

theorem categoryFrom_eq (answer : String → Category) (t : NamedType) :
    categoryFrom index answer t = namedCategory index answer t :=
  fresh_classifyNamed_eq (fun s => pure (answer s)) t

theorem categoryWithin_named {k : Nat} {s : String} {t : NamedType} (h : CType.parse s = .named t) :
    categoryWithin index (k + 1) s = namedCategory index (categoryWithin index k) t := by
  rw [categoryWithin, h]
  exact categoryFrom_eq _ t

theorem categoryWithin_congr {s s' : String} (h : CType.parse s = CType.parse s') :
    ∀ k, categoryWithin index k s = categoryWithin index k s'
  | 0 => rfl
  | k + 1 => by rw [categoryWithin, categoryWithin, h]

/-! ## Where a `const` lands -/

/-- `ConstLands index k s`: in `k` steps, a `const` in front of `s` comes to a place where it counts. -/
inductive ConstLands (index : TypeIndex) : Nat → String → Prop
  /-- It is on what a pointer points to. Only text has one category with and without it. -/
  | pointee {k s t} (hs : CType.parse s = .named t) (hopen : t.constBase = false)
      (hvalue : t.reference = false) (hdims : t.dims = []) (halias : index.alias? t.base = none)
      (hpointers : t.pointers = 1) (hchar : t.base ≠ "char") : ConstLands index (k + 1) s
  /-- It makes a reference one to a constant, which crosses the boundary as its value does. -/
  | referent {k s t} (hs : CType.parse s = .named t) (hopen : t.constBase = false)
      (href : t.reference = true) (hdims : t.dims = []) (hpointers : t.pointers = 0)
      (hknown : categoryWithin index k t.unqualified.render ≠ .unknown) : ConstLands index (k + 1) s
  /-- It stands in the place of a result, for parentheses that have none. -/
  | headless {k s f} (hs : CType.parse s = .malformed) (hconst : CType.parse ("const " ++ s) = .function f) :
      ConstLands index (k + 1) s
  /-- It is carried into the result of a function pointer. -/
  | result {k s f} (hs : CType.parse s = .function f) (h : ConstLands index k f.result) :
      ConstLands index (k + 1) s
  /-- It is carried over to what an alias stands for. -/
  | target {k s t target} (hs : CType.parse s = .named t) (hopen : t.constBase = false)
      (hvalue : t.reference = false) (hdims : t.dims = []) (halias : index.alias? t.base = some target)
      (h : ConstLands index k (t.spellAlias target)) : ConstLands index (k + 1) s
  /-- It is carried over to the elements of an array, which is known with or without it. -/
  | element {k s t n inner} (hs : CType.parse s = .named t) (hopen : t.constBase = false)
      (hvalue : t.reference = false) (hdims : t.dims = some (n + 1) :: inner)
      (hknown : (categoryWithin index k { t with dims := inner }.render).array (n + 1) ≠ .unknown ∨
        (categoryWithin index k ("const " ++ { t with dims := inner }.render)).array (n + 1) ≠ .unknown)
      (h : ConstLands index k { t with dims := inner }.render) : ConstLands index (k + 1) s

/-! ## The spellings on the way -/

theorem NamedType.marked_of_const (h : t.constBase = true) : t.marked = t := by
  obtain ⟨base, constBase, pointers, reference, dims⟩ := t
  subst h
  rfl

theorem NamedType.render_marked (h : t.constBase = false) : t.marked.render = "const " ++ t.render := by
  have hscalar : t.marked.renderScalar = "const " ++ t.renderScalar := by
    unfold renderScalar
    simp only [marked, h, if_true, Bool.false_eq_true, if_false, String.append_assoc, String.empty_append]
    rfl
  rw [render, hscalar, String.append_assoc]
  rfl

theorem NamedType.spellAlias_marked (h : t.constBase = false) (target : String) :
    t.marked.spellAlias target = "const " ++ t.spellAlias target := by
  simp [spellAlias, marked, h, String.append_assoc]

theorem NamedType.unqualified_marked (h : t.constBase = false) (hp : t.pointers = 0) :
    t.marked.unqualified = t.unqualified := by
  simp [unqualified, marked, h, hp]

/-- A pointer to constants is told from any other, unless it is text. -/
theorem classifyPointer_const_eq_iff (index : TypeIndex) (base : String) :
    classifyPointer index base true = classifyPointer index base false ↔ base = "char" := by
  unfold classifyPointer
  by_cases hchar : base = "char"
  · simp [hchar]
  · have hbeq : (base == "char") = false := by simpa using hchar
    rw [hbeq]
    simp only [Bool.false_eq_true, if_false, hchar, iff_false]
    split <;> simp

/-- Arrays are the same if their elements are, or if neither is known. -/
theorem Category.array_eq_iff {elem elem' : Category} {n : Nat} :
    elem.array n = elem'.array n ↔
      elem = elem' ∨ elem.array n = .unknown ∧ elem'.array n = .unknown := by
  constructor
  · intro h
    by_cases hknown : elem.array n = .unknown
    · exact .inr ⟨hknown, h ▸ hknown⟩
    · exact .inl ((Category.array_inj hknown).mp h).1
  · rintro (rfl | ⟨h, h'⟩)
    · rfl
    · rw [h, h']

/-! ## The category changes exactly there -/

section

variable {k : Nat} {s : String}

/-- `const` in front of a reference counts if it makes it one to a constant of a known category. -/
theorem namedCategory_marked_reference (hopen : t.constBase = false) (href : t.reference = true) :
    namedCategory index answer t.marked ≠ namedCategory index answer t ↔
      t.dims = [] ∧ t.pointers = 0 ∧ answer t.unqualified.render ≠ .unknown := by
  rw [namedCategory_reference (t := t.marked) href, namedCategory_reference href, hopen]
  by_cases hp : t.pointers = 0
  · rw [NamedType.unqualified_marked hopen hp]
    simp only [NamedType.marked, hp]
    cases t.dims <;> simp
  · simp [NamedType.marked, hp]

/-- In front of an array it counts if it does for the elements of it, and the array is known. -/
theorem namedCategory_marked_array (hopen : t.constBase = false) (href : t.reference = false) {n : Nat}
    {inner : List (Option Nat)} (hdims : t.dims = some (n + 1) :: inner) :
    namedCategory index answer t.marked ≠ namedCategory index answer t ↔
      answer ("const " ++ { t with dims := inner }.render) ≠ answer { t with dims := inner }.render ∧
        ((answer { t with dims := inner }.render).array (n + 1) ≠ .unknown ∨
          (answer ("const " ++ { t with dims := inner }.render)).array (n + 1) ≠ .unknown) := by
  have hrender : NamedType.render { t.marked with dims := inner } =
      "const " ++ NamedType.render { t with dims := inner } :=
    NamedType.render_marked (t := { t with dims := inner }) hopen
  rw [namedCategory_array (t := t.marked) href hdims, namedCategory_array href hdims, hrender, ne_eq,
    Category.array_eq_iff, not_or, not_and_or]
  exact and_congr_right fun _ => or_comm

/-- In front of an alias it counts if it does in front of what the alias stands for. -/
theorem namedCategory_marked_alias (hopen : t.constBase = false) (href : t.reference = false)
    (hdims : t.dims = []) {target : String} (halias : index.alias? t.base = some target) :
    namedCategory index answer t.marked ≠ namedCategory index answer t ↔
      answer ("const " ++ t.spellAlias target) ≠ answer (t.spellAlias target) := by
  rw [namedCategory_alias (t := t.marked) href hdims halias, namedCategory_alias href hdims halias,
    NamedType.spellAlias_marked hopen]

/-- In front of any other name it counts if there is one pointer, and no text. -/
theorem namedCategory_marked_base (hopen : t.constBase = false) (href : t.reference = false)
    (hdims : t.dims = []) (halias : index.alias? t.base = none) :
    namedCategory index answer t.marked ≠ namedCategory index answer t ↔
      t.pointers = 1 ∧ t.base ≠ "char" := by
  rw [namedCategory_base (t := t.marked) href hdims halias, namedCategory_base href hdims halias]
  change (match t.pointers with
    | 0 => classifyBase index t.base
    | 1 => classifyPointer index t.base true
    | _ => .unknown) ≠ _ ↔ _
  rw [hopen]
  rcases t.pointers with _ | _ | n
  · simp
  · simp [classifyPointer_const_eq_iff]
  · simp

/-- **In front of a named type, a `const` changes the category exactly if it lands.** -/
theorem constLands_named_iff {t : NamedType} (hs : CType.parse s = .named t)
    (ih : ∀ s, categoryWithin index k ("const " ++ s) ≠ categoryWithin index k s ↔ ConstLands index k s) :
    namedCategory index (categoryWithin index k) t.marked ≠
      namedCategory index (categoryWithin index k) t ↔ ConstLands index (k + 1) s := by
  have found {u : NamedType} (hu : CType.parse s = .named u) : u = t :=
    CType.named.inj (hu.symm.trans hs)
  constructor
  · intro hne
    have hopen : t.constBase = false := by
      rw [Bool.eq_false_iff]
      intro hconst
      exact hne (by rw [NamedType.marked_of_const hconst])
    cases href : t.reference with
    | true =>
      obtain ⟨hdims, hpointers, hknown⟩ := (namedCategory_marked_reference hopen href).mp hne
      exact .referent hs hopen href hdims hpointers hknown
    | false =>
      cases hdims : t.dims with
      | nil =>
        cases halias : index.alias? t.base with
        | some target =>
          have hne' := (namedCategory_marked_alias hopen href hdims halias).mp hne
          exact .target hs hopen href hdims halias ((ih _).mp hne')
        | none =>
          obtain ⟨hpointers, hchar⟩ := (namedCategory_marked_base hopen href hdims halias).mp hne
          exact .pointee hs hopen href hdims halias hpointers hchar
      | cons dim inner =>
        by_cases hsize : ∀ n, dim ≠ some (n + 1)
        · refine absurd ?_ hne
          rw [namedCategory_unsized (t := t.marked) href hdims hsize, namedCategory_unsized href hdims hsize]
        · push Not at hsize
          obtain ⟨n, rfl⟩ := hsize
          obtain ⟨hne', hknown⟩ := (namedCategory_marked_array hopen href hdims).mp hne
          exact .element hs hopen href hdims hknown ((ih _).mp hne')
  · intro h
    cases h with
    | pointee hu hopen href hdims halias hpointers hchar =>
      obtain rfl := found hu
      exact (namedCategory_marked_base hopen href hdims halias).mpr ⟨hpointers, hchar⟩
    | referent hu hopen href hdims hpointers hknown =>
      obtain rfl := found hu
      exact (namedCategory_marked_reference hopen href).mpr ⟨hdims, hpointers, hknown⟩
    | headless hu | result hu =>
      rw [hs] at hu
      cases hu
    | target hu hopen href hdims halias hlands =>
      obtain rfl := found hu
      exact (namedCategory_marked_alias hopen href hdims halias).mpr ((ih _).mpr hlands)
    | element hu hopen href hdims hknown hlands =>
      obtain rfl := found hu
      exact (namedCategory_marked_array hopen href hdims).mpr ⟨(ih _).mpr hlands, hknown⟩

/-- **A `const` in front changes the category exactly if it lands**, for any spelling and however far it is
followed. The induction is on the steps: with and without the `const`, the same places are come to. -/
theorem categoryWithin_const_ne_iff : ∀ (k : Nat) (s : String),
    categoryWithin index k ("const " ++ s) ≠ categoryWithin index k s ↔ ConstLands index k s := by
  intro k
  induction k with
  | zero =>
    intro s
    exact ⟨fun h => absurd rfl h, fun h => by cases h⟩
  | succ k ih =>
    intro s
    cases hs : CType.parse s with
    | named t =>
      rw [categoryWithin_named (CType.parse_const_of_named hs), categoryWithin_named hs]
      exact constLands_named_iff hs ih
    | function f =>
      obtain ⟨result, hconst, hresult⟩ := CType.parse_const_function_eq hs
      have hstep : categoryWithin index (k + 1) ("const " ++ s) ≠ categoryWithin index (k + 1) s ↔
          categoryWithin index k ("const " ++ f.result) ≠ categoryWithin index k f.result := by
        rw [categoryWithin, categoryWithin, hconst, hs, ← categoryWithin_congr hresult k]
        simp
      rw [hstep, ih]
      constructor
      · exact fun h => .result hs h
      · intro h
        cases h with
        | result hf hlands =>
          rw [hs] at hf
          obtain rfl := CType.function.inj hf
          exact hlands
        | pointee hu | referent hu | headless hu | target hu | element hu =>
          rw [hs] at hu
          cases hu
    | malformed =>
      have hunknown : categoryWithin index (k + 1) s = .unknown := by rw [categoryWithin, hs]
      rw [hunknown, categoryWithin]
      cases hconst : CType.parse ("const " ++ s) with
      | named t =>
        obtain ⟨u, hu, -⟩ := CType.parse_const_named hconst
        rw [hs] at hu
        cases hu
      | function f => exact ⟨fun _ => .headless hs hconst, fun _ => by simp⟩
      | malformed =>
        refine ⟨fun h => absurd rfl h, fun h => ?_⟩
        cases h with
        | headless _ hf =>
          rw [hconst] at hf
          cases hf
        | pointee hu | referent hu | result hu | target hu | element hu =>
          rw [hs] at hu
          cases hu

end

/-! ## Asked alone -/

/-- On the way that a spelling leads there is a function pointer. -/
inductive MeetsSignature (index : TypeIndex) : String → Prop
  | here {s f} (h : CType.parse s = .function f) : MeetsSignature index s
  | further {s s' t} (hs : CType.parse s = .named t) (hnext : t.next? index = some s')
      (h : MeetsSignature index s') : MeetsSignature index s

theorem namedCategory_congr {answer answer' : String → Category}
    (h : ∀ s ∈ t.next? index, answer s = answer' s) :
    namedCategory index answer t = namedCategory index answer' t := by
  rw [← categoryFrom_eq, ← categoryFrom_eq]
  exact categoryFrom_congr h

/-- A spelling that is asked alone is classified as if there were no memo. Only the parameters of a function
pointer find something there, and that is of no consequence unless they lead too far. -/
theorem fresh_classifyFrom_eq_within : ∀ {k : Nat} {s : String},
    (MeetsSignature index s → Settles index k s) →
      Classifying.fresh (classifyFrom index k s) = categoryWithin index k s := by
  intro k
  induction k with
  | zero => exact fun {s} _ => fresh_classifyFrom_zero s
  | succ k ih =>
    intro s h
    have settled (hsettles : Settles index (k + 1) s) :
        Classifying.fresh (classifyFrom index (k + 1) s) = categoryWithin index (k + 1) s :=
      (classifyFrom_sound hsettles {} (Memo.Sound.empty index)).1
    cases hs : CType.parse s with
    | named t =>
      rw [fresh_classifyFrom_succ hs, fresh_classifyNamed_eq, categoryWithin_named hs]
      refine namedCategory_congr fun s' hs' => ih fun hmeets => ?_
      have hsettles := h (.further hs hs' hmeets)
      refine hsettles s' ?_
      rw [partsOf, hs]
      simpa using hs'
    | function f => exact settled (h (.here hs))
    | malformed =>
      refine settled ?_
      intro part hpart
      rw [partsOf, hs] at hpart
      cases hpart

/-- **A `const` in front of a spelling makes no difference exactly if it lands nowhere.** Where a function
pointer is met on the way, nothing may lead beyond the limit. -/
theorem fresh_const_eq_iff {s : String} (h : MeetsSignature index s → Settles index maxSteps s)
    (hconst : MeetsSignature index ("const " ++ s) → Settles index maxSteps ("const " ++ s)) :
    Classifying.fresh (classify index ("const " ++ s)) = Classifying.fresh (classify index s) ↔
      ¬ ConstLands index maxSteps s := by
  rw [classify, classify, fresh_classifyFrom_eq_within h, fresh_classifyFrom_eq_within hconst,
    ← categoryWithin_const_ne_iff, not_not]

/-! ## Names that are no aliases, and aliases -/

theorem NamedType.next?_of_not_alias {s : String} {t : NamedType} {s' : String}
    (hs : CType.parse s = .named t) (href : t.reference = false) (halias : index.alias? t.base = none)
    (hnext : t.next? index = some s') :
    ∃ inner, CType.parse s' = .named { t with dims := inner } := by
  rw [NamedType.next?, if_neg (by simp [href])] at hnext
  split at hnext
  · rename_i n inner hdims
    obtain rfl := Option.some.inj hnext
    exact ⟨inner, NamedType.parse_render ((CType.wellFormed_of_parse hs).inner hdims)⟩
  · cases hnext
  · rw [halias] at hnext
    cases hnext

theorem not_meetsSignature_of_not_alias {s : String} (h : MeetsSignature index s) : ∀ {t : NamedType},
    CType.parse s = .named t → t.reference = false → index.alias? t.base ≠ none := by
  induction h with
  | here hf =>
    intro t hs
    rw [hf] at hs
    cases hs
  | further hu hnext _ ih =>
    intro t hs href halias
    obtain rfl := CType.named.inj (hu.symm.trans hs)
    obtain ⟨inner, hinner⟩ := NamedType.next?_of_not_alias hu href halias hnext
    exact ih hinner href halias

/-- In front of a name that is no alias, or an array of such, a `const` lands nowhere. -/
theorem not_constLands_of_not_alias {k : Nat} {s : String} (h : ConstLands index k s) : ∀ {t : NamedType},
    CType.parse s = .named t → t.pointers = 0 → t.reference = false → index.alias? t.base ≠ none := by
  have found {s : String} {t u : NamedType} (hu : CType.parse s = .named u) (hs : CType.parse s = .named t) :
      u = t := CType.named.inj (hu.symm.trans hs)
  induction h with
  | pointee hu _ _ _ _ hpointers =>
    intro t hs hp
    obtain rfl := found hu hs
    rw [hp] at hpointers
    cases hpointers
  | referent hu _ hreference =>
    intro t hs _ href
    obtain rfl := found hu hs
    rw [href] at hreference
    cases hreference
  | headless hu | result hu =>
    intro t hs
    rw [hs] at hu
    cases hu
  | target hu _ _ _ halias =>
    intro t hs _ _ hnone
    obtain rfl := found hu hs
    rw [hnone] at halias
    cases halias
  | element hu _ _ hdims _ _ ih =>
    intro t hs hp href halias
    obtain rfl := found hu hs
    exact ih (NamedType.parse_render ((CType.wellFormed_of_parse hu).inner hdims)) hp href halias

/-- **A `const` on a value of a type that is no alias makes no difference**, and none on an array of such. -/
theorem fresh_const_of_not_alias {s : String} {t : NamedType} (hs : CType.parse s = .named t)
    (hp : t.pointers = 0) (href : t.reference = false) (halias : index.alias? t.base = none) :
    Classifying.fresh (classify index ("const " ++ s)) = Classifying.fresh (classify index s) := by
  have hplain (h : MeetsSignature index s) : False := not_meetsSignature_of_not_alias h hs href halias
  have hmarked (h : MeetsSignature index ("const " ++ s)) : False :=
    not_meetsSignature_of_not_alias h (CType.parse_const_of_named hs) href halias
  exact (fresh_const_eq_iff (fun h => (hplain h).elim) fun h => (hmarked h).elim).mpr
    fun h => not_constLands_of_not_alias h hs hp href halias

/-- In front of an alias a `const` lands only if it does in front of what the alias stands for. -/
theorem ConstLands.of_alias {k : Nat} {s target : String} {t : NamedType}
    (h : ConstLands index (k + 1) s) (hs : CType.parse s = .named t) (href : t.reference = false)
    (hdims : t.dims = []) (halias : index.alias? t.base = some target) :
    ConstLands index k (t.spellAlias target) := by
  have found {u : NamedType} (hu : CType.parse s = .named u) : u = t :=
    CType.named.inj (hu.symm.trans hs)
  cases h with
  | target hu _ _ _ halias' hlands =>
    obtain rfl := found hu
    obtain rfl := Option.some.inj (halias.symm.trans halias')
    exact hlands
  | pointee hu _ _ _ hnone =>
    obtain rfl := found hu
    rw [halias] at hnone
    cases hnone
  | referent hu _ hreference =>
    obtain rfl := found hu
    rw [href] at hreference
    cases hreference
  | element hu _ _ harray =>
    obtain rfl := found hu
    rw [hdims] at harray
    cases harray
  | headless hu | result hu =>
    rw [hs] at hu
    cases hu

end

/-! ## Two aliases -/

/-- An alias of an array and one of a pointer. -/
def typedefs : TypeIndex where
  aliases := [("Vec", "float[3]"), ("Handle", "int*")]

theorem constLands_handle : ConstLands typedefs maxSteps "Handle" := by
  have hname : CType.parse "Handle" = .named { base := "Handle" } := by decide +kernel
  have htarget : CType.parse "int*" = .named { base := "int", pointers := 1 } := by decide +kernel
  exact .target hname rfl rfl rfl rfl (.pointee htarget rfl rfl rfl rfl rfl (by decide))

/-- A `const` passes over the array, and lands on what the pointer points to. -/
theorem fresh_const_typedefs :
    Classifying.fresh (classify typedefs "const Vec") = Classifying.fresh (classify typedefs "Vec") ∧
      Classifying.fresh (classify typedefs "const Handle") ≠
        Classifying.fresh (classify typedefs "Handle") := by
  have hname : CType.parse "Vec" = .named { base := "Vec" } := by decide +kernel
  have htarget : CType.parse "float[3]" = .named { base := "float", dims := [some 3] } := by
    decide +kernel
  constructor
  · refine (fresh_const_eq_iff (s := "Vec") (fun _ => by decide +kernel) fun _ => by decide +kernel).mpr ?_
    intro h
    exact not_constLands_of_not_alias (h.of_alias hname rfl rfl rfl) htarget rfl rfl rfl
  · intro heq
    refine (fresh_const_eq_iff (s := "Handle") (fun _ => by decide +kernel)
      fun _ => by decide +kernel).mp heq constLands_handle

/-- A `const` on a value does change the category of an alias. -/
theorem fresh_const_differs :
    ¬ ∀ (index : TypeIndex) (s : String) (t : NamedType), CType.parse s = .named t → t.pointers = 0 →
      t.reference = false →
        Classifying.fresh (classify index ("const " ++ s)) = Classifying.fresh (classify index s) := by
  intro h
  have hname : CType.parse "Handle" = .named { base := "Handle" } := by decide +kernel
  have hsame := congrArg Category.describe (h typedefs "Handle" _ hname rfl rfl)
  exact absurd hsame (by decide +kernel)

end LuaGlue
