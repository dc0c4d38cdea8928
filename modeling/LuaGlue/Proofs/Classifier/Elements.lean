import LuaGlue.Proofs.CType.RoundTrip
import LuaGlue.Proofs.Classifier.Leaves

/-!
# Arrays and their elements in the memo

An array that is asked for may have been written down long before, near the end of a chain that has spoiled
other answers. The generator goes by the memo for each dimension anew, and so the memo has to know of the
elements of an array what it knew when it wrote the array down.

It does, in every memo that has come about by questions (`Memo.Arises`). What is written down for a spelling with
dimensions is an array of the length that it shows, or nothing is known of it (`SizedAs`). And what is
written down for the element of an array is something that there are arrays of (`Memo.Founded`). That is not
lost when an answer is written over one that was found for the same spelling on the way: on the way to an
answer that there are no arrays of, nothing else is written down (`Memo.Barren`).
-/

set_option autoImplicit false

namespace LuaGlue

/-! ## Memos that come about -/

/-- A memo that questions have brought about. -/
inductive Memo.Arises (index : TypeIndex) : Memo → Prop where
  | empty : Arises index {}
  | ask {m : Memo} (h : Arises index m) (spelling : String) :
      Arises index ((classify index spelling).run m).2

/-- Whether there are arrays of it. -/
def Category.isElement : Category → Bool
  | .void | .unknown => false
  | _ => true

theorem Category.isElement_of_isArray {c : Category} (h : c.isArray = true) : c.isElement = true := by
  cases c <;> first | rfl | cases h

/-! ## Questions on the way -/

section

variable {index : TypeIndex} {K : Memo → Prop} {next : String → Classifying Category}

/-- What questions about other spellings keep of the memo is kept in finding the category of a named type. -/
theorem classifyNamed_keeps (hnext : ∀ spelling, (next spelling).Keeps K fun _ => True) (t : NamedType) :
    (classifyNamed index next t).Keeps K fun _ => True := by
  unfold classifyNamed
  split
  · split
    · exact hnext _
    · exact .pure trivial
  · split
    · refine (hnext _).bind fun elem _ => ?_
      split <;> exact .pure trivial
    · exact .pure trivial
    · split
      · exact hnext _
      · split <;> exact .pure trivial

theorem classifyAnew_keeps {rest : Nat}
    (h : ∀ spelling, (classifyFrom index rest spelling).Keeps K fun _ => True) (spelling : String) :
    (classifyAnew index (rest + 1) spelling).Keeps K fun _ => True := by
  unfold classifyAnew
  dsimp only
  split
  · exact classifyNamed_keeps h _
  · exact (h _).bind fun _ _ => (Classifying.Keeps.mapM fun p _ => h p).bind fun _ _ => .pure trivial
  · exact .pure trivial

end

/-- What is found out for a type with dimensions: nothing, or it is an array of what its element is. -/
theorem classifyNamed_run_array {index : TypeIndex} {next : String → Classifying Category} {t : NamedType}
    {d : Option Nat} {inner : List (Option Nat)} (hdims : t.dims = d :: inner) (m : Memo) :
    ((classifyNamed index next t).run m).1 = .unknown ∨
      ∃ n, d = some (n + 1) ∧ ((next { t with dims := inner }.render).run m).1.isElement = true ∧
        (classifyNamed index next t).run m =
          (.fixedArray ((next { t with dims := inner }.render).run m).1 (n + 1),
            ((next { t with dims := inner }.render).run m).2) := by
  unfold classifyNamed
  by_cases href : t.reference = true
  · refine .inl ?_
    rw [if_pos href, hdims, List.isEmpty_cons, Bool.and_false, if_neg (by simp)]
    rfl
  · rw [if_neg href, hdims]
    rcases d with _ | _ | n
    · exact .inl rfl
    · exact .inl rfl
    · dsimp only
      rw [Classifying.run_bind]
      generalize (next { t with dims := inner }.render).run m = answer
      obtain ⟨elem, m'⟩ := answer
      cases elem with
      | void | unknown => exact .inl rfl
      | _ => exact .inr ⟨n, rfl, rfl, rfl⟩

/-! ## Lengths -/

/-- If the spelling has dimensions, nothing is known of it or it is an array as long as the first of them says. -/
def SizedAs (spelling : String) (c : Category) : Prop :=
  ∀ t d inner, CType.parse spelling = .named t → t.dims = d :: inner →
    c = .unknown ∨ ∃ elem size, c = .fixedArray elem size ∧ d = some size ∧ 0 < size

theorem classifyFrom_sizedAs (index : TypeIndex) (steps : Nat) (spelling : String) :
    (classifyFrom index steps spelling).Keeps (Memo.Each SizedAs) (SizedAs spelling) := by
  refine classifyFrom_keeps_each (fun _ _ _ _ _ _ => .inl rfl) (fun rest ih spelling m hm => ⟨?_, ?_⟩)
    steps spelling
  · intro t d inner hparse hdims
    unfold classifyAnew
    simp only [hparse]
    obtain h | ⟨n, hd, -, h⟩ := @classifyNamed_run_array index _ _ _ _ hdims m
    · exact .inl h
    · rw [h]
      exact .inr ⟨_, n + 1, rfl, hd, Nat.succ_pos n⟩
  · exact (classifyAnew_keeps (fun spelling m hm => ⟨trivial, (ih spelling m hm).2⟩) spelling m hm).2

/-! ## Elements -/

/-- Wherever an array is written down, something is for its element that there are arrays of. -/
def Memo.Founded (m : Memo) : Prop :=
  ∀ spelling elem c, m.find? spelling = some c → c.isArray = true → elementType? spelling = some elem →
    ∃ e, m.find? elem = some e ∧ e.isElement = true

/-- Of what the second memo has besides the first one there are no arrays. -/
def Memo.Barren (m m' : Memo) : Prop :=
  ∀ spelling c, m'.find? spelling = some c → m.find? spelling = some c ∨ c.isElement = false

theorem Memo.Barren.refl (m : Memo) : m.Barren m := fun _ _ h => .inl h

theorem Memo.Barren.insert {m m' : Memo} (h : m.Barren m') {c : Category} (hc : c.isElement = false)
    (spelling : String) : m.Barren (m'.insert spelling c) := by
  intro other c' hc'
  by_cases hne : other = spelling
  · subst hne
    rw [Memo.find?_insert_self] at hc'
    cases hc'
    exact .inr hc
  · rw [Memo.find?_insert_ne _ hne] at hc'
    exact h other c' hc'

/-- A question by which nothing else is found out if the answer is something that there are no arrays of. -/
def Classifying.EndsBarren (q : Classifying Category) : Prop :=
  ∀ m, (q.run m).1.isElement = false → m.Barren (q.run m).2

theorem Classifying.EndsBarren.pure (c : Category) : (Pure.pure c : Classifying Category).EndsBarren :=
  fun m _ => .refl m

/-- A named type hands on its answer, or there are no arrays of what it hands on. -/
theorem classifyNamed_endsBarren {index : TypeIndex} {next : String → Classifying Category}
    (hnext : ∀ spelling, (next spelling).EndsBarren) (t : NamedType) :
    (classifyNamed index next t).EndsBarren := by
  unfold classifyNamed
  split
  · split
    · exact hnext _
    · exact .pure _
  · split
    · rename_i inner _
      intro m h
      have hrest := hnext { t with dims := inner }.render m
      rw [Classifying.run_bind] at h ⊢
      revert h hrest
      generalize (next { t with dims := inner }.render).run m = answer
      obtain ⟨elem, m'⟩ := answer
      intro h hrest
      cases elem with
      | void | unknown => exact hrest rfl
      | _ => cases h
    · exact .pure _
    · split
      · exact hnext _
      · split <;> exact .pure _

theorem classifyAnew_endsBarren {index : TypeIndex} {rest : Nat}
    (h : ∀ spelling, (classifyFrom index rest spelling).EndsBarren) (spelling : String) :
    (classifyAnew index (rest + 1) spelling).EndsBarren := by
  unfold classifyAnew
  dsimp only
  split
  · exact classifyNamed_endsBarren h _
  · -- there are arrays of callbacks
    intro m h
    cases h
  · exact .pure _

theorem classifyFrom_endsBarren (index : TypeIndex) (steps : Nat) :
    ∀ spelling, (classifyFrom index steps spelling).EndsBarren := by
  induction steps with
  | zero =>
    intro spelling m h
    rw [classifyFrom_run] at h ⊢
    cases hm : m.find? spelling with
    | some c => exact .refl m
    | none => exact (Memo.Barren.refl m).insert rfl spelling
  | succ rest ih =>
    intro spelling m h
    rw [classifyFrom_run] at h ⊢
    cases hm : m.find? spelling with
    | some c => exact .refl m
    | none =>
      rw [hm] at h
      exact (classifyAnew_endsBarren ih spelling m h).insert h spelling

/-- An array and its element are spelled differently. -/
theorem elementType?_ne {spelling elem : String} (h : elementType? spelling = some elem) :
    elem ≠ spelling := by
  obtain ⟨t, d, inner, hparse, hdims, helem⟩ := arrayDims_of_elementType? h
  rintro rfl
  rw [hparse] at helem
  have hsame : t.dims = inner := congrArg NamedType.dims (CType.named.inj helem)
  rw [hdims] at hsame
  exact List.cons_ne_self d inner hsame

/-- The element of a type with dimensions is spelled without the first of them. -/
theorem elementType?_of_dims {spelling : String} {t : NamedType} {d : Option Nat} {inner : List (Option Nat)}
    (hparse : CType.parse spelling = .named t) (hdims : t.dims = d :: inner) :
    elementType? spelling = some { t with dims := inner }.render := by
  unfold elementType?
  rw [hparse]
  dsimp only
  rw [NamedType.element?, hdims]
  rfl

/-- When an array has been found out, its element is in the memo. -/
theorem classifyAnew_element {index : TypeIndex} {rest : Nat} {spelling elem : String} {m : Memo}
    (ha : ((classifyAnew index (rest + 1) spelling).run m).1.isArray = true)
    (he : elementType? spelling = some elem) :
    ∃ e, ((classifyAnew index (rest + 1) spelling).run m).2.find? elem = some e ∧ e.isElement = true := by
  obtain ⟨t, d, inner, hparse, hdims, -⟩ := arrayDims_of_elementType? he
  rw [elementType?_of_dims hparse hdims] at he
  obtain rfl := Option.some.inj he
  unfold classifyAnew at ha ⊢
  simp only [hparse] at ha ⊢
  obtain h | ⟨n, -, helem, h⟩ := @classifyNamed_run_array index (classifyFrom index rest) _ _ _ hdims m
  · rw [h] at ha
    cases ha
  · rw [h]
    exact ⟨_, classifyFrom_remembered index rest _ m, helem⟩

/-- Writing down what has been found out about a spelling that nothing was known of. -/
theorem Memo.Founded.insert {m m' : Memo} {spelling : String} {c : Category} (hm : m.Founded)
    (hm' : m'.Founded) (hnew : m.find? spelling = none) (hbarren : c.isElement = false → m.Barren m')
    (helement : ∀ elem, c.isArray = true → elementType? spelling = some elem →
      ∃ e, m'.find? elem = some e ∧ e.isElement = true) :
    (m'.insert spelling c).Founded := by
  intro other elem c' hc' ha he
  by_cases hother : other = spelling
  · subst hother
    rw [Memo.find?_insert_self] at hc'
    cases hc'
    rw [Memo.find?_insert_ne _ (elementType?_ne he)]
    exact helement elem ha he
  · rw [Memo.find?_insert_ne _ hother] at hc'
    by_cases helem : elem = spelling
    · -- the array is written down already, and so more than nothing has been found out
      subst helem
      rw [Memo.find?_insert_self]
      refine ⟨c, rfl, Bool.of_not_eq_false fun hc => ?_⟩
      rcases hbarren hc other c' hc' with hknown | hbare
      · obtain ⟨e, hknown, -⟩ := hm other elem c' hknown ha he
        rw [hnew] at hknown
        cases hknown
      · rw [Category.isElement_of_isArray ha] at hbare
        cases hbare
    · rw [Memo.find?_insert_ne _ helem]
      exact hm' other elem c' hc' ha he

theorem classifyFrom_founded (index : TypeIndex) (steps : Nat) :
    ∀ spelling, (classifyFrom index steps spelling).Keeps Memo.Founded fun _ => True := by
  induction steps with
  | zero =>
    intro spelling m hm
    rw [classifyFrom_run]
    cases h : m.find? spelling with
    | some c => exact ⟨trivial, hm⟩
    | none =>
      refine ⟨trivial, hm.insert hm h (fun _ => .refl m) fun _ ha => ?_⟩
      cases ha
  | succ rest ih =>
    intro spelling m hm
    rw [classifyFrom_run]
    cases h : m.find? spelling with
    | some c => exact ⟨trivial, hm⟩
    | none =>
      have hanew := (classifyAnew_keeps ih spelling m hm).2
      have hbarren := classifyAnew_endsBarren (classifyFrom_endsBarren index rest) spelling m
      exact ⟨trivial, hm.insert hanew h hbarren fun _ ha he => classifyAnew_element ha he⟩

/-! ## The memos of questions -/

namespace Memo.Arises

variable {index : TypeIndex} {m : Memo}

theorem sized (h : m.Arises index) : m.Each SizedAs := by
  induction h with
  | empty => exact Memo.each_empty
  | ask _ spelling ih => exact (classifyFrom_sizedAs index maxSteps spelling _ ih).2

theorem founded (h : m.Arises index) : m.Founded := by
  induction h with
  | empty =>
    intro spelling elem c hc
    cases hc
  | ask _ spelling ih => exact (classifyFrom_founded index maxSteps spelling _ ih).2

/-- **What the memo knows of an array it knows of its length and of its element.** -/
theorem array (h : m.Arises index) {spelling : String} {t : NamedType} {d : Option Nat}
    {inner : List (Option Nat)} {c : Category} (hparse : CType.parse spelling = .named t)
    (hdims : t.dims = d :: inner) (hc : m.find? spelling = some c) (ha : c.isElement = true) :
    ∃ elem size, c = .fixedArray elem size ∧ d = some size ∧ 0 < size ∧
      ∃ e, m.find? { t with dims := inner }.render = some e ∧ e.isElement = true := by
  rcases h.sized.find? hc t d inner hparse hdims with rfl | ⟨elem, size, rfl, hd, hsize⟩
  · cases ha
  · exact ⟨elem, size, rfl, hd, hsize,
      h.founded spelling _ _ hc rfl (elementType?_of_dims hparse hdims)⟩

end Memo.Arises

end LuaGlue
