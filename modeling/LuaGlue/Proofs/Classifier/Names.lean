import LuaGlue.Proofs.Classifier.Memo

/-!
# The names in categories

`Classifying.Keeps` says of a question that it keeps what is known of the memo. What the classifier makes of
base names and pointers to them, and what arrays and signatures do not lose, is true of all its answers and of
the memo (`Category.Closed.classify_keeps`), whatever spellings are asked for and in whatever order.

A category that is about a struct or an enum has its name from the index, however it was found
(`classify_keeps`).
-/

set_option autoImplicit false

namespace LuaGlue

/-- The names that categories are about. -/
def TypeIndex.names (index : TypeIndex) : List String :=
  index.structs ++ index.enums ++ index.tuples ++ index.byteRanges

/-- The structs and enums in a category, but for those of a callback's signature. -/
def Category.names : Category → List String
  | .structValue name _ | .structPointer name _ _ | .enum name => [name]
  | .pointer pointee _ => pointee.names
  | .fixedArray elem _ => elem.names
  | _ => []

/-- All structs and enums in the category satisfy `T`. -/
def Category.About (T : String → Prop) (c : Category) : Prop := ∀ name ∈ c.names, T name

/-- `Q` holds of every spelling in the memo and its answer. -/
def Memo.Each (Q : String → Category → Prop) (m : Memo) : Prop := ∀ e ∈ m.entries, Q e.1 e.2

/-- All answers of the memo satisfy `Q`. -/
def Memo.All (Q : Category → Prop) (m : Memo) : Prop := m.Each fun _ => Q

/-- All answers of the memo are about structs and enums that satisfy `T`. -/
def Memo.About (T : String → Prop) (m : Memo) : Prop := m.All (Category.About T)

variable {T : String → Prop}

theorem Category.about_of_nil {c : Category} (h : c.names = []) : c.About T := by simp [About, h]

theorem Category.about_of_name {c : Category} {name : String} (h : c.names = [name]) (hname : T name) :
    c.About T := by
  simpa [About, h] using hname

section

variable {Q : String → Category → Prop} {m : Memo} {spelling : String} {c : Category}

theorem Memo.each_empty : ({} : Memo).Each Q := fun _ he => absurd he List.not_mem_nil

theorem Memo.Each.insert (hm : m.Each Q) (hc : Q spelling c) : (m.insert spelling c).Each Q :=
  List.forall_mem_cons.mpr ⟨hc, hm⟩

theorem Memo.Each.find? (hm : m.Each Q) (h : m.find? spelling = some c) : Q spelling c := by
  obtain ⟨before, after, heq, -⟩ := List.lookup_eq_some_iff.mp h
  exact hm (spelling, c) (by rw [heq]; simp)

theorem Memo.all_empty {Q : Category → Prop} : ({} : Memo).All Q := Memo.each_empty

theorem Memo.about_empty : ({} : Memo).About T := Memo.all_empty

end

/-! ## Questions that keep what is known of the memo -/

variable {α β : Type} {K : Memo → Prop} {Q : α → Prop} {R : β → Prop}

/-- A question that is answered in `Q`, and after which `K` holds of the memo if it did before. -/
def Classifying.Keeps (K : Memo → Prop) (Q : α → Prop) (q : Classifying α) : Prop :=
  ∀ m : Memo, K m → Q (q.run m).1 ∧ K (q.run m).2

namespace Classifying.Keeps

theorem pure {a : α} (h : Q a) : Classifying.Keeps K Q (Pure.pure a) := fun _ hm => ⟨h, hm⟩

theorem bind {q : Classifying α} {f : α → Classifying β} (hq : q.Keeps K Q)
    (hf : ∀ a, Q a → (f a).Keeps K R) : (q >>= f).Keeps K R := by
  intro m hm
  obtain ⟨ha, hm'⟩ := hq m hm
  exact hf _ ha _ hm'

theorem mapM {q : α → Classifying β} {as : List α} (h : ∀ a ∈ as, (q a).Keeps K R) :
    (as.mapM q).Keeps K fun bs => ∀ b ∈ bs, R b := by
  induction as with
  | nil => exact pure fun b hb => absurd hb List.not_mem_nil
  | cons a rest ih =>
    rw [List.mapM_cons]
    refine (h a List.mem_cons_self).bind fun b hb => ?_
    refine (ih fun a' ha' => h a' (List.mem_cons_of_mem a ha')).bind fun bs hbs => ?_
    exact pure (List.forall_mem_cons.mpr ⟨hb, hbs⟩)

theorem anyM {q : α → Classifying Bool} {as : List α}
    (h : ∀ a ∈ as, (q a).Keeps K fun _ => True) : (as.anyM q).Keeps K fun _ => True := by
  induction as with
  | nil => exact pure trivial
  | cons a rest ih =>
    refine (h a List.mem_cons_self).bind fun found _ => ?_
    cases found with
    | true => exact pure trivial
    | false => exact ih fun a' ha' => h a' (List.mem_cons_of_mem a ha')

end Classifying.Keeps

/-! ## The classifier -/

/-- **What every step keeps is true of every answer and of the memo.** It has to be true of what is not known,
and of the answer to a spelling that is not in the memo if it is of all answers one step further on. -/
theorem classifyFrom_keeps_each {index : TypeIndex} {Q : String → Category → Prop}
    (unknown : ∀ spelling, Q spelling .unknown)
    (anew : ∀ rest, (∀ spelling, (classifyFrom index rest spelling).Keeps (Memo.Each Q) (Q spelling)) →
      ∀ spelling, (classifyAnew index (rest + 1) spelling).Keeps (Memo.Each Q) (Q spelling))
    (steps : Nat) :
    ∀ spelling, (classifyFrom index steps spelling).Keeps (Memo.Each Q) (Q spelling) := by
  induction steps with
  | zero =>
    intro spelling m hm
    rw [classifyFrom_run]
    cases h : m.find? spelling with
    | some c => exact ⟨hm.find? h, hm⟩
    | none => exact ⟨unknown spelling, hm.insert (unknown spelling)⟩
  | succ rest ih =>
    intro spelling m hm
    rw [classifyFrom_run]
    cases h : m.find? spelling with
    | some c => exact ⟨hm.find? h, hm⟩
    | none =>
      obtain ⟨hc, hm'⟩ := anew rest ih spelling m hm
      exact ⟨hc, hm'.insert hc⟩

/-- What is true of the categories of base names and of pointers to them, and is not lost in arrays and
signatures. -/
structure Category.Closed (index : TypeIndex) (Q : Category → Prop) : Prop where
  unknown : Q .unknown
  base : ∀ base, Q (classifyBase index base)
  pointer : ∀ base isConst, Q (classifyPointer index base isConst)
  array : ∀ {elem} size, Q elem → Q (.fixedArray elem size)
  callback : ∀ {result params} variadic, Q result → (∀ p ∈ params, Q p) →
    Q (.callback result params variadic)

namespace Category.Closed

variable {index : TypeIndex} {Q : Category → Prop} (h : Category.Closed index Q)

include h

theorem classifyNamed_keeps {next : String → Classifying Category}
    (hnext : ∀ spelling, (next spelling).Keeps (Memo.All Q) Q) (t : NamedType) :
    (classifyNamed index next t).Keeps (Memo.All Q) Q := by
  unfold classifyNamed
  split
  · split
    · exact hnext _
    · exact .pure h.unknown
  · split
    · refine (hnext _).bind fun elem helem => ?_
      split
      · exact .pure h.unknown
      · exact .pure h.unknown
      · exact .pure (h.array _ helem)
    · exact .pure h.unknown
    · split
      · exact hnext _
      · split
        · exact .pure (h.base _)
        · exact .pure (h.pointer _ _)
        · exact .pure h.unknown

/-- What is closed is true of every answer, and of all answers the memo keeps. -/
theorem classifyFrom_keeps (steps : Nat) :
    ∀ spelling, (classifyFrom index steps spelling).Keeps (Memo.All Q) Q := by
  refine classifyFrom_keeps_each (fun _ => h.unknown) (fun rest ih spelling => ?_) steps
  unfold classifyAnew
  dsimp only
  split
  · exact h.classifyNamed_keeps ih _
  · exact (ih _).bind fun _ hresult => (Classifying.Keeps.mapM fun p _ => ih p).bind
      fun _ hparams => .pure (h.callback _ hresult hparams)
  · exact .pure h.unknown

theorem classify_keeps (spelling : String) : (classify index spelling).Keeps (Memo.All Q) Q :=
  h.classifyFrom_keeps maxSteps spelling

end Category.Closed

/-- The category of a base name is that of a word of C, or it says what the index says of the name. -/
theorem classifyBase_cases (index : TypeIndex) (base : String) :
    builtin? base = some (classifyBase index base) ∨
      (∃ shape, index.shape? base = some shape ∧ classifyBase index base = .structValue base shape) ∨
      (index.shape? base = none ∧ index.enums.contains base = true ∧
        classifyBase index base = .enum base) ∨
      classifyBase index base = .integer ⟨32, true⟩ ∨ classifyBase index base = .unknown := by
  unfold classifyBase
  cases builtin? base with
  | some c => exact .inl rfl
  | none =>
    cases hshape : index.shape? base with
    | some shape => exact .inr (.inl ⟨shape, rfl, rfl⟩)
    | none =>
      by_cases henum : index.enums.contains base = true
      · exact .inr (.inr (.inl ⟨rfl, henum, if_pos henum⟩))
      · dsimp only
        rw [if_neg henum]
        split
        · exact .inr (.inr (.inr (.inl rfl)))
        · exact .inr (.inr (.inr (.inr rfl)))

theorem IntegerWords.bits_mem (w : IntegerWords) : w.bits ∈ [8, 16, 32, 64] := by
  obtain ⟨signed, char, short, long⟩ := w
  cases char <;> cases short <;> cases long <;> simp [bits]

/-- What C has a word for is no struct and no enum. -/
theorem builtin?_cases {base : String} {c : Category} (h : builtin? base = some c) :
    c = .void ∨ c = .bool ∨ (∃ kind, c = .float kind) ∨
      ∃ kind : IntegerKind, c = .integer kind ∧ kind.bits ∈ [8, 16, 32, 64] := by
  unfold builtin? at h
  split at h
  case h_23 =>
    obtain ⟨kind, hkind, rfl⟩ := Option.map_eq_some_iff.mp h
    refine .inr (.inr (.inr ⟨kind, rfl, ?_⟩))
    unfold keywordInteger? at hkind
    split at hkind
    · cases hkind
    · obtain ⟨w, -, rfl⟩ := Option.map_eq_some_iff.mp hkind
      exact w.bits_mem
  all_goals
    obtain rfl := Option.some.inj h
    simp

section

variable {index : TypeIndex} (hindex : ∀ name ∈ index.names, T name)

include hindex

theorem about_of_shape? {base : String} {shape : Shape} (h : index.shape? base = some shape) : T base := by
  refine hindex base ?_
  unfold TypeIndex.shape? at h
  split at h
  · simp_all [TypeIndex.names]
  · split at h
    · simp_all [TypeIndex.names]
    · split at h
      · simp_all [TypeIndex.names]
      · cases h

theorem classifyBase_about (base : String) : (classifyBase index base).About T := by
  rcases classifyBase_cases index base with h | ⟨shape, hshape, h⟩ | ⟨-, henum, h⟩ | h | h
  · obtain hc | hc | ⟨kind, hc⟩ | ⟨kind, hc, -⟩ := builtin?_cases h <;>
    · rw [hc]
      exact Category.about_of_nil rfl
  · rw [h]
    exact Category.about_of_name rfl (about_of_shape? hindex hshape)
  · rw [h]
    exact Category.about_of_name rfl (hindex base (by simp_all [TypeIndex.names]))
  · rw [h]
    exact Category.about_of_nil rfl
  · rw [h]
    exact Category.about_of_nil rfl

theorem classifyPointer_about (base : String) (isConst : Bool) :
    (classifyPointer index base isConst).About T := by
  have hbase := classifyBase_about hindex base
  unfold classifyPointer
  split
  · exact Category.about_of_nil rfl
  · -- a pointer is about what the category of its base is about
    split <;> rename_i heq <;> simp_all [Category.About, Category.names]

/-- Categories are about names the index has. -/
theorem closed_about : Category.Closed index (Category.About T) where
  unknown := Category.about_of_nil rfl
  base := classifyBase_about hindex
  pointer := classifyPointer_about hindex
  array := fun _ helem => helem
  callback := fun _ _ _ => Category.about_of_nil rfl

theorem classify_keeps (spelling : String) :
    (classify index spelling).Keeps (Memo.About T) (Category.About T) :=
  (closed_about hindex).classify_keeps spelling

end

end LuaGlue
