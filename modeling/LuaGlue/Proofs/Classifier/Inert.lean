import LuaGlue.Proofs.Classifier.Memo

/-!
# When the memo is only a shortcut

The classifier follows a spelling through aliases, elements, references to constants and signatures
for `maxSteps` spellings and calls what lies beyond `unknown`. It writes that answer down like any
other, under the bare spelling. So the memo has no influence as long as nobody asks for a spelling
that leads too far (`Settles`), and the limit on what may be asked is exactly the classifier's own:

> the answers are the same with every history of questions that settle within `k` steps, for every
> table of names, **iff** `k ≤ maxSteps`.

The comparison is with `categoryWithin`, the classifier without its memo. An answer in the memo is
*sound* if it is that of a spelling followed to its end; questions that settle find and leave sound
memos, whatever the order.
-/

set_option autoImplicit false

namespace LuaGlue

/-! ## What a spelling leads to -/

/-- The spelling that the category of a named type is made from, if it is made from one: the element
of an array, the target of an alias, the value behind a reference to a constant. -/
def NamedType.next? (index : TypeIndex) (t : NamedType) : Option String :=
  if t.reference then
    if t.constBase && t.pointers == 0 && t.dims.isEmpty then some t.unqualified.render else none
  else
    match t.dims with
    | some (_ + 1) :: inner => some { t with dims := inner }.render
    | _ :: _ => none
    | [] => (index.alias? t.base).map t.spellAlias

/-- The spellings that the category of a spelling is made from. -/
def partsOf (index : TypeIndex) (spelling : String) : List String :=
  match CType.parse spelling with
  | .named t => (t.next? index).toList
  | .function f => f.result :: f.params
  | .malformed => []

/-- Whether a spelling comes to its end within some number of steps, itself counted. -/
def Settles (index : TypeIndex) : Nat → String → Prop
  | 0, _ => False
  | steps + 1, spelling => ∀ part ∈ partsOf index spelling, Settles index steps part

theorem Settles.mono {index : TypeIndex} :
    ∀ {steps steps' : Nat} {spelling : String}, Settles index steps spelling → steps ≤ steps' →
      Settles index steps' spelling := by
  intro steps
  induction steps with
  | zero => intro _ _ h _; exact h.elim
  | succ n ih =>
    intro steps' spelling h hle
    obtain ⟨k, rfl⟩ : ∃ k, steps' = k + 1 := ⟨steps' - 1, by omega⟩
    intro part hpart
    exact ih (h part hpart) (by omega)

/-! ## The classifier without its memo -/

/-- The category of a named type if `answer` has the one of the spelling it leads to. -/
def categoryFrom (index : TypeIndex) (answer : String → Category) (t : NamedType) : Category :=
  ((classifyNamed index (fun spelling => pure (answer spelling)) t).run {}).1

/-- The category of a spelling that is followed for some number of steps. -/
def categoryWithin (index : TypeIndex) : Nat → String → Category
  | 0, _ => .unknown
  | steps + 1, spelling =>
    match CType.parse spelling with
    | .named t => categoryFrom index (categoryWithin index steps) t
    | .function f =>
      .callback (categoryWithin index steps f.result) (f.params.map (categoryWithin index steps))
        f.variadic
    | .malformed => .unknown

/-- Classifying a named type asks for the spelling it leads to and for no other: if that question
has the right answer and keeps the memo in order, so does the whole. -/
theorem classifyNamed_run {index : TypeIndex} (next : String → Classifying Category)
    {answer : String → Category} {t : NamedType} {P : Memo → Prop}
    (hn : ∀ spelling ∈ t.next? index, ∀ m, P m →
      ((next spelling).run m).1 = answer spelling ∧ P ((next spelling).run m).2)
    {m : Memo} (hm : P m) :
    ((classifyNamed index next t).run m).1 = categoryFrom index answer t ∧
      P ((classifyNamed index next t).run m).2 := by
  unfold categoryFrom classifyNamed
  unfold NamedType.next? at hn
  by_cases href : t.reference
  · simp only [href, if_true] at hn ⊢
    split
    · rename_i hc
      exact hn _ (by simp [hc]) m hm
    · exact ⟨rfl, hm⟩
  · simp only [href, Bool.false_eq_true, if_false] at hn ⊢
    cases hd : t.dims with
    | cons dim inner =>
      rcases dim with _ | _ | size
      · exact ⟨rfl, hm⟩
      · exact ⟨rfl, hm⟩
      · rw [hd] at hn
        obtain ⟨hc, hp⟩ := hn _ rfl m hm
        simp only [Classifying.run_bind, hc, Classifying.run_pure]
        generalize answer _ = elem
        cases elem <;> exact ⟨rfl, hp⟩
    | nil =>
      rw [hd] at hn
      simp only
      cases ha : index.alias? t.base with
      | some target => exact hn _ (by simp [ha]) m hm
      | none =>
        rcases t.pointers with _ | _ | _ <;> exact ⟨rfl, hm⟩

/-- Only the answer for the spelling a named type leads to counts. -/
theorem categoryFrom_congr {index : TypeIndex} {answer answer' : String → Category} {t : NamedType}
    (h : ∀ spelling ∈ t.next? index, answer spelling = answer' spelling) :
    categoryFrom index answer t = categoryFrom index answer' t :=
  (classifyNamed_run (fun spelling => pure (answer spelling)) (P := fun _ => True)
    (fun spelling hs _ _ => ⟨h spelling hs, trivial⟩) (m := {}) trivial).1

/-- A spelling that comes to its end is not followed any further by taking more steps. -/
theorem categoryWithin_of_settles {index : TypeIndex} :
    ∀ {steps steps' : Nat} {spelling : String}, Settles index steps spelling → steps ≤ steps' →
      categoryWithin index steps' spelling = categoryWithin index steps spelling := by
  intro steps
  induction steps with
  | zero => intro _ _ h _; exact h.elim
  | succ n ih =>
    intro steps' spelling h hle
    obtain ⟨k, rfl⟩ : ∃ k, steps' = k + 1 := ⟨steps' - 1, by omega⟩
    have same : ∀ part ∈ partsOf index spelling,
        categoryWithin index k part = categoryWithin index n part :=
      fun part hpart => ih (h part hpart) (by omega)
    unfold partsOf at same
    unfold categoryWithin
    cases hp : CType.parse spelling with
    | named t =>
      rw [hp] at same
      exact categoryFrom_congr fun part hpart => same part (by simpa using hpart)
    | function f =>
      rw [hp] at same
      simp only [Category.callback.injEq, and_true]
      exact ⟨same _ (by simp), List.map_congr_left fun part hpart => same _ (by simp [hpart])⟩
    | malformed => rfl

/-! ## Sound memos -/

/-- Every answer is that of a spelling followed to its end. -/
def Memo.Sound (index : TypeIndex) (m : Memo) : Prop :=
  ∀ spelling c, m.find? spelling = some c →
    ∃ steps, Settles index steps spelling ∧ c = categoryWithin index steps spelling

theorem Memo.Sound.empty (index : TypeIndex) : Memo.Sound index {} := by
  intro spelling c h
  simp [Memo.find?] at h

theorem Memo.Sound.insert {index : TypeIndex} {m : Memo} {steps : Nat} {spelling : String}
    (hm : m.Sound index) (h : Settles index steps spelling) :
    (m.insert spelling (categoryWithin index steps spelling)).Sound index := by
  intro other c hc
  by_cases hne : other = spelling
  · subst hne
    rw [Memo.find?_insert_self] at hc
    exact ⟨steps, h, (Option.some.inj hc).symm⟩
  · rw [Memo.find?_insert_ne _ hne] at hc
    exact hm other c hc

/-- What a sound memo says about a spelling that settles is what the spelling settles to. -/
theorem Memo.Sound.find?_eq {index : TypeIndex} {m : Memo} {steps : Nat} {spelling : String}
    {c : Category} (hm : m.Sound index) (hc : m.find? spelling = some c)
    (h : Settles index steps spelling) : c = categoryWithin index steps spelling := by
  obtain ⟨steps', h', rfl⟩ := hm spelling c hc
  rcases Nat.le_total steps steps' with hle | hle
  · exact categoryWithin_of_settles h hle
  · exact (categoryWithin_of_settles h' hle).symm

/-- A list of spellings is classified one after the other. -/
theorem mapM_sound {index : TypeIndex} {steps : Nat} (next : String → Classifying Category)
    (hn : ∀ spelling, Settles index steps spelling → ∀ m : Memo, m.Sound index →
      ((next spelling).run m).1 = categoryWithin index steps spelling ∧
        ((next spelling).run m).2.Sound index) :
    ∀ {spellings : List String} {m : Memo}, (∀ s ∈ spellings, Settles index steps s) →
      m.Sound index →
      ((spellings.mapM next).run m).1 = spellings.map (categoryWithin index steps) ∧
        ((spellings.mapM next).run m).2.Sound index := by
  intro spellings
  induction spellings with
  | nil => intro m _ hm; exact ⟨rfl, hm⟩
  | cons s rest ih =>
    intro m hs hm
    obtain ⟨hhead, hm₁⟩ := hn s (hs s (by simp)) m hm
    obtain ⟨htail, hm₂⟩ := ih (fun s' h' => hs s' (by simp [h'])) hm₁
    simp only [List.mapM_cons, Classifying.run_bind, Classifying.run_pure, hhead, htail,
      List.map_cons, true_and]
    exact hm₂

/-- **A question that settles has the memo-free answer and leaves a sound memo.** The induction is
on the steps left; the spellings that the category is made from settle with one step less. -/
theorem classifyFrom_sound {index : TypeIndex} :
    ∀ {steps : Nat} {spelling : String}, Settles index steps spelling → ∀ m : Memo,
      m.Sound index →
      ((classifyFrom index steps spelling).run m).1 = categoryWithin index steps spelling ∧
        ((classifyFrom index steps spelling).run m).2.Sound index := by
  intro steps
  induction steps with
  | zero => intro _ h; exact h.elim
  | succ n ih =>
    intro spelling h m hm
    -- what is found out without the memo; what the memo has for the spelling agrees with it
    have anew : ((classifyAnew index (n + 1) spelling).run m).1 =
          categoryWithin index (n + 1) spelling ∧
        ((classifyAnew index (n + 1) spelling).run m).2.Sound index := by
      have hparts := h
      unfold Settles partsOf at hparts
      unfold classifyAnew categoryWithin
      dsimp only
      cases hp : CType.parse spelling with
      | named t =>
        rw [hp] at hparts
        exact classifyNamed_run _ (P := Memo.Sound index)
          (fun part hpart m' hm' => ih (hparts part (by simpa using hpart)) m' hm') hm
      | function f =>
        rw [hp] at hparts
        change ∀ part ∈ f.result :: f.params, _ at hparts
        -- the parameters are asked for with what the result left in the memo
        obtain ⟨hresult, hm₁⟩ := ih (hparts f.result (by simp)) m hm
        obtain ⟨hparams, hm₂⟩ := mapM_sound _ (fun s hs m' hm' => ih hs m' hm')
          (fun s hs => hparts s (List.mem_cons_of_mem _ hs)) hm₁
        simp only [Classifying.run_bind, Classifying.run_pure, hresult, hparams, true_and]
        exact hm₂
      | malformed => exact ⟨rfl, hm⟩
    rw [classifyFrom_run]
    cases hfind : m.find? spelling with
    | some c => exact ⟨hm.find?_eq hfind h, hm⟩
    | none =>
      obtain ⟨hc, hm'⟩ := anew
      refine ⟨hc, ?_⟩
      dsimp only
      rw [hc]
      exact hm'.insert h

/-! ## Histories -/

/-- The category of a spelling after other spellings have been classified with the same memo. -/
def categoryAfter (index : TypeIndex) (history : List String) (spelling : String) : Category :=
  Classifying.fresh (do
    let _ ← history.mapM (classify index)
    classify index spelling)

/-- With a history and a spelling that settle, the answer is the memo-free one. -/
theorem categoryAfter_of_settles {index : TypeIndex} {history : List String} {spelling : String}
    (h : ∀ s ∈ spelling :: history, Settles index maxSteps s) :
    categoryAfter index history spelling = categoryWithin index maxSteps spelling := by
  obtain ⟨-, hm⟩ := mapM_sound (classify index) (fun s hs m hm => classifyFrom_sound hs m hm)
    (fun s hs => h s (List.mem_cons_of_mem _ hs)) (Memo.Sound.empty index)
  exact (classifyFrom_sound (h spelling (by simp)) _ hm).1

/-! ## Where the limit bites

An array of nine dimensions takes ten steps to its `int`. The ninth step is the last one, so the
`int` at its end is written down as `unknown`, and stays so. -/

/-- Whether a spelling settles can be computed. -/
instance settlesDecidable (index : TypeIndex) :
    (steps : Nat) → (spelling : String) → Decidable (Settles index steps spelling)
  | 0, _ => isFalse id
  | steps + 1, spelling =>
    have := settlesDecidable index steps
    inferInstanceAs (Decidable (∀ part ∈ partsOf index spelling, Settles index steps part))

/-- An array of nine dimensions. -/
def nineDimensions : String := "int[1][1][1][1][1][1][1][1][1]"

theorem settles_nineDimensions : Settles {} (maxSteps + 1) nineDimensions := by decide +kernel

theorem settles_int : Settles {} 1 "int" := by decide +kernel

/-- After the array, `int` is no longer known. -/
theorem categoryAfter_nineDimensions_ne :
    categoryAfter {} [nineDimensions] "int" ≠ Classifying.fresh (classify {} "int") := by
  have spoiled : (categoryAfter {} [nineDimensions] "int").isUnknown = true := by decide +kernel
  have known : (Classifying.fresh (classify {} "int")).isUnknown = false := by decide +kernel
  intro h
  rw [h, known] at spoiled
  exact absurd spoiled (by simp)

/-- **The memo has no influence on questions that settle within `k` steps, whatever was asked before
and in whatever order, if and only if `k` is within the classifier's own limit.** -/
theorem categoryAfter_eq_fresh_iff (k : Nat) :
    (∀ (index : TypeIndex) (history : List String) (spelling : String),
      (∀ s ∈ spelling :: history, Settles index k s) →
        categoryAfter index history spelling = Classifying.fresh (classify index spelling)) ↔
      k ≤ maxSteps := by
  constructor
  · intro h
    rcases Nat.lt_or_ge maxSteps k with hlt | hle
    · refine absurd (h {} [nineDimensions] "int" ?_) categoryAfter_nineDimensions_ne
      intro s hs
      rcases List.mem_cons.mp hs with rfl | hs
      · exact settles_int.mono (by omega)
      · rw [List.mem_singleton.mp hs]
        exact settles_nineDimensions.mono hlt
    · exact hle
  · intro hk index history spelling h
    have settled : ∀ s ∈ spelling :: history, Settles index maxSteps s :=
      fun s hs => (h s hs).mono hk
    have alone : categoryAfter index [] spelling = categoryWithin index maxSteps spelling :=
      categoryAfter_of_settles fun s hs => settled s (by simp_all)
    rw [categoryAfter_of_settles settled]
    exact alone.symm

/-- Without a limit on what may be asked, the memo does influence answers. -/
theorem categoryAfter_depends_on_history :
    ¬ ∀ (index : TypeIndex) (history : List String) (spelling : String),
      categoryAfter index history spelling = Classifying.fresh (classify index spelling) :=
  fun h => categoryAfter_nineDimensions_ne (h {} [nineDimensions] "int")

end LuaGlue
