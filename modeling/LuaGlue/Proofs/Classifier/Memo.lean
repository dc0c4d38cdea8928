import LuaGlue.Classifier

/-!
# What the memo knows stays known

A question to the classifier may extend the memo and may overwrite an entry it has written itself,
but it never takes back an answer that was there before it: `classifyFrom` writes an entry only for
a spelling it did not find, and an entry that is there is found. So the memos of one run form a
chain under `Memo.Grows`, and two questions about one spelling have one answer.

Everything that asks the classifier inherits this (`Classifying.Grows`), and the answer it is given
is in the memo from then on (`classify_remembered`).
-/

set_option autoImplicit false

namespace LuaGlue

/-! ## Memos in a row -/

theorem Memo.find?_insert_self (m : Memo) (spelling : String) (c : Category) :
    (m.insert spelling c).find? spelling = some c := by
  simp [Memo.find?, Memo.insert]

theorem Memo.find?_insert_ne {m : Memo} {spelling other : String} (c : Category)
    (h : other ≠ spelling) : (m.insert spelling c).find? other = m.find? other := by
  have hne : (other == spelling) = false := by simpa using h
  simp [Memo.find?, Memo.insert, List.lookup_cons, hne]

/-- Every answer of the first memo is the second one's answer too. -/
def Memo.Grows (m m' : Memo) : Prop :=
  ∀ spelling c, m.find? spelling = some c → m'.find? spelling = some c

theorem Memo.Grows.refl (m : Memo) : m.Grows m := fun _ _ h => h

theorem Memo.Grows.trans {m₁ m₂ m₃ : Memo} (h : m₁.Grows m₂) (h' : m₂.Grows m₃) : m₁.Grows m₃ :=
  fun spelling c hc => h' spelling c (h spelling c hc)

/-- Writing down an answer for a spelling without one. -/
theorem Memo.Grows.insert {m : Memo} {spelling : String} (c : Category)
    (h : m.find? spelling = none) : m.Grows (m.insert spelling c) := by
  intro other c' hc'
  have hne : other ≠ spelling := by
    rintro rfl
    rw [h] at hc'
    exact absurd hc' (by simp)
  rw [Memo.find?_insert_ne c hne]
  exact hc'

/-! ## Questions in a row -/

namespace Classifying

variable {α β : Type}

theorem run_bind (q : Classifying α) (f : α → Classifying β) (m : Memo) :
    (q >>= f).run m = (f (q.run m).1).run (q.run m).2 := rfl

theorem run_pure (a : α) (m : Memo) : (Pure.pure a : Classifying α).run m = (a, m) := rfl

/-- Two questions in a row, taken apart. -/
theorem run_bind_eq {q : Classifying α} {f : α → Classifying β} {m m' : Memo} {b : β} :
    (q >>= f).run m = (b, m') ↔
      ∃ a m₁, q.run m = (a, m₁) ∧ (f a).run m₁ = (b, m') := by
  rw [run_bind]
  constructor
  · exact fun h => ⟨_, _, rfl, h⟩
  · rintro ⟨a, m₁, hq, hf⟩
    rwa [hq]

theorem run_pure_eq {a b : α} {m m' : Memo} :
    (Pure.pure a : Classifying α).run m = (b, m') ↔ a = b ∧ m' = m := by
  rw [run_pure, Prod.mk.injEq]
  exact and_congr_right fun _ => eq_comm

/-- What can be told of an answer before the question is put, of many questions in a row. -/
theorem run_mapM_map {γ : Type} {q : α → Classifying β} {g : β → γ} {g' : α → γ}
    (h : ∀ a m, g ((q a).run m).1 = g' a) (as : List α) (m : Memo) :
    ((as.mapM q).run m).1.map g = as.map g' := by
  induction as generalizing m with
  | nil => rfl
  | cons a rest ih =>
    rw [List.mapM_cons, run_bind, run_bind, run_pure, List.map_cons, List.map_cons, ih, h]

theorem run_mapM_length (q : α → Classifying β) (as : List α) (m : Memo) :
    ((as.mapM q).run m).1.length = as.length := by
  have h : ((as.mapM q).run m).1.map (fun _ => ()) = as.map fun _ => () :=
    run_mapM_map (fun _ _ => rfl) as m
  simpa using congrArg List.length h

end Classifying

/-! ## Questions that take nothing back -/

/-- A question after which the memo has all the answers it had before. -/
def Classifying.Grows {α : Type} (q : Classifying α) : Prop := ∀ m : Memo, m.Grows (q.run m).2

namespace Classifying.Grows

variable {α β : Type}

theorem pure (a : α) : Classifying.Grows (Pure.pure a : Classifying α) := fun m => Memo.Grows.refl m

theorem bind {q : Classifying α} {f : α → Classifying β} (hq : q.Grows)
    (hf : ∀ a, (f a).Grows) : (q >>= f).Grows :=
  fun m => (hq m).trans (hf _ _)

theorem mapM {q : α → Classifying β} (hq : ∀ a, (q a).Grows) (as : List α) : (as.mapM q).Grows := by
  induction as with
  | nil => exact Grows.pure []
  | cons a rest ih =>
    rw [List.mapM_cons]
    exact (hq a).bind fun b => ih.bind fun bs => Grows.pure (b :: bs)

theorem anyM {q : α → Classifying Bool} (hq : ∀ a, (q a).Grows) (as : List α) :
    (as.anyM q).Grows := by
  induction as with
  | nil => exact Grows.pure false
  | cons a rest ih =>
    refine (hq a).bind fun found => ?_
    cases found with
    | true => exact Grows.pure true
    | false => exact ih

end Classifying.Grows

/-- The question has been put before, and was answered with `a`. -/
def Classifying.Answered {α : Type} (q : Classifying α) (a : α) (m : Memo) : Prop :=
  ∃ m₀, (q.run m₀).1 = a ∧ (q.run m₀).2.Grows m

theorem Classifying.Answered.mono {α : Type} {q : Classifying α} {a : α} {m m' : Memo}
    (h : q.Answered a m) (hm : m.Grows m') : q.Answered a m' := by
  obtain ⟨m₀, ha, hgrows⟩ := h
  exact ⟨m₀, ha, hgrows.trans hm⟩

/-! ## The classifier's own questions -/

/-- What the classifier does about a spelling that is not in the memo, up to writing the answer
down. -/
def classifyAnew (index : TypeIndex) (steps : Nat) (spelling : String) : Classifying Category :=
  match steps with
  | 0 => pure .unknown
  | rest + 1 =>
    match CType.parse spelling with
    | .named t => classifyNamed index (classifyFrom index rest) t
    | .function f => do
      let result ← classifyFrom index rest f.result
      let params ← f.params.mapM (classifyFrom index rest)
      pure (.callback result params f.variadic)
    | .malformed => pure .unknown

/-- The classifier looks a spelling up before it does anything else about it. -/
theorem classifyFrom_run (index : TypeIndex) (steps : Nat) (spelling : String) (m : Memo) :
    (classifyFrom index steps spelling).run m =
      match m.find? spelling with
      | some c => (c, m)
      | none =>
        (((classifyAnew index steps spelling).run m).1,
          ((classifyAnew index steps spelling).run m).2.insert spelling
            ((classifyAnew index steps spelling).run m).1) := by
  rw [classifyFrom]
  change StateT.run (match m.find? spelling with | some c => _ | none => _) m = _
  cases m.find? spelling with
  | some c => rfl
  | none =>
    cases steps with
    | zero => rfl
    | succ rest =>
      unfold classifyAnew
      cases CType.parse spelling <;> rfl

/-- A named type hands on at most one spelling, and whatever takes nothing back there takes nothing
back here. -/
theorem classifyNamed_grows (index : TypeIndex) {next : String → Classifying Category}
    (hn : ∀ spelling, (next spelling).Grows) (t : NamedType) :
    (classifyNamed index next t).Grows := by
  unfold classifyNamed
  split
  · split
    · exact hn _
    · exact Classifying.Grows.pure _
  · split
    · refine (hn _).bind fun elem => ?_
      split <;> exact Classifying.Grows.pure _
    · exact Classifying.Grows.pure _
    · split
      · exact hn _
      · split <;> exact Classifying.Grows.pure _

/-- **Nothing the memo holds is ever taken back**, however deep the question leads. The induction is
on the steps left; the answer written down at the end is for a spelling that the memo had nothing
for at the beginning, whatever was written for it in between. -/
theorem classifyFrom_grows (index : TypeIndex) :
    ∀ (steps : Nat) (spelling : String), (classifyFrom index steps spelling).Grows := by
  intro steps
  induction steps with
  | zero =>
    intro spelling m
    rw [classifyFrom_run]
    cases h : m.find? spelling with
    | some c => exact Memo.Grows.refl m
    | none => exact Memo.Grows.insert _ h
  | succ rest ih =>
    intro spelling m
    rw [classifyFrom_run]
    cases h : m.find? spelling with
    | some c => exact Memo.Grows.refl m
    | none =>
      have anew : (classifyAnew index (rest + 1) spelling).Grows := by
        unfold classifyAnew
        dsimp only
        split
        · exact classifyNamed_grows index ih _
        · exact (ih _).bind fun result => (Classifying.Grows.mapM ih _).bind fun params =>
            Classifying.Grows.pure _
        · exact Classifying.Grows.pure _
      intro other c hc
      have hne : other ≠ spelling := by
        rintro rfl
        rw [h] at hc
        exact absurd hc (by simp)
      change (Memo.insert _ spelling _).find? other = some c
      rw [Memo.find?_insert_ne _ hne]
      exact anew m other c hc

theorem classify_grows (index : TypeIndex) (spelling : String) : (classify index spelling).Grows :=
  classifyFrom_grows index maxSteps spelling

/-- The answer to a question is in the memo afterwards. -/
theorem classifyFrom_remembered (index : TypeIndex) (steps : Nat) (spelling : String) (m : Memo) :
    ((classifyFrom index steps spelling).run m).2.find? spelling =
      some ((classifyFrom index steps spelling).run m).1 := by
  rw [classifyFrom_run]
  cases h : m.find? spelling with
  | some c => exact h
  | none => exact Memo.find?_insert_self _ spelling _

/-- What a question hands on has all that was known before. -/
theorem Classifying.Grows.of_run {α : Type} {q : Classifying α} {a : α} {m m' : Memo}
    (hq : q.Grows) (h : q.run m = (a, m')) : m.Grows m' := by
  have hm := hq m
  rwa [h] at hm

theorem classify_remembered (index : TypeIndex) (spelling : String) (m : Memo) :
    ((classify index spelling).run m).2.find? spelling =
      some ((classify index spelling).run m).1 :=
  classifyFrom_remembered index maxSteps spelling m

theorem classify_answered {index : TypeIndex} {spelling : String} {m m' : Memo} {c : Category}
    (h : (classify index spelling).run m = (c, m')) : m'.find? spelling = some c := by
  have hremembered := classify_remembered index spelling m
  rwa [h] at hremembered

/-- A spelling the memo has an answer for is given that answer. -/
theorem classify_known {index : TypeIndex} {spelling : String} {m : Memo} {c : Category}
    (h : m.find? spelling = some c) : (classify index spelling).run m = (c, m) := by
  unfold classify
  rw [classifyFrom_run, h]

/-! ## Questions that last -/

/-- A question to which the answer stays the same: put again when no less is known than after it was
answered, it has the same answer, and nothing is found out. -/
structure Classifying.Lasts {α : Type} (q : Classifying α) : Prop where
  grows : q.Grows
  again : ∀ m m', (q.run m).2.Grows m' → q.run m' = ((q.run m).1, m')

namespace Classifying.Lasts

variable {α β : Type}

theorem pure (a : α) : Classifying.Lasts (Pure.pure a : Classifying α) := ⟨.pure a, fun _ _ _ => rfl⟩

theorem bind {q : Classifying α} {f : α → Classifying β} (hq : q.Lasts) (hf : ∀ a, (f a).Lasts) :
    (q >>= f).Lasts where
  grows := hq.grows.bind fun a => (hf a).grows
  again := by
    intro m m' hm
    have hfirst := hq.again m m' (((hf _).grows _).trans hm)
    rw [run_bind, run_bind, hfirst]
    exact (hf _).again _ _ hm

theorem mapM {q : α → Classifying β} (hq : ∀ a, (q a).Lasts) (as : List α) : (as.mapM q).Lasts := by
  induction as with
  | nil => exact .pure []
  | cons a rest ih =>
    rw [List.mapM_cons]
    exact (hq a).bind fun b => ih.bind fun bs => .pure (b :: bs)

end Classifying.Lasts

theorem classify_lasts (index : TypeIndex) (spelling : String) : (classify index spelling).Lasts where
  grows := classify_grows index spelling
  again := fun m _ hm => classify_known (hm _ _ (classify_remembered index spelling m))

end LuaGlue
