import LuaGlue.Proofs.Classifier.Memo

/-!
# One category per spelling

A classifier is asked about one spelling after another. What the memo holds between two of these calls is
never taken back (`memoAt_grows`), so a spelling that comes up again is given the answer it was given first,
and the answers of a run are those of one function from spellings to categories
(`one_category_per_spelling`).

That is no matter of course within a call: a spelling may be met again further down before anything has been
written down for it, and then the outer answer replaces the inner one. An alias to a function pointer that
takes the alias itself does this at every second step.
-/

set_option autoImplicit false

namespace LuaGlue

variable (index : TypeIndex) (spellings : List String) (m : Memo)

/-! ## Calls in a row -/

/-- The answers to a sequence of calls on one classifier, whose memo is `m` at the beginning. -/
def answers : List Category := ((spellings.mapM (classify index)).run m).1

/-- The memo before the call number `k` of a sequence, which is that after the calls before it. -/
def memoAt (k : Nat) : Memo := (((spellings.take k).mapM (classify index)).run m).2

theorem answers_cons (spelling : String) (rest : List String) :
    answers index (spelling :: rest) m =
      ((classify index spelling).run m).1 ::
        answers index rest ((classify index spelling).run m).2 := by
  rw [answers, List.mapM_cons]
  rfl

theorem memoAt_cons (spelling : String) (rest : List String) (k : Nat) :
    memoAt index (spelling :: rest) m (k + 1) =
      memoAt index rest ((classify index spelling).run m).2 k := by
  rw [memoAt, List.take_succ_cons, List.mapM_cons]
  rfl

/-- Each answer is that of the classifier to the memo as it then is, and each call hands on the memo that
the next one finds. -/
theorem call_at (k : Nat) (hk : k < spellings.length) :
    (answers index spellings m)[k]? =
        some ((classify index spellings[k]).run (memoAt index spellings m k)).1 ∧
      memoAt index spellings m (k + 1) =
        ((classify index spellings[k]).run (memoAt index spellings m k)).2 := by
  induction spellings generalizing m k with
  | nil => exact absurd hk (Nat.not_lt_zero k)
  | cons spelling rest ih =>
    rw [answers_cons, memoAt_cons]
    cases k with
    | zero => exact ⟨rfl, rfl⟩
    | succ k =>
      rw [memoAt_cons]
      exact ih _ k (Nat.lt_of_succ_lt_succ hk)

theorem answers_length : (answers index spellings m).length = spellings.length := by
  induction spellings generalizing m with
  | nil => rfl
  | cons spelling rest ih => rw [answers_cons, List.length_cons, ih, List.length_cons]

/-! ## The answers agree -/

/-- No call of the sequence takes back an answer that was there before it. -/
theorem memoAt_grows (k : Nat) :
    (memoAt index spellings m k).Grows (memoAt index spellings m (k + 1)) := by
  by_cases hk : k < spellings.length
  · rw [(call_at index spellings m k hk).2]
    exact classify_grows index spellings[k] _
  · have hall : spellings.length ≤ k := Nat.le_of_not_lt hk
    rw [memoAt, memoAt, List.take_of_length_le hall,
      List.take_of_length_le (Nat.le_succ_of_le hall)]
    exact Memo.Grows.refl _

theorem memoAt_grows_of_le {j k : Nat} (h : j ≤ k) :
    (memoAt index spellings m j).Grows (memoAt index spellings m k) := by
  induction h with
  | refl => exact Memo.Grows.refl _
  | step _ ih => exact ih.trans (memoAt_grows index spellings m _)

/-- What was answered once is answered again. -/
theorem answers_agree_of_lt {j k : Nat} (hjk : j < k) (hk : k < spellings.length)
    (hsame : spellings[j]? = spellings[k]?) :
    (answers index spellings m)[j]? = (answers index spellings m)[k]? := by
  have hj : j < spellings.length := Nat.lt_trans hjk hk
  have hspelling : spellings[j] = spellings[k] := by
    simpa [List.getElem?_eq_getElem hj, List.getElem?_eq_getElem hk] using hsame
  obtain ⟨hfirst, hafter⟩ := call_at index spellings m j hj
  obtain ⟨hagain, -⟩ := call_at index spellings m k hk
  -- the first answer is in the memo after its call, and still is before the second
  have hremembered := classify_remembered index spellings[j] (memoAt index spellings m j)
  rw [← hafter] at hremembered
  have hknown := memoAt_grows_of_le index spellings m hjk _ _ hremembered
  rw [hspelling] at hknown
  rw [hfirst, hagain, classify_known hknown, hspelling]

/-- **Within one run a spelling has one category.** Every call of a sequence is answered, two calls with the
same spelling are given the same answer, and no call changes what the memo held for any spelling before
it: whatever the index, cyclic aliases included, and whatever the memo at the beginning. -/
theorem one_category_per_spelling :
    (answers index spellings m).length = spellings.length ∧
      (∀ j k : Nat, spellings[j]? = spellings[k]? →
        (answers index spellings m)[j]? = (answers index spellings m)[k]?) ∧
      ∀ k : Nat, (memoAt index spellings m k).Grows (memoAt index spellings m (k + 1)) := by
  refine ⟨answers_length index spellings m, fun j k hsame => ?_, memoAt_grows index spellings m⟩
  by_cases hk : k < spellings.length
  · have hj : j < spellings.length := by
      rw [List.getElem?_eq_getElem hk] at hsame
      exact (List.getElem?_eq_some_iff.mp hsame).1
    rcases Nat.lt_trichotomy j k with h | rfl | h
    · exact answers_agree_of_lt index spellings m h hk hsame
    · rfl
    · exact (answers_agree_of_lt index spellings m h hj hsame.symm).symm
  · -- neither call is there
    have hnone : spellings[k]? = none := List.getElem?_eq_none (Nat.le_of_not_lt hk)
    have hnone' := hsame.trans hnone
    have hlength := answers_length index spellings m
    rw [List.getElem?_eq_none (hlength ▸ List.getElem?_eq_none_iff.mp hnone'),
      List.getElem?_eq_none (hlength ▸ List.getElem?_eq_none_iff.mp hnone)]

/-- An alias to a function pointer that takes the alias: one call writes five answers under its spelling,
of which the last one is given out. -/
example :
    let after := ((classify { aliases := [("F", "void (*)(F)")] } "F").run {}).2
    (after.entries.filter (·.1 == "F")).length = 5 := by
  decide +kernel

end LuaGlue
