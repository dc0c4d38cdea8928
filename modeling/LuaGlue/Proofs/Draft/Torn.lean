import LuaGlue.Proofs.Draft.Written

/-!
# Steps of generation that break off

`m.FailsAs P s` says both when a step fails and why: run from `s`, it breaks off with a fault of which
`P` holds, or it succeeds and `P` holds of no fault. `P` looks at the memo, and is asked over every
memo from then on, so that what is found out about one part of a type stays true while the next one is
looked at.

There is one rule for each way to put steps together. Two steps in a row fail as the first one or as
the second one does (`FailsAs.bind`); whatever is laid around a step fails as the step does; lines and
temporaries never fail.
-/

set_option autoImplicit false

namespace LuaGlue

namespace Draft

variable {α β : Type} {m : Draft α} {P Q : Fault → Memo → Prop} {s : Scratch}

/-- Run from `s`, the step breaks off with a fault of which `P` holds, or `P` holds of no fault. -/
def FailsAs (m : Draft α) (P : Fault → Memo → Prop) (s : Scratch) : Prop :=
  ∀ M, (m s).2.memo.Grows M →
    match (m s).1 with
    | .torn fault _ => P fault M
    | .written _ _ => ∀ fault, ¬ P fault M

namespace FailsAs

theorem congr (h : m.FailsAs P s) (hm : m.Grows)
    (hPQ : ∀ M, s.memo.Grows M → ∀ fault, P fault M ↔ Q fault M) : m.FailsAs Q s := by
  intro M hM
  have hP := h M hM
  have hPQ := hPQ M ((hm s).trans hM)
  rcases hr : m s with ⟨a | fault, s'⟩ <;> rw [hr] at hP
  · exact fun fault hQ => hP fault ((hPQ fault).mpr hQ)
  · exact (hPQ _).mp hP

/-- A step that never breaks off. -/
theorem never {a : α} {code : Code} {s' : Scratch} (h : m s = (.written a code, s'))
    (hP : ∀ M, s'.memo.Grows M → ∀ fault, ¬ P fault M) : m.FailsAs P s := by
  unfold FailsAs
  rw [h]
  exact hP

theorem line {l : Line} (hP : ∀ M, s.memo.Grows M → ∀ fault, ¬ P fault M) :
    (Draft.line l).FailsAs P s :=
  never rfl hP

theorem fail {fault : Fault} (hP : ∀ M, s.memo.Grows M → P fault M) :
    (Draft.fail fault : Draft α).FailsAs P s := hP

/-- Two steps in a row fail as one of them does. -/
theorem bind {f : α → Draft β} (h : m.FailsAs P s) (hm : m.Grows) (hg : ∀ a, (f a).Grows)
    (hf : ∀ a s', s.memo.Grows s'.memo → (f a).FailsAs Q s') :
    (m >>= f).FailsAs (fun fault M => P fault M ∨ Q fault M) s := by
  intro M hM
  change (Draft.bind m f s).2.memo.Grows M at hM
  change match (Draft.bind m f s).1 with
    | .torn fault _ => P fault M ∨ Q fault M
    | .written _ _ => ∀ fault, ¬ (P fault M ∨ Q fault M)
  have hgrows := hm s
  unfold FailsAs at h
  unfold Draft.bind at hM ⊢
  rcases hr : m s with ⟨a | fault, s'⟩ <;> rw [hr] at h hgrows hM
  · have hsecond := hf a s' hgrows
    unfold FailsAs at hsecond
    have hs' := hg a s'
    dsimp only at hM ⊢
    rcases hr' : f a s' with ⟨b | fault, s''⟩ <;> rw [hr'] at hs' hM hsecond
    · rintro fault (hP | hQ)
      · exact h M (hs'.trans hM) fault hP
      · exact hsecond M hM fault hQ
    · exact .inr (hsecond M hM)
  · exact .inl (h M hM)

/-- A step after one that never breaks off and leaves the memo as it is. -/
theorem after {f : α → Draft β} {a : α} {code : Code} {s' : Scratch}
    (h : m s = (.written a code, s')) (hf : (f a).FailsAs P s') : (m >>= f).FailsAs P s := by
  intro M hM
  change (Draft.bind m f s).2.memo.Grows M at hM
  change match (Draft.bind m f s).1 with
    | .torn fault _ => P fault M
    | .written _ _ => ∀ fault, ¬ P fault M
  unfold FailsAs at hf
  unfold Draft.bind at hM ⊢
  rw [h] at hM ⊢
  dsimp only at hM ⊢
  rcases hr : f a s' with ⟨b | fault, s''⟩ <;> rw [hr] at hf hM
  · exact hf M hM
  · exact hf M hM

theorem afterLine {f : Unit → Draft β} {l : Line} (hf : (f ()).FailsAs P s) :
    (Draft.line l >>= f).FailsAs P s :=
  after rfl hf

theorem afterLines {f : Unit → Draft β} {ls : List Line} (hf : (f ()).FailsAs P s) :
    (Draft.lines ls >>= f).FailsAs P s :=
  after rfl hf

theorem afterTemp {f : String → Draft β}
    (hf : ∀ name s', s'.memo = s.memo → (f name).FailsAs P s') : (Draft.temp >>= f).FailsAs P s :=
  after rfl (hf _ _ rfl)

/-- A step before lines, which add nothing to how it fails. -/
theorem beforeLine {m : Draft Unit} {l : Line} (h : m.FailsAs P s) (hm : m.Grows) :
    (m >>= fun _ => Draft.line l).FailsAs P s :=
  (h.bind (Q := fun _ _ => False) hm (fun _ => Grows.line l) fun _ _ _ =>
    .line fun _ _ _ => id).congr (hm.bind fun _ => Grows.line l) fun _ _ _ =>
      iff_of_eq (or_false _)

/-- Laying something around a step changes nothing about how it fails. -/
theorem around (h : m.FailsAs P s) (g : Code → Code) (t : List Event → List Event) :
    Draft.FailsAs (fun s => match m s with
      | (.written value inner, s') => (Outcome.written value (g inner), s')
      | (.torn fault events, s') => (.torn fault (t events), s')) P s := by
  unfold FailsAs at h ⊢
  dsimp only
  rcases hr : m s with ⟨a | fault, s'⟩ <;> rw [hr] at h <;> exact h

theorem block (head : Head) (h : m.FailsAs P s) : (Draft.block head m).FailsAs P s :=
  h.around (fun body => .block head body .brace .done) _

theorem branch (c : Cond) (otherwise : Code) (h : m.FailsAs P s) :
    (Draft.branch c m otherwise).FailsAs P s :=
  h.around (fun yes => .branch c yes otherwise .done) _

/-- A step that goes by the category of a spelling, which is in the memo from then on. -/
theorem categoryOf {ctx : Context} {spelling : String} {f : Category → Draft β}
    (hf : ∀ c s', s'.memo.find? spelling = some c → (f c).FailsAs P s') :
    (ctx.categoryOf spelling >>= f).FailsAs P s :=
  after rfl (hf _ _ (classify_remembered ctx.index spelling s.memo))

end FailsAs

/-! ## Faults of outcomes -/

/-- After a step that succeeds, two steps in a row have the fault of the second one. -/
theorem bind_fault?_of_written {f : α → Draft β} {a : α} {code : Code} {s' : Scratch}
    (h : m s = (.written a code, s')) : ((m >>= f) s).1.fault? = (f a s').1.fault? := by
  change (Draft.bind m f s).1.fault? = _
  unfold Draft.bind
  rw [h]
  rcases hf : f a s' with ⟨_ | _, _⟩ <;> simp only [hf, Outcome.after, Outcome.fault?]

/-- Before a step that never breaks off, they have the fault of the first one. -/
theorem bind_fault?_of_never {f : α → Draft β} (hf : ∀ a s', (f a s').1.fault? = none) :
    ((m >>= f) s).1.fault? = (m s).1.fault? := by
  rcases hm : m s with ⟨a | fault, s'⟩
  · rw [bind_fault?_of_written hm, hf]
    rfl
  · change (Draft.bind m f s).1.fault? = _
    unfold Draft.bind
    rw [hm]
    rfl

theorem block_fault? (head : Head) : (Draft.block head m s).1.fault? = (m s).1.fault? := by
  unfold Draft.block Draft.blockEnding
  rcases m s with ⟨_ | _, _⟩ <;> rfl

/-- A step whose outcome has a fault has broken off with it. -/
theorem exists_torn (m : Draft α) (s : Scratch) {fault : Fault}
    (h : (m s).1.fault? = some fault) : ∃ events s', m s = (.torn fault events, s') := by
  rcases hm : m s with ⟨a | fault', s'⟩
  · rw [hm] at h
    cases h
  · rw [hm] at h
    cases h
    exact ⟨_, s', rfl⟩

end Draft

end LuaGlue
