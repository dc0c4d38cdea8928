import LuaGlue.Proofs.Draft.Written

/-!
# Steps of generation that come to the same

Two steps *mirror* each other (`Draft.Mirrors`) if it makes no difference which of them is run, as far as
succeeding and what is known are concerned: from the same memo, both succeed or both break off with one
fault, and they leave the same memo. What they write may differ.

Steps are run again when more is known, and so the same is asked of a second step that is run from any memo
that has all that the first one has found out: it comes to the same and finds out nothing. For this it is
enough that every question is one that lasts (`Classifying.Lasts`), as the classifier's are.

There is one rule for each primitive and for each way to put steps together. Steps that ask nothing and
never break off mirror each other whatever they write (`Draft.Plain`).
-/

set_option autoImplicit false

namespace LuaGlue

variable {α α' β β' : Type}

/-! ## Two steps in a row -/

theorem Draft.bind_of_written {d : Draft α} {f : α → Draft β} {s s₁ : Scratch} {a : α} {code : Code}
    (h : d s = (.written a code, s₁)) : (d >>= f) s = ((f a s₁).1.after code, (f a s₁).2) := by
  change Draft.bind d f s = _
  unfold Draft.bind
  rw [h]

theorem Draft.bind_of_torn {d : Draft α} {f : α → Draft β} {s s₁ : Scratch} {fault : Fault}
    {events : List Event} (h : d s = (.torn fault events, s₁)) :
    (d >>= f) s = (.torn fault events, s₁) := by
  change Draft.bind d f s = _
  unfold Draft.bind
  rw [h]

/-! ## Steps that come to the same -/

/-- Both outcomes are values that belong together, or both are one fault. -/
def Outcome.Agree (R : α → α' → Prop) : Outcome α → Outcome α' → Prop
  | .written a _, .written a' _ => R a a'
  | .torn fault _, .torn fault' _ => fault = fault'
  | .written .., .torn .. | .torn .., .written .. => False

theorem Outcome.Agree.after_left {R : α → α' → Prop} {o : Outcome α} {o' : Outcome α'} {code : Code}
    (h : o.Agree R o') : (o.after code).Agree R o' := by
  cases o <;> cases o' <;> exact h

theorem Outcome.Agree.after_right {R : α → α' → Prop} {o : Outcome α} {o' : Outcome α'} {code : Code}
    (h : o.Agree R o') : o.Agree R (o'.after code) := by
  cases o <;> cases o' <;> exact h

/-- Run when the first step is run from `s`, and at any time after that, the second step comes to the same,
up to what values belong together. -/
structure Draft.MirrorsBy (R : α → α' → Prop) (d : Draft α) (d' : Draft α') (s : Scratch) : Prop where
  grows : s.memo.Grows (d s).2.memo
  now : ∀ t, t.memo = s.memo → (d s).1.Agree R (d' t).1 ∧ (d' t).2.memo = (d s).2.memo
  later : ∀ t, (d s).2.memo.Grows t.memo → (d s).1.Agree R (d' t).1 ∧ (d' t).2.memo = t.memo

/-- The same where values do not matter. -/
abbrev Draft.Mirrors (d : Draft α) (d' : Draft α') (s : Scratch) : Prop :=
  d.MirrorsBy (fun _ _ => True) d' s

/-- A step that never breaks off, whatever is known, and finds out nothing. -/
def Draft.Plain (d : Draft α) : Prop := ∀ s, ∃ a code, (d s).1 = .written a code ∧ (d s).2.memo = s.memo

namespace Draft.Plain

theorem pure (a : α) : Draft.Plain (Pure.pure a : Draft α) := fun _ => ⟨a, .done, rfl, rfl⟩

theorem line (l : Line) : Draft.Plain (Draft.line l) := fun _ => ⟨(), _, rfl, rfl⟩

theorem lines (ls : List Line) : Draft.Plain (Draft.lines ls) := fun _ => ⟨(), _, rfl, rfl⟩

theorem write (code : Code) : Draft.Plain (Draft.write code) := fun _ => ⟨(), _, rfl, rfl⟩

theorem temp : Draft.Plain Draft.temp := fun _ => ⟨_, .done, rfl, rfl⟩

theorem bind {d : Draft α} {f : α → Draft β} (hd : d.Plain) (hf : ∀ a, (f a).Plain) :
    (d >>= f).Plain := by
  intro s
  obtain ⟨a, code, hwritten, hmemo⟩ := hd s
  obtain ⟨b, code', hwritten', hmemo'⟩ := hf a (d s).2
  have hrun : (d >>= f) s = (.written b (code ++ code'), (f a (d s).2).2) := by
    rw [bind_of_written (Prod.ext hwritten rfl), hwritten']
    rfl
  rw [hrun]
  exact ⟨b, _, rfl, hmemo'.trans hmemo⟩

/-- Laying something around a step leaves it plain. -/
theorem around {d : Draft α} (hd : d.Plain) (g : Code → Code) (t : List Event → List Event) :
    Draft.Plain fun s => match d s with
      | (.written value inner, s') => (Outcome.written value (g inner), s')
      | (.torn fault events, s') => (.torn fault (t events), s') := by
  intro s
  obtain ⟨a, code, hwritten, hmemo⟩ := hd s
  dsimp only
  rw [show d s = (.written a code, (d s).2) from Prod.ext hwritten rfl]
  exact ⟨a, g code, rfl, hmemo⟩

theorem block {d : Draft α} (head : Head) (hd : d.Plain) : (Draft.block head d).Plain :=
  hd.around (fun body => .block head body .brace .done) _

theorem branch {d : Draft α} (c : Cond) (otherwise : Code) (hd : d.Plain) :
    (Draft.branch c d otherwise).Plain :=
  hd.around (fun yes => .branch c yes otherwise .done) _

end Draft.Plain

namespace Draft.MirrorsBy

variable {R : α → α' → Prop} {Q : β → β' → Prop} {d : Draft α} {d' : Draft α'} {s : Scratch}

/-- Steps that ask nothing and never break off. -/
theorem plain (hd : d.Plain) (hd' : d'.Plain) : d.Mirrors d' s := by
  obtain ⟨a, code, hwritten, hmemo⟩ := hd s
  refine ⟨by rw [hmemo]; exact .refl _, fun t ht => ?_, fun t _ => ?_⟩ <;>
    obtain ⟨a', code', hwritten', hmemo'⟩ := hd' t <;> rw [hwritten, hwritten', hmemo']
  · exact ⟨trivial, by rw [hmemo, ht]⟩
  · exact ⟨trivial, rfl⟩

theorem fail (fault : Fault) : (Draft.fail fault : Draft α).MirrorsBy R (Draft.fail fault : Draft α') s :=
  ⟨.refl _, fun _ ht => ⟨rfl, ht⟩, fun _ _ => ⟨rfl, rfl⟩⟩

theorem pure {a : α} {a' : α'} (h : R a a') :
    (Pure.pure a : Draft α).MirrorsBy R (Pure.pure a' : Draft α') s :=
  ⟨.refl _, fun _ ht => ⟨h, ht⟩, fun _ _ => ⟨h, rfl⟩⟩

theorem ofExcept (e : Except Fault α) : (Draft.ofExcept e).MirrorsBy Eq (Draft.ofExcept e) s := by
  cases e with
  | ok a => exact .pure rfl
  | error fault => exact .fail fault

/-- A question that lasts. -/
theorem asking {q : Classifying α} (hq : q.Lasts) :
    (Draft.asking q).MirrorsBy Eq (Draft.asking q) s where
  grows := hq.grows s.memo
  now := by
    intro t ht
    change (q.run s.memo).1 = (q.run t.memo).1 ∧ (q.run t.memo).2 = (q.run s.memo).2
    rw [ht]
    exact ⟨rfl, rfl⟩
  later := by
    intro t ht
    change (q.run s.memo).1 = (q.run t.memo).1 ∧ (q.run t.memo).2 = t.memo
    rw [hq.again s.memo t.memo ht]
    exact ⟨rfl, rfl⟩

/-- Two questions by which nothing is found out any more, even if the answers differ. -/
theorem askingKnown {q : Classifying α} {q' : Classifying α'}
    (hq : ∀ m, s.memo.Grows m → (q.run m).2 = m) (hq' : ∀ m, s.memo.Grows m → (q'.run m).2 = m) :
    (Draft.asking q).Mirrors (Draft.asking q') s where
  grows := by
    change s.memo.Grows (q.run s.memo).2
    rw [hq _ (.refl _)]
    exact .refl _
  now := by
    intro t ht
    change True ∧ (q'.run t.memo).2 = (q.run s.memo).2
    rw [ht, hq _ (.refl _), hq' _ (.refl _)]
    exact ⟨trivial, rfl⟩
  later := by
    intro t ht
    change (q.run s.memo).2.Grows t.memo at ht
    rw [hq _ (.refl _)] at ht
    exact ⟨trivial, hq' _ ht⟩

/-- The workhorse: steps in a row come to the same if the first ones do, and the second ones after the first
have succeeded. -/
theorem bind {f : α → Draft β} {f' : α' → Draft β'} (h : d.MirrorsBy R d' s)
    (hf : ∀ a a' code s₁, d s = (.written a code, s₁) → R a a' → (f a).MirrorsBy Q (f' a') s₁) :
    (d >>= f).MirrorsBy Q (d' >>= f') s := by
  rcases hrun : d s with ⟨⟨a, code⟩ | ⟨fault, events⟩, s₁⟩
  · -- the second step does what the first one does, with a value that belongs to its value
    have second {t : Scratch} (hagree : (d s).1.Agree R (d' t).1) :
        ∃ a' code', d' t = (.written a' code', (d' t).2) ∧ (f a).MirrorsBy Q (f' a') s₁ := by
      rw [hrun] at hagree
      rcases hrun' : d' t with ⟨⟨a', code'⟩ | _, t₁⟩ <;> rw [hrun'] at hagree
      · exact ⟨a', code', rfl, hf a a' code s₁ hrun hagree⟩
      · exact hagree.elim
    have hfirst : (d s).2 = s₁ := by rw [hrun]
    obtain ⟨_, _, _, hnext⟩ := second (h.now s rfl).1
    have hwhole := bind_of_written (f := f) hrun
    refine ⟨?_, fun t ht => ?_, fun t ht => ?_⟩
    · rw [hwhole]
      have hgrows := h.grows
      rw [hfirst] at hgrows
      exact hgrows.trans hnext.grows
    · obtain ⟨hagree, hmemo⟩ := h.now t ht
      obtain ⟨a', code', hrun', hmirrors⟩ := second hagree
      rw [hfirst] at hmemo
      obtain ⟨hagree', hmemo'⟩ := hmirrors.now _ hmemo
      rw [hwhole, bind_of_written hrun']
      exact ⟨hagree'.after_left.after_right, hmemo'⟩
    · rw [hwhole] at ht
      obtain ⟨hagree, hmemo⟩ := h.later t (by rw [hfirst]; exact hnext.grows.trans ht)
      obtain ⟨a', code', hrun', hmirrors⟩ := second hagree
      obtain ⟨hagree', hmemo'⟩ := hmirrors.later (d' t).2 (by rw [hmemo]; exact ht)
      rw [hwhole, bind_of_written hrun']
      exact ⟨hagree'.after_left.after_right, hmemo'.trans hmemo⟩
  · -- both break off in the first step
    have torn {t : Scratch} (hagree : (d s).1.Agree R (d' t).1) :
        ∃ events', d' t = (.torn fault events', (d' t).2) := by
      rw [hrun] at hagree
      rcases hrun' : d' t with ⟨_ | ⟨fault', events'⟩, t₁⟩ <;> rw [hrun'] at hagree
      · exact hagree.elim
      · cases hagree
        exact ⟨events', rfl⟩
    have hwhole := bind_of_torn (f := f) hrun
    have hfirst : (d s).2 = s₁ := by rw [hrun]
    refine ⟨?_, fun t ht => ?_, fun t ht => ?_⟩
    · rw [hwhole, ← hfirst]
      exact h.grows
    · obtain ⟨hagree, hmemo⟩ := h.now t ht
      obtain ⟨events', hrun'⟩ := torn hagree
      rw [hwhole, bind_of_torn hrun', hmemo, hfirst]
      exact ⟨rfl, rfl⟩
    · rw [hwhole, ← hfirst] at ht
      obtain ⟨hagree, hmemo⟩ := h.later t ht
      obtain ⟨events', hrun'⟩ := torn hagree
      rw [hwhole, bind_of_torn hrun']
      exact ⟨rfl, hmemo⟩

/-- Steps after ones whose values do not matter. -/
theorem andThen {f : α → Draft β} {f' : α' → Draft β'} (h : d.Mirrors d' s)
    (hf : ∀ a a' s₁, s.memo.Grows s₁.memo → (f a).MirrorsBy Q (f' a') s₁) :
    (d >>= f).MirrorsBy Q (d' >>= f') s := by
  refine h.bind fun a a' code s₁ hrun _ => hf a a' s₁ ?_
  have hgrows := h.grows
  rwa [hrun] at hgrows

/-- A plain step that comes first on one side only. -/
theorem plainBefore {e : Draft α} {f : α → Draft β} {d' : Draft β'} (he : e.Plain)
    (h : ∀ a s₁, s₁.memo = s.memo → (f a).MirrorsBy Q d' s₁) : (e >>= f).MirrorsBy Q d' s := by
  obtain ⟨a, code, hwritten, hmemo⟩ := he s
  obtain ⟨hgrows, hnow, hlater⟩ := h a (e s).2 hmemo
  have hwhole := bind_of_written (f := f) (Prod.ext hwritten rfl : e s = (.written a code, (e s).2))
  refine ⟨?_, fun t ht => ?_, fun t ht => ?_⟩
  · rw [hwhole, ← hmemo]
    exact hgrows
  · obtain ⟨hagree, hmemo'⟩ := hnow t (ht.trans hmemo.symm)
    rw [hwhole]
    exact ⟨hagree.after_left, hmemo'⟩
  · rw [hwhole] at ht ⊢
    obtain ⟨hagree, hmemo'⟩ := hlater t ht
    exact ⟨hagree.after_left, hmemo'⟩

theorem plainBefore' {d : Draft β} {e : Draft α'} {f : α' → Draft β'} (he : e.Plain)
    (h : ∀ a, d.MirrorsBy Q (f a) s) : d.MirrorsBy Q (e >>= f) s := by
  -- the step is passed over wherever the second side is run from
  have pass (t : Scratch) : ∃ a code, (e >>= f) t = ((f a (e t).2).1.after code, (f a (e t).2).2) ∧
      (e t).2.memo = t.memo := by
    obtain ⟨a, code, hwritten, hmemo⟩ := he t
    exact ⟨a, code, bind_of_written (Prod.ext hwritten rfl), hmemo⟩
  refine ⟨?_, fun t ht => ?_, fun t ht => ?_⟩
  · obtain ⟨a, -, -, -⟩ := pass s
    exact (h a).grows
  · obtain ⟨a, code, hwhole, hmemo⟩ := pass t
    obtain ⟨hagree, hmemo'⟩ := (h a).now (e t).2 (hmemo.trans ht)
    rw [hwhole]
    exact ⟨hagree.after_right, hmemo'⟩
  · obtain ⟨a, code, hwhole, hmemo⟩ := pass t
    obtain ⟨hagree, hmemo'⟩ := (h a).later (e t).2 (by rw [hmemo]; exact ht)
    rw [hwhole]
    exact ⟨hagree.after_right, hmemo'.trans hmemo⟩

/-- Laying something around steps, not necessarily the same. -/
theorem around (h : d.MirrorsBy R d' s) (g g' : Code → Code) (t t' : List Event → List Event) :
    Draft.MirrorsBy R
      (fun s => match d s with
        | (.written value inner, s') => (Outcome.written value (g inner), s')
        | (.torn fault events, s') => (.torn fault (t events), s'))
      (fun s => match d' s with
        | (.written value inner, s') => (Outcome.written value (g' inner), s')
        | (.torn fault events, s') => (.torn fault (t' events), s')) s where
  grows := by
    have hgrows := h.grows
    rcases hrun : d s with ⟨a | _, s'⟩ <;> rw [hrun] at hgrows <;> exact hgrows
  now := by
    intro u hu
    have hnow := h.now u hu
    rcases hrun : d s with ⟨a | _, s₁⟩ <;> rcases hrun' : d' u with ⟨a' | _, u₁⟩ <;>
      rw [hrun, hrun'] at hnow <;> exact hnow
  later := by
    intro u hu
    have hlater := h.later u
    rcases hrun : d s with ⟨a | _, s₁⟩ <;> rcases hrun' : d' u with ⟨a' | _, u₁⟩ <;>
      rw [hrun] at hu hlater <;> rw [hrun'] at hlater <;> exact hlater hu

theorem block (head head' : Head) (h : d.MirrorsBy R d' s) :
    (Draft.block head d).MirrorsBy R (Draft.block head' d') s :=
  h.around (fun body => .block head body .brace .done) (fun body => .block head' body .brace .done) _ _

theorem branch (c c' : Cond) (otherwise otherwise' : Code) (h : d.MirrorsBy R d' s) :
    (Draft.branch c d otherwise).MirrorsBy R (Draft.branch c' d' otherwise') s :=
  h.around (fun yes => .branch c yes otherwise .done) (fun yes => .branch c' yes otherwise' .done) _ _

/-- A step that goes by the category of a spelling. -/
theorem categoryOf {ctx ctx' : Context} {spelling : String} {f : Category → Draft β}
    {f' : Category → Draft β'} (hindex : ctx'.index = ctx.index)
    (hf : ∀ c s₁, s.memo.Grows s₁.memo → s₁.memo.find? spelling = some c →
      (f c).MirrorsBy Q (f' c) s₁) :
    (ctx.categoryOf spelling >>= f).MirrorsBy Q (ctx'.categoryOf spelling >>= f') s := by
  have hsame : ctx'.categoryOf spelling = ctx.categoryOf spelling := by
    rw [Context.categoryOf, Context.categoryOf, Context.classify, Context.classify, hindex]
  rw [hsame]
  refine (asking (classify_lasts ctx.index spelling)).bind fun c c' code s₁ hrun hc => ?_
  cases hc
  exact hf c s₁ ((ctx.categoryOf_grows spelling).of_written hrun) (Context.categoryOf_written hrun).2.2

end Draft.MirrorsBy

end LuaGlue
