import LuaGlue.Marshal.Basic
import LuaGlue.Proofs.Classifier.Memo

/-!
# Steps of generation, taken apart

A step that succeeds consists of steps that succeed, and what it writes consists of what they wrote.
`bind_written` says so for two steps in a row; each primitive has its own equation beside it, so that
a step written with `do` is taken apart from the front without unfolding how a `Draft` runs.

The second half is about what all steps share: whatever they ask the classifier, and whether they succeed
or break off, what every question keeps of the memo is kept by the step (`Draft.Keeps`). That is true
of the answers in it first of all (`Draft.Grows`).
-/

set_option autoImplicit false

namespace LuaGlue

/-- The name of the temporary with a number. -/
def temporary (n : Nat) : String := "_tmp" ++ toString n

/-- Whether something was written that passes a test. -/
def Outcome.passes {α : Type} (test : Code → Bool) : Outcome α → Bool
  | .written _ code => test code
  | .torn .. => false

namespace Draft

variable {α β : Type}

/-! ## What a step that succeeds has written -/

/-- The workhorse: two steps in a row succeed if both do, and the second one writes after the
first. -/
theorem bind_written {m : Draft α} {f : α → Draft β} {s s'' : Scratch} {b : β} {code : Code} :
    (m >>= f) s = (.written b code, s'') ↔
      ∃ a c₁ s' c₂, m s = (.written a c₁, s') ∧ f a s' = (.written b c₂, s'') ∧
        code = c₁ ++ c₂ := by
  change Draft.bind m f s = _ ↔ _
  unfold Draft.bind
  rcases m s with ⟨a | _, s'⟩
  · rename_i c₁
    simp only
    rcases hf : f a s' with ⟨b' | _, t⟩
    · rename_i c₂
      simp only [Outcome.after, Prod.mk.injEq, Outcome.written.injEq]
      constructor
      · rintro ⟨⟨rfl, rfl⟩, rfl⟩
        exact ⟨a, c₁, s', c₂, ⟨⟨rfl, rfl⟩, rfl⟩, hf, rfl⟩
      · rintro ⟨a', _, _, _, ⟨⟨rfl, rfl⟩, rfl⟩, hf', rfl⟩
        rw [hf] at hf'
        simp only [Prod.mk.injEq, Outcome.written.injEq] at hf'
        obtain ⟨⟨rfl, rfl⟩, rfl⟩ := hf'
        exact ⟨⟨rfl, rfl⟩, rfl⟩
    · simp only [Outcome.after, Prod.mk.injEq, reduceCtorEq, false_and, false_iff, not_exists]
      rintro a' _ _ _ ⟨⟨⟨rfl, rfl⟩, rfl⟩, hf', -⟩
      rw [hf] at hf'
      exact absurd hf' (by simp)
  · simp

/-- A step that does not break off has written something, and what it has written passes every test
that its outcome passes. -/
theorem exists_written (m : Draft α) (s : Scratch) (test : Code → Bool)
    (h : (m s).1.passes test = true) :
    ∃ a code s', m s = (.written a code, s') ∧ test code = true := by
  rcases hm : m s with ⟨a | _, s'⟩
  · rw [hm] at h
    exact ⟨a, _, s', rfl, h⟩
  · rw [hm] at h
    exact absurd h (by simp [Outcome.passes])

theorem pure_written {a b : α} {s s' : Scratch} {code : Code} :
    (pure a : Draft α) s = (.written b code, s') ↔ a = b ∧ code = .done ∧ s' = s := by
  change (Outcome.written a Code.done, s) = _ ↔ _
  simp only [Prod.mk.injEq, Outcome.written.injEq]
  constructor
  · rintro ⟨⟨rfl, rfl⟩, rfl⟩
    exact ⟨rfl, rfl, rfl⟩
  · rintro ⟨rfl, rfl, rfl⟩
    exact ⟨⟨rfl, rfl⟩, rfl⟩

theorem fail_written {fault : Fault} {b : α} {s s' : Scratch} {code : Code} :
    ¬ (fail fault : Draft α) s = (.written b code, s') := by
  simp [fail]

theorem ofExcept_written {e : Except Fault α} {b : α} {s s' : Scratch} {code : Code} :
    ofExcept e s = (.written b code, s') ↔ e = .ok b ∧ code = .done ∧ s' = s := by
  cases e with
  | ok a => simp only [ofExcept, pure_written, Except.ok.injEq]
  | error fault => simp [ofExcept, fail]

theorem line_written {l : Line} {u : Unit} {s s' : Scratch} {code : Code} :
    line l s = (.written u code, s') ↔ code = .line l .done ∧ s' = s := by
  simp only [line, Prod.mk.injEq, Outcome.written.injEq, true_and]
  exact and_congr eq_comm eq_comm

theorem lines_written {ls : List Line} {u : Unit} {s s' : Scratch} {code : Code} :
    lines ls s = (.written u code, s') ↔ code = .ofLines ls ∧ s' = s := by
  simp only [lines, Prod.mk.injEq, Outcome.written.injEq, true_and]
  exact and_congr eq_comm eq_comm

theorem write_written {c : Code} {u : Unit} {s s' : Scratch} {code : Code} :
    write c s = (.written u code, s') ↔ code = c ∧ s' = s := by
  simp only [write, Prod.mk.injEq, Outcome.written.injEq, true_and]
  exact and_congr eq_comm eq_comm

theorem temp_written {name : String} {s s' : Scratch} {code : Code} :
    temp s = (.written name code, s') ↔
      name = temporary s.temporaries ∧ code = .done ∧
        s' = { s with temporaries := s.temporaries + 1 } := by
  simp only [temp, temporary, Prod.mk.injEq, Outcome.written.injEq, and_assoc]
  exact and_congr eq_comm (and_congr eq_comm eq_comm)

theorem asking_written {q : Classifying α} {a : α} {s s' : Scratch} {code : Code} :
    asking q s = (.written a code, s') ↔
      a = (q.run s.memo).1 ∧ code = .done ∧ s' = { s with memo := (q.run s.memo).2 } := by
  change (Outcome.written (q.run s.memo).1 Code.done, { s with memo := (q.run s.memo).2 }) = _ ↔ _
  simp only [Prod.mk.injEq, Outcome.written.injEq, and_assoc]
  exact and_congr eq_comm (and_congr eq_comm eq_comm)

theorem asking_answered {q : Classifying α} {a : α} {s s' : Scratch} {code : Code}
    (h : asking q s = (.written a code, s')) : q.Answered a s'.memo := by
  obtain ⟨rfl, -, rfl⟩ := asking_written.mp h
  exact ⟨s.memo, rfl, Memo.Grows.refl _⟩

/-! Where the first of two steps writes something known, only the second one is left. -/

theorem line_bind_written {l : Line} {f : Unit → Draft β} {b : β} {s s' : Scratch} {code : Code} :
    (line l >>= f) s = (.written b code, s') ↔
      ∃ rest, f () s = (.written b rest, s') ∧ code = .line l rest := by
  rw [bind_written]
  constructor
  · rintro ⟨_, _, _, rest, hline, hrest, rfl⟩
    obtain ⟨rfl, rfl⟩ := line_written.mp hline
    exact ⟨rest, hrest, rfl⟩
  · rintro ⟨rest, hrest, rfl⟩
    exact ⟨(), _, s, rest, line_written.mpr ⟨rfl, rfl⟩, hrest, rfl⟩

theorem lines_bind_written {ls : List Line} {f : Unit → Draft β} {b : β} {s s' : Scratch}
    {code : Code} :
    (lines ls >>= f) s = (.written b code, s') ↔
      ∃ rest, f () s = (.written b rest, s') ∧ code = .ofLines ls ++ rest := by
  rw [bind_written]
  constructor
  · rintro ⟨_, _, _, rest, hlines, hrest, rfl⟩
    obtain ⟨rfl, rfl⟩ := lines_written.mp hlines
    exact ⟨rest, hrest, rfl⟩
  · rintro ⟨rest, hrest, rfl⟩
    exact ⟨(), _, s, rest, lines_written.mpr ⟨rfl, rfl⟩, hrest, rfl⟩

theorem temp_bind_written {f : String → Draft β} {b : β} {s s' : Scratch} {code : Code} :
    (temp >>= f) s = (.written b code, s') ↔
      f (temporary s.temporaries) { s with temporaries := s.temporaries + 1 } =
        (.written b code, s') := by
  rw [bind_written]
  constructor
  · rintro ⟨_, _, _, rest, htemp, hrest, rfl⟩
    obtain ⟨rfl, rfl, rfl⟩ := temp_written.mp htemp
    exact hrest
  · exact fun hrest => ⟨_, _, _, code, temp_written.mpr ⟨rfl, rfl, rfl⟩, hrest, rfl⟩

/-- A step that lays something around what another one writes, `g` if it succeeds and `t` if it
breaks off. -/
theorem around_written {m : Draft α} {g : Code → Code} {t : List Event → List Event} {a : α}
    {s s' : Scratch} {code : Code} :
    (match m s with
      | (.written value inner, s') => (Outcome.written value (g inner), s')
      | (.torn fault events, s') => (.torn fault (t events), s')) = (.written a code, s') ↔
      ∃ inner, m s = (.written a inner, s') ∧ code = g inner := by
  rcases m s with ⟨a' | _, s₁⟩
  · simp only [Prod.mk.injEq, Outcome.written.injEq]
    constructor
    · rintro ⟨⟨rfl, rfl⟩, rfl⟩
      exact ⟨_, ⟨⟨rfl, rfl⟩, rfl⟩, rfl⟩
    · rintro ⟨_, ⟨⟨rfl, rfl⟩, rfl⟩, rfl⟩
      exact ⟨⟨rfl, rfl⟩, rfl⟩
  · simp

theorem block_written {head : Head} {m : Draft α} {a : α} {s s' : Scratch} {code : Code} :
    block head m s = (.written a code, s') ↔
      ∃ body, m s = (.written a body, s') ∧ code = .block head body .brace .done :=
  around_written (g := fun body => .block head body .brace .done)

theorem branch_written {c : Cond} {m : Draft α} {otherwise : Code} {a : α} {s s' : Scratch}
    {code : Code} :
    branch c m otherwise s = (.written a code, s') ↔
      ∃ yes, m s = (.written a yes, s') ∧ code = .branch c yes otherwise .done :=
  around_written (g := fun yes => .branch c yes otherwise .done)

theorem orElseIf_written {c c' : Cond} {yes : Code} {m : Draft α} {a : α} {s s' : Scratch}
    {code : Code} :
    orElseIf c yes c' m s = (.written a code, s') ↔
      ∃ inner, m s = (.written a inner, s') ∧
        code = .branch c yes (.branch c' inner .done .done) .done :=
  around_written (g := fun inner => .branch c yes (.branch c' inner .done .done) .done)

theorem branchWhen_written {wanted : Bool} {c : Cond} {m : Draft α} {a : α} {s s' : Scratch}
    {code : Code} :
    branchWhen wanted c m s = (.written a code, s') ↔
      ∃ inner, m s = (.written a inner, s') ∧
        code = if wanted then .branch c inner .done .done else inner := by
  cases wanted with
  | true => exact branch_written
  | false => simp [branchWhen]

/-! ## What steps keep -/

/-- A step after which `K` holds of the memo if it did before, however the step ends. -/
def Keeps (K : Memo → Prop) (m : Draft α) : Prop := ∀ s : Scratch, K s.memo → K (m s).2.memo

namespace Keeps

variable {K : Memo → Prop}

theorem pure (a : α) : Keeps K (Pure.pure a : Draft α) := fun _ hs => hs

theorem bind {m : Draft α} {f : α → Draft β} (hm : Keeps K m) (hf : ∀ a, Keeps K (f a)) :
    Keeps K (m >>= f) := by
  intro s hs
  have hs' := hm s hs
  change K (Draft.bind m f s).2.memo
  unfold Draft.bind
  rcases hr : m s with ⟨a | _, s'⟩ <;> rw [hr] at hs'
  · exact hf a s' hs'
  · exact hs'

theorem fail (fault : Fault) : Keeps K (Draft.fail fault : Draft α) := fun _ hs => hs

theorem ofExcept (e : Except Fault α) : Keeps K (Draft.ofExcept e) := by
  cases e with
  | ok a => exact Keeps.pure a
  | error fault => exact Keeps.fail fault

theorem line (l : Line) : Keeps K (Draft.line l) := fun _ hs => hs

theorem lines (ls : List Line) : Keeps K (Draft.lines ls) := fun _ hs => hs

theorem write (code : Code) : Keeps K (Draft.write code) := fun _ hs => hs

theorem temp : Keeps K Draft.temp := fun _ hs => hs

theorem asking {q : Classifying α} (hq : ∀ m, K m → K (q.run m).2) : Keeps K (Draft.asking q) :=
  fun s hs => hq s.memo hs

/-- Laying something around a step changes nothing about what it asks. -/
theorem around {m : Draft α} (hm : Keeps K m) (g : Code → Code) (t : List Event → List Event) :
    Keeps K fun s => match m s with
      | (.written value inner, s') => (Outcome.written value (g inner), s')
      | (.torn fault events, s') => (.torn fault (t events), s') := by
  intro s hs
  have hs' := hm s hs
  dsimp only
  rcases hr : m s with ⟨a | _, s'⟩ <;> rw [hr] at hs' <;> exact hs'

theorem block {m : Draft α} (head : Head) (hm : Keeps K m) : Keeps K (Draft.block head m) :=
  hm.around (fun body => .block head body .brace .done) _

theorem branch {m : Draft α} (c : Cond) (otherwise : Code) (hm : Keeps K m) :
    Keeps K (Draft.branch c m otherwise) :=
  hm.around (fun yes => .branch c yes otherwise .done) _

theorem orElseIf {m : Draft α} (c c' : Cond) (yes : Code) (hm : Keeps K m) :
    Keeps K (Draft.orElseIf c yes c' m) :=
  hm.around (fun inner => .branch c yes (.branch c' inner .done .done) .done) _

theorem branchWhen {m : Draft α} (wanted : Bool) (c : Cond) (hm : Keeps K m) :
    Keeps K (Draft.branchWhen wanted c m) := by
  cases wanted with
  | true => exact hm.branch c .done
  | false => exact hm

/-- What holds of the memo still does when a step has succeeded. -/
theorem of_written {m : Draft α} {a : α} {s s' : Scratch} {code : Code} (hm : Keeps K m)
    (h : m s = (.written a code, s')) (hs : K s.memo) : K s'.memo := by
  have hs' := hm s hs
  rwa [h] at hs'

end Keeps

/-! ## What no step takes back -/

/-- A step after which the memo has all the answers it had before, however the step ends. -/
def Grows (m : Draft α) : Prop := ∀ s : Scratch, s.memo.Grows (m s).2.memo

/-- Taking nothing back is to keep whatever has been known at some time. -/
theorem grows_iff_keeps {m : Draft α} : m.Grows ↔ ∀ known : Memo, m.Keeps known.Grows :=
  ⟨fun h _ s hs => hs.trans (h s), fun h s => h s.memo s (Memo.Grows.refl s.memo)⟩

namespace Grows

theorem keeps {m : Draft α} (hm : Grows m) (known : Memo) : m.Keeps known.Grows :=
  grows_iff_keeps.mp hm known

theorem of_keeps {m : Draft α} (h : ∀ known : Memo, m.Keeps known.Grows) : Grows m :=
  grows_iff_keeps.mpr h

theorem pure (a : α) : Grows (Pure.pure a : Draft α) := of_keeps fun _ => .pure a

theorem bind {m : Draft α} {f : α → Draft β} (hm : Grows m) (hf : ∀ a, Grows (f a)) :
    Grows (m >>= f) :=
  of_keeps fun known => (hm.keeps known).bind fun a => (hf a).keeps known

theorem fail (fault : Fault) : Grows (Draft.fail fault : Draft α) :=
  of_keeps fun _ => .fail fault

theorem ofExcept (e : Except Fault α) : Grows (Draft.ofExcept e) :=
  of_keeps fun _ => .ofExcept e

theorem line (l : Line) : Grows (Draft.line l) := of_keeps fun _ => .line l

theorem lines (ls : List Line) : Grows (Draft.lines ls) := of_keeps fun _ => .lines ls

theorem write (code : Code) : Grows (Draft.write code) := of_keeps fun _ => .write code

theorem temp : Grows Draft.temp := of_keeps fun _ => .temp

theorem asking {q : Classifying α} (hq : q.Grows) : Grows (Draft.asking q) := fun s => hq s.memo

theorem block {m : Draft α} (head : Head) (hm : Grows m) : Grows (Draft.block head m) :=
  of_keeps fun known => (hm.keeps known).block head

theorem branch {m : Draft α} (c : Cond) (otherwise : Code) (hm : Grows m) :
    Grows (Draft.branch c m otherwise) :=
  of_keeps fun known => (hm.keeps known).branch c otherwise

theorem orElseIf {m : Draft α} (c c' : Cond) (yes : Code) (hm : Grows m) :
    Grows (Draft.orElseIf c yes c' m) :=
  of_keeps fun known => (hm.keeps known).orElseIf c c' yes

theorem branchWhen {m : Draft α} (wanted : Bool) (c : Cond) (hm : Grows m) :
    Grows (Draft.branchWhen wanted c m) :=
  of_keeps fun known => (hm.keeps known).branchWhen wanted c

end Grows

/-- What a step that succeeds has asked is in the memo it hands on. -/
theorem Grows.of_written {m : Draft α} {a : α} {s s' : Scratch} {code : Code} (hm : Grows m)
    (h : m s = (.written a code, s')) : s.memo.Grows s'.memo :=
  (hm.keeps s.memo).of_written h (Memo.Grows.refl s.memo)

end Draft

/-! ## Categories asked in the course of generation -/

theorem Context.categoryOf_keeps {ctx : Context} {K : Memo → Prop}
    (hK : ∀ spelling m, K m → K ((ctx.classify spelling).run m).2) (spelling : String) :
    (ctx.categoryOf spelling).Keeps K :=
  Draft.Keeps.asking (hK spelling)

/-- A question keeps what was known at any time. -/
theorem Context.classify_keeps_grows (ctx : Context) (known : Memo) (spelling : String) (m : Memo)
    (hm : known.Grows m) : known.Grows ((ctx.classify spelling).run m).2 :=
  hm.trans (classify_grows ctx.index spelling m)

theorem Context.categoryOf_grows (ctx : Context) (spelling : String) :
    Draft.Grows (ctx.categoryOf spelling) :=
  Draft.Grows.asking (classify_grows ctx.index spelling)

/-- The category that generation goes by is the memo's answer from then on. -/
theorem Context.categoryOf_written {ctx : Context} {spelling : String} {c : Category}
    {s s' : Scratch} {code : Code} (h : ctx.categoryOf spelling s = (.written c code, s')) :
    code = .done ∧ s'.temporaries = s.temporaries ∧ s'.memo.find? spelling = some c := by
  obtain ⟨rfl, rfl, rfl⟩ := Draft.asking_written.mp h
  exact ⟨rfl, rfl, classify_remembered ctx.index spelling s.memo⟩

end LuaGlue
