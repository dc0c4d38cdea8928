import LuaGlue.Draft
import LuaGlue.Proofs.Classifier.Alphabet
import LuaGlue.Proofs.Code.Alphabet

/-!
# Steps of generation in an alphabet

A step of generation *stays* in an alphabet (`Draft.Stays`) if, whenever the memo does, what it writes does
as well, or the fault it breaks off with. A step that breaks off must besides leave behind events that close
no block but those it has opened; of code that was finished nothing need be said, since code closes all
its blocks.

There is one rule for each primitive and each way to put steps together.
-/

set_option autoImplicit false

namespace LuaGlue

variable {α β : Type} {P : Char → Prop} {Q : α → Prop} {R : β → Prop}

/-- Some events close no block but those they open. -/
def KeepsBlocks (events : List Event) : Prop := ∀ level, ∃ after, levelAfter? level events = some after

theorem keepsBlocks_nil : KeepsBlocks [] := fun level => ⟨level, rfl⟩

theorem KeepsBlocks.append {before later : List Event} (hb : KeepsBlocks before)
    (hl : KeepsBlocks later) : KeepsBlocks (before ++ later) := by
  intro level
  obtain ⟨next, hnext⟩ := hb level
  obtain ⟨after, hafter⟩ := hl next
  exact ⟨after, by rw [levelAfter?_append, hnext, Option.bind_some, hafter]⟩

theorem Code.keepsBlocks (c : Code) : KeepsBlocks c.events :=
  fun level => ⟨level, c.levelAfter_events level⟩

/-- A block that is opened and not closed. -/
theorem KeepsBlocks.inside {events : List Event} (h : KeepsBlocks events) (head : String) :
    KeepsBlocks (.opening head :: events) :=
  fun level => h (level + 1)

/-- A value in `Q`, or a fault that is told in the alphabet. -/
def StaysOrFails (P : Char → Prop) (Q : α → Prop) : Except Fault α → Prop
  | .ok value => Q value
  | .error fault => fault.Over P

namespace StaysOrFails

theorem map {e : Except Fault α} {f : α → β} (he : StaysOrFails P Q e) (hf : ∀ a, Q a → R (f a)) :
    StaysOrFails P R (e.map f) := by
  cases e with
  | ok a => exact hf a he
  | error fault => exact he

theorem bind {e : Except Fault α} {f : α → Except Fault β} (he : StaysOrFails P Q e)
    (hf : ∀ a, Q a → StaysOrFails P R (f a)) : StaysOrFails P R (e >>= f) := by
  cases e with
  | ok a => exact hf a he
  | error fault => exact he

theorem mapM {f : α → Except Fault β} {as : List α} (h : ∀ a ∈ as, StaysOrFails P R (f a)) :
    StaysOrFails P (fun bs => ∀ b ∈ bs, R b) (as.mapM f) := by
  induction as with
  | nil => exact fun b hb => absurd hb List.not_mem_nil
  | cons a rest ih =>
    rw [List.mapM_cons]
    refine (h a List.mem_cons_self).bind fun b hb => ?_
    refine (ih fun a' ha' => h a' (List.mem_cons_of_mem a ha')).bind fun bs hbs => ?_
    exact List.forall_mem_cons.mpr ⟨hb, hbs⟩

end StaysOrFails

/-- What was written stays in the alphabet, and so does the reason why there is no more. -/
def Outcome.Stays (P : Char → Prop) (Q : α → Prop) : Outcome α → Prop
  | .written value code => Q value ∧ code.Over P
  | .torn fault events => fault.Over P ∧ KeepsBlocks events

/-- The step stays in the alphabet and yields a value in `Q`, or breaks off. -/
def Draft.Stays (P : Char → Prop) (Q : α → Prop) (m : Draft α) : Prop :=
  ∀ s, s.memo.Over P → (m s).1.Stays P Q ∧ (m s).2.memo.Over P

/-- The same of a step whose value does not matter. -/
abbrev Draft.Writes (P : Char → Prop) (m : Draft α) : Prop := m.Stays P fun _ => True

theorem Outcome.Stays.after {o : Outcome α} {code : Code} (h : o.Stays P Q) (hc : code.Over P) :
    (o.after code).Stays P Q := by
  cases o with
  | written value code' => exact ⟨h.1, Code.over_append.mpr ⟨hc, h.2⟩⟩
  | torn fault events => exact ⟨h.1, code.keepsBlocks.append h.2⟩

namespace Draft.Stays

theorem pure {a : α} (h : Q a) : Draft.Stays P Q (Pure.pure a) := fun _ hs => ⟨⟨h, trivial⟩, hs⟩

theorem bind {m : Draft α} {f : α → Draft β} (hm : m.Stays P Q) (hf : ∀ a, Q a → (f a).Stays P R) :
    (m >>= f).Stays P R := by
  intro s hs
  change (Draft.bind m f s).1.Stays P R ∧ (Draft.bind m f s).2.memo.Over P
  obtain ⟨hfirst, hmemo⟩ := hm s hs
  unfold Draft.bind
  rcases hrun : m s with ⟨⟨a, code⟩ | ⟨fault, events⟩, s'⟩ <;> rw [hrun] at hfirst hmemo
  · obtain ⟨hsecond, hmemo'⟩ := hf a hfirst.1 s' hmemo
    exact ⟨hsecond.after hfirst.2, hmemo'⟩
  · exact ⟨hfirst, hmemo⟩

/-- A step after one whose value does not matter. -/
theorem andThen {m : Draft α} {f : α → Draft β} (hm : m.Writes P) (hf : ∀ a, (f a).Stays P R) :
    (m >>= f).Stays P R :=
  hm.bind fun a _ => hf a

/-- A step after one that is made only sometimes. -/
theorem whenThen {wanted : Bool} {m : Draft Unit} {k : Draft α} (hm : m.Writes P)
    (hk : k.Stays P Q) :
    (do
      if wanted then m
      k).Stays P Q := by
  cases wanted with
  | true => exact hm.andThen fun _ => hk
  | false => exact hk

theorem mono {m : Draft α} {Q' : α → Prop} (hm : m.Stays P Q) (h : ∀ a, Q a → Q' a) :
    m.Stays P Q' := by
  intro s hs
  obtain ⟨hfirst, hmemo⟩ := hm s hs
  refine ⟨?_, hmemo⟩
  rcases hrun : (m s).1 with ⟨a, code⟩ | ⟨fault, events⟩ <;> rw [hrun] at hfirst
  · exact ⟨h a hfirst.1, hfirst.2⟩
  · exact hfirst

theorem writes {m : Draft α} (hm : m.Stays P Q) : m.Writes P := hm.mono fun _ _ => trivial

theorem fail {fault : Fault} (h : fault.Over P) : Draft.Stays P Q (Draft.fail fault) :=
  fun _ hs => ⟨⟨h, keepsBlocks_nil⟩, hs⟩

theorem ofExcept {e : Except Fault α} (h : StaysOrFails P Q e) : (Draft.ofExcept e).Stays P Q := by
  cases e with
  | ok a => exact pure h
  | error fault => exact fail h

theorem asking {q : Classifying α} (hq : q.Stays P Q) : (Draft.asking q).Stays P Q := by
  intro s hs
  obtain ⟨ha, hmemo⟩ := hq s.memo hs
  exact ⟨⟨ha, trivial⟩, hmemo⟩

theorem write {code : Code} (h : code.Over P) : (Draft.write code).Writes P :=
  fun _ hs => ⟨⟨trivial, h⟩, hs⟩

theorem line {l : Line} (h : l.Over P) : (Draft.line l).Writes P := write ⟨h, trivial⟩

theorem lines {ls : List Line} (h : ∀ l ∈ ls, l.Over P) : (Draft.lines ls).Writes P :=
  write (Code.over_ofLines.mpr h)

theorem temp [Text.Alphabet P] : Draft.temp.Stays P (Text.Over P) := by
  intro s hs
  have hname : Text.Over P ("_tmp" ++ toString s.temporaries) :=
    Text.over_append.mpr ⟨Text.over_literal (by decide), Text.over_toString s.temporaries⟩
  exact ⟨⟨hname, trivial⟩, hs⟩

/-- Code laid around a step, and events before what a step that broke off has written. -/
theorem around {m : Draft α} (hm : m.Stays P Q) {g : Code → Code}
    (hg : ∀ code, code.Over P → (g code).Over P) {t : List Event → List Event}
    (ht : ∀ events, KeepsBlocks events → KeepsBlocks (t events)) :
    Draft.Stays P Q fun s => match m s with
      | (.written value code, s') => (.written value (g code), s')
      | (.torn fault events, s') => (.torn fault (t events), s') := by
  intro s hs
  obtain ⟨hfirst, hmemo⟩ := hm s hs
  dsimp only
  rcases hrun : m s with ⟨⟨a, code⟩ | ⟨fault, events⟩, s'⟩ <;> rw [hrun] at hfirst hmemo
  · exact ⟨⟨hfirst.1, hg code hfirst.2⟩, hmemo⟩
  · exact ⟨⟨hfirst.1, ht events hfirst.2⟩, hmemo⟩

theorem block {m : Draft α} {head : Head} (hh : head.Over P) (hm : m.Stays P Q) :
    (Draft.block head m).Stays P Q :=
  hm.around (g := fun code => .block head code .brace .done)
    (fun _ hcode => ⟨hh, hcode, trivial, trivial⟩) fun _ hevents => hevents.inside head.render

theorem branch {m : Draft α} {c : Cond} {otherwise : Code} (hc : c.Over P) (ho : otherwise.Over P)
    (hm : m.Stays P Q) : (Draft.branch c m otherwise).Stays P Q :=
  hm.around (g := fun code => .branch c code otherwise .done)
    (fun _ hcode => ⟨hc, hcode, ho, trivial⟩) fun _ hevents => hevents.inside (branchHead c)

theorem orElseIf {m : Draft α} {c c' : Cond} {yes : Code} (hc : c.Over P) (hyes : yes.Over P)
    (hc' : c'.Over P) (hm : m.Stays P Q) : (Draft.orElseIf c yes c' m).Stays P Q := by
  refine hm.around (g := fun code => .branch c yes (.branch c' code .done .done) .done)
    (fun _ hcode => ⟨hc, hyes, ⟨hc', hcode, trivial, trivial⟩, trivial⟩) fun events hevents => ?_
  -- the block of the first branch is open when the second one begins
  intro level
  obtain ⟨after, hafter⟩ := hevents (level + 1)
  refine ⟨after, ?_⟩
  rw [levelAfter?_cons, Event.levelAfter?, Option.bind_some, levelAfter?_append,
    yes.levelAfter_events, Option.bind_some, levelAfter?_cons]
  exact hafter

theorem branchWhen {m : Draft α} {wanted : Bool} {c : Cond} (hc : c.Over P) (hm : m.Stays P Q) :
    (Draft.branchWhen wanted c m).Stays P Q := by
  cases wanted with
  | true => exact hm.branch hc trivial
  | false => exact hm

end Draft.Stays

end LuaGlue
