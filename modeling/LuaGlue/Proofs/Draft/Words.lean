import LuaGlue.Proofs.Code.Words
import LuaGlue.Proofs.Context.Words

/-!
# Steps of generation that stay quiet

A step of generation is *quiet* (`Draft.Quiet`) if nothing it writes calls a function that raises an error,
whether it comes to an end or breaks off, as long as the memo knows of no struct or enum that has anything of
the auxiliary library in its name.

There is one rule for each primitive and each way to put steps together.
-/

set_option autoImplicit false

namespace LuaGlue

variable {α β : Type} {Q : α → Prop} {R : β → Prop}

namespace Code

/-- Everything the code writes is quiet. -/
def Quiet (c : Code) : Prop := ∀ e ∈ c.events, e.Quiet

theorem quiet_done : done.Quiet := fun _ he => absurd he List.not_mem_nil

theorem quiet_append {a b : Code} : (a ++ b).Quiet ↔ a.Quiet ∧ b.Quiet := by
  rw [Quiet, events_append]
  exact List.forall_mem_append

theorem quiet_line {l : Line} {next : Code} :
    (line l next).Quiet ↔ Text.Quiet l.render ∧ next.Quiet :=
  List.forall_mem_cons

theorem quiet_ofLines {ls : List Line} : (ofLines ls).Quiet ↔ ∀ l ∈ ls, Text.Quiet l.render := by
  rw [Quiet, events_ofLines, List.forall_mem_map]
  rfl

theorem quiet_seq {cs : List Code} : (seq cs).Quiet ↔ ∀ c ∈ cs, c.Quiet := by
  induction cs with
  | nil => exact iff_of_true quiet_done (by simp)
  | cons c rest ih => rw [seq, quiet_append, ih, List.forall_mem_cons]

theorem quiet_block {head : Head} {body next : Code} {ending : Ending} :
    (block head body ending next).Quiet ↔
      Text.Quiet head.render ∧ body.Quiet ∧ Text.Quiet ending.render ∧ next.Quiet := by
  rw [Quiet, events, List.forall_mem_cons, List.forall_mem_append, List.forall_mem_cons,
    Event.quiet_opening]
  rfl

/-- The code of an `else` is as quiet as it is by itself. -/
theorem quiet_elseEvents {c : Code} (h : c.Quiet) : ∀ e ∈ c.elseEvents, e.Quiet := by
  have block (hevents : c.elseEvents = .reopening "else" :: c.events) : ∀ e ∈ c.elseEvents, e.Quiet := by
    rw [hevents]
    exact List.forall_mem_cons.mpr ⟨Event.quiet_reopening.mpr (Text.quiet_literal (by decide)), h⟩
  cases c with
  | done => exact h
  | line l next => exact block rfl
  | block head body ending next => exact block rfl
  | branch c yes no next =>
    cases next with
    | done =>
      -- nothing but a branch: it loses its own opening and its end
      rw [Quiet, events, List.forall_mem_cons, List.forall_mem_append, Event.quiet_opening] at h
      refine List.forall_mem_cons.mpr ⟨Event.quiet_reopening.mpr ?_, h.2.1⟩
      exact (Text.quiet_end (by decide)).mpr ⟨Text.quiet_literal (by decide), h.1⟩
    | line l next => exact block rfl
    | block head body ending next => exact block rfl
    | branch c yes no next => exact block rfl

theorem quiet_branch {c : Cond} {yes no next : Code} (hc : Text.Quiet c.render) (hyes : yes.Quiet)
    (hno : no.Quiet) (hnext : next.Quiet) : (branch c yes no next).Quiet := by
  refine List.forall_mem_cons.mpr ⟨Event.quiet_opening.mpr (quiet_branchHead.mpr hc), ?_⟩
  refine List.forall_mem_append.mpr ⟨List.forall_mem_append.mpr ⟨hyes, quiet_elseEvents hno⟩, ?_⟩
  exact List.forall_mem_cons.mpr ⟨Text.quiet_literal (by decide), hnext⟩

end Code

/-- What the outcome consists of is quiet. -/
def Outcome.Quiet (Q : α → Prop) : Outcome α → Prop
  | .written value code => Q value ∧ code.Quiet
  | .torn _ events => ∀ e ∈ events, e.Quiet

theorem Outcome.Quiet.events {o : Outcome α} (h : o.Quiet Q) : ∀ e ∈ o.events, e.Quiet := by
  cases o with
  | written value code => exact h.2
  | torn fault events => exact h

theorem Outcome.Quiet.after {o : Outcome α} {code : Code} (h : o.Quiet Q) (hc : code.Quiet) :
    (o.after code).Quiet Q := by
  cases o with
  | written value code' => exact ⟨h.1, Code.quiet_append.mpr ⟨hc, h.2⟩⟩
  | torn fault events => exact List.forall_mem_append.mpr ⟨hc, h⟩

/-- The step writes nothing that raises an error, and yields a value in `Q` or breaks off. -/
def Draft.Quiet (Q : α → Prop) (m : Draft α) : Prop :=
  ∀ s, s.memo.About Text.Foreign → (m s).1.Quiet Q ∧ (m s).2.memo.About Text.Foreign

/-- The same of a step whose value does not matter. -/
abbrev Draft.RaisesNothing (m : Draft α) : Prop := m.Quiet fun _ => True

namespace Draft.Quiet

theorem pure {a : α} (h : Q a) : Draft.Quiet Q (Pure.pure a) := fun _ hs => ⟨⟨h, Code.quiet_done⟩, hs⟩

theorem bind {m : Draft α} {f : α → Draft β} (hm : m.Quiet Q) (hf : ∀ a, Q a → (f a).Quiet R) :
    (m >>= f).Quiet R := by
  intro s hs
  change (Draft.bind m f s).1.Quiet R ∧ (Draft.bind m f s).2.memo.About Text.Foreign
  obtain ⟨hfirst, hmemo⟩ := hm s hs
  unfold Draft.bind
  rcases hrun : m s with ⟨⟨a, code⟩ | ⟨fault, events⟩, s'⟩ <;> rw [hrun] at hfirst hmemo
  · obtain ⟨hsecond, hmemo'⟩ := hf a hfirst.1 s' hmemo
    exact ⟨hsecond.after hfirst.2, hmemo'⟩
  · exact ⟨hfirst, hmemo⟩

/-- A step after one whose value does not matter. -/
theorem andThen {m : Draft α} {f : α → Draft β} (hm : m.RaisesNothing)
    (hf : ∀ a, (f a).Quiet R) : (m >>= f).Quiet R :=
  hm.bind fun a _ => hf a

/-- A step after one that is made only sometimes. -/
theorem whenThen {wanted : Bool} {m : Draft Unit} {k : Draft α} (hm : m.RaisesNothing)
    (hk : k.Quiet Q) :
    (do
      if wanted then m
      k).Quiet Q := by
  cases wanted with
  | true => exact hm.andThen fun _ => hk
  | false => exact hk

theorem fail (fault : Fault) : Draft.Quiet Q (Draft.fail fault) :=
  fun _ hs => ⟨fun _ he => absurd he List.not_mem_nil, hs⟩

theorem ofExcept {e : Except Fault α} (h : ∀ a, e = .ok a → Q a) : (Draft.ofExcept e).Quiet Q := by
  cases e with
  | ok a => exact pure (h a rfl)
  | error fault => exact fail fault

theorem asking {q : Classifying α} (hq : q.Keeps (Memo.About Text.Foreign) Q) :
    (Draft.asking q).Quiet Q := by
  intro s hs
  obtain ⟨ha, hmemo⟩ := hq s.memo hs
  exact ⟨⟨ha, Code.quiet_done⟩, hmemo⟩

theorem write {code : Code} (h : code.Quiet) : (Draft.write code).RaisesNothing :=
  fun _ hs => ⟨⟨trivial, h⟩, hs⟩

theorem line {l : Line} (h : Text.Quiet l.render) : (Draft.line l).RaisesNothing :=
  write (Code.quiet_line.mpr ⟨h, Code.quiet_done⟩)

theorem lines {ls : List Line} (h : ∀ l ∈ ls, Text.Quiet l.render) :
    (Draft.lines ls).RaisesNothing :=
  write (Code.quiet_ofLines.mpr h)

theorem temp : Draft.temp.Quiet Text.Quiet := by
  intro s hs
  have hname : Text.Quiet ("_tmp" ++ toString s.temporaries) :=
    (Text.foreign_counted (by decide) s.temporaries).quiet
  exact ⟨⟨hname, Code.quiet_done⟩, hs⟩

/-- Code laid around a step, and an opening before what a step that broke off has written. -/
theorem around {m : Draft α} (hm : m.Quiet Q) {g : Code → Code}
    (hg : ∀ code, code.Quiet → (g code).Quiet) {head : String} (hh : Text.Quiet head) :
    Draft.Quiet Q fun s => match m s with
      | (.written value code, s') => (.written value (g code), s')
      | (.torn fault events, s') => (.torn fault (.opening head :: events), s') := by
  intro s hs
  obtain ⟨hfirst, hmemo⟩ := hm s hs
  dsimp only
  rcases hrun : m s with ⟨⟨a, code⟩ | ⟨fault, events⟩, s'⟩ <;> rw [hrun] at hfirst hmemo
  · exact ⟨⟨hfirst.1, hg code hfirst.2⟩, hmemo⟩
  · exact ⟨List.forall_mem_cons.mpr ⟨Event.quiet_opening.mpr hh, hfirst⟩, hmemo⟩

theorem block {m : Draft α} {head : Head} (hh : Text.Quiet head.render) (hm : m.Quiet Q) :
    (Draft.block head m).Quiet Q :=
  hm.around (g := fun code => .block head code .brace .done)
    (fun _ hcode => Code.quiet_block.mpr
      ⟨hh, hcode, Text.quiet_literal (by decide), Code.quiet_done⟩) hh

theorem branch {m : Draft α} {c : Cond} {otherwise : Code} (hc : Text.Quiet c.render)
    (ho : otherwise.Quiet) (hm : m.Quiet Q) : (Draft.branch c m otherwise).Quiet Q :=
  hm.around (g := fun code => .branch c code otherwise .done)
    (fun _ hcode => Code.quiet_branch hc hcode ho Code.quiet_done) (quiet_branchHead.mpr hc)

end Draft.Quiet

end LuaGlue
