import LuaGlue.Code.Event
import Mathlib.Data.List.Induction

/-!
# What a page shows

The text of a page is what its events write, one line after another (`layOut`), its level is where they lead
(`levelAfter?`), and its count of gaps is the number of placeholders among them (`Page.putAll_eq`).

`levelAfter?` is more careful than a page: it has no answer once a block is closed that is not open. The
events of a `Code` always lead back to the level they began at (`Code.levelAfter_events`); for those of a
step that breaks off this has to be shown.
-/

set_option autoImplicit false

namespace LuaGlue

/-! ## One event -/

namespace Event

/-- What the event writes, without indentation and line end. -/
def text : Event → String
  | line l => l.render
  | opening head => if head.isEmpty then "\x7b" else head ++ " \x7b"
  | reopening head => "\x7d " ++ head ++ " \x7b"
  | closing ending => ending.render

/-- How far the event's line is indented when `level` blocks are open before it. -/
def depth (level : Nat) : Event → Nat
  | line (.directive _) | line .blank => 0
  | line _ | opening _ => level
  | reopening _ | closing _ => level - 1

/-- How many blocks are open afterwards; there must be one that can be closed. -/
def levelAfter? : Nat → Event → Option Nat
  | level, line _ => some level
  | level, opening _ => some (level + 1)
  | 0, reopening _ | 0, closing _ => none
  | level + 1, reopening _ => some (level + 1)
  | level + 1, closing _ => some level

/-- Whether the event closes a block. -/
def closes : Event → Bool
  | reopening _ | closing _ => true
  | _ => false

def isPlaceholder : Event → Bool
  | line (.placeholder _) => true
  | _ => false

/-- The event's line. -/
def written (level : Nat) (e : Event) : String :=
  Page.indentation (e.depth level) ++ e.text ++ "\n"

theorem levelAfter?_eq_none {level : Nat} {e : Event} :
    e.levelAfter? level = none ↔ level = 0 ∧ e.closes = true := by
  cases e <;> cases level <;> simp [levelAfter?, closes]

end Event

theorem Page.put_eq {p : Page} {e : Event} {level : Nat} (h : e.levelAfter? p.level = some level) :
    p.put e =
      { level := level
        text := p.text ++ e.written p.level
        placeholders := p.placeholders + if e.isPlaceholder then 1 else 0 } := by
  rcases p with ⟨before, text, gaps⟩
  cases e with
  | line l =>
    obtain rfl : before = level := by simpa [Event.levelAfter?] using h
    cases l <;> simp [put, putLine, write, flush, mark, Event.isPlaceholder, Event.written,
      Event.depth, Event.text, Line.render, indentation, String.append_assoc]
  | opening head =>
    obtain rfl : before + 1 = level := by simpa [Event.levelAfter?] using h
    simp [put, openBlock, write, indent, Event.isPlaceholder, Event.written, Event.depth, Event.text,
      String.append_assoc]
  | reopening head =>
    cases before with
    | zero => exact absurd h (by simp [Event.levelAfter?])
    | succ before =>
      obtain rfl : before + 1 = level := by simpa [Event.levelAfter?] using h
      simp [put, reopenBlock, dedent, write, indent, Event.isPlaceholder, Event.written,
        Event.depth, Event.text, String.append_assoc]
  | closing ending =>
    cases before with
    | zero => exact absurd h (by simp [Event.levelAfter?])
    | succ before =>
      obtain rfl : before = level := by simpa [Event.levelAfter?] using h
      simp [put, closeBlock, dedent, write, Event.isPlaceholder, Event.written, Event.depth,
        Event.text, String.append_assoc]

/-! ## Events in a row -/

/-- How many blocks are open after some events, none of which closes a block that is not open. -/
def levelAfter? (level : Nat) (events : List Event) : Option Nat :=
  events.foldlM Event.levelAfter? level

theorem levelAfter?_cons (level : Nat) (e : Event) (rest : List Event) :
    levelAfter? level (e :: rest) = (e.levelAfter? level).bind (levelAfter? · rest) := rfl

theorem levelAfter?_append (level : Nat) (before after : List Event) :
    levelAfter? level (before ++ after) = (levelAfter? level before).bind (levelAfter? · after) :=
  List.foldlM_append

/-- The text of some events, which begin at a level. Where a block is closed that is not open, the level
stays. -/
def layOut : Nat → List Event → String
  | _, [] => ""
  | level, e :: rest => e.written level ++ layOut ((e.levelAfter? level).getD level) rest

theorem layOut_append {level after : Nat} {before : List Event}
    (h : levelAfter? level before = some after) (later : List Event) :
    layOut level (before ++ later) = layOut level before ++ layOut after later := by
  induction before generalizing level with
  | nil =>
    obtain rfl : level = after := Option.some.inj h
    simp [layOut]
  | cons e rest ih =>
    rw [levelAfter?_cons] at h
    obtain ⟨next, he, hrest⟩ := Option.bind_eq_some_iff.mp h
    rw [List.cons_append, layOut, layOut, he, Option.getD_some, ih hrest, String.append_assoc]

/-- **A page shows what its events write.** -/
theorem Page.putAll_eq {p : Page} {events : List Event} {level : Nat}
    (h : levelAfter? p.level events = some level) :
    p.putAll events =
      { level := level
        text := p.text ++ layOut p.level events
        placeholders := p.placeholders + events.countP Event.isPlaceholder } := by
  induction events generalizing p with
  | nil =>
    obtain rfl : p.level = level := Option.some.inj h
    simp [putAll, layOut]
  | cons e rest ih =>
    rw [levelAfter?_cons] at h
    obtain ⟨next, he, hrest⟩ := Option.bind_eq_some_iff.mp h
    change (p.put e).putAll rest = _
    rw [put_eq he, ih hrest, layOut, he, Option.getD_some, List.countP_cons]
    simp [String.append_assoc, Nat.add_assoc, Nat.add_comm (rest.countP _)]

/-- No event closes a block when none is open, at the level the page then has. -/
def Page.NeverBelow (p : Page) (events : List Event) : Prop :=
  ∀ before e after, events = before ++ e :: after → e.closes = true → 0 < (p.putAll before).level

theorem Page.neverBelow_iff {p : Page} {events : List Event} :
    p.NeverBelow events ↔ ∃ level, levelAfter? p.level events = some level := by
  constructor
  · induction events using List.reverseRecOn with
    | nil => exact fun _ => ⟨p.level, rfl⟩
    | append_singleton before e ih =>
      intro h
      obtain ⟨level, hlevel⟩ := ih fun b e' a heq =>
        h b e' (a ++ [e]) (by rw [heq, List.append_assoc, List.cons_append])
      rw [levelAfter?_append, hlevel]
      have hopen := h before e [] rfl
      rw [putAll_eq hlevel] at hopen
      cases he : e.levelAfter? level with
      | some next => exact ⟨next, by simp [he, levelAfter?]⟩
      | none =>
        obtain ⟨rfl, hcloses⟩ := Event.levelAfter?_eq_none.mp he
        exact absurd (hopen hcloses) (Nat.lt_irrefl 0)
  · rintro ⟨level, h⟩ before e after rfl hcloses
    rw [levelAfter?_append] at h
    obtain ⟨next, hbefore, hrest⟩ := Option.bind_eq_some_iff.mp h
    rw [putAll_eq hbefore]
    refine Nat.pos_of_ne_zero fun hzero => ?_
    rw [levelAfter?_cons, Event.levelAfter?_eq_none.mpr ⟨hzero, hcloses⟩] at hrest
    exact absurd hrest (by simp)

/-! ## The events of code -/

namespace Code

theorem events_append (a b : Code) : (a ++ b).events = a.events ++ b.events := by
  induction a with
  | done => rfl
  | line l next ih => rw [line_append, events, ih, events, List.cons_append]
  | block head body ending next _ ih =>
    rw [block_append, events, ih, events]
    simp
  | branch c yes no next _ _ ih =>
    rw [branch_append, events, ih, events]
    simp

theorem events_ofLines (ls : List Line) : (ofLines ls).events = ls.map .line := by
  induction ls with
  | nil => rfl
  | cons l rest ih => rw [ofLines, events, ih, List.map_cons]

/-- What holds for the events of all pieces of code, and for those of their `else`, holds for the events of
the code. A branch that is all there is in an `else` is written without a block of its own. -/
theorem events_induction {P Q : Code → Prop} (done : P done)
    (line : ∀ l next, P next → P (line l next))
    (block : ∀ head body ending next, P body → P next → P (block head body ending next))
    (branch : ∀ c yes no next, P yes → Q no → P next → P (branch c yes no next))
    (noElse : Q .done)
    (elseIf : ∀ c yes no, P yes → Q no → Q (.branch c yes no .done))
    (elseBlock : ∀ c, c.elseEvents = .reopening "else" :: c.events → P c → Q c) (c : Code) : P c := by
  suffices h : P c ∧ Q c from h.1
  induction c with
  | done => exact ⟨done, noElse⟩
  | line l next ih =>
    have h := line l next ih.1
    exact ⟨h, elseBlock _ rfl h⟩
  | block head body ending next ihbody ih =>
    have h := block head body ending next ihbody.1 ih.1
    exact ⟨h, elseBlock _ rfl h⟩
  | branch c yes no next ihyes ihno ih =>
    have h := branch c yes no next ihyes.1 ihno.2 ih.1
    refine ⟨h, ?_⟩
    cases next with
    | done => exact elseIf c yes no ihyes.1 ihno.2
    | _ => exact elseBlock _ rfl h

/-- **Code closes what it opens**, and nothing else. -/
theorem levelAfter_events (c : Code) (level : Nat) : levelAfter? level c.events = some level := by
  revert level
  refine events_induction (P := fun c => ∀ level, levelAfter? level c.events = some level)
    (Q := fun c => ∀ level, levelAfter? (level + 1) c.elseEvents = some (level + 1))
    ?_ ?_ ?_ ?_ ?_ ?_ ?_ c
  · exact fun level => rfl
  · intro l next ih level
    rw [events, levelAfter?_cons]
    exact ih level
  · intro head body ending next ihbody ih level
    rw [events, levelAfter?_cons, Event.levelAfter?, Option.bind_some, levelAfter?_append, ihbody,
      Option.bind_some, levelAfter?_cons]
    exact ih level
  · intro c yes no next ihyes ihno ih level
    rw [events, levelAfter?_cons, Event.levelAfter?, Option.bind_some, List.append_assoc,
      levelAfter?_append, ihyes, Option.bind_some, levelAfter?_append, ihno, Option.bind_some,
      levelAfter?_cons]
    exact ih level
  · exact fun level => rfl
  · intro c yes no ihyes ihno level
    rw [elseEvents, levelAfter?_cons, Event.levelAfter?, Option.bind_some, levelAfter?_append,
      ihyes, Option.bind_some, ihno]
  · intro c heq ih level
    rw [heq, levelAfter?_cons]
    exact ih (level + 1)

/-- The gaps of code are the placeholders among its events. -/
theorem placeholders_eq (c : Code) : c.placeholders = c.events.countP Event.isPlaceholder := by
  refine events_induction (P := fun c => c.placeholders = c.events.countP Event.isPlaceholder)
    (Q := fun c => c.placeholders = c.elseEvents.countP Event.isPlaceholder)
    rfl ?_ ?_ ?_ rfl ?_ ?_ c
  · intro l next ih
    cases l <;> simp [placeholders, events, List.countP_cons, Event.isPlaceholder, ih]
  · intro head body ending next ihbody ih
    simp [placeholders, events, Event.isPlaceholder, ihbody, ih]
  · intro c yes no next ihyes ihno ih
    simp [placeholders, events, Event.isPlaceholder, ihyes, ihno, ih, Nat.add_assoc]
  · intro c yes no ihyes ihno
    simp [placeholders, elseEvents, Event.isPlaceholder, ihyes, ihno]
  · intro c heq ih
    rw [ih, heq]
    rfl

/-! ## Code on a page -/

/-- Code laid out on a page of its own. -/
def page (c : Code) : Page := ({} : Page).putAll c.events

theorem page_eq (c : Code) : c.page = ⟨0, layOut 0 c.events, c.placeholders⟩ := by
  rw [page, Page.putAll_eq (c.levelAfter_events 0), placeholders_eq]
  simp

theorem text_eq (c : Code) : c.text = layOut 0 c.events := congrArg Page.text c.page_eq

/-- Code in a row is laid out piece by piece, each on a page of its own, and the pages appended. -/
theorem page_seq (cs : List Code) : (seq cs).page = (cs.map page).foldl Page.append {} := by
  have from_page : ∀ p : Page, p.level = 0 →
      p.putAll (seq cs).events = (cs.map page).foldl Page.append p := by
    induction cs with
    | nil => exact fun p _ => rfl
    | cons c rest ih =>
      intro p hp
      have hc : p.putAll c.events = p.append c.page := by
        rw [Page.putAll_eq (c.levelAfter_events p.level), page_eq, placeholders_eq]
        simp [Page.append, hp]
      rw [seq, events_append, List.map_cons, List.foldl_cons, ← ih (p.append c.page) hp, ← hc]
      exact List.foldl_append
  exact from_page {} rfl

end Code

end LuaGlue
