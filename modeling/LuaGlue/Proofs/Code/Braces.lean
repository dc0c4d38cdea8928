import LuaGlue.Proofs.Code.Alphabet

/-!
# Braces

The braces of a text are counted from the left: `bracesAfter?` says how many are open, and has no answer once
one is closed that is not open. A text is `Closed` if it leaves as many open as it finds.

Code without braces in its names and texts has them only where its blocks begin and end, besides the pairs
of initializers and table entries. So reading its text leads through the levels its events lead
through (`bracesAfter?_layOut`), and its text is closed because code closes its blocks (`Code.closed_text`).
-/

set_option autoImplicit false

namespace LuaGlue

namespace Text

/-- How many braces are open after one more character. -/
def braceStep? (opened : Nat) (c : Char) : Option Nat :=
  if c = '\x7b' then some (opened + 1)
  else if c = '\x7d' then (if opened = 0 then none else some (opened - 1))
  else some opened

/-- How many braces are open after a text; none may be closed that is not open. -/
def bracesAfter? (opened : Nat) (cs : List Char) : Option Nat := cs.foldlM braceStep? opened

theorem bracesAfter?_cons (opened : Nat) (c : Char) (cs : List Char) :
    bracesAfter? opened (c :: cs) = (braceStep? opened c).bind (bracesAfter? · cs) := rfl

theorem bracesAfter?_append (opened : Nat) (cs ds : List Char) :
    bracesAfter? opened (cs ++ ds) = (bracesAfter? opened cs).bind (bracesAfter? · ds) :=
  List.foldlM_append

/-- What is opened and not closed is open at the end. -/
theorem bracesAfter?_count {opened after : Nat} {cs : List Char}
    (h : bracesAfter? opened cs = some after) :
    opened + cs.count '\x7b' = after + cs.count '\x7d' := by
  induction cs generalizing opened with
  | nil =>
    obtain rfl : opened = after := Option.some.inj h
    rfl
  | cons c rest ih =>
    rw [bracesAfter?_cons] at h
    obtain ⟨next, hstep, hrest⟩ := Option.bind_eq_some_iff.mp h
    have hcount := ih hrest
    unfold braceStep? at hstep
    split at hstep
    · rename_i hc
      obtain rfl : opened + 1 = next := Option.some.inj hstep
      rw [hc, List.count_cons_self, List.count_cons_of_ne (by decide)]
      omega
    · rename_i hopen
      split at hstep
      · rename_i hc
        split at hstep
        · cases hstep
        · obtain rfl : opened - 1 = next := Option.some.inj hstep
          rw [hc, List.count_cons_self, List.count_cons_of_ne (by decide)]
          omega
      · rename_i hclose
        obtain rfl : opened = next := Option.some.inj hstep
        rwa [List.count_cons_of_ne hopen, List.count_cons_of_ne hclose]

/-- With more braces open at the beginning, as many more are open at the end. -/
theorem bracesAfter?_shift {opened after : Nat} {cs : List Char}
    (h : bracesAfter? opened cs = some after) (more : Nat) :
    bracesAfter? (opened + more) cs = some (after + more) := by
  induction cs generalizing opened with
  | nil => exact congrArg (some <| · + more) (Option.some.inj h)
  | cons c rest ih =>
    rw [bracesAfter?_cons] at h ⊢
    obtain ⟨next, hstep, hrest⟩ := Option.bind_eq_some_iff.mp h
    have hshifted : braceStep? (opened + more) c = some (next + more) := by
      unfold braceStep? at hstep ⊢
      split_ifs at hstep ⊢ <;> simp only [Option.some.injEq] at hstep ⊢ <;> omega
    rw [hshifted]
    exact ih hrest

/-- The text closes the braces that it opens, and no others. -/
def Closed (s : String) : Prop := ∀ opened, bracesAfter? opened s.toList = some opened

theorem closed_iff {s : String} : Closed s ↔ bracesAfter? 0 s.toList = some 0 := by
  refine ⟨fun h => h 0, fun h opened => ?_⟩
  simpa using bracesAfter?_shift h opened

theorem Closed.append {s t : String} (hs : Closed s) (ht : Closed t) : Closed (s ++ t) := by
  intro opened
  rw [String.toList_append, bracesAfter?_append, hs, Option.bind_some, ht]

theorem closed_of_noBrace {s : String} (h : Over NoBrace s) : Closed s := by
  intro opened
  unfold Over at h
  generalize s.toList = cs at h ⊢
  induction cs with
  | nil => rfl
  | cons c rest ih =>
    obtain ⟨hopen, hclose⟩ := h c List.mem_cons_self
    rw [bracesAfter?_cons, braceStep?, if_neg hopen, if_neg hclose]
    exact ih fun d hd => h d (List.mem_cons_of_mem c hd)

theorem bracesAfter?_open (opened : Nat) : bracesAfter? opened "\x7b".toList = some (opened + 1) := rfl

theorem bracesAfter?_close (opened : Nat) :
    bracesAfter? opened "\x7d".toList = if opened = 0 then none else some (opened - 1) := by
  change (braceStep? opened '\x7d').bind (bracesAfter? · []) = _
  rw [braceStep?, if_neg (by decide), if_pos rfl]
  split <;> rfl

/-- A closed text between braces. -/
theorem Closed.between {s : String} (hs : Closed s) : Closed ("\x7b" ++ s ++ "\x7d") := by
  intro opened
  rw [String.toList_append, String.toList_append, bracesAfter?_append, bracesAfter?_append,
    bracesAfter?_open, Option.bind_some, hs, Option.bind_some, bracesAfter?_close]
  rfl

theorem closed_join {ts : List String} (h : ∀ t ∈ ts, Closed t) : Closed (String.join ts) := by
  induction ts with
  | nil => exact closed_of_noBrace over_empty
  | cons t rest ih =>
    rw [String.join_cons]
    exact (h t List.mem_cons_self).append (ih fun t' ht' => h t' (List.mem_cons_of_mem t ht'))

/-- No beginning of the text holds more closing than opening braces, and the whole text holds as many of
either. -/
def Balanced (s : String) : Prop :=
  (∀ before, before <+: s.toList → before.count '\x7d' ≤ before.count '\x7b') ∧
    s.toList.count '\x7b' = s.toList.count '\x7d'

theorem Closed.balanced {s : String} (h : Closed s) : Balanced s := by
  constructor
  · rintro before ⟨after, hsplit⟩
    have hall := h 0
    rw [← hsplit, bracesAfter?_append] at hall
    obtain ⟨opened, hbefore, -⟩ := Option.bind_eq_some_iff.mp hall
    have := bracesAfter?_count hbefore
    omega
  · have := bracesAfter?_count (h 0)
    omega

end Text

open Text

/-! ## Lines -/

theorem closed_initializer {s : String} (h : isInitializer s) : Closed s := by
  rcases h with rfl | rfl <;> exact fun _ => rfl

theorem Expr.closed_render {e : Expr} (h : e.Over NoBrace) : Closed e.render := by
  induction e with
  | value p => exact closed_of_noBrace (Place.render_over h)
  | call c => exact closed_of_noBrace (Call.render_over h)
  | cast type e ih =>
    have htype : Text.Over NoBrace ("(" ++ type ++ ")") := by
      simp (disch := decide) [over_literal, h.1]
    exact (closed_of_noBrace htype).append (ih h.2)
  | target e ih => exact (closed_of_noBrace (over_literal (by decide))).append (ih h)
  | address name =>
    exact closed_of_noBrace (Text.over_append.mpr ⟨over_literal (by decide), h⟩)
  | choose c yes no ihyes ihno =>
    have hmark : Closed " ? " := closed_of_noBrace (over_literal (by decide))
    have hcolon : Closed " : " := closed_of_noBrace (over_literal (by decide))
    exact ((((closed_of_noBrace (Cond.render_over h.1)).append hmark).append
      (ihyes h.2.1)).append hcolon).append (ihno h.2.2)
  | entry table k =>
    have hentry : Text.Over NoBrace (table.spelling ++ "[" ++ k ++ "]") := by
      simp (disch := decide) [over_literal, Symbol.spelling_over h.1, h.2]
    exact closed_of_noBrace hentry
  | text s => exact h.elim closed_of_noBrace closed_initializer

theorem Line.closed_render {l : Line} (h : l.Over NoBrace) : Closed l.render := by
  have literal {s : String} (hs : isPlainText s = true) : Closed s :=
    closed_of_noBrace (over_literal hs)
  induction l with
  | call c => exact (closed_of_noBrace (Call.render_over h)).append (literal (by decide))
  | discard c =>
    exact ((literal (by decide)).append (closed_of_noBrace (Call.render_over h))).append
      (literal (by decide))
  | unused name =>
    exact ((literal (by decide)).append (closed_of_noBrace h)).append (literal (by decide))
  | assign p e =>
    exact (((closed_of_noBrace (Place.render_over h.1)).append (literal (by decide))).append
      (Expr.closed_render h.2)).append (literal (by decide))
  | declare x e =>
    exact (((closed_of_noBrace h.1).append (literal (by decide))).append
      (Expr.closed_render h.2)).append (literal (by decide))
  | onlyIf c l ih =>
    exact (((literal (by decide)).append (closed_of_noBrace (Cond.render_over h.1))).append
      (literal (by decide))).append (ih h.2)
  | ret e =>
    exact ((literal (by decide)).append (Expr.closed_render h)).append (literal (by decide))
  | retVoid => exact literal (by decide)
  | disown bit =>
    exact ((literal (by decide)).append (closed_of_noBrace (ownershipMask_over bit))).append
      (literal (by decide))
  | prototype result f params =>
    have hline : Text.Over NoBrace (result ++ " " ++ f.spelling ++ "(" ++ params ++ ");") := by
      simp (disch := decide) [over_literal, Symbol.spelling_over h.2.1, h.1, h.2.2]
    exact closed_of_noBrace hline
  | functionType result f params =>
    have hline : Text.Over NoBrace
        ("typedef " ++ result ++ " (*" ++ f.spelling ++ ")(" ++ params ++ ");") := by
      simp (disch := decide) [over_literal, Symbol.spelling_over h.2.1, h.1, h.2.2]
    exact closed_of_noBrace hline
  | item f =>
    exact (closed_of_noBrace (Symbol.spelling_over h)).append (literal (by decide))
  | registration name f =>
    have hentry : Text.Over NoBrace ("\"" ++ name ++ "\", " ++ f.spelling) := by
      simp (disch := decide) [over_literal, Symbol.spelling_over h.2, h.1]
    have hline : (Line.registration name f).render =
        "\x7b" ++ ("\"" ++ name ++ "\", " ++ f.spelling) ++ "\x7d" ++ "," := by
      unfold Line.render
      simp only [← String.toList_inj, String.toList_append]
      simp
    rw [hline]
    exact (closed_of_noBrace hentry).between.append (literal (by decide))
  | placeholder what =>
    have hline : Text.Over NoBrace ("/* " ++ placeholderMark ++ ": " ++ what ++ " */") := by
      have hwhat : Text.Over NoBrace what := h
      simp (disch := decide) [over_literal, hwhat]
    exact closed_of_noBrace hline
  | directive s | text s => exact closed_of_noBrace h
  | blank => exact literal (by decide)

theorem Head.render_over {head : Head} (h : head.Over NoBrace) : Text.Over NoBrace head.render := by
  cases head with
  | bare => exact over_empty
  | define result f params =>
    unfold Head.render
    simp (disch := decide) [over_literal, Symbol.spelling_over h.2.1, h.1, h.2.2]
  | count type v bound =>
    unfold Head.render
    simp (disch := decide) [over_literal, h.1, h.2.1, h.2.2]
  | table type f size =>
    unfold Head.render
    simp (disch := decide) [over_literal, Symbol.spelling_over h.2.1, h.1, h.2.2]
  | text s => exact h

theorem branchHead_over {c : Cond} (h : c.Over NoBrace) : Text.Over NoBrace (branchHead c) := by
  unfold branchHead
  simp (disch := decide) [over_literal, Cond.render_over h]

/-! ## Events -/

/-- The braces on the event's line are those of the blocks it closes and opens. -/
def Event.Braced (e : Event) : Prop := ∀ opened, bracesAfter? opened e.text.toList = e.levelAfter? opened

namespace Event.Braced

theorem line {l : Line} (h : l.Over NoBrace) : (Event.line l).Braced := Line.closed_render h

theorem opening {head : String} (h : Text.Over NoBrace head) : (Event.opening head).Braced := by
  intro opened
  unfold text
  dsimp only
  split
  · exact bracesAfter?_open opened
  · rw [String.toList_append, bracesAfter?_append, closed_of_noBrace h, Option.bind_some]
    rfl

/-- The text after the brace that an event closes. -/
theorem bracesAfter?_close_append {after : String} {k : Nat → Option Nat}
    (h : ∀ opened, bracesAfter? opened after.toList = k opened) (opened : Nat) :
    bracesAfter? opened ("\x7d" ++ after).toList = if opened = 0 then none else k (opened - 1) := by
  rw [String.toList_append, bracesAfter?_append, bracesAfter?_close]
  split
  · rfl
  · exact h (opened - 1)

theorem reopening {head : String} (h : Text.Over NoBrace head) : (Event.reopening head).Braced := by
  intro opened
  have hafter : ∀ opened, bracesAfter? opened (" " ++ head ++ " " ++ "\x7b").toList =
      some (opened + 1) := by
    intro opened
    have hhead : Text.Over NoBrace (" " ++ head ++ " ") := by
      simp (disch := decide) [over_literal, h]
    rw [String.toList_append, bracesAfter?_append, closed_of_noBrace hhead]
    rfl
  have htext : (Event.reopening head).text = "\x7d" ++ (" " ++ head ++ " " ++ "\x7b") := by
    unfold text
    simp only [← String.toList_inj, String.toList_append]
    simp
  rw [htext, bracesAfter?_close_append hafter]
  cases opened <;> simp [levelAfter?]

theorem closing {ending : Ending} (h : ending.Over NoBrace) : (Event.closing ending).Braced := by
  intro opened
  obtain ⟨after, htext, hafter⟩ : ∃ after, (Event.closing ending).text = "\x7d" ++ after ∧
      Text.Over NoBrace after := by
    cases ending with
    | brace => exact ⟨"", rfl, over_empty⟩
    | semicolon => exact ⟨";", rfl, over_literal (by decide)⟩
    | named name =>
      have hname : Text.Over NoBrace name := h
      refine ⟨" " ++ name ++ ";", ?_, by simp (disch := decide) [over_literal, hname]⟩
      unfold text Ending.render
      simp only [← String.toList_inj, String.toList_append]
      simp
  rw [htext, bracesAfter?_close_append (closed_of_noBrace hafter)]
  cases opened <;> simp [levelAfter?]

end Event.Braced

theorem closed_indentation (level : Nat) : Closed (Page.indentation level) := by
  refine closed_join fun t ht => ?_
  rw [List.eq_of_mem_replicate ht]
  exact closed_of_noBrace (over_literal (by decide))

/-- **Braces are open in a text as blocks are in its events**, if each line only has those of its blocks. -/
theorem bracesAfter?_layOut {events : List Event} (h : ∀ e ∈ events, e.Braced) (level : Nat) :
    bracesAfter? level (layOut level events).toList = levelAfter? level events := by
  induction events generalizing level with
  | nil => rfl
  | cons e rest ih =>
    have hend : Closed "\n" := closed_of_noBrace (over_literal (by decide))
    have hline : bracesAfter? level (e.written level).toList = e.levelAfter? level := by
      rw [Event.written, String.toList_append, String.toList_append, bracesAfter?_append,
        bracesAfter?_append, closed_indentation, Option.bind_some, h e List.mem_cons_self]
      cases e.levelAfter? level with
      | none => rfl
      | some next => exact hend next
    rw [layOut, String.toList_append, bracesAfter?_append, hline, levelAfter?_cons]
    cases e.levelAfter? level with
    | none => rfl
    | some next => exact ih (fun e' he' => h e' (List.mem_cons_of_mem e he')) next

namespace Code

/-- The braces of code without braces in its texts are those of its blocks. -/
theorem Over.braced {c : Code} (h : c.Over NoBrace) : ∀ e ∈ c.events, e.Braced := by
  revert h
  refine events_induction (P := fun c => c.Over NoBrace → ∀ e ∈ c.events, e.Braced)
    (Q := fun c => c.Over NoBrace → ∀ e ∈ c.elseEvents, e.Braced) ?_ ?_ ?_ ?_ ?_ ?_ ?_ c
  · intro _ e he
    exact absurd he List.not_mem_nil
  · intro l next ih h
    exact List.forall_mem_cons.mpr ⟨.line h.1, ih h.2⟩
  · rintro head body ending next ihbody ih ⟨hhead, hbody, hending, hnext⟩
    exact List.forall_mem_cons.mpr ⟨.opening (Head.render_over hhead),
      List.forall_mem_append.mpr ⟨ihbody hbody,
        List.forall_mem_cons.mpr ⟨.closing hending, ih hnext⟩⟩⟩
  · rintro c yes no next ihyes ihno ih ⟨hc, hyes, hno, hnext⟩
    refine List.forall_mem_cons.mpr ⟨.opening (branchHead_over hc), ?_⟩
    exact List.forall_mem_append.mpr ⟨List.forall_mem_append.mpr ⟨ihyes hyes, ihno hno⟩,
      List.forall_mem_cons.mpr ⟨.closing trivial, ih hnext⟩⟩
  · intro _ e he
    exact absurd he List.not_mem_nil
  · rintro c yes no ihyes ihno ⟨hc, hyes, hno, -⟩
    have hhead : Text.Over NoBrace ("else " ++ branchHead c) :=
      Text.over_append.mpr ⟨over_literal (by decide), branchHead_over hc⟩
    exact List.forall_mem_cons.mpr ⟨.reopening hhead,
      List.forall_mem_append.mpr ⟨ihyes hyes, ihno hno⟩⟩
  · intro c heq ih h
    rw [heq]
    exact List.forall_mem_cons.mpr ⟨.reopening (over_literal (by decide)), ih h⟩

theorem closed_text {c : Code} (h : ∀ e ∈ c.events, e.Braced) : Closed c.text := by
  rw [closed_iff, text_eq, bracesAfter?_layOut h, levelAfter_events]

theorem text_seq (cs : List Code) : (seq cs).text = String.join (cs.map text) := by
  induction cs with
  | nil => rfl
  | cons c rest ih =>
    rw [List.map_cons, String.join_cons, ← ih, text_eq, text_eq, text_eq, seq, events_append,
      layOut_append (c.levelAfter_events 0)]

/-- Closed pieces in a row. -/
theorem closed_text_seq {cs : List Code} (h : ∀ c ∈ cs, Closed c.text) : Closed (seq cs).text := by
  rw [text_seq]
  refine closed_join fun t ht => ?_
  obtain ⟨c, hc, rfl⟩ := List.mem_map.mp ht
  exact h c hc

end Code

end LuaGlue
