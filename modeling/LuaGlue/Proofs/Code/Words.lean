import LuaGlue.Proofs.Code.Alphabet
import LuaGlue.Proofs.Text.Words

/-!
# Words in code

The parts of a term are written with fixed text between them, so a term raises no error of its own if its parts
do not and it calls no function that does. One equation for each constructor says so, of the text that the
term is written as; the functions of the API bring their names along (`Api.name_quiet`).

What events write is quiet if each event is (`quiet_layOut`).
-/

set_option autoImplicit false

namespace LuaGlue

open Text

/-! ## Functions of the API -/

/-- **A function that raises no error is called by a name that does not begin like one that does.** -/
theorem Api.name_quiet {f : Api} (h : f.raises = false) : Quiet f.name := by
  have hbytes : ∀ word ∈ raisingWords, ¬ bytes word <:+: bytes f.name := by
    revert h
    cases f <;> decide
  exact fun word hword hnames => not_infix_of_bytes (hbytes word hword) hnames.infix

theorem Support.name_quiet (f : Support) : Quiet f.name := by
  cases f <;> exact quiet_literal (by decide)

/-! ## Terms as they are written -/

section

variable {p : Place} {i : StackIndex} {c : Call} {e : Expr} {s t : String}

@[simp] theorem Place.quiet_name : Quiet (name s).render ↔ Quiet s := Iff.rfl

@[simp] theorem Place.quiet_element : Quiet (p.element s).render ↔ Quiet p.render ∧ Quiet s := by
  simp (disch := decide) [render, quiet_open, quiet_between, quiet_literal]

@[simp] theorem Place.quiet_member : Quiet (p.member s).render ↔ Quiet p.render ∧ Quiet s := by
  simp (disch := decide) [render, quiet_open, quiet_between, quiet_literal]

@[simp] theorem Place.quiet_memberOf : Quiet (p.memberOf s).render ↔ Quiet p.render ∧ Quiet s := by
  simp (disch := decide) [render, quiet_open, quiet_between, quiet_end, quiet_literal]

@[simp] theorem Place.quiet_target : Quiet p.target.render ↔ Quiet p.render := by
  simp (disch := decide) [render, quiet_end, quiet_literal]

@[simp] theorem Place.quiet_through : Quiet (through s t).render ↔ Quiet s ∧ Quiet t := by
  simp (disch := decide) [render, quiet_open, quiet_between, quiet_literal]

@[simp] theorem StackIndex.quiet_top : Quiet top.render := quiet_literal (by decide)

@[simp] theorem StackIndex.quiet_belowTop : Quiet belowTop.render := quiet_literal (by decide)

@[simp] theorem StackIndex.quiet_held : Quiet (held s).render ↔ Quiet s := Iff.rfl

@[simp] theorem Arg.quiet_state : Quiet state.render := quiet_literal (by decide)

@[simp] theorem Arg.quiet_at : Quiet (Arg.at i).render ↔ Quiet i.render := Iff.rfl

@[simp] theorem Arg.quiet_value : Quiet (value p).render ↔ Quiet p.render := Iff.rfl

@[simp] theorem Arg.quiet_cast : Quiet (cast s p).render ↔ Quiet s ∧ Quiet p.render := by
  unfold Arg.render
  simp (disch := decide) [quiet_open, quiet_between, quiet_end, quiet_literal]

@[simp] theorem Arg.quiet_address : Quiet (address s).render ↔ Quiet s := by
  unfold Arg.render
  simp (disch := decide) [quiet_end, quiet_literal]

@[simp] theorem Arg.quiet_addressOf : Quiet (addressOf p).render ↔ Quiet p.render := by
  unfold Arg.render
  simp (disch := decide) [quiet_open, quiet_end, quiet_literal]

@[simp] theorem Arg.quiet_number (n : Nat) : Quiet (number n).render := (foreign_toString n).quiet

@[simp] theorem Arg.quiet_succ : Quiet (succ s).render ↔ Quiet s := by
  unfold Arg.render
  simp (disch := decide) [quiet_open, quiet_literal]

@[simp] theorem Arg.quiet_sizeof : Quiet (sizeof s).render ↔ Quiet s := by
  unfold Arg.render
  simp (disch := decide) [quiet_open, quiet_end, quiet_literal]

@[simp] theorem Arg.quiet_literal : Quiet (literal s).render ↔ Quiet s := by
  unfold Arg.render
  simp (disch := decide) [quiet_open, quiet_end, Text.quiet_literal]

@[simp] theorem Arg.quiet_slotEntry {f : Symbol} (n : Nat) :
    Quiet (slotEntry f n).render ↔ Quiet f.spelling := by
  unfold Arg.render
  simp (disch := decide) [quiet_open, quiet_between, quiet_end, Text.quiet_literal]

@[simp] theorem Arg.quiet_text : Quiet (text s).render ↔ Quiet s := Iff.rfl

@[simp] theorem Call.quiet_iff :
    Quiet c.render ↔ Quiet c.callee.render ∧ ∀ a ∈ c.args, Quiet a.render := by
  have hargs : Quiet (", ".intercalate (c.args.map Arg.render)) ↔ ∀ a ∈ c.args, Quiet a.render := by
    rw [quiet_intercalate (by decide) (by decide) (quiet_literal (by decide)), List.forall_mem_map]
  simp (disch := decide) [render, quiet_open, quiet_between, quiet_literal, hargs]

@[simp] theorem Callee.quiet_generated {f : Symbol} : Quiet (generated f).render ↔ Quiet f.spelling := Iff.rfl

@[simp] theorem Callee.quiet_support (f : Support) : Quiet (support f).render := f.name_quiet

theorem Callee.quiet_api {f : Api} (h : f.raises = false) : Quiet (api f).render := f.name_quiet h

@[simp] theorem Cond.quiet_holds : Quiet (holds c).render ↔ Quiet c.render := Iff.rfl

@[simp] theorem Cond.quiet_fails : Quiet (fails c).render ↔ Quiet c.render :=
  (quiet_end (by decide)).trans (and_iff_right (quiet_literal (by decide)))

@[simp] theorem Cond.quiet_notNull : Quiet (notNull p s).render ↔ Quiet p.render ∧ Quiet s := by
  unfold Cond.render
  simp (disch := decide) [quiet_open, quiet_between, quiet_literal]

@[simp] theorem Cond.quiet_isNull : Quiet (isNull p s).render ↔ Quiet p.render ∧ Quiet s := by
  unfold Cond.render
  simp (disch := decide) [quiet_open, quiet_between, quiet_literal]

@[simp] theorem Cond.quiet_isString : Quiet (isString i).render ↔ Quiet i.render := by
  unfold Cond.render
  simp (disch := decide) [quiet_open, quiet_literal]

@[simp] theorem Cond.quiet_callFails (nargs nresults : Nat) : Quiet (callFails nargs nresults).render := by
  unfold Cond.render
  simp (disch := decide) [quiet_open, quiet_literal]

@[simp] theorem Expr.quiet_value : Quiet (value p).render ↔ Quiet p.render := Iff.rfl

@[simp] theorem Expr.quiet_call : Quiet (call c).render ↔ Quiet c.render := Iff.rfl

@[simp] theorem Expr.quiet_cast : Quiet (cast s e).render ↔ Quiet s ∧ Quiet e.render := by
  simp (disch := decide) [Expr.render, quiet_open, quiet_between, quiet_end, quiet_literal]

@[simp] theorem Expr.quiet_choose {c : Cond} {e' : Expr} :
    Quiet (choose c e e').render ↔ Quiet c.render ∧ Quiet e.render ∧ Quiet e'.render := by
  simp (disch := decide) [Expr.render, quiet_open, quiet_between, quiet_literal, and_assoc]

@[simp] theorem Expr.quiet_text : Quiet (text s).render ↔ Quiet s := Iff.rfl

end

/-! ## Lines, and what is around them -/

section

variable {p : Place} {c : Call} {e : Expr} {s t : String}

@[simp] theorem Line.quiet_call : Text.Quiet (call c).render ↔ Text.Quiet c.render :=
  (quiet_open (by decide)).trans (and_iff_left (quiet_literal (by decide)))

@[simp] theorem Line.quiet_discard : Text.Quiet (discard c).render ↔ Text.Quiet c.render := by
  rw [Line.render, quiet_open (by decide), quiet_end (by decide)]
  simp (disch := decide) only [quiet_literal, true_and, and_true]

@[simp] theorem Line.quiet_assign :
    Text.Quiet (assign p e).render ↔ Text.Quiet p.render ∧ Text.Quiet e.render := by
  simp (disch := decide) [Line.render, quiet_open, quiet_between, quiet_literal]

@[simp] theorem Line.quiet_declare {x : Local} :
    Text.Quiet (declare x e).render ↔ Text.Quiet x.declaration ∧ Text.Quiet e.render := by
  simp (disch := decide) [Line.render, quiet_open, quiet_between, quiet_literal]

@[simp] theorem Local.quiet_plain : Quiet (plain s t).declaration ↔ Quiet s ∧ Quiet t := by
  simp (disch := decide) [plain, quiet_open, quiet_between, quiet_literal]

@[simp] theorem Line.quiet_onlyIf {c : Cond} {l : Line} :
    Text.Quiet (onlyIf c l).render ↔ Text.Quiet c.render ∧ Text.Quiet l.render := by
  simp (disch := decide) [Line.render, quiet_open, quiet_between, quiet_end, quiet_literal]

@[simp] theorem Line.quiet_ret : Text.Quiet (ret e).render ↔ Text.Quiet e.render := by
  simp (disch := decide) [Line.render, quiet_open, quiet_end, quiet_literal]

@[simp] theorem Line.quiet_retVoid : Text.Quiet retVoid.render := quiet_literal (by decide)

@[simp] theorem Line.quiet_blank : Text.Quiet blank.render := quiet_empty

@[simp] theorem Line.quiet_placeholder : Text.Quiet (placeholder s).render ↔ Text.Quiet s := by
  simp (disch := decide) [Line.render, quiet_open, quiet_end, quiet_literal]

@[simp] theorem Line.quiet_item {f : Symbol} : Text.Quiet (item f).render ↔ Text.Quiet f.spelling := by
  simp (disch := decide) [Line.render, quiet_open, quiet_literal]

@[simp] theorem Line.quiet_functionType {f : Symbol} :
    Text.Quiet (functionType s f t).render ↔ Text.Quiet s ∧ Text.Quiet f.spelling ∧ Text.Quiet t := by
  simp (disch := decide) [Line.render, quiet_open, quiet_between, quiet_end, quiet_literal, and_assoc]

@[simp] theorem Head.quiet_bare : Quiet bare.render := quiet_empty

@[simp] theorem Head.quiet_define {f : Symbol} :
    Quiet (define s f t).render ↔ Quiet s ∧ Quiet f.spelling ∧ Quiet t := by
  unfold Head.render
  simp (disch := decide) [quiet_open, quiet_between, quiet_literal, and_assoc]

@[simp] theorem Head.quiet_count {v : String} :
    Quiet (count s v t).render ↔ Quiet s ∧ Quiet v ∧ Quiet t := by
  unfold Head.render
  simp (disch := decide) [quiet_open, quiet_between, quiet_end, quiet_literal]
  tauto

@[simp] theorem Head.quiet_table {f : Symbol} :
    Quiet (table s f t).render ↔ Quiet s ∧ Quiet f.spelling ∧ Quiet t := by
  unfold Head.render
  simp (disch := decide) [quiet_open, quiet_between, quiet_literal, and_assoc]

end

/-! ## Events -/

/-- What the event writes is quiet. -/
def Event.Quiet (e : Event) : Prop := Text.Quiet e.text

namespace Event

theorem quiet_line {l : Line} : (line l).Quiet ↔ Text.Quiet l.render := Iff.rfl

theorem quiet_opening {head : String} : (opening head).Quiet ↔ Text.Quiet head := by
  rw [Event.Quiet, text]
  split
  · rename_i h
    rw [String.isEmpty_iff.mp h]
    exact iff_of_true (quiet_literal (by decide)) quiet_empty
  · simp (disch := decide) [quiet_open, quiet_literal]

theorem quiet_reopening {head : String} : (reopening head).Quiet ↔ Text.Quiet head := by
  rw [Event.Quiet, text]
  simp (disch := decide) [quiet_open, quiet_end, quiet_literal]

end Event

theorem quiet_branchHead {c : Cond} : Quiet (branchHead c) ↔ Quiet c.render := by
  simp (disch := decide) [branchHead, quiet_open, quiet_end, quiet_literal]

theorem blank_of_mem_indentation {level : Nat} {c : Char} (h : c ∈ (Page.indentation level).toList) :
    c = ' ' := by
  rw [Page.indentation, String.toList_join] at h
  obtain ⟨t, ht, hc⟩ := List.mem_flatMap.mp h
  rw [List.eq_of_mem_replicate ht] at hc
  simpa using hc

theorem quiet_indentation (level : Nat) : Quiet (Page.indentation level) :=
  (foreign_of_not_mem (c := '_') (by decide) fun h =>
    absurd (blank_of_mem_indentation h) (by decide)).quiet

theorem apart_indentation (level : Nat) (s : String) :
    Apart (Page.indentation level).toList s.toList := by
  refine .inl fun c hc => ?_
  rw [blank_of_mem_indentation (List.mem_of_getLast? hc)]
  decide

/-- **What events write is quiet if each of them is.** -/
theorem quiet_layOut {events : List Event} (h : ∀ e ∈ events, e.Quiet) :
    ∀ level, Quiet (layOut level events) := by
  induction events with
  | nil => exact fun _ => quiet_empty
  | cons e rest ih =>
    intro level
    obtain ⟨he, hrest⟩ := List.forall_mem_cons.mp h
    rw [layOut, Event.written, quiet_between (by decide), quiet_open (by decide),
      quiet_append (apart_indentation _ _)]
    exact ⟨⟨⟨quiet_indentation _, he⟩, quiet_literal (by decide)⟩, ih hrest _⟩

end LuaGlue
