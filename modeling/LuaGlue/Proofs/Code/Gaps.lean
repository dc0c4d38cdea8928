import LuaGlue.Proofs.Code.Layout
import Mathlib.Algebra.GroupWithZero.Nat

/-!
# How many gaps code marks

The count of a piece of code is the sum over its pieces, so that whether there is a gap can be told
template by template.
-/

set_option autoImplicit false

namespace LuaGlue

namespace Code

theorem placeholders_append (a b : Code) :
    (a ++ b).placeholders = a.placeholders + b.placeholders := by
  rw [placeholders_eq, events_append, List.countP_append, ← placeholders_eq, ← placeholders_eq]

theorem placeholders_line (l : Line) (next : Code) :
    (line l next).placeholders =
      next.placeholders + if (Event.line l).isPlaceholder then 1 else 0 := by
  rw [placeholders_eq, events, List.countP_cons, ← placeholders_eq]

theorem placeholders_block (head : Head) (body : Code) (ending : Ending) (next : Code) :
    (block head body ending next).placeholders = body.placeholders + next.placeholders := rfl

theorem placeholders_branch (c : Cond) (yes no next : Code) :
    (branch c yes no next).placeholders =
      yes.placeholders + no.placeholders + next.placeholders := rfl

theorem placeholders_seq (cs : List Code) : (seq cs).placeholders = (cs.map placeholders).sum := by
  induction cs with
  | nil => rfl
  | cons c rest ih => rw [seq, placeholders_append, ih, List.map_cons, List.sum_cons]

theorem placeholders_ofLines (ls : List Line) :
    (ofLines ls).placeholders = (ls.map Event.line).countP Event.isPlaceholder := by
  rw [placeholders_eq, events_ofLines]

theorem placeholders_blockOf (head : Head) (body : Code) (ending : Ending) :
    (blockOf head body ending).placeholders = body.placeholders := rfl

theorem placeholders_branchOf (c : Cond) (yes : Code) :
    (branchOf c yes).placeholders = yes.placeholders := rfl

/-- Lines none of which is a gap. -/
theorem ofLines_placeholders {ls : List Line} (h : ∀ what, .placeholder what ∉ ls) :
    (ofLines ls).placeholders = 0 := by
  rw [placeholders_ofLines, List.countP_eq_zero]
  intro e he hgap
  obtain ⟨l, hl, rfl⟩ := List.mem_map.mp he
  cases l <;> simp only [Event.isPlaceholder, Bool.false_eq_true] at hgap
  exact h _ hl

/-- Whether there is a gap in the code. -/
def Marks (c : Code) : Prop := 0 < c.placeholders

/-- The count of a page grows if and only if there is a gap in the code laid out on it. -/
theorem page_grows_iff (c : Code) (p : Page) :
    p.placeholders < (p.putAll c.events).placeholders ↔ c.Marks := by
  rw [Page.putAll_eq (c.levelAfter_events p.level), Marks, placeholders_eq]
  exact Nat.lt_add_right_iff_pos

section

variable {a b body next yes no : Code} {l : Line}

theorem not_marks_done : ¬ Marks .done := Nat.lt_irrefl 0

theorem marks_append : (a ++ b).Marks ↔ a.Marks ∨ b.Marks := by
  rw [Marks, placeholders_append, Nat.add_pos_iff_pos_or_pos, Marks, Marks]

theorem marks_line : (line l next).Marks ↔ (Event.line l).isPlaceholder = true ∨ next.Marks := by
  rw [Marks, placeholders_line, Nat.add_pos_iff_pos_or_pos, or_comm, Marks]
  cases (Event.line l).isPlaceholder <;> simp

theorem marks_block {head : Head} {ending : Ending} :
    (block head body ending next).Marks ↔ body.Marks ∨ next.Marks := by
  rw [Marks, placeholders_block, Nat.add_pos_iff_pos_or_pos, Marks, Marks]

theorem marks_branch {c : Cond} :
    (branch c yes no next).Marks ↔ yes.Marks ∨ no.Marks ∨ next.Marks := by
  rw [Marks, placeholders_branch, Nat.add_assoc, Nat.add_pos_iff_pos_or_pos,
    Nat.add_pos_iff_pos_or_pos, Marks, Marks, Marks]

theorem marks_ofLines {ls : List Line} :
    (ofLines ls).Marks ↔ ∃ l ∈ ls, (Event.line l).isPlaceholder = true := by
  rw [Marks, placeholders_ofLines, List.countP_pos_iff]
  simp

theorem marks_seq {cs : List Code} : (seq cs).Marks ↔ ∃ c ∈ cs, c.Marks := by
  induction cs with
  | nil => simpa [seq] using not_marks_done
  | cons c rest ih => simp [seq, marks_append, ih]

end

end Code

end LuaGlue
