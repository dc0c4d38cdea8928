import LuaGlue.Proofs.Classifier.Names
import LuaGlue.Proofs.Naming.Alphabet

/-!
# The memo in an alphabet

All categories of a run are about names the index has, so the memo of a run stays in every alphabet that
these names are in.
-/

set_option autoImplicit false

namespace LuaGlue

/-- All answers of the memo are over `P`. -/
def Memo.Over (P : Char → Prop) (m : Memo) : Prop := ∀ e ∈ m.entries, e.2.Over P

/-- A question that is answered in `Q` and keeps the memo over `P`. -/
def Classifying.Stays {α : Type} (P : Char → Prop) (Q : α → Prop) (q : Classifying α) : Prop :=
  ∀ m : Memo, m.Over P → Q (q.run m).1 ∧ (q.run m).2.Over P

variable {P : Char → Prop}

theorem Category.over_iff : ∀ {c : Category}, c.Over P ↔ c.About (Text.Over P)
  | .pointer pointee _ => over_iff (c := pointee)
  | .fixedArray elem _ => over_iff (c := elem)
  | .structValue .. | .structPointer .. | .enum _ => by simp [Category.Over, About, names]
  | .void | .bool | .integer _ | .float _ | .cstring | .handle _ | .callback .. | .unknown => by
    simp [Category.Over, About, names]

theorem Memo.over_iff {m : Memo} : m.Over P ↔ m.About (Text.Over P) :=
  forall₂_congr fun _ _ => Category.over_iff

theorem Memo.over_empty : ({} : Memo).Over P := fun _ he => absurd he List.not_mem_nil

namespace Classifying.Stays

variable {α β : Type} {Q : α → Prop} {R : β → Prop}

theorem pure {a : α} (h : Q a) : Classifying.Stays P Q (Pure.pure a) := Keeps.pure h

theorem bind {q : Classifying α} {f : α → Classifying β} (hq : q.Stays P Q)
    (hf : ∀ a, Q a → (f a).Stays P R) : (q >>= f).Stays P R :=
  Keeps.bind hq hf

theorem mapM {q : α → Classifying β} {as : List α} (h : ∀ a ∈ as, (q a).Stays P R) :
    (as.mapM q).Stays P fun bs => ∀ b ∈ bs, R b :=
  Keeps.mapM h

theorem anyM {q : α → Classifying Bool} {as : List α}
    (h : ∀ a ∈ as, (q a).Stays P fun _ => True) : (as.anyM q).Stays P fun _ => True :=
  Keeps.anyM h

end Classifying.Stays

theorem classify_stays {index : TypeIndex} (hindex : ∀ name ∈ index.names, Text.Over P name)
    (spelling : String) : (classify index spelling).Stays P (Category.Over P) := by
  intro m hm
  obtain ⟨hc, hm'⟩ := classify_keeps hindex spelling m (Memo.over_iff.mp hm)
  exact ⟨Category.over_iff.mpr hc, Memo.over_iff.mpr hm'⟩

end LuaGlue
