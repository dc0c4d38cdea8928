import LuaGlue.Proofs.CType.Pieces
import LuaGlue.Proofs.Naming.Alphabet

/-!
# What spellings are made of

Taking a spelling apart yields pieces of its text, and putting pieces together adds C's own marks. So the
spellings that generation makes from spellings — of elements, pointees, locals, parameters of callbacks —
stay in every alphabet that the first ones are in.
-/

set_option autoImplicit false

namespace LuaGlue

open Text

/-! ## Types over an alphabet -/

section

variable {P : Char → Prop} [Alphabet P]

/-- What a spelling is taken apart into. -/
def CType.Over (P : Char → Prop) : CType → Prop
  | .named t => Text.Over P t.base
  | .function f => Text.Over P f.result ∧ ∀ p ∈ f.params, Text.Over P p
  | .malformed => True

/-- **What a spelling is taken apart into is in its text.** -/
theorem CType.parse_over {spelling : String} (h : Text.Over P spelling) :
    (CType.parse spelling).Over P := by
  cases hparse : CType.parse spelling with
  | named t =>
    obtain ⟨ws, hbase, hws⟩ := CType.base_of_parse hparse
    intro c hc
    rw [hbase] at hc
    rcases mem_spaced hc with rfl | ⟨w, hw, hc⟩
    · exact Alphabet.plain ' ' (by decide) (by decide) (by decide)
    · exact h c ((hws w hw).subset hc)
  | function f =>
    obtain ⟨hresult, hparams⟩ := CType.signature_of_parse hparse
    exact ⟨fun c hc => h c (hresult.subset hc), fun p hp c hc => h c ((hparams p hp).subset hc)⟩
  | malformed => trivial

/-! ## Spellings made from spellings -/

theorem stars_over (n : Nat) : Text.Over P (String.ofList (List.replicate n '*')) := by
  refine over_ofList.mpr fun c hc => ?_
  rw [List.eq_of_mem_replicate hc]
  exact Alphabet.plain '*' (by decide) (by decide) (by decide)

theorem NamedType.renderScalar_over {t : NamedType} (h : Text.Over P t.base) :
    Text.Over P t.renderScalar := by
  refine over_append.mpr ⟨over_append.mpr ⟨over_append.mpr ⟨?_, h⟩, stars_over _⟩, ?_⟩ <;>
  split <;> exact over_literal (by decide)

theorem NamedType.renderDims_over (t : NamedType) : Text.Over P t.renderDims := by
  refine over_join fun dim hdim => ?_
  obtain ⟨d, -, rfl⟩ := List.mem_map.mp hdim
  cases d with
  | some n =>
    exact over_append.mpr ⟨over_append.mpr ⟨over_literal (by decide), over_toString n⟩,
      over_literal (by decide)⟩
  | none => exact over_literal (by decide)

theorem NamedType.render_over {t : NamedType} (h : Text.Over P t.base) : Text.Over P t.render :=
  over_append.mpr ⟨renderScalar_over h, renderDims_over t⟩

theorem FunctionPointer.renderParams_over {f : FunctionPointer}
    (h : ∀ p ∈ f.params, Text.Over P p) : Text.Over P f.renderParams := by
  have hlist := over_intercalate (s := ", ") (over_literal (by decide)) h
  unfold renderParams
  split
  · exact over_literal (by decide)
  · exact over_literal (by decide)
  · exact over_append.mpr ⟨hlist, over_literal (by decide)⟩
  · exact hlist

theorem declare_over {spelling name : String} (hs : Text.Over P spelling) (hn : Text.Over P name) :
    Text.Over P (declare spelling name) := by
  have hparse := CType.parse_over hs
  unfold declare
  split
  · rename_i t ht
    rw [ht] at hparse
    simp (disch := decide) [over_literal, NamedType.renderScalar_over hparse,
      NamedType.renderDims_over, hn]
  · rename_i f hf
    rw [hf] at hparse
    simp (disch := decide) [over_literal, hparse.1, FunctionPointer.renderParams_over hparse.2, hn]
  · simp (disch := decide) [over_literal, hs.trimmed, hn]

theorem valueType_over {spelling : String} (h : Text.Over P spelling) :
    Text.Over P (valueType spelling) := by
  have hparse := CType.parse_over h
  unfold valueType
  split
  · rename_i t ht
    rw [ht] at hparse
    exact NamedType.render_over hparse
  · exact h.trimmed

theorem declareLocal_over {spelling name : String} (hs : Text.Over P spelling)
    (hn : Text.Over P name) : Text.Over P (declareLocal spelling name) :=
  declare_over (valueType_over hs) hn

theorem elementType?_over {spelling elem : String} (h : Text.Over P spelling)
    (he : elementType? spelling = some elem) : Text.Over P elem := by
  obtain ⟨t, e, ht, hbase, rfl⟩ := base_of_elementType? he
  have hparse := CType.parse_over h
  rw [ht] at hparse
  exact NamedType.render_over (hbase ▸ hparse)

theorem pointeeType?_over {spelling pointee : String} (h : Text.Over P spelling)
    (hp : pointeeType? spelling = some pointee) : Text.Over P pointee := by
  have hparse := CType.parse_over h
  unfold pointeeType? at hp
  split at hp
  · rename_i t ht
    rw [ht] at hparse
    obtain ⟨e, hpointee, rfl⟩ := Option.map_eq_some_iff.mp hp
    have hbase : e.base = t.base := by
      unfold NamedType.pointee? at hpointee
      split at hpointee
      · rw [← Option.some.inj hpointee]
      · cases hpointee
    exact NamedType.render_over (hbase ▸ hparse)
  · cases hp

end

end LuaGlue
