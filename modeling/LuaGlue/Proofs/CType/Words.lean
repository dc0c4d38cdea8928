import LuaGlue.Proofs.Text.Words

/-!
# Words in spellings

A spelling is taken apart into pieces of it, and C's own marks come between them again. None of these marks
is a character of an identifier, so no word of a library can come about: the spellings made from one that
has nothing of the auxiliary library in it have nothing of it either.
-/

set_option autoImplicit false

namespace LuaGlue

open Text

/-! ## Pieces -/

/-- Words one blank apart. -/
theorem foreign_spaced {ws : List (List Char)} (h : ∀ w ∈ ws, ¬ auxiliaryStem.toList <:+: w) :
    ¬ auxiliaryStem.toList <:+: spaced ws := by
  induction ws with
  | nil => decide
  | cons w rest ih =>
    obtain ⟨hw, hrest⟩ := List.forall_mem_cons.mp h
    cases rest with
    | nil => exact hw
    | cons v rest =>
      have hblank : isNameChar ' ' = false := by decide
      have hfront : Apart w (' ' :: spaced (v :: rest)) := .inr (by simp [hblank])
      have hback : Apart [' '] (spaced (v :: rest)) := .inl (by simp [hblank])
      rw [spaced_cons (by simp), hfront.infix_iff nameChar_of_stem, ← List.singleton_append,
        hback.infix_iff nameChar_of_stem]
      rintro (hin | hin | hin)
      · exact hw hin
      · exact absurd hin (by decide)
      · exact ih hrest hin

theorem WordsOf.foreign {s base : String} (h : WordsOf s.toList base) (hs : Foreign s) : Foreign base := by
  obtain ⟨ws, hbase, hws⟩ := h
  rw [Foreign, hbase]
  exact foreign_spaced fun w hw hin => hs (hin.trans (hws w hw))

/-! ## Marks -/

theorem foreign_stars (n : Nat) : Foreign (String.ofList (List.replicate n '*')) := by
  refine foreign_of_not_mem (c := '_') (by decide) fun h => ?_
  rw [String.toList_ofList] at h
  exact absurd (List.eq_of_mem_replicate h) (by decide)

theorem apart_stars (s : String) (n : Nat) :
    Apart s.toList (String.ofList (List.replicate n '*')).toList := by
  refine .inr fun c hc => ?_
  rw [String.toList_ofList] at hc
  rw [List.eq_of_mem_replicate (List.mem_of_mem_head? hc)]
  decide

theorem toList_renderDim (d : Option Nat) :
    (renderDim d).toList = '[' :: ((d.elim [] fun n => (toString n).toList) ++ [']']) := by
  cases d with
  | some n => simp [renderDim]
  | none => rfl

theorem toList_renderDims (t : NamedType) :
    t.renderDims.toList = t.dims.flatMap fun d => (renderDim d).toList := by
  rw [NamedType.renderDims, String.toList_join, List.flatMap_map]

theorem foreign_dims (t : NamedType) : Foreign t.renderDims := by
  refine foreign_of_not_mem (c := '_') (by decide) fun h => ?_
  rw [toList_renderDims] at h
  obtain ⟨d, -, hd⟩ := List.mem_flatMap.mp h
  rw [toList_renderDim] at hd
  cases d <;> simp at hd

theorem apart_dims (s : String) (t : NamedType) : Apart s.toList t.renderDims.toList := by
  refine .inr fun c hc => ?_
  rw [toList_renderDims] at hc
  cases hdims : t.dims with
  | nil => simp [hdims] at hc
  | cons d rest =>
    rw [hdims, List.flatMap_cons, toList_renderDim] at hc
    obtain rfl : '[' = c := by simpa using hc
    decide

/-! ## Spellings made from spellings -/

theorem NamedType.renderScalar_foreign {t : NamedType} (h : Foreign t.base) :
    Foreign t.renderScalar := by
  unfold renderScalar
  cases t.constBase <;> cases t.reference <;>
  simp (disch := decide) [foreign_append (apart_stars _ _), foreign_open, foreign_end,
    foreign_literal, foreign_stars, h]

theorem NamedType.render_foreign {t : NamedType} (h : Foreign t.base) : Foreign t.render :=
  (foreign_append (apart_dims _ t)).mpr ⟨renderScalar_foreign h, foreign_dims t⟩

theorem CType.base_foreign {spelling : String} {t : NamedType} (h : Foreign spelling)
    (ht : CType.parse spelling = .named t) : Foreign t.base :=
  (CType.base_of_parse ht).foreign h

theorem CType.result_foreign {spelling : String} {f : FunctionPointer} (h : Foreign spelling)
    (hf : CType.parse spelling = .function f) : Foreign f.result :=
  h.of_infix (CType.signature_of_parse hf).result

theorem CType.params_foreign {spelling : String} {f : FunctionPointer} (h : Foreign spelling)
    (hf : CType.parse spelling = .function f) : ∀ p ∈ f.params, Foreign p :=
  fun p hp => h.of_infix ((CType.signature_of_parse hf).params p hp)

theorem FunctionPointer.renderParams_quiet {f : FunctionPointer} (h : ∀ p ∈ f.params, Quiet p) :
    Quiet f.renderParams := by
  have hlist : Quiet (", ".intercalate f.params) :=
    (quiet_intercalate (by decide) (by decide) (quiet_literal (by decide))).mpr h
  unfold renderParams
  split
  · exact quiet_literal (by decide)
  · exact quiet_literal (by decide)
  · exact (quiet_open (by decide)).mpr ⟨hlist, quiet_literal (by decide)⟩
  · exact hlist

theorem declare_quiet {spelling name : String} (hs : Foreign spelling) (hn : Quiet name) :
    Quiet (declare spelling name) := by
  unfold declare
  split
  · rename_i t ht
    have hscalar := (NamedType.renderScalar_foreign (CType.base_foreign hs ht)).quiet
    simp (disch := decide) [quiet_append (apart_dims _ t), quiet_open, quiet_between, quiet_literal,
      hscalar, hn, (foreign_dims t).quiet]
  · rename_i f hf
    have hresult := (CType.result_foreign hs hf).quiet
    have hparams := FunctionPointer.renderParams_quiet fun p hp => (CType.params_foreign hs hf p hp).quiet
    simp (disch := decide) [quiet_open, quiet_between, quiet_literal, hresult, hparams, hn]
  · simp (disch := decide) [quiet_open, quiet_between, quiet_literal, hs.trimmed.quiet, hn]

theorem valueType_foreign {spelling : String} (h : Foreign spelling) : Foreign (valueType spelling) := by
  unfold valueType
  split
  · rename_i t ht
    have hbase := CType.base_foreign h ht
    exact NamedType.render_foreign (t := t.unqualified) hbase
  · exact h.trimmed

theorem declareLocal_quiet {spelling name : String} (hs : Foreign spelling) (hn : Quiet name) :
    Quiet (declareLocal spelling name) :=
  declare_quiet (valueType_foreign hs) hn

theorem elementType?_foreign {spelling elem : String} (h : Foreign spelling)
    (he : elementType? spelling = some elem) : Foreign elem := by
  obtain ⟨t, e, ht, hbase, rfl⟩ := base_of_elementType? he
  exact NamedType.render_foreign (hbase ▸ CType.base_foreign h ht)

end LuaGlue
