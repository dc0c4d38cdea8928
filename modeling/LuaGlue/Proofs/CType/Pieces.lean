import LuaGlue.Proofs.CType.WellFormed
import LuaGlue.Text.Cut

/-!
# Pieces of a spelling

Taking a text apart yields pieces of it: nothing is put in between, and nothing is moved. Of a spelling these
are the words of its base, one blank apart (`CType.base_of_parse`), or the result and the parameters of its
signature (`CType.signature_of_parse`). So whatever holds of all pieces of a text holds of all that is made
from it by taking it apart.
-/

set_option autoImplicit false

namespace LuaGlue

namespace Text

/-! ## Ends cut off, and cuts at a mark -/

theorem prefix_dropEndWhile (p : Char → Bool) (cs : List Char) : dropEndWhile p cs <+: cs := by
  induction cs with
  | nil => exact List.prefix_rfl
  | cons c rest ih =>
    rw [dropEndWhile]
    split
    · split
      · exact List.nil_prefix
      · exact List.prefix_iff_eq_append.mpr rfl
    · exact List.cons_prefix_cons.mpr ⟨rfl, ih⟩

theorem infix_trim (cs : List Char) : trim cs <:+: cs :=
  (prefix_dropEndWhile isBlank _).isInfix.trans (List.dropWhile_suffix isBlank).isInfix

/-- A text is what stands before the mark, the mark, and what stands after it. -/
theorem eq_of_cutAtChar? {mark : Char} : ∀ {cs before after : List Char},
    cutAtChar? mark cs = some (before, after) → cs = before ++ mark :: after := by
  intro cs
  induction cs with
  | nil => exact fun h => by cases h
  | cons c rest ih =>
    intro before after h
    rw [cutAtChar?] at h
    split at h
    · rename_i hmark
      obtain ⟨rfl, rfl⟩ := Prod.mk.inj (Option.some.inj h)
      rw [hmark]
      rfl
    · obtain ⟨⟨before', after'⟩, hcut, heq⟩ := Option.map_eq_some_iff.mp h
      obtain ⟨rfl, rfl⟩ := Prod.mk.inj heq
      rw [ih hcut]
      rfl

end Text

open Text

/-! ## Dimensions, words and parentheses -/

theorem peelDims_suffix : ∀ {backwards rest : List Char} {dims : List (Option Nat)},
    peelDims backwards = some (rest, dims) → rest <:+ backwards := by
  intro backwards
  induction backwards using peelDims.induct with
  | case1 more hnone =>
    intro rest dims h
    rw [peelDims] at h
    split at h
    · cases h
    · rename_i hsome
      rw [hnone] at hsome
      cases hsome
  | case2 more mark left hsome ih =>
    intro rest dims h
    rw [peelDims] at h
    split at h
    · cases h
    · rename_i mark' left' hsome'
      obtain ⟨-, rfl⟩ := List.cons.inj (hsome.symm.trans hsome')
      obtain ⟨⟨rest', dims'⟩, hpeel, heq⟩ := Option.map_eq_some_iff.mp h
      obtain ⟨rfl, -⟩ := Prod.mk.inj heq
      have hleft : left <:+ more :=
        (List.suffix_cons mark left).trans (hsome ▸ List.dropWhile_suffix (· != '['))
      exact (ih hpeel).trans <| (List.dropWhile_suffix isBlank).trans <|
        hleft.trans (List.suffix_cons ']' more)
  | case3 backwards hother =>
    intro rest dims h
    rw [peelDims] at h
    · obtain ⟨rfl, -⟩ := Prod.mk.inj (Option.some.inj h)
      exact List.suffix_rfl
    · exact hother

/-- A word is a piece of the text and of what had been collected of a word before it. -/
theorem infix_of_mem_lexemesFrom {letters : List Char} : ∀ {cs word : List Char},
    .word letters ∈ lexemesFrom word cs → letters <:+: word.reverse ++ cs := by
  have done {word : List Char} (h : .word letters ∈ Lexeme.ofWord word) : letters = word.reverse := by
    unfold Lexeme.ofWord at h
    split at h
    · exact absurd h List.not_mem_nil
    · simpa using h
  intro cs
  induction cs with
  | nil =>
    intro word h
    simp [done h]
  | cons c rest ih =>
    intro word h
    have stopped (h : .word letters ∈ Lexeme.ofWord word ∨ .word letters ∈ lexemesFrom [] rest) :
        letters <:+: word.reverse ++ c :: rest := by
      rcases h with h | h
      · rw [done h]
        exact (List.prefix_append _ _).isInfix
      · exact (ih h).trans ((List.suffix_cons c rest).trans (List.suffix_append _ _)).isInfix
    unfold lexemesFrom at h
    split at h
    · exact stopped (by simpa using h)
    · split at h
      · exact stopped (by simpa using h)
      · split at h
        · exact stopped (by simpa using h)
        · simpa using ih h

theorem eq_of_closeParen : ∀ {cs inside after : List Char} {depth : Nat},
    closeParen depth cs = some (inside, after) → cs = inside ++ ')' :: after := by
  intro cs
  induction cs with
  | nil => exact fun h => by cases h
  | cons c rest ih =>
    intro inside after depth h
    have kept {depth : Nat}
        (h : (closeParen depth rest).map (fun p => (c :: p.1, p.2)) = some (inside, after)) :
        c :: rest = inside ++ ')' :: after := by
      obtain ⟨⟨inside', after'⟩, hclose, heq⟩ := Option.map_eq_some_iff.mp h
      obtain ⟨rfl, rfl⟩ := Prod.mk.inj heq
      rw [ih hclose]
      rfl
    unfold closeParen at h
    split at h
    · rename_i hparen
      split at h
      · obtain ⟨rfl, rfl⟩ := Prod.mk.inj (Option.some.inj h)
        rw [hparen]
        rfl
      · exact kept h
    · exact kept h

theorem infix_of_mem_splitParams : ∀ {cs part : List Char} {depth : Int} {piece : List Char},
    piece ∈ splitParams part depth cs → piece <:+: part.reverse ++ cs := by
  intro cs
  induction cs with
  | nil =>
    intro part depth piece h
    rw [List.mem_singleton.mp h, List.append_nil]
    exact infix_trim part.reverse
  | cons c rest ih =>
    intro part depth piece h
    unfold splitParams at h
    split at h
    · rcases List.mem_cons.mp h with rfl | h
      · exact (infix_trim part.reverse).trans (List.prefix_append _ _).isInfix
      · exact (ih h).trans ((List.suffix_cons c rest).trans (List.suffix_append _ _)).isInfix
    · simpa using ih h

/-! ## The base of a named type -/

/-- Words of a text, one blank apart. -/
def WordsOf (cs : List Char) (base : String) : Prop :=
  ∃ ws, base.toList = spaced ws ∧ ∀ w ∈ ws, w <:+: cs

theorem WordsOf.add {cs : List Char} {t t' : NamedType} {l : Lexeme} (h : t.add l = some t')
    (ht : WordsOf cs t.base) (hl : ∀ letters, l = .word letters → letters <:+: cs) :
    WordsOf cs t'.base := by
  cases l with
  | star | ampersand =>
    simp only [NamedType.add, Option.ite_none_left_eq_some, Option.some.injEq] at h
    rw [← h.2]
    exact ht
  | word letters =>
    have hletters := hl letters rfl
    simp only [NamedType.add] at h
    split at h
    · obtain rfl := Option.some.inj h
      exact ht
    · split at h
      · obtain rfl := Option.some.inj h
        exact ht
      · split at h
        · cases h
        · obtain rfl := Option.some.inj h
          dsimp only
          split
          · exact ⟨[letters], by rw [String.toList_ofList]; rfl, by simpa using hletters⟩
          · rename_i hbase
            obtain ⟨ws, heq, hws⟩ := ht
            refine ⟨ws ++ [letters], ?_, by simpa [or_imp, forall_and] using ⟨hws, hletters⟩⟩
            have hne : ws ≠ [] := by
              rintro rfl
              rw [String.toList_eq_nil_iff.mp heq] at hbase
              exact hbase rfl
            simp [spaced_concat hne, String.toList_append, heq]

theorem WordsOf.foldlM {cs : List Char} {ls : List Lexeme} : ∀ {t t' : NamedType},
    ls.foldlM NamedType.add t = some t' → WordsOf cs t.base →
      (∀ letters, .word letters ∈ ls → letters <:+: cs) → WordsOf cs t'.base := by
  induction ls with
  | nil =>
    intro t t' h ht _
    obtain rfl := Option.some.inj h
    exact ht
  | cons l rest ih =>
    intro t t' h ht hls
    obtain ⟨t₁, hl, hrest⟩ := Option.bind_eq_some_iff.mp h
    exact ih hrest
      (ht.add hl fun letters hword => hls letters (hword ▸ List.mem_cons_self))
      fun letters hmem => hls letters (List.mem_cons_of_mem l hmem)

theorem base_of_parseNamed {cs : List Char} {t : NamedType} (h : parseNamed cs = some t) :
    WordsOf cs t.base := by
  obtain ⟨⟨backwards, dims⟩, hpeel, h⟩ := Option.bind_eq_some_iff.mp h
  have hbody : backwards.reverse <+: cs := by
    rw [← List.reverse_suffix, List.reverse_reverse]
    exact peelDims_suffix hpeel
  dsimp only at h
  split at h
  · cases h
  · obtain ⟨t', hfold, h⟩ := Option.bind_eq_some_iff.mp h
    split at h
    · cases h
    · obtain rfl := Option.some.inj h
      refine WordsOf.foldlM hfold ⟨[], rfl, by simp⟩ fun letters hmem => ?_
      exact (infix_of_mem_lexemesFrom hmem).trans hbody.isInfix

/-! ## A signature -/

/-- The parts of a signature are pieces of a text. -/
structure FunctionPointer.PiecesOf (cs : List Char) (f : FunctionPointer) : Prop where
  result : f.result.toList <:+: cs
  params : ∀ p ∈ f.params, p.toList <:+: cs

theorem pieces_of_parseFunctionPointer {cs : List Char} {f : FunctionPointer}
    (h : parseFunctionPointer cs = some f) : f.PiecesOf cs := by
  obtain ⟨⟨before, group⟩, hcut, h⟩ := Option.bind_eq_some_iff.mp h
  obtain ⟨⟨declarator, after⟩, hclose, h⟩ := Option.bind_eq_some_iff.mp h
  have hcs := eq_of_cutAtChar? hcut
  have hafter : after <:+: cs := by
    rw [hcs, eq_of_closeParen hclose]
    exact ⟨before ++ '(' :: (declarator ++ [')']), [], by simp⟩
  dsimp only at h
  split at h
  · cases h
  · split at h
    · rename_i list hlist
      have hparams : list <:+: cs :=
        (List.suffix_cons '(' list).isInfix.trans <| (hlist ▸ infix_trim after).trans hafter
      obtain ⟨⟨inside, rest⟩, hlast, h⟩ := Option.bind_eq_some_iff.mp h
      have hinside : inside <+: list := by
        rw [eq_of_closeParen hlast]
        exact List.prefix_append _ _
      dsimp only at h
      split at h
      · cases h
      · split at h
        · cases h
        · obtain rfl := Option.some.inj h
          refine ⟨?_, fun p hp => ?_⟩
          · rw [String.toList_ofList]
            refine (infix_trim before).trans (List.IsPrefix.isInfix ?_)
            rw [hcs]
            exact List.prefix_append _ _
          · obtain ⟨piece, hpiece, rfl⟩ := List.mem_map.mp (List.mem_filter.mp hp).1
            rw [String.toList_ofList]
            exact (infix_of_mem_splitParams hpiece).trans (hinside.isInfix.trans hparams)
    · cases h

/-! ## Any spelling -/

/-- **The base of a named type is words of its spelling.** -/
theorem CType.base_of_parse {spelling : String} {t : NamedType}
    (h : CType.parse spelling = .named t) : WordsOf spelling.toList t.base := by
  unfold CType.parse at h
  dsimp only at h
  split at h
  · cases h
  · split at h
    · split at h <;> cases h
    · split at h
      · rename_i hnamed
        cases h
        obtain ⟨ws, hbase, hws⟩ := base_of_parseNamed hnamed
        exact ⟨ws, hbase, fun w hw => (hws w hw).trans (infix_trim _)⟩
      · cases h

/-- An array's element has the array's base. -/
theorem base_of_elementType? {spelling elem : String} (h : elementType? spelling = some elem) :
    ∃ t e : NamedType, CType.parse spelling = .named t ∧ e.base = t.base ∧ elem = e.render := by
  unfold elementType? at h
  split at h
  · rename_i t ht
    obtain ⟨e, helement, rfl⟩ := Option.map_eq_some_iff.mp h
    refine ⟨t, e, ht, ?_, rfl⟩
    unfold NamedType.element? at helement
    split at helement
    · cases helement
    · rw [← Option.some.inj helement]
  · cases h

/-- **The parts of a signature are pieces of its spelling.** -/
theorem CType.signature_of_parse {spelling : String} {f : FunctionPointer}
    (h : CType.parse spelling = .function f) : f.PiecesOf spelling.toList := by
  unfold CType.parse at h
  dsimp only at h
  split at h
  · cases h
  · split at h
    · split at h
      · rename_i hfunction
        cases h
        obtain ⟨hresult, hparams⟩ := pieces_of_parseFunctionPointer hfunction
        exact ⟨hresult.trans (infix_trim _), fun p hp => (hparams p hp).trans (infix_trim _)⟩
      · cases h
    · split at h <;> cases h

end LuaGlue
