import LuaGlue.CType.Parse

/-!
# Well-formed types

The named types that come from spellings (`NamedType.WellFormed`): a base of one or more plain words,
pointers that were counted, numbers that were read. Whatever is parsed is of this kind
(`CType.wellFormed_of_parse`), by an invariant of the type that is put together lexeme by lexeme
(`NamedType.Begun`), and so is an element of an array that is.
-/

set_option autoImplicit false

namespace LuaGlue

open Text

/-! ## Words of a base name -/

/-- A character that the words of a base name are made of. -/
def isNameLetter (c : Char) : Bool := !isBlank c && c != '*' && c != '&' && !isBracket c

/-- A word that is part of a base name. -/
structure PlainWord (w : List Char) : Prop where
  nonempty : w ≠ []
  letters : ∀ c ∈ w, isNameLetter c = true
  notConst : String.ofList w ≠ "const"
  notSilent : isSilentWord (String.ofList w) = false

/-- Words, one blank apart. -/
def spaced : List (List Char) → List Char
  | [] => []
  | [w] => w
  | w :: rest => w ++ ' ' :: spaced rest

theorem spaced_cons {w : List Char} {ws : List (List Char)} (h : ws ≠ []) :
    spaced (w :: ws) = w ++ ' ' :: spaced ws := by
  cases ws with
  | nil => exact absurd rfl h
  | cons _ _ => rfl

theorem spaced_concat {ws : List (List Char)} {w : List Char} (h : ws ≠ []) :
    spaced (ws ++ [w]) = spaced ws ++ ' ' :: w := by
  induction ws with
  | nil => exact absurd rfl h
  | cons v rest ih =>
    cases rest with
    | nil => rfl
    | cons u rest =>
      rw [List.cons_append, spaced_cons (by simp), spaced_cons (by simp), ih (by simp),
        List.append_assoc, List.cons_append]

theorem mem_spaced {ws : List (List Char)} {c : Char} (h : c ∈ spaced ws) :
    c = ' ' ∨ ∃ w ∈ ws, c ∈ w := by
  induction ws with
  | nil => exact absurd h List.not_mem_nil
  | cons w rest ih =>
    cases rest with
    | nil => exact .inr ⟨w, List.mem_singleton.mpr rfl, h⟩
    | cons v rest =>
      rw [spaced_cons (by simp), List.mem_append, List.mem_cons] at h
      rcases h with h | h | h
      · exact .inr ⟨w, List.mem_cons_self, h⟩
      · exact .inl h
      · refine (ih h).imp_right ?_
        rintro ⟨u, hu, hc⟩
        exact ⟨u, List.mem_cons_of_mem _ hu, hc⟩

/-- A base name is one or more words. -/
def IsBase (base : String) : Prop :=
  ∃ ws, ws ≠ [] ∧ (∀ w ∈ ws, PlainWord w) ∧ base.toList = spaced ws

/-- The named types that come from spellings. -/
structure NamedType.WellFormed (t : NamedType) : Prop where
  base : IsBase t.base
  pointers : t.pointers ≤ maxPointers
  dims : ∀ n, some n ∈ t.dims → n < sizeBound

/-- An element of an array is as well formed as the array is. -/
theorem NamedType.WellFormed.element {t e : NamedType} (h : t.WellFormed)
    (he : t.element? = some e) : e.WellFormed := by
  unfold NamedType.element? at he
  split at he
  · cases he
  · rename_i d inner hdims
    cases he
    refine ⟨h.base, h.pointers, fun n hn => h.dims n ?_⟩
    rw [hdims]
    exact List.mem_cons_of_mem _ hn

theorem NamedType.WellFormed.unqualified {t : NamedType} (h : t.WellFormed) :
    t.unqualified.WellFormed :=
  ⟨h.base, h.pointers, h.dims⟩

/-! ## What comes from a spelling is well formed -/

/-- A lexeme with a word that is no accident: it is there, and made of letters. -/
def Lexeme.Proper : Lexeme → Prop
  | .word letters => letters ≠ [] ∧ ∀ c ∈ letters, isNameLetter c = true
  | .star | .ampersand => True

theorem Lexeme.proper_ofWord {word : List Char} (hw : ∀ c ∈ word, isNameLetter c = true) :
    ∀ l ∈ Lexeme.ofWord word, l.Proper := by
  intro l hl
  unfold Lexeme.ofWord at hl
  split at hl
  · exact absurd hl List.not_mem_nil
  · rename_i hne
    rw [List.mem_singleton.mp hl]
    refine ⟨by simpa using hne, fun c hc => hw c (List.mem_reverse.mp hc)⟩

theorem lexemesFrom_proper {cs : List Char} :
    ∀ {word : List Char}, (∀ c ∈ word, isNameLetter c = true) → (∀ c ∈ cs, isBracket c = false) →
      ∀ l ∈ lexemesFrom word cs, l.Proper := by
  induction cs with
  | nil => intro word hw _; exact Lexeme.proper_ofWord hw
  | cons c rest ih =>
    intro word hw hcs l hl
    have hrest : ∀ d ∈ rest, isBracket d = false := fun d hd => hcs d (List.mem_cons_of_mem _ hd)
    have hnone : ∀ d ∈ ([] : List Char), isNameLetter d = true := by simp
    unfold lexemesFrom at hl
    split at hl
    · rcases List.mem_append.mp hl with hl | hl
      · exact Lexeme.proper_ofWord hw l hl
      · rcases List.mem_cons.mp hl with rfl | hl
        · exact trivial
        · exact ih hnone hrest l hl
    · split at hl
      · rcases List.mem_append.mp hl with hl | hl
        · exact Lexeme.proper_ofWord hw l hl
        · rcases List.mem_cons.mp hl with rfl | hl
          · exact trivial
          · exact ih hnone hrest l hl
      · split at hl
        · rcases List.mem_append.mp hl with hl | hl
          · exact Lexeme.proper_ofWord hw l hl
          · exact ih hnone hrest l hl
        · rename_i hstar hamp hblank
          refine ih (List.forall_mem_cons.mpr ⟨?_, hw⟩) hrest l hl
          simp [isNameLetter, hstar, hamp, hblank, hcs c List.mem_cons_self]

/-- A type that has been read in part: nothing of it yet, or a base. -/
structure NamedType.Begun (dims : List (Option Nat)) (t : NamedType) : Prop where
  base : t.base ≠ "" → IsBase t.base
  pointers : t.pointers ≤ maxPointers
  dims : t.dims = dims

theorem NamedType.Begun.add {dims : List (Option Nat)} {t t' : NamedType} {l : Lexeme}
    (h : t.Begun dims) (hl : l.Proper) (ht : t.add l = some t') : t'.Begun dims := by
  cases l with
  | star =>
    simp only [NamedType.add] at ht
    split at ht
    · cases ht
    · cases ht
      exact ⟨h.base, Nat.min_le_left _ _, h.dims⟩
  | ampersand =>
    simp only [NamedType.add] at ht
    split at ht
    · cases ht
    · cases ht
      exact ⟨h.base, h.pointers, h.dims⟩
  | word letters =>
    simp only [NamedType.add] at ht
    split at ht
    · cases ht
      exact ⟨h.base, h.pointers, h.dims⟩
    · split at ht
      · cases ht
        exact h
      · split at ht
        · cases ht
        · rename_i hconst hsilent _
          cases ht
          refine ⟨fun _ => ?_, h.pointers, h.dims⟩
          have hword : PlainWord letters :=
            ⟨hl.1, hl.2, by simpa using hconst, by simpa using hsilent⟩
          by_cases hbase : t.base = ""
          · refine ⟨[letters], by simp, by simpa using hword, ?_⟩
            simp [hbase, spaced]
          · obtain ⟨ws, hne, hws, heq⟩ := h.base hbase
            refine ⟨ws ++ [letters], by simp, ?_, ?_⟩
            · intro w hw
              rcases List.mem_append.mp hw with hw | hw
              · exact hws w hw
              · rw [List.mem_singleton.mp hw]
                exact hword
            · have hempty : t.base.isEmpty = false := by simpa using hbase
              rw [hempty, spaced_concat hne, ← heq]
              simp [String.toList_append]

theorem NamedType.Begun.foldlM {dims : List (Option Nat)} {ls : List Lexeme} :
    ∀ {t t' : NamedType}, t.Begun dims → (∀ l ∈ ls, l.Proper) →
      ls.foldlM NamedType.add t = some t' → t'.Begun dims := by
  induction ls with
  | nil =>
    intro t t' h _ ht
    cases ht
    exact h
  | cons l rest ih =>
    intro t t' h hls ht
    rw [List.foldlM_cons] at ht
    obtain ⟨u, hu, hrest⟩ := Option.bind_eq_some_iff.mp ht
    exact ih (h.add (hls l List.mem_cons_self) hu)
      (fun m hm => hls m (List.mem_cons_of_mem _ hm)) hrest

/-- What is read as a number is below the bound. -/
theorem natural?_lt {bound n : Nat} {cs : List Char} (h : natural? bound cs = some n) : n < bound := by
  obtain ⟨-, hlt⟩ := Option.filter_eq_some_iff.mp h
  simpa using hlt

/-- Every number that is peeled off is one that was read. -/
theorem peelDims_lt {backwards rest : List Char} {dims : List (Option Nat)}
    (h : peelDims backwards = some (rest, dims)) : ∀ n, some n ∈ dims → n < sizeBound := by
  induction backwards using peelDims.induct generalizing rest dims with
  | case1 more hmore =>
    rw [peelDims] at h
    split at h
    · cases h
    · rename_i heq
      rw [hmore] at heq
      cases heq
  | case2 more c left hmore ih =>
    rw [peelDims] at h
    split at h
    · cases h
    · rename_i c' left' heq
      rw [hmore] at heq
      cases heq
      obtain ⟨⟨r, ds⟩, hrest, hcons⟩ := Option.map_eq_some_iff.mp h
      cases hcons
      intro n hn
      rcases List.mem_cons.mp hn with hn | hn
      · exact natural?_lt hn.symm
      · exact ih hrest n hn
  | case3 backwards hne =>
    rw [peelDims] at h
    · cases h
      intro n hn
      exact absurd hn List.not_mem_nil
    · exact hne

theorem parseNamed_wellFormed {cs : List Char} {t : NamedType} (h : parseNamed cs = some t) :
    t.WellFormed := by
  unfold parseNamed at h
  obtain ⟨⟨backwards, dims⟩, hpeel, h⟩ := Option.bind_eq_some_iff.mp h
  dsimp only at h
  split at h
  · cases h
  · rename_i hbracket
    obtain ⟨u, hfold, h⟩ := Option.bind_eq_some_iff.mp h
    split at h
    · cases h
    · rename_i hbase
      cases h
      have hproper : ∀ l ∈ lexemesFrom [] backwards.reverse, l.Proper :=
        lexemesFrom_proper (by simp) (by simpa using hbracket)
      have hbegun : t.Begun dims.reverse :=
        NamedType.Begun.foldlM ⟨fun hne => absurd rfl hne, Nat.zero_le _, rfl⟩ hproper hfold
      refine ⟨hbegun.base (by simpa using hbase), hbegun.pointers, fun n hn => ?_⟩
      rw [hbegun.dims] at hn
      exact peelDims_lt hpeel n (List.mem_reverse.mp hn)

/-- **What comes from a spelling is well formed.** -/
theorem CType.wellFormed_of_parse {spelling : String} {t : NamedType}
    (h : CType.parse spelling = .named t) : t.WellFormed := by
  unfold CType.parse at h
  dsimp only at h
  split at h
  · cases h
  · split at h
    · split at h <;> cases h
    · split at h
      · rename_i heq
        cases h
        exact parseNamed_wellFormed heq
      · cases h

end LuaGlue
