import Mathlib.Data.List.Induction
import Mathlib.Data.List.TakeWhile
import LuaGlue.Proofs.CType.RoundTrip

/-!
# The grammar of named types

What a spelling without parentheses must look like to be read as a named type, said without the reader:
bracket groups at its end (`BracketGroups`), in front of them tokens (`Tokens`), and these in order — words,
then stars, then at most one ampersand, with qualifiers anywhere between them (`NamedType.ReadFrom`).
-/

set_option autoImplicit false

namespace LuaGlue

open Text

/-! ## Tokens -/

/-- A text and its tokens: each `*` and each `&` is one, and so is each maximal run of other characters
that are not white space. -/
inductive Tokens : List Char → List Lexeme → Prop
  | nil : Tokens [] []
  | blank {c : Char} {rest : List Char} {ts : List Lexeme} (hc : isBlank c = true)
      (h : Tokens rest ts) : Tokens (c :: rest) ts
  | star {rest : List Char} {ts : List Lexeme} (h : Tokens rest ts) :
      Tokens ('*' :: rest) (.star :: ts)
  | ampersand {rest : List Char} {ts : List Lexeme} (h : Tokens rest ts) :
      Tokens ('&' :: rest) (.ampersand :: ts)
  | word {w rest : List Char} {ts : List Lexeme} (hne : w ≠ []) (hw : ∀ c ∈ w, endsWord c = false)
      (hstop : ∀ c ∈ rest.head?, endsWord c = true) (h : Tokens rest ts) :
      Tokens (w ++ rest) (.word w :: ts)

theorem lexemes_blanks {gap : List Char} (hgap : ∀ c ∈ gap, isBlank c = true) (rest : List Char) :
    lexemes (gap ++ rest) = lexemes rest := by
  induction gap with
  | nil => rfl
  | cons c gap ih =>
    have hc := hgap c List.mem_cons_self
    have hstar : c ≠ '*' := by rintro rfl; exact absurd hc (by decide)
    have hamp : c ≠ '&' := by rintro rfl; exact absurd hc (by decide)
    rw [List.cons_append, lexemes, lexemesFrom, if_neg hstar, if_neg hamp, if_pos hc]
    exact ih fun d hd => hgap d (List.mem_cons_of_mem _ hd)

theorem Tokens.lexemes_eq {cs : List Char} {ts : List Lexeme} (h : Tokens cs ts) : lexemes cs = ts := by
  induction h with
  | nil => rfl
  | @blank c rest ts hc _ ih =>
    have hgap : ∀ d ∈ [c], isBlank d = true := by simpa using hc
    exact (lexemes_blanks hgap rest).trans ih
  | star _ ih => rw [← ih]; rfl
  | ampersand _ ih => rw [← ih]; rfl
  | word hne hw hstop _ ih => rw [lexemes_word hne hw hstop, ih]

theorem Tokens.of_lexemes (cs : List Char) : Tokens cs (lexemes cs) := by
  induction hn : cs.length using Nat.strongRecOn generalizing cs with
  | _ n ih =>
    cases cs with
    | nil => exact .nil
    | cons c rest =>
      have hrest : Tokens rest (lexemes rest) := ih rest.length (by simp [← hn]) rest rfl
      cases hc : endsWord c with
      | true =>
        simp only [endsWord, Bool.or_eq_true, beq_iff_eq] at hc
        obtain (hblank | rfl) | rfl := hc
        · have hgap : ∀ d ∈ [c], isBlank d = true := by simpa using hblank
          have hskip : lexemes (c :: rest) = lexemes rest := lexemes_blanks hgap rest
          exact hskip ▸ .blank hblank hrest
        · exact .star hrest
        · exact .ampersand hrest
      | false =>
        -- the word that begins here goes on as long as it can
        let goesOn : Char → Bool := fun d => !endsWord d
        have hw : ∀ d ∈ (c :: rest).takeWhile goesOn, endsWord d = false := fun d hd => by
          simpa [goesOn] using List.mem_takeWhile_imp hd
        have hne : (c :: rest).takeWhile goesOn ≠ [] := by
          rw [List.takeWhile_cons_of_pos (by simp [goesOn, hc])]
          exact List.cons_ne_nil _ _
        have hstop : ∀ d ∈ ((c :: rest).dropWhile goesOn).head?, endsWord d = true := fun d hd => by
          have := List.head?_dropWhile_not goesOn (c :: rest)
          rw [Option.mem_def.mp hd] at this
          simpa [goesOn] using this
        have hlt : ((c :: rest).dropWhile goesOn).length < n := by
          rw [List.dropWhile_cons_of_pos (by simp [goesOn, hc]), ← hn]
          exact Nat.lt_succ_of_le (dropWhile_length_le goesOn rest)
        have htail := ih _ hlt _ rfl
        have hcut := lexemes_word hne hw hstop
        rw [List.takeWhile_append_dropWhile] at hcut
        rw [hcut]
        conv => arg 1; rw [← List.takeWhile_append_dropWhile (p := goesOn) (l := c :: rest)]
        exact .word hne hw hstop htail

/-- **The tokens of a text are what it is cut into.** -/
theorem tokens_iff {cs : List Char} {ts : List Lexeme} : Tokens cs ts ↔ lexemes cs = ts :=
  ⟨Tokens.lexemes_eq, fun h => h ▸ Tokens.of_lexemes cs⟩

theorem Tokens.word_ne_nil {cs : List Char} {ts : List Lexeme} (h : Tokens cs ts) :
    ∀ w, .word w ∈ ts → w ≠ [] := by
  induction h with
  | nil => exact fun _ hw => absurd hw List.not_mem_nil
  | blank _ _ ih => exact ih
  | star _ ih | ampersand _ ih =>
    intro w hw
    rcases List.mem_cons.mp hw with hw | hw
    · cases hw
    · exact ih w hw
  | word hne _ _ _ ih =>
    intro w hw
    rcases List.mem_cons.mp hw with hw | hw
    · cases hw
      exact hne
    · exact ih w hw

/-! ## Tokens in order -/

/-- The words that may stand anywhere and are no part of a base name. -/
def qualifierWords : List String :=
  ["const", "volatile", "restrict", "__restrict", "struct", "enum", "union", "class", "typename"]

namespace Lexeme

def isQualifier : Lexeme → Bool
  | .word letters => qualifierWords.contains (String.ofList letters)
  | .star | .ampersand => false

def isWord : Lexeme → Bool
  | .word _ => true
  | .star | .ampersand => false

/-- The token `const`. -/
def const : Lexeme := .word "const".toList

theorem isQualifier_word (letters : List Char) : (word letters).isQualifier =
    (String.ofList letters == "const" || isSilentWord (String.ofList letters)) := by
  simp only [isQualifier, qualifierWords, isSilentWord, List.contains_cons, List.contains_nil,
    Bool.or_false, Bool.or_assoc]

theorem isWord_of_isQualifier {l : Lexeme} (h : l.isQualifier = true) : l.isWord = true := by
  cases l with
  | word letters => rfl
  | star | ampersand => exact h

end Lexeme

/-- Words, stars and at most one ampersand, in that order. -/
def inOrder (words : List (List Char)) (stars : Nat) (reference : Bool) : List Lexeme :=
  words.map .word ++ (List.replicate stars .star ++ if reference then [.ampersand] else [])

/-- The last of tokens in order is of the last kind that is there. -/
theorem concat_eq_inOrder {ts : List Lexeme} {l : Lexeme} {words : List (List Char)} {stars : Nat}
    {reference : Bool} (h : ts ++ [l] = inOrder words stars reference) :
    (l = .ampersand ∧ reference = true ∧ ts = inOrder words stars false) ∨
      (l = .star ∧ reference = false ∧ ∃ n, stars = n + 1 ∧ ts = inOrder words n false) ∨
      ∃ front w, l = .word w ∧ reference = false ∧ stars = 0 ∧ words = front ++ [w] ∧
        ts = inOrder front 0 false := by
  cases reference with
  | true =>
    have h' : ts ++ [l] = inOrder words stars false ++ [.ampersand] := by simpa [inOrder] using h
    obtain ⟨hts, hl⟩ := List.append_inj' h' rfl
    exact .inl ⟨List.singleton_inj.mp hl, rfl, hts⟩
  | false =>
    cases stars with
    | succ n =>
      have h' : ts ++ [l] = inOrder words n false ++ [.star] := by
        simpa [inOrder, List.replicate_succ'] using h
      obtain ⟨hts, hl⟩ := List.append_inj' h' rfl
      exact .inr (.inl ⟨List.singleton_inj.mp hl, rfl, n, rfl, hts⟩)
    | zero =>
      cases words using List.reverseRecOn with
      | nil => exact absurd h (by simp [inOrder])
      | append_singleton front w =>
        have h' : ts ++ [l] = inOrder front 0 false ++ [.word w] := by simpa [inOrder] using h
        obtain ⟨hts, hl⟩ := List.append_inj' h' rfl
        exact .inr (.inr ⟨front, w, List.singleton_inj.mp hl, rfl, rfl, rfl, hts⟩)

/-- A `const` in front of the first mark: it stood there before, or it is the next token and no mark
has come yet. -/
theorem const_mem_takeWhile_concat {tokens : List Lexeme} {l : Lexeme} :
    Lexeme.const ∈ (tokens ++ [l]).takeWhile Lexeme.isWord ↔
      Lexeme.const ∈ tokens.takeWhile Lexeme.isWord ∨
        (l = .const ∧ ∀ m ∈ tokens, m.isWord = true) := by
  induction tokens with
  | nil =>
    cases hl : l.isWord with
    | true => simp [hl, eq_comm (a := l)]
    | false =>
      have hne : l ≠ .const := by rintro rfl; cases hl
      simp [hl, hne]
  | cons m rest ih =>
    cases hm : m.isWord with
    | true => simp [hm, ih, or_assoc]
    | false => simp [hm]

namespace NamedType

variable {tokens : List Lexeme} {l : Lexeme} {words : List (List Char)} {stars : Nat}
  {dims : List (Option Nat)} {t t' : NamedType}

/-- What tokens say of a type, apart from its dimensions. -/
structure ReadFrom (tokens : List Lexeme) (words : List (List Char)) (stars : Nat) (t : NamedType) :
    Prop where
  order : tokens.filter (fun l => !l.isQualifier) = inOrder words stars t.reference
  base : t.base = String.ofList (spaced words)
  /-- `const` counts in front of the first mark. -/
  constBase : t.constBase = true ↔ Lexeme.const ∈ tokens.takeWhile Lexeme.isWord
  pointers : t.pointers = min maxPointers stars

/-- No mark has come yet. -/
theorem ReadFrom.unmarked_iff (h : t.ReadFrom tokens words stars) :
    (∀ m ∈ tokens, m.isWord = true) ↔ t.pointers = 0 ∧ t.reference = false := by
  have hzero : t.pointers = 0 ↔ stars = 0 := by
    rw [h.pointers]
    simp only [maxPointers]
    omega
  rw [hzero]
  constructor
  · intro hall
    have hmem : ∀ m ∈ inOrder words stars t.reference, m.isWord = true := fun m hm =>
      hall m (List.mem_filter.mp (h.order ▸ hm)).1
    refine ⟨?_, ?_⟩
    · cases stars with
      | zero => rfl
      | succ n => exact absurd (hmem .star (by simp [inOrder])) (by decide)
    · cases href : t.reference with
      | false => rfl
      | true => exact absurd (hmem .ampersand (by simp [inOrder, href])) (by decide)
  · rintro ⟨rfl, href⟩ m hm
    cases hq : m.isQualifier with
    | true => exact Lexeme.isWord_of_isQualifier hq
    | false =>
      have : m ∈ inOrder words 0 t.reference := h.order ▸ List.mem_filter.mpr ⟨hm, by simp [hq]⟩
      rw [href] at this
      obtain ⟨w, -, rfl⟩ : ∃ w ∈ words, .word w = m := by simpa [inOrder] using this
      rfl

/-- Tokens read so far: marks come after a word only. -/
structure ReadSoFar (tokens : List Lexeme) (words : List (List Char)) (stars : Nat) (t : NamedType) :
    Prop extends t.ReadFrom tokens words stars where
  begun : words = [] → stars = 0 ∧ t.reference = false
  nonempty : ∀ w ∈ words, w ≠ []

theorem spaced_eq_nil {ws : List (List Char)} (h : ∀ w ∈ ws, w ≠ []) : spaced ws = [] ↔ ws = [] := by
  cases ws with
  | nil => simp [spaced]
  | cons w rest =>
    have hw := h w List.mem_cons_self
    cases rest with
    | nil => simp [spaced, hw]
    | cons v rest => simp [spaced_cons]

theorem ReadSoFar.isEmpty_base (h : t.ReadSoFar tokens words stars) :
    t.base.isEmpty = true ↔ words = [] := by
  rw [h.base, String.isEmpty_iff, ← spaced_eq_nil h.nonempty, ← String.toList_eq_nil_iff,
    String.toList_ofList]

/-! ### One token -/

theorem add_qualifier (hl : l.isQualifier = true) : t.add l =
    some { t with
      constBase := t.constBase || (l == .const && (t.pointers == 0 && !t.reference)) } := by
  cases l with
  | star | ampersand => cases hl
  | word letters =>
    rw [Lexeme.isQualifier_word, Bool.or_eq_true, beq_iff_eq] at hl
    cases hc : String.ofList letters == "const" with
    | true =>
      have heq : Lexeme.word letters = .const := by
        rw [Lexeme.const, ← beq_iff_eq.mp hc, String.toList_ofList]
      simp [add, hc, heq]
    | false =>
      have hne : (Lexeme.word letters == .const) = false := by
        rw [beq_eq_false_iff_ne]
        intro heq
        cases heq
        exact absurd hc (by decide)
      have hsilent := hl.resolve_left (by simpa using hc)
      simp [add, hc, hsilent, hne]

theorem add_plain {letters : List Char} (hl : (Lexeme.word letters).isQualifier = false) :
    t.add (.word letters) =
      if t.pointers > 0 || t.reference then none
      else some { t with base :=
        if t.base.isEmpty then String.ofList letters
        else t.base ++ " " ++ String.ofList letters } := by
  rw [Lexeme.isQualifier_word, Bool.or_eq_false_iff] at hl
  simp [add, hl.1, hl.2]

/-- **One more token, read.** -/
theorem ReadSoFar.concat (h : t.ReadSoFar tokens words stars) (hl : ∀ w, l = .word w → w ≠ [])
    (hadd : t.add l = some t') : ∃ words' stars', t'.ReadSoFar (tokens ++ [l]) words' stars' := by
  have hkept (hq : l.isQualifier = false) : (tokens ++ [l]).filter (fun m => !m.isQualifier) =
      inOrder words stars t.reference ++ [l] := by
    simp [List.filter_append, h.order, hq]
  have hother (hne : l ≠ .const) : t.constBase = true ↔
      Lexeme.const ∈ (tokens ++ [l]).takeWhile Lexeme.isWord := by
    rw [const_mem_takeWhile_concat, h.constBase]
    simp [hne]
  cases hq : l.isQualifier with
  | true =>
    rw [add_qualifier hq] at hadd
    obtain rfl := Option.some.inj hadd
    refine ⟨words, stars, ⟨?_, h.base, ?_, h.pointers⟩, h.begun, h.nonempty⟩
    · simp [List.filter_append, h.order, hq]
    · rw [const_mem_takeWhile_concat, h.unmarked_iff, ← h.constBase]
      simp [and_comm]
  | false =>
    have hne : l ≠ .const := by rintro rfl; exact absurd hq (by decide)
    cases l with
    | star =>
      simp only [add, Option.ite_none_left_eq_some, Bool.or_eq_true, not_or, Bool.not_eq_true,
        Option.some.injEq] at hadd
      obtain ⟨⟨hbase, href⟩, rfl⟩ := hadd
      refine ⟨words, stars + 1, ⟨?_, h.base, hother hne, ?_⟩, ?_, h.nonempty⟩
      · simp [hkept hq, inOrder, href, List.replicate_succ']
      · simp only [h.pointers, maxPointers]
        omega
      · intro hwords
        exact absurd (h.isEmpty_base.mpr hwords) (by simp [hbase])
    | ampersand =>
      simp only [add, Option.ite_none_left_eq_some, Bool.or_eq_true, not_or, Bool.not_eq_true,
        Option.some.injEq] at hadd
      obtain ⟨⟨hbase, href⟩, rfl⟩ := hadd
      refine ⟨words, stars, ⟨?_, h.base, hother hne, h.pointers⟩, ?_, h.nonempty⟩
      · simp [hkept hq, inOrder, href]
      · intro hwords
        exact absurd (h.isEmpty_base.mpr hwords) (by simp [hbase])
    | word letters =>
      rw [add_plain hq] at hadd
      split at hadd
      · cases hadd
      · rename_i hmarks
        obtain rfl := Option.some.inj hadd
        simp only [gt_iff_lt, Bool.or_eq_true, decide_eq_true_eq, not_or, Nat.not_lt, Nat.le_zero,
          Bool.not_eq_true] at hmarks
        have hstars : stars = 0 := by
          have := h.pointers
          simp only [maxPointers] at this
          omega
        refine ⟨words ++ [letters], 0, ⟨?_, ?_, hother hne, ?_⟩, by simp, ?_⟩
        · simp [hkept hq, inOrder, hmarks.2, hstars]
        · cases hbase : t.base.isEmpty with
          | true => simp [h.isEmpty_base.mp hbase, spaced]
          | false =>
            have hwords : words ≠ [] := fun hnil => by
              rw [h.isEmpty_base.mpr hnil] at hbase
              cases hbase
            rw [spaced_concat hwords, h.base]
            apply String.toList_inj.mp
            simp [String.toList_append]
        · simp [hmarks.1]
        · intro w hw
          rcases List.mem_append.mp hw with hw | hw
          · exact h.nonempty w hw
          · exact List.mem_singleton.mp hw ▸ hl letters rfl

/-- **One more token, unread**: what is read of all tokens but the last, the last one adds to. -/
theorem ReadSoFar.of_concat (h : t'.ReadSoFar (tokens ++ [l]) words stars) :
    ∃ t : NamedType, t.dims = t'.dims ∧ (∃ words' stars', t.ReadSoFar tokens words' stars') ∧
      t.add l = some t' := by
  have hconst := h.constBase
  rw [const_mem_takeWhile_concat] at hconst
  have horder := h.order
  rw [List.filter_append] at horder
  cases hq : l.isQualifier with
  | true =>
    let t : NamedType :=
      { t' with constBase := decide (Lexeme.const ∈ tokens.takeWhile Lexeme.isWord) }
    have ht : t.ReadSoFar tokens words stars := by
      refine ⟨⟨by simpa [hq] using horder, h.base, by simp [t], h.pointers⟩, h.begun, h.nonempty⟩
    refine ⟨t, rfl, ⟨words, stars, ht⟩, ?_⟩
    rw [ht.unmarked_iff] at hconst
    have hflag : (t.constBase || (l == .const && (t.pointers == 0 && !t.reference))) =
        t'.constBase := by
      rw [Bool.eq_iff_iff, hconst]
      simp [t]
    rw [add_qualifier hq, hflag]
  | false =>
    have hne : l ≠ .const := by rintro rfl; exact absurd hq (by decide)
    have hflag : t'.constBase = true ↔ Lexeme.const ∈ tokens.takeWhile Lexeme.isWord := by
      simpa [hne] using hconst
    have hlast : tokens.filter (fun m => !m.isQualifier) ++ [l] =
        inOrder words stars t'.reference := by
      simpa [hq] using horder
    have hwords {n : Nat} (hmark : stars = n + 1 ∨ t'.reference = true) : words ≠ [] := by
      intro hnil
      obtain ⟨hstars, href⟩ := h.begun hnil
      rcases hmark with hmark | hmark
      · omega
      · rw [href] at hmark
        cases hmark
    rcases concat_eq_inOrder hlast with ⟨rfl, href, hts⟩ | ⟨rfl, href, n, hn, hts⟩ |
      ⟨front, w, rfl, href, hzero, hw, hts⟩
    · let t : NamedType := { t' with reference := false }
      have ht : t.ReadSoFar tokens words stars :=
        ⟨⟨hts, h.base, hflag, h.pointers⟩, fun hnil =>
          absurd hnil (hwords (n := 0) (.inr href)), h.nonempty⟩
      have hbase : ¬ t.base.isEmpty = true := fun hempty =>
        hwords (n := 0) (.inr href) (ht.isEmpty_base.mp hempty)
      refine ⟨t, rfl, ⟨words, stars, ht⟩, ?_⟩
      rw [add, if_neg (by simpa [t] using hbase), ← href]
    · let t : NamedType := { t' with pointers := min maxPointers n }
      have ht : t.ReadSoFar tokens words n :=
        ⟨⟨by simpa [t, href] using hts, h.base, hflag, rfl⟩,
          fun hnil => absurd hnil (hwords (.inl hn)), h.nonempty⟩
      have hbase : ¬ t.base.isEmpty = true := fun hempty =>
        hwords (.inl hn) (ht.isEmpty_base.mp hempty)
      have hpointers : min maxPointers (t.pointers + 1) = t'.pointers := by
        simp only [t, h.pointers, hn, maxPointers]
        omega
      refine ⟨t, rfl, ⟨words, n, ht⟩, ?_⟩
      rw [add, if_neg (by simpa [t, href] using hbase), hpointers]
    · let t : NamedType := { t' with base := String.ofList (spaced front) }
      have hpointers : t'.pointers = 0 := by simp [h.pointers, hzero]
      have ht : t.ReadSoFar tokens front 0 :=
        ⟨⟨by simpa [t, href] using hts, rfl, hflag, by simp [t, hpointers]⟩,
          fun _ => ⟨rfl, href⟩, fun v hv => h.nonempty v (by simp [hw, hv])⟩
      have hbase : (if t.base.isEmpty then String.ofList w else t.base ++ " " ++ String.ofList w) =
          t'.base := by
        rw [h.base, hw]
        cases hempty : t.base.isEmpty with
        | true => simp [ht.isEmpty_base.mp hempty, spaced]
        | false =>
          have hfront : front ≠ [] := fun hnil => by
            rw [ht.isEmpty_base.mpr hnil] at hempty
            cases hempty
          rw [spaced_concat hfront]
          apply String.toList_inj.mp
          simp [t, String.toList_append]
      refine ⟨t, rfl, ⟨front, 0, ht⟩, ?_⟩
      rw [add_plain hq, if_neg (by simp [t, hpointers, href]), hbase]

theorem add_dims (hadd : t.add l = some t') : t'.dims = t.dims := by
  cases hq : l.isQualifier with
  | true =>
    rw [add_qualifier hq] at hadd
    rw [← Option.some.inj hadd]
  | false =>
    cases l with
    | star | ampersand =>
      simp only [add, Option.ite_none_left_eq_some, Option.some.injEq] at hadd
      rw [← hadd.2]
    | word letters =>
      simp only [add_plain hq, Option.ite_none_left_eq_some, Option.some.injEq] at hadd
      rw [← hadd.2]

/-- **Reading tokens one by one gives what they say.** -/
theorem foldlM_add_iff (hne : ∀ w, .word w ∈ tokens → w ≠ []) :
    tokens.foldlM add { base := "", dims := dims } = some t ↔
      t.dims = dims ∧ ∃ words stars, t.ReadSoFar tokens words stars := by
  induction tokens using List.reverseRecOn generalizing t with
  | nil =>
    constructor
    · intro h
      obtain rfl := Option.some.inj h
      exact ⟨rfl, [], 0, ⟨rfl, rfl, by simp, rfl⟩, fun _ => ⟨rfl, rfl⟩, by simp⟩
    · rintro ⟨hdims, words, stars, h⟩
      have hnil : inOrder words stars t.reference = [] := h.order.symm
      have hwords : words = [] := by
        simp only [inOrder, List.append_eq_nil_iff, List.map_eq_nil_iff] at hnil
        exact hnil.1
      obtain ⟨hstars, href⟩ := h.begun hwords
      have hconst : t.constBase = false := by
        rw [Bool.eq_false_iff, Ne, h.constBase]
        exact List.not_mem_nil
      have hbase := h.base
      have hpointers := h.pointers
      obtain ⟨base, constBase, pointers, reference, dims'⟩ := t
      subst hwords hstars hbase hpointers href hconst hdims
      rfl
  | append_singleton tokens l ih =>
    have hstep {u : NamedType} := ih (t := u) fun w hw => hne w (List.mem_append_left _ hw)
    have hl : ∀ w, l = .word w → w ≠ [] := fun w hw => hne w (by simp [hw])
    have hsplit : (tokens ++ [l]).foldlM add { base := "", dims := dims } =
        (tokens.foldlM add { base := "", dims := dims }).bind fun u => u.add l := by
      simp [List.foldlM_append]
    simp only [hsplit, Option.bind_eq_some_iff, hstep]
    constructor
    · rintro ⟨u, ⟨hdims, words, stars, hu⟩, hadd⟩
      exact ⟨(add_dims hadd).trans hdims, hu.concat hl hadd⟩
    · rintro ⟨hdims, words, stars, h⟩
      obtain ⟨u, hud, hu, hadd⟩ := h.of_concat
      exact ⟨u, ⟨hud.trans hdims, hu⟩, hadd⟩

end NamedType

end LuaGlue
