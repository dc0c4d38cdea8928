import LuaGlue.Proofs.CType.WellFormed

/-!
# Spellings that are read back

The generator takes a type apart by taking its spelling apart: it parses, drops a dimension, renders,
and hands the result to the next step, which parses it again. This loses nothing: the canonical
spelling of a well-formed type is read back as that type (`NamedType.parse_render`), so that a spelling
has exactly one dimension more than its element has (`arrayDims_of_elementType?`).

Reading goes from both ends, and so does the proof: the dimensions are peeled off one by one from the
back, and what is in front of them is cut into lexemes from the left, chunk by chunk — `const`, the
words of the base, the stars, the ampersand.
-/

set_option autoImplicit false

namespace LuaGlue

open Text

/-! ## Numerals -/

theorem digit?_digitChar : ∀ d < 10, digit? 10 d.digitChar = some d := by decide

theorem digits?_append_singleton {cs : List Char} {n d : Nat} {c : Char}
    (hcs : digits? 10 cs = some n) (hc : digit? 10 c = some d) :
    digits? 10 (cs ++ [c]) = some (n * 10 + d) := by
  cases cs with
  | nil => exact absurd hcs (by simp [digits?])
  | cons c' rest =>
    rw [List.cons_append]
    simp only [digits?] at hcs ⊢
    rw [← List.cons_append, List.foldlM_append, hcs]
    simp [hc]

theorem digits?_toDigits (n : Nat) : digits? 10 (Nat.toDigits 10 n) = some n := by
  induction n using Nat.strongRecOn with
  | _ n ih =>
    by_cases hn : n < 10
    · rw [Nat.toDigits_of_lt_base hn]
      simp [digits?, digit?_digitChar n hn]
    · have hq : 0 < n / 10 := by omega
      have hd : n % 10 < 10 := by omega
      have hsplit := Nat.toDigits_append_toDigits (b := 10) (by omega) hq hd
      rw [Nat.div_add_mod, Nat.toDigits_of_lt_base hd] at hsplit
      rw [← hsplit, digits?_append_singleton (ih (n / 10) (by omega)) (digit?_digitChar _ hd)]
      congr 1
      omega

theorem isDigit_of_mem_toString {n : Nat} {c : Char} (hc : c ∈ (toString n).toList) :
    c.isDigit = true := by
  change c ∈ (Nat.repr n).toList at hc
  rw [Nat.repr_eq_ofList_toDigits, String.toList_ofList] at hc
  exact Nat.isDigit_of_mem_toDigits (by omega) (by omega) hc

/-- A numeral below the bound is read back. -/
theorem natural?_toString {bound n : Nat} (h : n < bound) :
    natural? bound (toString n).toList = some n := by
  have hd : digits? 10 (toString n).toList = some n := by
    change digits? 10 (Nat.repr n).toList = some n
    rw [Nat.repr_eq_ofList_toDigits, String.toList_ofList, digits?_toDigits]
  unfold natural?
  split
  · rename_i rest heq
    exact absurd (isDigit_of_mem_toString (heq ▸ List.mem_cons_self)) (by decide)
  · rw [hd]
    simp [h]

/-! ## White space at the ends -/

theorem dropEndWhile_of_last {p : Char → Bool} :
    ∀ {cs : List Char}, (∀ c ∈ cs.getLast?, p c = false) → dropEndWhile p cs = cs := by
  intro cs
  induction cs with
  | nil => intro _; rfl
  | cons c rest ih =>
    intro h
    cases rest with
    | nil => simp [dropEndWhile, h c (by simp)]
    | cons d rest =>
      have hrest : dropEndWhile p (d :: rest) = d :: rest :=
        ih fun x hx => h x (by rw [List.getLast?_cons_cons]; exact hx)
      rw [dropEndWhile, hrest]

/-- A text that neither begins nor ends with white space has none to be taken off. -/
theorem trim_of_ends {cs : List Char} (hhead : ∀ c ∈ cs.head?, isBlank c = false)
    (hlast : ∀ c ∈ cs.getLast?, isBlank c = false) : trim cs = cs := by
  have hdrop : cs.dropWhile isBlank = cs := by
    cases cs with
    | nil => rfl
    | cons c rest => exact List.dropWhile_cons_of_neg (by simp [hhead c rfl])
  rw [trim, hdrop, trimEnd, dropEndWhile_of_last hlast]

theorem trim_of_noBlank {cs : List Char} (h : ∀ c ∈ cs, isBlank c = false) : trim cs = cs :=
  trim_of_ends (fun c hc => h c (List.mem_of_mem_head? hc))
    (fun c hc => h c (List.mem_of_getLast? hc))

theorem isBlank_of_isDigit {c : Char} (h : c.isDigit = true) : isBlank c = false := by
  simp only [Char.isDigit, Bool.and_eq_true, decide_eq_true_eq] at h
  have hlow : 48 ≤ c.toNat := h.1
  have hhigh : c.toNat ≤ 57 := h.2
  simp only [isBlank, Bool.or_eq_false_iff, Bool.and_eq_false_iff, decide_eq_false_iff_not,
    beq_eq_false_iff_ne]
  omega

/-! ## Lexemes of a spelling -/

/-- A character at which a word stops. -/
def endsWord (c : Char) : Bool := isBlank c || c == '*' || c == '&'

theorem endsWord_of_isNameLetter {c : Char} (h : isNameLetter c = true) : endsWord c = false := by
  simp only [isNameLetter, Bool.and_eq_true, Bool.not_eq_true', bne_iff_ne, ne_eq] at h
  simp [endsWord, h.1.1.1, h.1.1.2, h.1.2]

/-- The letters in front are collected into the word in progress. -/
theorem lexemesFrom_letters {w : List Char} (hw : ∀ c ∈ w, endsWord c = false) :
    ∀ (word rest : List Char),
      lexemesFrom word (w ++ rest) = lexemesFrom (w.reverse ++ word) rest := by
  induction w with
  | nil => intro _ _; rfl
  | cons c w ih =>
    intro word rest
    have hc := hw c List.mem_cons_self
    simp only [endsWord, Bool.or_eq_false_iff, beq_eq_false_iff_ne, ne_eq] at hc
    rw [List.cons_append, lexemesFrom, if_neg hc.1.2, if_neg hc.2, if_neg (by simp [hc.1.1]),
      ih fun d hd => hw d (List.mem_cons_of_mem _ hd)]
    simp

/-- Where a word stops, it is a lexeme, and the rest is cut by itself. -/
theorem lexemesFrom_stop {word rest : List Char} (hrest : ∀ c ∈ rest.head?, endsWord c = true) :
    lexemesFrom word rest = Lexeme.ofWord word ++ lexemes rest := by
  cases rest with
  | nil => simp [lexemes, lexemesFrom, Lexeme.ofWord]
  | cons c rest =>
    have hc := hrest c rfl
    simp only [endsWord, Bool.or_eq_true, beq_iff_eq] at hc
    unfold lexemes lexemesFrom
    by_cases hstar : c = '*'
    · simp [hstar, Lexeme.ofWord]
    · by_cases hamp : c = '&'
      · simp [hamp, Lexeme.ofWord]
      · have hblank : isBlank c = true := by simpa [hstar, hamp] using hc
        simp [hstar, hamp, hblank, Lexeme.ofWord]

theorem lexemes_word {w rest : List Char} (hne : w ≠ []) (hw : ∀ c ∈ w, endsWord c = false)
    (hrest : ∀ c ∈ rest.head?, endsWord c = true) :
    lexemes (w ++ rest) = .word w :: lexemes rest := by
  rw [lexemes, lexemesFrom_letters hw, List.append_nil, lexemesFrom_stop hrest]
  simp [Lexeme.ofWord, hne]

theorem const_letters : ∀ c ∈ "const".toList, endsWord c = false := by
  have hall : ("const".toList.all fun c => !endsWord c) = true := by decide
  simpa using hall

theorem PlainWord.goesOn {w : List Char} (h : PlainWord w) : ∀ c ∈ w, endsWord c = false :=
  fun c hc => endsWord_of_isNameLetter (h.letters c hc)

theorem lexemes_blank (rest : List Char) : lexemes (' ' :: rest) = lexemes rest := rfl

theorem lexemes_spaced {ws : List (List Char)} {rest : List Char} (hws : ∀ w ∈ ws, PlainWord w)
    (hrest : ∀ c ∈ rest.head?, endsWord c = true) :
    lexemes (spaced ws ++ rest) = ws.map .word ++ lexemes rest := by
  induction ws with
  | nil => rfl
  | cons w ws ih =>
    have hw := hws w List.mem_cons_self
    have htail := ih fun v hv => hws v (List.mem_cons_of_mem _ hv)
    cases ws with
    | nil => exact lexemes_word hw.nonempty hw.goesOn hrest
    | cons v ws =>
      rw [spaced_cons (by simp), List.append_assoc, List.cons_append,
        lexemes_word hw.nonempty hw.goesOn (by simp [endsWord]; decide), lexemes_blank, htail]
      rfl

theorem lexemes_stars (n : Nat) (rest : List Char) :
    lexemes (List.replicate n '*' ++ rest) = List.replicate n .star ++ lexemes rest := by
  induction n with
  | zero => rfl
  | succ n ih =>
    rw [List.replicate_succ, List.replicate_succ, List.cons_append, List.cons_append, ← ih]
    rfl

/-! ## Lexemes put together -/

/-- Words after the first one are added to the base. -/
theorem foldlM_moreWords {ws : List (List Char)} (hws : ∀ w ∈ ws, PlainWord w) :
    ∀ {t : NamedType}, t.pointers = 0 → t.reference = false → t.base ≠ "" →
      ∃ base, (ws.map Lexeme.word).foldlM NamedType.add t = some { t with base := base } ∧
        base.toList = spaced (t.base.toList :: ws) := by
  induction ws with
  | nil => intro t _ _ _; exact ⟨t.base, rfl, rfl⟩
  | cons w ws ih =>
    intro t hp hr hb
    have hw := hws w List.mem_cons_self
    have hadd : t.add (.word w) = some { t with base := t.base ++ " " ++ String.ofList w } := by
      simp [NamedType.add, hw.notConst, hw.notSilent, hp, hr, hb]
    obtain ⟨base, hfold, hbase⟩ := ih (fun v hv => hws v (List.mem_cons_of_mem _ hv))
      (t := { t with base := t.base ++ " " ++ String.ofList w }) hp hr (by simp)
    refine ⟨base, ?_, ?_⟩
    · rw [List.map_cons, List.foldlM_cons, hadd]
      exact hfold
    · rw [hbase, spaced_cons (List.cons_ne_nil w ws)]
      cases ws with
      | nil => simp [spaced, String.toList_append]
      | cons v ws => simp [spaced, String.toList_append]

theorem foldlM_words {ws : List (List Char)} (hne : ws ≠ []) (hws : ∀ w ∈ ws, PlainWord w)
    {t : NamedType} (hp : t.pointers = 0) (hr : t.reference = false) (hb : t.base = "") :
    ∃ base, (ws.map Lexeme.word).foldlM NamedType.add t = some { t with base := base } ∧
      base.toList = spaced ws := by
  cases ws with
  | nil => exact absurd rfl hne
  | cons w ws =>
    have hw := hws w List.mem_cons_self
    have hadd : t.add (.word w) = some { t with base := String.ofList w } := by
      simp [NamedType.add, hw.notConst, hw.notSilent, hp, hr, hb]
    obtain ⟨base, hfold, hbase⟩ := foldlM_moreWords (fun v hv => hws v (List.mem_cons_of_mem _ hv))
      (t := { t with base := String.ofList w }) hp hr (by simpa using hw.nonempty)
    refine ⟨base, ?_, by simpa using hbase⟩
    rw [List.map_cons, List.foldlM_cons, hadd]
    exact hfold

theorem foldlM_stars {n : Nat} :
    ∀ {t : NamedType}, t.base ≠ "" → t.reference = false → t.pointers + n ≤ maxPointers →
      (List.replicate n Lexeme.star).foldlM NamedType.add t =
        some { t with pointers := t.pointers + n } := by
  induction n with
  | zero => intro t _ _ _; rfl
  | succ n ih =>
    intro t hb hr hp
    have hadd : t.add .star = some { t with pointers := t.pointers + 1 } := by
      have hmin : min maxPointers (t.pointers + 1) = t.pointers + 1 := by omega
      simp [NamedType.add, hb, hr, hmin]
    rw [List.replicate_succ, List.foldlM_cons, hadd]
    refine (ih (t := { t with pointers := t.pointers + 1 }) hb hr (by simp only; omega)).trans ?_
    simp only [Nat.add_assoc, Nat.add_comm 1 n]

/-! ## Dimensions peeled off -/

theorem peelDims_group (inner left : List Char) (hinner : ∀ c ∈ inner, c ≠ '[') :
    peelDims (']' :: (inner ++ '[' :: left)) =
      (peelDims (left.dropWhile isBlank)).map fun (rest, dims) =>
        (rest, natural? sizeBound (trim inner.reverse) :: dims) := by
  have hpos : ∀ c ∈ inner, (c != '[') = true := fun c hc => by simpa using hinner c hc
  have hdrop : (inner ++ '[' :: left).dropWhile (· != '[') = '[' :: left := by
    rw [List.dropWhile_append_of_pos hpos]
    rfl
  have htake : (inner ++ '[' :: left).takeWhile (· != '[') = inner := by
    rw [List.takeWhile_append_of_pos hpos]
    simp
  rw [peelDims]
  split
  · rename_i heq
    rw [hdrop] at heq
    cases heq
  · rename_i heq
    rw [hdrop] at heq
    cases heq
    rw [htake]

/-- What stands between the brackets of a dimension. -/
def dimText : Option Nat → List Char
  | some n => (toString n).toList
  | none => []

theorem renderDim_toList (d : Option Nat) : (renderDim d).toList = '[' :: (dimText d ++ [']']) := by
  cases d <;> simp [renderDim, dimText, String.toList_append]

theorem isDigit_of_mem_dimText {d : Option Nat} {c : Char} (h : c ∈ dimText d) :
    c.isDigit = true := by
  cases d with
  | none => exact absurd h List.not_mem_nil
  | some n => exact isDigit_of_mem_toString h

theorem natural?_dimText {d : Option Nat} (h : ∀ n, d = some n → n < sizeBound) :
    natural? sizeBound (trim (dimText d)) = d := by
  rw [trim_of_noBlank fun c hc => isBlank_of_isDigit (isDigit_of_mem_dimText hc)]
  cases d with
  | none => rfl
  | some n => exact natural?_toString (h n rfl)

/-- Dimensions in the order they are peeled off, each back to front. -/
theorem peelDims_groups {ds : List (Option Nat)} {rest : List Char}
    (hds : ∀ n, some n ∈ ds → n < sizeBound) (hrest : ∀ c ∈ rest.head?, c ≠ ']' ∧ isBlank c = false) :
    peelDims (ds.flatMap (fun d => (renderDim d).toList.reverse) ++ rest) = some (rest, ds) := by
  induction ds with
  | nil =>
    rw [List.flatMap_nil, List.nil_append, peelDims]
    rintro more rfl
    exact (hrest ']' rfl).1 rfl
  | cons d ds ih =>
    have hdark : ∀ c ∈ (ds.flatMap (fun d => (renderDim d).toList.reverse) ++ rest).head?,
        isBlank c = false := by
      intro c hc
      cases ds with
      | nil => exact (hrest c hc).2
      | cons e ds =>
        simp only [List.flatMap_cons, renderDim_toList, List.reverse_cons, List.reverse_append,
          List.cons_append, List.head?_cons, Option.mem_def, Option.some.injEq, List.reverse_nil,
          List.nil_append] at hc
        rw [← hc]
        decide
    have hdrop : (ds.flatMap (fun d => (renderDim d).toList.reverse) ++ rest).dropWhile isBlank =
        ds.flatMap (fun d => (renderDim d).toList.reverse) ++ rest := by
      cases h : ds.flatMap (fun d => (renderDim d).toList.reverse) ++ rest with
      | nil => rfl
      | cons c more => exact List.dropWhile_cons_of_neg (by simp [hdark c (by rw [h]; rfl)])
    have hgroup := peelDims_group (dimText d).reverse
      (ds.flatMap (fun d => (renderDim d).toList.reverse) ++ rest) (fun c hc hbracket => by
        have := isDigit_of_mem_dimText (List.mem_reverse.mp hc)
        rw [hbracket] at this
        exact absurd this (by decide))
    rw [hdrop, ih fun n hn => hds n (List.mem_cons_of_mem _ hn), List.reverse_reverse,
      natural?_dimText fun n hn => hds n (hn ▸ List.mem_cons_self)] at hgroup
    simpa [renderDim_toList] using hgroup

/-! ## The canonical spelling -/

/-- The canonical spelling without its dimensions, in pieces. -/
theorem NamedType.renderScalar_toList (t : NamedType) :
    t.renderScalar.toList = (if t.constBase then "const".toList ++ [' '] else []) ++
      (t.base.toList ++ (List.replicate t.pointers '*' ++ if t.reference then ['&'] else [])) := by
  cases hc : t.constBase <;> cases hr : t.reference <;>
    simp [NamedType.renderScalar, hc, hr, String.toList_append]

theorem NamedType.renderDims_toList (t : NamedType) :
    t.renderDims.toList = t.dims.flatMap fun d => (renderDim d).toList := by
  rw [NamedType.renderDims, String.toList_join, List.flatMap_map]

section

variable {t : NamedType}

/-- The last character of a text, if there is one, is not white space. -/
def EndsDark (cs : List Char) : Prop := ∀ c ∈ cs.getLast?, isBlank c = false

theorem EndsDark.append {a b : List Char} (ha : EndsDark a) (hb : EndsDark b) :
    EndsDark (a ++ b) := by
  intro c hc
  rw [List.getLast?_append, Option.mem_def, Option.or_eq_some_iff] at hc
  rcases hc with hc | ⟨-, hc⟩
  · exact hb c hc
  · exact ha c hc

/-- What is in front does not matter, if there is something behind it. -/
theorem EndsDark.behind {a b : List Char} (hb : EndsDark b) (hne : b ≠ []) : EndsDark (a ++ b) := by
  intro c hc
  rw [List.getLast?_append, Option.mem_def, Option.or_eq_some_iff] at hc
  rcases hc with hc | ⟨hnone, -⟩
  · exact hb c hc
  · exact absurd (List.getLast?_eq_none_iff.mp hnone) hne

theorem EndsDark.of_noBlank {cs : List Char} (h : ∀ c ∈ cs, isBlank c = false) : EndsDark cs :=
  fun c hc => h c (List.mem_of_getLast? hc)

theorem isBlank_of_isNameLetter {c : Char} (h : isNameLetter c = true) : isBlank c = false := by
  simp only [isNameLetter, Bool.and_eq_true, Bool.not_eq_true'] at h
  exact h.1.1.1

theorem head?_spaced {ws : List (List Char)} (hws : ∀ w ∈ ws, PlainWord w) (hne : ws ≠ []) :
    ∃ c cs, spaced ws = c :: cs ∧ isNameLetter c = true := by
  cases ws with
  | nil => exact absurd rfl hne
  | cons w ws =>
    have hw := hws w List.mem_cons_self
    cases w with
    | nil => exact absurd rfl hw.nonempty
    | cons c cs =>
      have hc := hw.letters c List.mem_cons_self
      cases ws with
      | nil => exact ⟨c, cs, rfl, hc⟩
      | cons v ws => exact ⟨c, cs ++ ' ' :: spaced (v :: ws), rfl, hc⟩

theorem endsDark_spaced {ws : List (List Char)} (hws : ∀ w ∈ ws, PlainWord w) :
    EndsDark (spaced ws) := by
  induction ws with
  | nil => intro c hc; cases hc
  | cons w ws ih =>
    have hw : EndsDark w := .of_noBlank fun c hc =>
      isBlank_of_isNameLetter ((hws w List.mem_cons_self).letters c hc)
    cases ws with
    | nil => exact hw
    | cons v ws =>
      have htail := ih fun u hu => hws u (List.mem_cons_of_mem _ hu)
      obtain ⟨c, cs, hspaced, -⟩ :=
        head?_spaced (fun u hu => hws u (List.mem_cons_of_mem _ hu)) (List.cons_ne_nil v ws)
      rw [spaced_cons (by simp), ← List.singleton_append, ← List.append_assoc]
      exact htail.behind (by simp [hspaced])

theorem NamedType.WellFormed.base_ne (h : t.WellFormed) : t.base ≠ "" := by
  obtain ⟨ws, hne, hws, hbase⟩ := h.base
  obtain ⟨c, cs, hspaced, -⟩ := head?_spaced hws hne
  intro hempty
  rw [hempty, hspaced] at hbase
  cases hbase

/-- The spelling without its dimensions begins and ends with something visible, and has no
bracket. -/
theorem NamedType.WellFormed.scalar_ends (h : t.WellFormed) :
    (∃ c cs, t.renderScalar.toList = c :: cs ∧ isBlank c = false) ∧
      EndsDark t.renderScalar.toList ∧ ∀ c ∈ t.renderScalar.toList, isBracket c = false := by
  obtain ⟨ws, hne, hws, hbase⟩ := h.base
  rw [NamedType.renderScalar_toList, hbase]
  refine ⟨?_, ?_, ?_⟩
  · obtain ⟨c, cs, heq, hc⟩ := head?_spaced hws hne
    cases t.constBase with
    | true => exact ⟨'c', _, rfl, by decide⟩
    | false => exact ⟨c, _, by rw [heq]; rfl, isBlank_of_isNameLetter hc⟩
  · have hmarks : EndsDark (List.replicate t.pointers '*' ++ if t.reference then ['&'] else []) := by
      refine .append (.of_noBlank fun c hc => ?_) (.of_noBlank fun c hc => ?_)
      · rw [List.eq_of_mem_replicate hc]
        decide
      · cases hr : t.reference <;> simp [hr] at hc
        rw [hc]
        decide
    obtain ⟨c, cs, heq, -⟩ := head?_spaced hws hne
    exact ((endsDark_spaced hws).append hmarks).behind (by simp [heq])
  · intro c hc
    simp only [List.mem_append] at hc
    rcases hc with hc | hc | hc | hc
    · cases hb : t.constBase <;> rw [hb] at hc
      · exact absurd hc List.not_mem_nil
      · have hconst : "const ".toList.all (!isBracket ·) = true := by decide
        simpa using List.all_eq_true.mp hconst c hc
    · rcases mem_spaced hc with rfl | ⟨w, hw, hc⟩
      · decide
      · have := (hws w hw).letters c hc
        simp only [isNameLetter, Bool.and_eq_true, Bool.not_eq_true'] at this
        exact this.2
    · rw [List.eq_of_mem_replicate hc]
      decide
    · cases hr : t.reference <;> rw [hr] at hc
      · exact absurd hc List.not_mem_nil
      · rw [List.mem_singleton.mp hc]
        decide

theorem NamedType.WellFormed.lexemes_scalar (h : t.WellFormed) :
    (lexemes t.renderScalar.toList).foldlM NamedType.add { base := "", dims := t.dims } = some t := by
  obtain ⟨ws, hne, hws, hbase⟩ := h.base
  have hmark : ∀ c ∈ (if t.reference then ['&'] else []).head?, endsWord c = true := by
    cases t.reference <;> simp [endsWord]
  have hmarks : ∀ c ∈ (List.replicate t.pointers '*' ++ if t.reference then ['&'] else []).head?,
      endsWord c = true := by
    cases hp : t.pointers with
    | zero => exact hmark
    | succ n => simp [List.replicate_succ, endsWord]
  -- `const` comes first, if at all, and is noted
  have hconst : lexemes t.renderScalar.toList =
      (if t.constBase then [.word "const".toList] else []) ++
        (ws.map .word ++ (List.replicate t.pointers .star ++
          if t.reference then [.ampersand] else [])) := by
    have hrest : lexemes (spaced ws ++ (List.replicate t.pointers '*' ++
        if t.reference then ['&'] else [])) = ws.map .word ++ (List.replicate t.pointers .star ++
          if t.reference then [.ampersand] else []) := by
      rw [lexemes_spaced hws hmarks, lexemes_stars]
      cases t.reference <;> rfl
    rw [NamedType.renderScalar_toList, hbase]
    cases t.constBase with
    | true =>
      rw [if_pos rfl, if_pos rfl, List.append_assoc, lexemes_word (by decide) const_letters
        (by simp [endsWord]; decide), List.cons_append, List.nil_append, lexemes_blank, hrest]
      rfl
    | false => exact hrest
  rw [hconst, List.foldlM_append]
  have hstart : (if t.constBase then [Lexeme.word "const".toList] else []).foldlM NamedType.add
      { base := "", dims := t.dims } =
      some { base := "", constBase := t.constBase, dims := t.dims } := by
    cases t.constBase with
    | true => rfl
    | false => rfl
  obtain ⟨base, hwords, hbase'⟩ := foldlM_words hne hws
    (t := { base := "", constBase := t.constBase, dims := t.dims }) rfl rfl rfl
  have heq : base = t.base := String.toList_inj.mp (hbase'.trans hbase.symm)
  subst heq
  have hbaseNe := h.base_ne
  have hstars := foldlM_stars (n := t.pointers)
    (t := { base := t.base, constBase := t.constBase, dims := t.dims }) hbaseNe rfl (by
      simpa using h.pointers)
  simp only [hstart, List.foldlM_append, hwords, hstars, Option.bind_eq_bind, Option.bind_some]
  obtain ⟨_, _, _, reference, _⟩ := t
  cases reference with
  | true => simp [NamedType.add, hbaseNe]
  | false => simp

theorem NamedType.render_toList (t : NamedType) :
    t.render.toList = t.renderScalar.toList ++ t.dims.flatMap fun d => (renderDim d).toList := by
  rw [NamedType.render, String.toList_append, NamedType.renderDims_toList]

/-- Dimensions have neither white space nor parentheses. -/
theorem renderDims_visible {c : Char} (hc : c ∈ t.dims.flatMap fun d => (renderDim d).toList) :
    isBlank c = false ∧ c ≠ '(' := by
  obtain ⟨d, -, hc⟩ := List.mem_flatMap.mp hc
  rw [renderDim_toList] at hc
  simp only [List.mem_cons, List.mem_append, List.not_mem_nil, or_false] at hc
  rcases hc with rfl | hc | rfl
  · decide
  · have hdigit := isDigit_of_mem_dimText hc
    refine ⟨isBlank_of_isDigit hdigit, ?_⟩
    rintro rfl
    exact absurd hdigit (by decide)
  · decide

theorem NamedType.WellFormed.trim_render (h : t.WellFormed) :
    trim t.render.toList = t.render.toList := by
  obtain ⟨⟨c, cs, hhead, hc⟩, hlast, -⟩ := h.scalar_ends
  rw [NamedType.render_toList]
  refine trim_of_ends (fun d hd => ?_) (hlast.append (.of_noBlank fun d hd =>
    (renderDims_visible hd).1))
  rw [hhead] at hd
  cases hd
  exact hc

theorem NamedType.WellFormed.render_noParen (h : t.WellFormed) :
    t.render.toList.contains '(' = false := by
  rw [List.contains_eq_mem, decide_eq_false_iff_not, NamedType.render_toList, List.mem_append]
  rintro (hc | hc)
  · exact absurd (h.scalar_ends.2.2 _ hc) (by decide)
  · exact (renderDims_visible hc).2 rfl

theorem NamedType.WellFormed.parseNamed_render (h : t.WellFormed) :
    parseNamed t.render.toList = some t := by
  obtain ⟨-, hlast, hbracket⟩ := h.scalar_ends
  have hpeel : peelDims t.render.toList.reverse =
      some (t.renderScalar.toList.reverse, t.dims.reverse) := by
    rw [NamedType.render_toList, List.reverse_append, List.reverse_flatMap]
    refine peelDims_groups (fun n hn => h.dims n (List.mem_reverse.mp hn)) fun d hd => ?_
    rw [List.head?_reverse] at hd
    have hbr := hbracket d (List.mem_of_getLast? hd)
    refine ⟨?_, hlast d hd⟩
    rintro rfl
    exact absurd hbr (by decide)
  have hany : t.renderScalar.toList.any isBracket = false := by simpa using hbracket
  have hbase : t.base.isEmpty = false := by simpa using h.base_ne
  unfold parseNamed
  rw [hpeel]
  simp only [Option.bind_eq_bind, Option.bind_some, List.reverse_reverse, hany, h.lexemes_scalar,
    hbase, Bool.false_eq_true, if_false]

/-- **The canonical spelling of a well-formed type is read back as that type.** -/
theorem NamedType.parse_render (h : t.WellFormed) : CType.parse t.render = .named t := by
  obtain ⟨⟨c, cs, hhead, -⟩, -, -⟩ := h.scalar_ends
  have hne : t.render.toList.isEmpty = false := by
    rw [NamedType.render_toList, hhead]
    rfl
  unfold CType.parse
  dsimp only
  rw [h.trim_render, hne, h.render_noParen, h.parseNamed_render]
  rfl

end

/-! ## Elements of arrays -/

/-- **A spelling has one dimension more than its element has.** -/
theorem arrayDims_of_elementType? {spelling elem : String} (h : elementType? spelling = some elem) :
    ∃ t d inner, CType.parse spelling = .named t ∧ t.dims = d :: inner ∧
      CType.parse elem = .named { t with dims := inner } := by
  unfold elementType? at h
  split at h
  · rename_i t ht
    obtain ⟨e, he, rfl⟩ := Option.map_eq_some_iff.mp h
    have hread := NamedType.parse_render ((CType.wellFormed_of_parse ht).element he)
    unfold NamedType.element? at he
    split at he
    · cases he
    · rename_i d inner hdims
      cases he
      exact ⟨t, d, inner, ht, hdims, hread⟩
  · cases h

end LuaGlue
