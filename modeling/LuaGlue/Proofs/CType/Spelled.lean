import Mathlib.Data.List.DropRight
import LuaGlue.Proofs.CType.Grammar
import LuaGlue.Proofs.CType.Pieces

/-!
# Which spellings name a type

A spelling without parentheses is read as a named type exactly when it is one by the grammar
(`NamedType.SpelledBy`): bracket groups come off its end until there are none, and what is left has its
tokens in order. The reader is taken apart the same way: a text either ends in a bracket group, or in a `]`
without its `[`, or it is the body of the type (`ending_cases`), with one equation for each.
-/

set_option autoImplicit false

namespace LuaGlue

open Text

/-! ## White space at the ends -/

namespace Text

theorem dropEndWhile_eq (p : Char → Bool) (cs : List Char) : dropEndWhile p cs = cs.rdropWhile p := by
  induction cs using List.reverseRecOn with
  | nil => rfl
  | append_singleton cs c ih =>
    have hconcat : ∀ ds : List Char, dropEndWhile p (ds ++ [c]) =
        if p c then dropEndWhile p ds else ds ++ [c] := by
      intro ds
      induction ds with
      | nil => simp [dropEndWhile]
      | cons d ds ih =>
        rw [List.cons_append, dropEndWhile, ih]
        cases hc : p c with
        | true => simp [dropEndWhile]
        | false => simp
    rw [hconcat, List.rdropWhile_concat, ih]

theorem trimEnd_concat_blank {cs : List Char} {c : Char} (hc : isBlank c = true) :
    trimEnd (cs ++ [c]) = trimEnd cs := by
  simp only [trimEnd, dropEndWhile_eq, List.rdropWhile_concat_pos isBlank cs c hc]

theorem trimEnd_concat_dark {cs : List Char} {c : Char} (hc : isBlank c = false) :
    trimEnd (cs ++ [c]) = cs ++ [c] := by
  simp only [trimEnd, dropEndWhile_eq]
  exact List.rdropWhile_concat_neg isBlank cs c (by simp [hc])

theorem trimEnd_eq_nil {cs : List Char} : trimEnd cs = [] ↔ ∀ c ∈ cs, isBlank c = true := by
  simp only [trimEnd, dropEndWhile_eq, List.rdropWhile_eq_nil_iff]

/-- White space comes off the end, and only there. -/
theorem trimEnd_split (cs : List Char) :
    ∃ gap, (∀ c ∈ gap, isBlank c = true) ∧ cs = trimEnd cs ++ gap := by
  refine ⟨cs.rtakeWhile isBlank, fun c hc => List.mem_rtakeWhile_imp hc, ?_⟩
  rw [trimEnd, dropEndWhile_eq, List.rdropWhile_append_rtakeWhile]

theorem trimEnd_append {a b : List Char} (h : trimEnd b ≠ []) : trimEnd (a ++ b) = a ++ trimEnd b := by
  induction b using List.reverseRecOn with
  | nil => exact absurd rfl h
  | append_singleton b c ih =>
    rw [← List.append_assoc]
    cases hc : isBlank c with
    | true =>
      rw [trimEnd_concat_blank hc] at h ⊢
      rw [trimEnd_concat_blank hc, ih h]
    | false => rw [trimEnd_concat_dark hc, trimEnd_concat_dark hc, List.append_assoc]

theorem trimEnd_append_blanks {a gap : List Char} (h : ∀ c ∈ gap, isBlank c = true) :
    trimEnd (a ++ gap) = trimEnd a := by
  induction gap using List.reverseRecOn with
  | nil => rw [List.append_nil]
  | append_singleton gap c ih =>
    rw [← List.append_assoc, trimEnd_concat_blank (h c (by simp)),
      ih fun d hd => h d (List.mem_append_left _ hd)]

theorem dropWhile_append_blanks {gap b : List Char} (h : ∀ c ∈ gap, isBlank c = true) :
    (gap ++ b).dropWhile isBlank = b.dropWhile isBlank :=
  List.dropWhile_append_of_pos h

theorem mem_trim_iff {cs : List Char} {c : Char} (hc : isBlank c = false) : c ∈ trim cs ↔ c ∈ cs := by
  refine ⟨fun h => (infix_trim cs).subset h, fun h => ?_⟩
  have hfront : c ∈ cs.dropWhile isBlank := by
    rw [← List.takeWhile_append_dropWhile (p := isBlank) (l := cs), List.mem_append] at h
    refine h.resolve_left fun htake => ?_
    rw [List.mem_takeWhile_imp htake] at hc
    cases hc
  obtain ⟨gap, hgap, heq⟩ := trimEnd_split (cs.dropWhile isBlank)
  rw [heq, List.mem_append] at hfront
  refine hfront.resolve_right fun hmem => ?_
  rw [hgap c hmem] at hc
  cases hc

end Text

/-! ## Numerals -/

theorem isDigit_of_digit? {c : Char} {d : Nat} (h : digit? 10 c = some d) : c.isDigit = true := by
  obtain ⟨hvalue, hlt⟩ := Option.filter_eq_some_iff.mp h
  simp only [decide_eq_true_eq] at hlt
  split at hvalue
  · assumption
  · split at hvalue
    · have := Option.some.inj hvalue
      omega
    · split at hvalue
      · have := Option.some.inj hvalue
        omega
      · cases hvalue

theorem isDigit_of_mem_digits {cs : List Char} {n : Nat} (h : digits? 10 cs = some n) :
    ∀ c ∈ cs, c.isDigit = true := by
  have hfold : ∀ {ds : List Char} {m k : Nat},
      ds.foldlM (fun value c => (digit? 10 c).map (value * 10 + ·)) m = some k →
        ∀ c ∈ ds, c.isDigit = true := by
    intro ds
    induction ds with
    | nil => exact fun _ c hc => absurd hc List.not_mem_nil
    | cons d ds ih =>
      intro m k h
      rw [List.foldlM_cons] at h
      obtain ⟨v, hv, hrest⟩ := Option.bind_eq_some_iff.mp h
      obtain ⟨value, hdigit, -⟩ := Option.map_eq_some_iff.mp hv
      exact List.forall_mem_cons.mpr ⟨isDigit_of_digit? hdigit, ih hrest⟩
  cases cs with
  | nil => exact fun c hc => absurd hc List.not_mem_nil
  | cons c cs => exact hfold h

/-- A text is no numeral if it has a character that no numeral has. -/
theorem natural?_eq_none {bound : Nat} {cs : List Char} {c : Char} (hmem : c ∈ cs)
    (hdigit : c.isDigit = false) (hplus : c ≠ '+') : natural? bound cs = none := by
  cases hread : natural? bound cs with
  | none => rfl
  | some n =>
    obtain ⟨hdigits, -⟩ := Option.filter_eq_some_iff.mp hread
    have hall := isDigit_of_mem_digits hdigits
    have htrue : c.isDigit = true := by
      split at hall
      · exact hall c ((List.mem_cons.mp hmem).resolve_left hplus)
      · exact hall c hmem
    rw [htrue] at hdigit
    cases hdigit

/-! ## Bracket groups -/

/-- A text, what is left of it without the bracket groups at its end, and what stands in the groups,
outermost first. A group runs from the last `[` to a `]` at the end. -/
inductive BracketGroups : List Char → List Char → List (List Char) → Prop
  | done {text : List Char} (h : ∀ c ∈ text.getLast?, c ≠ ']') : BracketGroups text text []
  | group {before inside body : List Char} {groups : List (List Char)} (hlast : '[' ∉ inside)
      (h : BracketGroups (trimEnd before) body groups) :
      BracketGroups (before ++ '[' :: (inside ++ [']'])) body (groups ++ [inside])

/-- The number in a bracket group, if there is one. -/
def readDim (inside : List Char) : Option Nat := natural? sizeBound (trim inside)

/-- A type from what is left when the dimensions are taken off. -/
def assemble (body : List Char) (dims : List (Option Nat)) : Option NamedType :=
  if body.any isBracket then none
  else
    ((lexemes body).foldlM NamedType.add { base := "", dims := dims }).bind fun t =>
      if t.base.isEmpty then none else some t

/-- A type from a text to whose right dimensions have been taken off already. -/
def readEnding (dims : List (Option Nat)) (cs : List Char) : Option NamedType :=
  (peelDims cs.reverse).bind fun p => assemble p.1.reverse (p.2.reverse ++ dims)

theorem parseNamed_eq (cs : List Char) : parseNamed cs = readEnding [] cs := by
  unfold parseNamed readEnding assemble
  simp

section

variable {before inside rest cs : List Char} {dims : List (Option Nat)}

theorem readEnding_group (h : '[' ∉ inside) :
    readEnding dims (before ++ '[' :: (inside ++ [']'])) =
      readEnding (readDim inside :: dims) (trimEnd before) := by
  have hreverse : (before ++ '[' :: (inside ++ [']'])).reverse =
      ']' :: (inside.reverse ++ '[' :: before.reverse) := by simp
  have htrim : before.reverse.dropWhile isBlank = (trimEnd before).reverse := by
    rw [trimEnd, dropEndWhile_eq, List.rdropWhile, List.reverse_reverse]
  have hinside : ∀ c ∈ inside.reverse, c ≠ '[' := by
    rintro c hc rfl
    exact h (List.mem_reverse.mp hc)
  unfold readEnding
  rw [hreverse, peelDims_group _ _ hinside, htrim, List.reverse_reverse, Option.bind_map]
  congr 1
  funext p
  simp [readDim]

theorem readEnding_plain (h : ∀ c ∈ cs.getLast?, c ≠ ']') : readEnding dims cs = assemble cs dims := by
  unfold readEnding
  rw [peelDims]
  · simp
  · intro more hmore
    have hlast : cs.getLast? = some ']' := by rw [← List.head?_reverse, hmore]; rfl
    exact h ']' hlast rfl

theorem readEnding_unopened (h : '[' ∉ rest) : readEnding dims (rest ++ [']']) = none := by
  have hdrop : rest.reverse.dropWhile (· != '[') = [] := by
    rw [List.dropWhile_eq_nil_iff]
    intro c hc
    have hne : c ≠ '[' := by
      rintro rfl
      exact h (List.mem_reverse.mp hc)
    simpa using hne
  unfold readEnding
  rw [List.reverse_append, List.reverse_singleton, List.singleton_append, peelDims]
  split
  · rfl
  · rename_i hsome
    rw [hdrop] at hsome
    cases hsome

end

/-- A text has no `[`, or it has a last one. -/
theorem last_bracket (cs : List Char) :
    '[' ∉ cs ∨ ∃ before inside, cs = before ++ '[' :: inside ∧ '[' ∉ inside := by
  cases h : decide ('[' ∈ cs) with
  | false => exact .inl (of_decide_eq_false h)
  | true =>
    obtain ⟨as, bs, heq, has⟩ :=
      List.eq_append_cons_of_mem (List.mem_reverse.mpr (of_decide_eq_true h))
    refine .inr ⟨bs.reverse, as.reverse, ?_, fun hmem => has (List.mem_reverse.mp hmem)⟩
    rw [← List.reverse_reverse cs, heq]
    simp

/-- How a text ends: in a bracket group, in a `]` without its `[`, or otherwise. -/
theorem ending_cases (cs : List Char) :
    (∀ c ∈ cs.getLast?, c ≠ ']') ∨ (∃ rest, cs = rest ++ [']'] ∧ '[' ∉ rest) ∨
      ∃ before inside, cs = before ++ '[' :: (inside ++ [']']) ∧ '[' ∉ inside := by
  cases cs using List.reverseRecOn with
  | nil => exact .inl (by simp)
  | append_singleton rest c =>
    cases hc : decide (c = ']') with
    | false => exact .inl (by simpa using hc)
    | true =>
      obtain rfl := of_decide_eq_true hc
      rcases last_bracket rest with hnone | ⟨before, inside, rfl, hinside⟩
      · exact .inr (.inl ⟨rest, rfl, hnone⟩)
      · exact .inr (.inr ⟨before, inside, by simp, hinside⟩)

theorem trimEnd_length_le (cs : List Char) : (trimEnd cs).length ≤ cs.length :=
  (prefix_dropEndWhile isBlank cs).length_le

/-- **Taking dimensions off the end is taking bracket groups off.** -/
theorem readEnding_iff {cs : List Char} {dims : List (Option Nat)} {t : NamedType} :
    readEnding dims cs = some t ↔
      ∃ body groups, BracketGroups cs body groups ∧ assemble body (groups.map readDim ++ dims) = some t := by
  constructor
  · intro h
    induction hn : cs.length using Nat.strongRecOn generalizing cs dims with
    | _ n ih =>
      rcases ending_cases cs with hlast | ⟨rest, rfl, hrest⟩ | ⟨before, inside, rfl, hinside⟩
      · rw [readEnding_plain hlast] at h
        exact ⟨cs, [], .done hlast, h⟩
      · rw [readEnding_unopened hrest] at h
        cases h
      · rw [readEnding_group hinside] at h
        have hlt : (trimEnd before).length < n := by
          have := trimEnd_length_le before
          rw [← hn]
          simp only [List.length_append, List.length_cons]
          omega
        obtain ⟨body, groups, hgroups, hbody⟩ := ih _ hlt h rfl
        exact ⟨body, groups ++ [inside], .group hinside hgroups, by simpa using hbody⟩
  · rintro ⟨body, groups, hgroups, hbody⟩
    induction hgroups generalizing dims with
    | done hlast => rwa [readEnding_plain hlast]
    | group hinside _ ih =>
      rw [readEnding_group hinside]
      exact ih (by simpa using hbody)

/-! ## The grammar -/

/-- How a named type is spelled: bracket groups at the end, in front of them no other bracket or parenthesis,
and tokens in order with at least one word. -/
def NamedType.SpelledBy (t : NamedType) (cs : List Char) : Prop :=
  ∃ body groups tokens words stars, BracketGroups cs body groups ∧ (∀ c ∈ body, isBracket c = false) ∧
    Tokens body tokens ∧ words ≠ [] ∧ t.ReadFrom tokens words stars ∧ t.dims = groups.map readDim

theorem assemble_iff {body : List Char} {dims : List (Option Nat)} {t : NamedType} :
    assemble body dims = some t ↔ (∀ c ∈ body, isBracket c = false) ∧ t.dims = dims ∧
      ∃ tokens words stars, Tokens body tokens ∧ words ≠ [] ∧ t.ReadFrom tokens words stars := by
  have htokens := Tokens.of_lexemes body
  unfold assemble
  rw [Option.ite_none_left_eq_some, List.any_eq_true, Option.bind_eq_some_iff]
  simp only [not_exists, not_and, Bool.not_eq_true, Option.ite_none_left_eq_some, Option.some.injEq,
    NamedType.foldlM_add_iff htokens.word_ne_nil]
  refine and_congr_right fun _ => ?_
  constructor
  · rintro ⟨u, ⟨hdims, words, stars, hu⟩, hbase, rfl⟩
    refine ⟨hdims, _, words, stars, htokens, fun hnil => ?_, hu.toReadFrom⟩
    rw [hu.isEmpty_base.mpr hnil] at hbase
    cases hbase
  · rintro ⟨hdims, tokens, words, stars, htok, hwords, ht⟩
    obtain rfl := htok.lexemes_eq
    have hsofar : t.ReadSoFar (lexemes body) words stars := by
      refine ⟨ht, fun hnil => absurd hnil hwords, fun w hw => htokens.word_ne_nil w ?_⟩
      have hmem : Lexeme.word w ∈ inOrder words stars t.reference := by simp [inOrder, hw]
      exact (List.mem_filter.mp (ht.order ▸ hmem)).1
    refine ⟨t, ⟨hdims, words, stars, hsofar⟩, ?_, rfl⟩
    rw [Bool.eq_false_iff]
    exact fun hempty => hwords (hsofar.isEmpty_base.mp hempty)

theorem readEnding_spelled {cs : List Char} {t : NamedType} :
    readEnding [] cs = some t ↔ t.SpelledBy cs := by
  rw [readEnding_iff]
  constructor
  · rintro ⟨body, groups, hgroups, hbody⟩
    obtain ⟨hplain, hdims, tokens, words, stars, htokens, hwords, ht⟩ := assemble_iff.mp hbody
    exact ⟨body, groups, tokens, words, stars, hgroups, hplain, htokens, hwords, ht,
      by simpa using hdims⟩
  · rintro ⟨body, groups, tokens, words, stars, hgroups, hplain, htokens, hwords, ht, hdims⟩
    refine ⟨body, groups, hgroups, assemble_iff.mpr ?_⟩
    exact ⟨hplain, by simpa using hdims, tokens, words, stars, htokens, hwords, ht⟩

end LuaGlue
