import LuaGlue.Proofs.CType.Pieces
import LuaGlue.Proofs.Naming.Identifiers

/-!
# Snake case

A name in snake case is made of words without capitals, with one underscore between any two of them
(`IsSnakeCase`). That is a normal form: what is in it is its own snake case (`snakeChars_of_isSnakeCase`), and
what an identifier becomes is in it (`isSnakeCase_snakeChars`). Besides the case of its letters nothing but
underscores is changed about a name (`withoutUnderscores_snakeChars`).

Both rest on what one character becomes (`NameChar.snakePiece_cases`): its small form, and before it an
underscore at most, which is written neither after another one nor at the beginning. So the beginning of a
name counts as an underscore.
-/

set_option autoImplicit false

namespace LuaGlue

open Text

/-! ## Underscores -/

/-- Not both of the characters are underscores. -/
def UnderscoresApart (a b : Char) : Prop := a ≠ '_' ∨ b ≠ '_'

/-- No capitals, no underscore at either end, and no two underscores side by side. -/
structure IsSnakeCase (cs : List Char) : Prop where
  small : ∀ c ∈ cs, isCapital c = false
  head : cs.head? ≠ some '_'
  last : cs.getLast? ≠ some '_'
  apart : cs.IsChain UnderscoresApart

/-- The text with its underscores deleted. -/
def withoutUnderscores (cs : List Char) : List Char := cs.filter (· != '_')

@[simp] theorem withoutUnderscores_nil : withoutUnderscores [] = [] := rfl

@[simp] theorem withoutUnderscores_append (a b : List Char) :
    withoutUnderscores (a ++ b) = withoutUnderscores a ++ withoutUnderscores b :=
  List.filter_append ..

@[simp] theorem withoutUnderscores_underscore (cs : List Char) :
    withoutUnderscores ('_' :: cs) = withoutUnderscores cs := rfl

theorem withoutUnderscores_cons {c : Char} (hc : c ≠ '_') (cs : List Char) :
    withoutUnderscores (c :: cs) = c :: withoutUnderscores cs :=
  List.filter_cons_of_pos (by simpa using hc)

/-- Underscores that are taken off the end would have been deleted. -/
theorem withoutUnderscores_dropEndWhile (cs : List Char) :
    withoutUnderscores (dropEndWhile (· == '_') cs) = withoutUnderscores cs := by
  induction cs with
  | nil => rfl
  | cons c rest ih =>
    by_cases hc : c = '_'
    · subst hc
      rw [withoutUnderscores_underscore, ← ih, dropEndWhile]
      split
      · rename_i hnil
        rw [hnil]
        rfl
      · rfl
    · rw [dropEndWhile_cons (by simpa using hc), withoutUnderscores_cons hc,
        withoutUnderscores_cons hc, ih]

/-! ## One character -/

/-- At the beginning a gap is no more needed than after an underscore. -/
theorem wordGap_eq (last : Option Char) :
    wordGap last = if last.getD '_' = '_' then [] else ['_'] := by
  cases last with
  | none => rfl
  | some c => simp [wordGap]

theorem withoutUnderscores_wordGap (last : Option Char) : withoutUnderscores (wordGap last) = [] := by
  rw [wordGap_eq]
  split <;> rfl

/-- An underscore becomes a gap, and any other character its small form, perhaps with a gap before it. -/
theorem NameChar.snakePiece_cases {c : Char} (hc : NameChar c) (prev last : Option Char)
    (next : List Char) :
    (c = '_' ∧ snakePiece prev last c next = wordGap last) ∨
      (c.toLower ≠ '_' ∧ ∃ gap, (gap = [] ∨ gap = wordGap last) ∧
        snakePiece prev last c next = gap ++ [c.toLower]) := by
  by_cases hunderscore : c = '_'
  · exact .inl ⟨hunderscore, if_pos (by simpa using hunderscore)⟩
  · refine .inr ⟨fun h => hunderscore (hc.cased.1.2.2 h), ?_⟩
    rw [snakePiece, if_neg (by simpa using hunderscore)]
    split
    · rw [hc.small_eq]
      split
      · exact ⟨_, .inr rfl, rfl⟩
      · exact ⟨[], .inl rfl, rfl⟩
    · rename_i hcapital
      rw [isCapital, if_pos hc.ascii] at hcapital
      exact ⟨[], .inl rfl, by rw [Char.toLower_eq_of_not_isUpper hcapital, List.nil_append]⟩

/-! ## Into snake case -/

/-- Behind `last`, the underscores that are written stand apart from it and from one another. -/
theorem snakeFrom_apart : ∀ (cs : List Char) (prev last : Option Char), (∀ c ∈ cs, NameChar c) →
    (last.getD '_' :: snakeFrom prev last cs).IsChain UnderscoresApart := by
  intro cs
  induction cs with
  | nil => intro _ _ _; exact .singleton _
  | cons c rest ih =>
    intro prev last h
    obtain ⟨hc, hrest⟩ := List.forall_mem_cons.mp h
    obtain ⟨-, hpiece⟩ | ⟨hlower, gap, hgap, hpiece⟩ := hc.snakePiece_cases prev last rest
    · rw [snakeFrom, hpiece, wordGap_eq]
      split
      · exact ih (some c) last hrest
      · rename_i hlast
        exact .cons_cons (.inl hlast) (ih (some c) (some '_') hrest)
    · have hafter := ih (some c) (some c.toLower) hrest
      rw [snakeFrom, hpiece, List.getLast?_concat, Option.some_or, List.append_assoc]
      rcases hgap with rfl | rfl
      · exact .cons_cons (.inr hlower) hafter
      · rw [wordGap_eq]
        split
        · exact .cons_cons (.inr hlower) hafter
        · rename_i hlast
          exact .cons_cons (.inl hlast) (.cons_cons (.inr hlower) hafter)

/-- **An identifier is brought into snake case.** -/
theorem isSnakeCase_snakeChars {cs : List Char} (h : ∀ c ∈ cs, NameChar c) :
    IsSnakeCase (snakeChars cs) := by
  have hbegins : snakeChars cs <+: snakeFrom none none cs := prefix_dropEndWhile _ _
  have hchain := snakeFrom_apart cs none none h
  refine ⟨fun c hc => ?_, fun hhead => ?_, fun hlast => ?_, hchain.tail.prefix hbegins⟩
  · rw [isCapital, if_pos (NameChar.ascii (snakeChars_over h c hc))]
    exact snakeFrom_noCapital _ _ _ c (hbegins.mem hc)
  · -- the beginning counts as an underscore
    obtain ⟨rest, hrest⟩ := List.head?_eq_some_iff.mp hhead
    rw [hrest] at hbegins
    obtain ⟨more, hmore⟩ := hbegins
    rw [← hmore] at hchain
    exact (List.isChain_cons_cons.mp hchain).1.elim (fun h => h rfl) fun h => h rfl
  · exact absurd (getLast?_dropEndWhile _ '_' hlast) (by simp)

/-! ## In snake case -/

theorem snakeFrom_of_apart : ∀ {cs : List Char} (prev last : Option Char),
    (∀ c ∈ cs, isCapital c = false) → (last.getD '_' :: cs).IsChain UnderscoresApart →
      snakeFrom prev last cs = cs := by
  intro cs
  induction cs with
  | nil => intro _ _ _ _; rfl
  | cons c rest ih =>
    intro prev last hsmall hchain
    obtain ⟨hc, hrest⟩ := List.forall_mem_cons.mp hsmall
    obtain ⟨hapart, hchain⟩ := List.isChain_cons_cons.mp hchain
    have hpiece : snakePiece prev last c rest = [c] := by
      rw [snakePiece, hc]
      split
      · rename_i hunderscore
        obtain rfl : c = '_' := by simpa using hunderscore
        rw [wordGap_eq, if_neg (hapart.resolve_right (by simp))]
      · rfl
    rw [snakeFrom, hpiece]
    exact congrArg (c :: ·) (ih (some c) (some c) hrest hchain)

/-- **What is in snake case stays as it is.** -/
theorem snakeChars_of_isSnakeCase {cs : List Char} (h : IsSnakeCase cs) : snakeChars cs = cs := by
  have hchain : ('_' :: cs).IsChain UnderscoresApart := by
    cases cs with
    | nil => exact .singleton _
    | cons c rest => exact .cons_cons (.inr fun hc => h.head (congrArg some hc)) h.apart
  rw [snakeChars, snakeFrom_of_apart none none h.small hchain]
  refine dropEndWhile_of_last fun c hc => ?_
  exact beq_false_of_ne fun heq => h.last (heq ▸ hc)

/-! ## The name in it -/

theorem withoutUnderscores_snakeFrom : ∀ (cs : List Char) (prev last : Option Char),
    (∀ c ∈ cs, NameChar c) →
      withoutUnderscores (snakeFrom prev last cs) = withoutUnderscores (cs.map Char.toLower) := by
  intro cs
  induction cs with
  | nil => intro _ _ _; rfl
  | cons c rest ih =>
    intro prev last h
    obtain ⟨hc, hrest⟩ := List.forall_mem_cons.mp h
    rw [snakeFrom, withoutUnderscores_append, ih _ _ hrest, List.map_cons]
    obtain ⟨rfl, hpiece⟩ | ⟨hlower, gap, hgap, hpiece⟩ := hc.snakePiece_cases prev last rest
    · rw [hpiece, withoutUnderscores_wordGap]
      rfl
    · have hgap : withoutUnderscores gap = [] := by
        rcases hgap with rfl | rfl
        · rfl
        · exact withoutUnderscores_wordGap last
      rw [hpiece, withoutUnderscores_append, hgap, withoutUnderscores_cons hlower,
        withoutUnderscores_cons hlower]
      rfl

/-- **Underscores aside, snake case is the name in small letters.** -/
theorem withoutUnderscores_snakeChars {cs : List Char} (h : ∀ c ∈ cs, NameChar c) :
    withoutUnderscores (snakeChars cs) = withoutUnderscores (cs.map Char.toLower) := by
  rw [snakeChars, withoutUnderscores_dropEndWhile, withoutUnderscores_snakeFrom cs none none h]

/-- **What snake case makes of an identifier**: words without capitals and one underscore between any two of
them; the same letters and digits, in small letters; and nothing is left to be done. -/
theorem snakeCase_normal {name : String} (h : Over NameChar name) :
    IsSnakeCase (snakeCase name).toList ∧
      withoutUnderscores (snakeCase name).toList =
        withoutUnderscores (name.toList.map Char.toLower) ∧
      snakeCase (snakeCase name) = snakeCase name := by
  have hnormal : IsSnakeCase (snakeChars name.toList) := isSnakeCase_snakeChars h
  have hagain : snakeChars (snakeChars name.toList) = snakeChars name.toList :=
    snakeChars_of_isSnakeCase hnormal
  unfold snakeCase
  rw [String.toList_ofList, hagain]
  exact ⟨hnormal, withoutUnderscores_snakeChars h, rfl⟩

/-- Capitals in a row, a digit, and underscores at the ends and side by side. -/
theorem snakeCase_normal_mixed :
    Over NameChar "__RGBToHSV2D__Tex_" ∧ IsSnakeCase "rgb_to_hsv2_d_tex".toList ∧
      withoutUnderscores "rgb_to_hsv2_d_tex".toList =
        withoutUnderscores ("__RGBToHSV2D__Tex_".toList.map Char.toLower) ∧
      snakeCase "rgb_to_hsv2_d_tex" = "rgb_to_hsv2_d_tex" := by
  have hname : Over NameChar "__RGBToHSV2D__Tex_" := over_word (by decide)
  have hsnake : snakeCase "__RGBToHSV2D__Tex_" = "rgb_to_hsv2_d_tex" := by decide +kernel
  have h := snakeCase_normal hname
  rw [hsnake] at h
  exact ⟨hname, h⟩

end LuaGlue
