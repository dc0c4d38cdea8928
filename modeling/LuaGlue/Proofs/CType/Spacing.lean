import LuaGlue.Proofs.CType.Spelled

/-!
# Spellings that are read alike

Two texts with the same ending are read alike when their fronts are (`readEnding_fronts`), since reading
begins at the end. That carries both freedoms a writer has: more white space where the text is loose
(`readEnding_gap`), and `const` at another place among the words of the base (`readEnding_const`).
`named_grammar` puts them beside the grammar itself.
-/

set_option autoImplicit false

namespace LuaGlue

open Text

/-! ## Tokens of a text in two parts -/

theorem lexemesFrom_append {u rest : List Char} (hrest : ∀ c ∈ rest.head?, endsWord c = true) :
    ∀ word, lexemesFrom word (u ++ rest) = lexemesFrom word u ++ lexemes rest := by
  induction u with
  | nil =>
    intro word
    rw [List.nil_append, lexemesFrom_stop hrest, lexemesFrom]
  | cons c u ih =>
    intro word
    simp only [List.cons_append, lexemesFrom]
    split
    · rw [ih, List.append_assoc, List.cons_append]
    · split
      · rw [ih, List.append_assoc, List.cons_append]
      · split
        · rw [ih, List.append_assoc]
        · exact ih _

theorem lexemes_mark {c : Char} (hc : endsWord c = true) (rest : List Char) :
    lexemes (c :: rest) = lexemes [c] ++ lexemes rest := by
  simp only [endsWord, Bool.or_eq_true, beq_iff_eq] at hc
  obtain (hblank | rfl) | rfl := hc
  · have hgap : ∀ d ∈ [c], isBlank d = true := by simpa using hblank
    have hnone : lexemes [c] = [] := lexemes_blanks hgap []
    rw [hnone, List.nil_append]
    exact lexemes_blanks hgap rest
  · rfl
  · rfl

/-- Where a word ends on either side of a cut, each side has its own tokens. -/
theorem lexemes_append {u v : List Char}
    (hseam : ∀ a ∈ u.getLast?, ∀ b ∈ v.head?, endsWord a = true ∨ endsWord b = true) :
    lexemes (u ++ v) = lexemes u ++ lexemes v := by
  cases u using List.reverseRecOn with
  | nil => rfl
  | append_singleton u a =>
    cases ha : endsWord a with
    | true =>
      have hcut (rest : List Char) : lexemes (u ++ a :: rest) = lexemes u ++ lexemes (a :: rest) :=
        lexemesFrom_append (by simp [ha]) []
      rw [List.append_assoc, List.singleton_append, hcut, lexemes_mark ha, hcut, List.append_assoc]
    | false =>
      refine lexemesFrom_append (fun b hb => ?_) []
      exact (hseam a (by simp) b hb).resolve_left (by simp [ha])

theorem isWord_of_mem_lexemes {cs : List Char} (h : ∀ c ∈ cs, c ≠ '*' ∧ c ≠ '&') :
    ∀ l ∈ lexemes cs, l.isWord = true := by
  have hwords : ∀ {cs : List Char} {ts : List Lexeme}, Tokens cs ts →
      (∀ c ∈ cs, c ≠ '*' ∧ c ≠ '&') → ∀ l ∈ ts, l.isWord = true := by
    intro cs ts hts
    induction hts with
    | nil => exact fun _ l hl => absurd hl List.not_mem_nil
    | blank _ _ ih => exact fun h => ih (List.forall_mem_cons.mp h).2
    | star _ _ => exact fun h => absurd rfl (h '*' List.mem_cons_self).1
    | ampersand _ _ => exact fun h => absurd rfl (h '&' List.mem_cons_self).2
    | word _ _ _ _ ih =>
      exact fun h => List.forall_mem_cons.mpr ⟨rfl, ih (List.forall_mem_append.mp h).2⟩
  exact hwords (Tokens.of_lexemes cs) h

/-! ## Fronts -/

/-- **Two fronts that are read alike before any body are read alike before any ending**, up to what `φ` does
to a type that is read. `Q` is what the fronts ask of an ending; it holds of the beginning of an ending
that it holds of. -/
theorem readEnding_fronts {x y : List Char} {Q : List Char → Prop} (φ : NamedType → NamedType)
    (hQ : ∀ a b, Q (a ++ b) → Q a)
    (hnil : ∀ dims, readEnding dims (trimEnd x) = (readEnding dims (trimEnd y)).map φ)
    (hbody : ∀ rest c dims, Q (rest ++ [c]) → isBlank c = false →
      assemble (x ++ (rest ++ [c])) dims = (assemble (y ++ (rest ++ [c])) dims).map φ)
    (hclose : ∀ rest dims, Q (rest ++ [']']) → '[' ∉ rest →
      readEnding dims (x ++ (rest ++ [']'])) = (readEnding dims (y ++ (rest ++ [']']))).map φ) :
    ∀ rest, Q rest → ∀ dims,
      readEnding dims (trimEnd (x ++ rest)) = (readEnding dims (trimEnd (y ++ rest))).map φ := by
  intro rest hrest dims
  induction hn : rest.length using Nat.strongRecOn generalizing rest dims with
  | _ n ih =>
    cases rest using List.reverseRecOn with
    | nil => simpa using hnil dims
    | append_singleton rest c =>
      simp only [List.length_append, List.length_singleton] at hn
      cases hc : isBlank c with
      | true =>
        rw [← List.append_assoc, ← List.append_assoc, trimEnd_concat_blank hc,
          trimEnd_concat_blank hc]
        exact ih rest.length (by omega) rest (hQ _ _ hrest) dims rfl
      | false =>
        rw [← List.append_assoc, ← List.append_assoc, trimEnd_concat_dark hc,
          trimEnd_concat_dark hc, List.append_assoc, List.append_assoc]
        cases hbracket : decide (c = ']') with
        | false =>
          have hplain (front : List Char) :
              ∀ d ∈ (front ++ (rest ++ [c])).getLast?, d ≠ ']' := by
            rw [← List.append_assoc]
            simpa using hbracket
          rw [readEnding_plain (hplain x), readEnding_plain (hplain y)]
          exact hbody rest c dims hrest hc
        | true =>
          obtain rfl := of_decide_eq_true hbracket
          rcases last_bracket rest with hnone | ⟨before, inside, rfl, hinside⟩
          · exact hclose rest dims hrest hnone
          · have hgroup (front : List Char) : front ++ ((before ++ '[' :: inside) ++ [']']) =
                (front ++ before) ++ '[' :: (inside ++ [']']) := by simp
            rw [hgroup, hgroup, readEnding_group hinside, readEnding_group hinside]
            refine ih before.length ?_ before (hQ before ('[' :: (inside ++ [']'])) (by simpa using hrest)) _ rfl
            simp only [List.length_append, List.length_cons] at hn
            omega

/-! ## White space -/

/-- A character beside which white space means nothing. -/
def isLoose (c : Char) : Bool := endsWord c || c == '[' || c == ']'

/-- Between two texts there is room for white space. -/
def Seam (u v : List Char) : Prop :=
  ∀ a ∈ u.getLast?, ∀ b ∈ v.head?, isLoose a = true ∨ isLoose b = true

instance Seam.decidable (u v : List Char) : Decidable (Seam u v) :=
  decidable_of_iff (u.getLast?.all fun a => v.head?.all fun b => isLoose a || isLoose b) (by
    simp [Seam, Option.all_eq_true])

theorem Seam.front {u a b : List Char} (h : Seam u (a ++ b)) : Seam u a := by
  intro c hc d hd
  cases a with
  | nil => cases hd
  | cons e a => exact h c hc d hd

theorem not_isDigit_of_isLoose {c : Char} (h : isLoose c = true) : c.isDigit = false ∧ c ≠ '+' := by
  simp only [isLoose, endsWord, Bool.or_eq_true, beq_iff_eq] at h
  obtain (((hblank | rfl) | rfl) | rfl) | rfl := h
  · refine ⟨?_, ?_⟩
    · rw [Bool.eq_false_iff]
      intro hdigit
      rw [isBlank_of_isDigit hdigit] at hblank
      cases hblank
    · rintro rfl
      exact absurd hblank (by decide)
  all_goals decide

/-- White space at a seam of a body. -/
theorem assemble_gap {u gap v : List Char} (hgap : ∀ c ∈ gap, isBlank c = true) (hseam : Seam u v)
    (dims : List (Option Nat)) : assemble (u ++ (gap ++ v)) dims = assemble (u ++ v) dims := by
  have hdark : gap.any isBracket = false := by
    rw [List.any_eq_false]
    intro c hc hbracket
    simp only [isBracket, Bool.or_eq_true, beq_iff_eq] at hbracket
    have hblank := hgap c hc
    obtain ((rfl | rfl) | rfl) | rfl := hbracket <;> exact absurd hblank (by decide)
  have hany : (u ++ (gap ++ v)).any isBracket = (u ++ v).any isBracket := by
    simp [List.any_append, hdark]
  cases hbracket : (u ++ v).any isBracket with
  | true => simp [assemble, hany, hbracket]
  | false =>
    have hends : ∀ c ∈ u ++ v, isLoose c = true → endsWord c = true := by
      intro c hc hloose
      have hplain : isBracket c = false := Bool.eq_false_iff.mpr (List.any_eq_false.mp hbracket c hc)
      simp only [isBracket, Bool.or_eq_false_iff, beq_eq_false_iff_ne] at hplain
      simpa [isLoose, hplain.1.1.1, hplain.1.1.2] using hloose
    have hseam' : ∀ a ∈ u.getLast?, ∀ b ∈ v.head?, endsWord a = true ∨ endsWord b = true :=
      fun a ha b hb => (hseam a ha b hb).imp
        (hends a (List.mem_append_left v (List.mem_of_getLast? ha)))
        (hends b (List.mem_append_right u (List.mem_of_mem_head? hb)))
    have htokens : lexemes (u ++ (gap ++ v)) = lexemes (u ++ v) := by
      cases gap with
      | nil => rfl
      | cons g gap =>
        have hg : endsWord g = true := by simp [endsWord, hgap g List.mem_cons_self]
        rw [lexemes_append (by simp [hg]), lexemes_blanks hgap, lexemes_append hseam']
    simp only [assemble, hany, htokens]

/-- White space at a seam of what stands in a bracket group. -/
theorem readDim_gap {u gap v : List Char} (hgap : ∀ c ∈ gap, isBlank c = true) (hseam : Seam u v) :
    readDim (u ++ (gap ++ v)) = readDim (u ++ v) := by
  have hfront : (∀ c ∈ u, isBlank c = true) ∨ u.dropWhile isBlank ≠ [] := by
    rw [Ne, List.dropWhile_eq_nil_iff]
    exact Classical.em _
  have hback : (∀ c ∈ v, isBlank c = true) ∨ trimEnd v ≠ [] := by
    rw [Ne, trimEnd_eq_nil]
    exact Classical.em _
  rcases hfront with hu | hu
  · -- nothing in front of the gap: it goes with the white space there
    have hboth : ∀ c ∈ u ++ gap, isBlank c = true := List.forall_mem_append.mpr ⟨hu, hgap⟩
    simp only [readDim, trim, ← List.append_assoc, dropWhile_append_blanks hboth,
      dropWhile_append_blanks hu]
  · have hdrop (w : List Char) : (u ++ w).dropWhile isBlank = u.dropWhile isBlank ++ w := by
      rw [List.dropWhile_append, if_neg (by simpa using hu)]
    rcases hback with hv | hv
    · -- nothing behind it
      have hboth : ∀ c ∈ gap ++ v, isBlank c = true := List.forall_mem_append.mpr ⟨hgap, hv⟩
      simp only [readDim, trim, hdrop, trimEnd_append_blanks hboth, trimEnd_append_blanks hv]
    · -- in the middle of it: no numeral, with or without the gap
      have hnone (w : List Char) (hw : trimEnd (w ++ v) = w ++ trimEnd v) :
          readDim (u ++ (w ++ v)) = none := by
        have htrim : trim (u ++ (w ++ v)) = u.dropWhile isBlank ++ (w ++ trimEnd v) := by
          rw [trim, hdrop, trimEnd_append (by simp [hw, hv]), hw]
        obtain ⟨a, ha⟩ : ∃ a, (u.dropWhile isBlank).getLast? = some a :=
          ⟨_, List.getLast?_eq_some_getLast hu⟩
        obtain ⟨b, hb⟩ : ∃ b, (trimEnd v).head? = some b := ⟨_, List.head?_eq_some_head hv⟩
        have hau : u.getLast? = some a := by
          rw [← List.takeWhile_append_dropWhile (p := isBlank) (l := u), List.getLast?_append, ha]
          rfl
        have hbv : v.head? = some b := by
          obtain ⟨gap', -, hsplit⟩ := trimEnd_split v
          rw [hsplit, List.head?_append, hb]
          rfl
        have hmem : ∃ c ∈ u.dropWhile isBlank ++ (w ++ trimEnd v), isLoose c = true := by
          rcases hseam a hau b hbv with hloose | hloose
          · exact ⟨a, List.mem_append_left _ (List.mem_of_getLast? ha), hloose⟩
          · exact ⟨b, List.mem_append_right _ (List.mem_append_right _ (List.mem_of_mem_head? hb)),
              hloose⟩
        obtain ⟨c, hc, hloose⟩ := hmem
        obtain ⟨hdigit, hplus⟩ := not_isDigit_of_isLoose hloose
        rw [readDim, htrim]
        exact natural?_eq_none hc hdigit hplus
      rw [hnone gap (trimEnd_append hv)]
      exact (hnone [] rfl).symm

/-- **White space at a seam changes nothing.** -/
theorem readEnding_gap {u gap v : List Char} (hgap : ∀ c ∈ gap, isBlank c = true) (hseam : Seam u v)
    (dims : List (Option Nat)) :
    readEnding dims (trimEnd (u ++ gap ++ v)) = readEnding dims (trimEnd (u ++ v)) := by
  have hsame := readEnding_fronts (Q := Seam u) (x := u ++ gap) (y := u) id (fun a b h => h.front)
    (fun dims => ?_) (fun rest c dims hseam _ => ?_) (fun rest dims hseam hrest => ?_) v hseam dims
  · simpa using hsame
  all_goals rw [Option.map_id, id]
  · rw [trimEnd_append_blanks hgap]
  · rw [List.append_assoc]
    exact assemble_gap hgap hseam dims
  · have hgapNone : '[' ∉ gap := fun h => absurd (hgap '[' h) (by decide)
    rcases last_bracket u with hu | ⟨before, inside, rfl, hinside⟩
    · rw [← List.append_assoc, ← List.append_assoc, readEnding_unopened (by simp [hu, hgapNone, hrest]),
        readEnding_unopened (by simp [hu, hrest])]
    · have hgroup (w : List Char) : before ++ '[' :: inside ++ w ++ (rest ++ [']']) =
          before ++ '[' :: ((inside ++ (w ++ rest)) ++ [']']) := by simp
      have hinner : Seam inside rest := by
        intro a ha b hb
        refine hseam a ?_ b ?_
        · rw [List.getLast?_append, List.getLast?_cons, Option.mem_def.mp ha]
          rfl
        · rw [List.head?_append, Option.mem_def.mp hb]
          rfl
      have hplain := hgroup []
      rw [List.append_nil, List.nil_append] at hplain
      rw [hgroup gap, hplain, readEnding_group (by simp [hinside, hgapNone, hrest]),
        readEnding_group (by simp [hinside, hrest]), readDim_gap hgap hinner]

/-! ## `const` -/

/-- What the words of a base are made of, and white space between them. -/
def Unmarked (cs : List Char) : Prop := ∀ c ∈ cs, c ≠ '*' ∧ c ≠ '&' ∧ isBracket c = false

instance Unmarked.decidable (cs : List Char) : Decidable (Unmarked cs) :=
  decidable_of_iff (cs.all fun c => c != '*' && c != '&' && !isBracket c) (by
    simp [Unmarked, and_assoc])

theorem NamedType.ReadSoFar.congr {tokens tokens' : List Lexeme} {words : List (List Char)}
    {stars : Nat} {t : NamedType}
    (horder : tokens.filter (fun l => !l.isQualifier) = tokens'.filter fun l => !l.isQualifier)
    (hconst : Lexeme.const ∈ tokens.takeWhile Lexeme.isWord ↔
      Lexeme.const ∈ tokens'.takeWhile Lexeme.isWord)
    (h : t.ReadSoFar tokens words stars) : t.ReadSoFar tokens' words stars :=
  ⟨⟨horder ▸ h.order, h.base, h.constBase.trans hconst, h.pointers⟩, h.begun, h.nonempty⟩

/-- `const` may stand at any place among the words in front of the first mark. -/
theorem foldlM_const {front back rest : List Lexeme} (hfront : ∀ l ∈ front, l.isWord = true)
    (hback : ∀ l ∈ back, l.isWord = true)
    (hne : ∀ w, .word w ∈ front ++ (back ++ rest) → w ≠ []) (dims : List (Option Nat)) :
    (front ++ .const :: (back ++ rest)).foldlM NamedType.add { base := "", dims := dims } =
      (front ++ (back ++ .const :: rest)).foldlM NamedType.add { base := "", dims := dims } := by
  have horder : (front ++ .const :: (back ++ rest)).filter (fun l => !l.isQualifier) =
      (front ++ (back ++ .const :: rest)).filter fun l => !l.isQualifier := by
    have hskipped : (!Lexeme.const.isQualifier) = false := by decide
    simp [List.filter_append, hskipped]
  have hword : Lexeme.const.isWord = true := rfl
  have hearly : Lexeme.const ∈ (front ++ .const :: (back ++ rest)).takeWhile Lexeme.isWord := by
    rw [List.takeWhile_append_of_pos hfront, List.takeWhile_cons_of_pos hword]
    exact List.mem_append_right _ List.mem_cons_self
  have hlate : Lexeme.const ∈ (front ++ (back ++ .const :: rest)).takeWhile Lexeme.isWord := by
    rw [List.takeWhile_append_of_pos hfront, List.takeWhile_append_of_pos hback,
      List.takeWhile_cons_of_pos hword]
    exact List.mem_append_right _ (List.mem_append_right _ List.mem_cons_self)
  have hnonempty {tokens : List Lexeme}
      (h : ∀ l ∈ tokens, l = .const ∨ l ∈ front ++ (back ++ rest)) :
      ∀ w, .word w ∈ tokens → w ≠ [] := by
    intro w hw
    rcases h _ hw with hconst | hmem
    · rw [Lexeme.const, Lexeme.word.injEq] at hconst
      rw [hconst]
      decide
    · exact hne w hmem
  apply Option.ext
  intro t
  rw [NamedType.foldlM_add_iff (hnonempty fun l hl => ?_),
    NamedType.foldlM_add_iff (hnonempty fun l hl => ?_)]
  · refine and_congr_right fun _ => exists_congr fun words => exists_congr fun stars => ?_
    have hiff := iff_of_true hearly hlate
    exact ⟨.congr horder hiff, .congr horder.symm hiff.symm⟩
  all_goals
    simp only [List.mem_append, List.mem_cons] at hl ⊢
    tauto

theorem assemble_const {front back : List Char} (hfront : Unmarked front) (hback : Unmarked back)
    (rest : List Char) (dims : List (Option Nat)) :
    assemble (front ++ " const ".toList ++ back ++ [' '] ++ rest) dims =
      assemble (front ++ [' '] ++ back ++ " const ".toList ++ rest) dims := by
  have hplain {cs : List Char} (h : Unmarked cs) : cs.any isBracket = false := by
    rw [List.any_eq_false]
    exact fun c hc => by simp [(h c hc).2.2]
  have hwords {cs : List Char} (h : Unmarked cs) : ∀ l ∈ lexemes cs, l.isWord = true :=
    isWord_of_mem_lexemes fun c hc => ⟨(h c hc).1, (h c hc).2.1⟩
  have hany : (front ++ " const ".toList ++ back ++ [' '] ++ rest).any isBracket =
      (front ++ [' '] ++ back ++ " const ".toList ++ rest).any isBracket := by
    simp only [List.any_append, hplain hfront, hplain hback]
    rfl
  have hliteral : " const ".toList = ' ' :: ("const".toList ++ [' ']) := rfl
  have hcut (cs more : List Char) : lexemes (cs ++ ' ' :: more) = lexemes cs ++ lexemes more := by
    have hstop : ∀ c ∈ (' ' :: more).head?, endsWord c = true := by
      intro c hc
      cases hc
      decide
    exact lexemesFrom_append hstop []
  have hconst (more : List Char) :
      lexemes ("const".toList ++ ' ' :: more) = .const :: lexemes more :=
    hcut "const".toList more
  have hearly : lexemes (front ++ " const ".toList ++ back ++ [' '] ++ rest) =
      lexemes front ++ .const :: (lexemes back ++ lexemes rest) := by
    rw [← hcut back, ← hconst, ← hcut front, hliteral]
    simp
  have hlate : lexemes (front ++ [' '] ++ back ++ " const ".toList ++ rest) =
      lexemes front ++ (lexemes back ++ .const :: lexemes rest) := by
    rw [← hconst, ← hcut back, ← hcut front, hliteral]
    simp
  have hne : ∀ w, .word w ∈ lexemes front ++ (lexemes back ++ lexemes rest) → w ≠ [] := by
    intro w hw
    simp only [List.mem_append] at hw
    rcases hw with hw | hw | hw
    · exact (Tokens.of_lexemes front).word_ne_nil w hw
    · exact (Tokens.of_lexemes back).word_ne_nil w hw
    · exact (Tokens.of_lexemes rest).word_ne_nil w hw
  simp only [assemble, hany, hearly, hlate, foldlM_const (hwords hfront) (hwords hback) hne]

theorem assemble_trimEnd (cs : List Char) (dims : List (Option Nat)) :
    assemble (trimEnd cs) dims = assemble cs dims := by
  obtain ⟨gap, hgap, heq⟩ := trimEnd_split cs
  have h := assemble_gap (u := trimEnd cs) (v := []) hgap (by simp [Seam]) dims
  rw [List.append_nil, List.append_nil, ← heq] at h
  exact h.symm

/-- **The place of `const` among the words of the base changes nothing.** -/
theorem readEnding_const {front back : List Char} (hfront : Unmarked front) (hback : Unmarked back)
    (rest : List Char) (dims : List (Option Nat)) :
    readEnding dims (trimEnd (front ++ " const ".toList ++ back ++ [' '] ++ rest)) =
      readEnding dims (trimEnd (front ++ [' '] ++ back ++ " const ".toList ++ rest)) := by
  have hunmarked {cs : List Char} (h : cs ∈ [front, back, [' '], " const ".toList]) : Unmarked cs := by
    have hliteral : Unmarked [' '] ∧ Unmarked " const ".toList := by decide
    simp only [List.mem_cons, List.not_mem_nil, or_false] at h
    rcases h with rfl | rfl | rfl | rfl
    · exact hfront
    · exact hback
    · exact hliteral.1
    · exact hliteral.2
  have happend {a b : List Char} (ha : Unmarked a) (hb : Unmarked b) : Unmarked (a ++ b) :=
    List.forall_mem_append.mpr ⟨ha, hb⟩
  have hearly : Unmarked (front ++ " const ".toList ++ back ++ [' ']) :=
    happend (happend (happend hfront (hunmarked (by simp))) hback) (hunmarked (by simp))
  have hlate : Unmarked (front ++ [' '] ++ back ++ " const ".toList) :=
    happend (happend (happend hfront (hunmarked (by simp))) hback) (hunmarked (by simp))
  have hopen {cs : List Char} (h : Unmarked cs) : '[' ∉ cs := fun hmem =>
    absurd (h '[' hmem).2.2 (by decide)
  have hends {cs : List Char} (h : Unmarked cs) : ∀ c ∈ (trimEnd cs).getLast?, c ≠ ']' := by
    rintro c hc rfl
    have hmem := (prefix_dropEndWhile isBlank cs).subset (List.mem_of_getLast? hc)
    exact absurd (h ']' hmem).2.2 (by decide)
  have hsame := readEnding_fronts (x := front ++ " const ".toList ++ back ++ [' '])
    (y := front ++ [' '] ++ back ++ " const ".toList) (Q := fun _ => True) id (fun _ _ _ => trivial)
    (fun dims => ?_) (fun rest c dims _ _ => ?_) (fun rest dims _ hrest => ?_) rest trivial dims
  · simpa using hsame
  all_goals rw [Option.map_id, id]
  · rw [readEnding_plain (hends hearly), readEnding_plain (hends hlate), assemble_trimEnd,
      assemble_trimEnd]
    simpa using assemble_const hfront hback [] dims
  · exact assemble_const hfront hback _ dims
  · rw [← List.append_assoc, ← List.append_assoc,
      readEnding_unopened (by rw [List.mem_append]; exact not_or.mpr ⟨hopen hearly, hrest⟩),
      readEnding_unopened (by rw [List.mem_append]; exact not_or.mpr ⟨hopen hlate, hrest⟩)]

/-! ## The whole spelling -/

theorem CType.parse_eq {s : String} (h : '(' ∉ trim s.toList) :
    CType.parse s = (parseNamed (trim s.toList)).elim .malformed .named := by
  have hparen : (trim s.toList).contains '(' = false := by simpa using h
  unfold CType.parse
  dsimp only
  rw [hparen, if_neg Bool.false_ne_true]
  split
  · rename_i hempty
    rw [List.isEmpty_iff.mp hempty, parseNamed_eq, readEnding_plain (by simp)]
    rfl
  · cases parseNamed (trim s.toList) with
    | some t => rfl
    | none => rfl

/-- White space in front is never looked at. -/
theorem parseNamed_trim (cs : List Char) : parseNamed (trim cs) = readEnding [] (trimEnd cs) := by
  have hblank : ∀ c ∈ cs.takeWhile isBlank, isBlank c = true := fun c hc => List.mem_takeWhile_imp hc
  have hseam : Seam [] (cs.dropWhile isBlank) := by simp [Seam]
  have hgap := readEnding_gap hblank hseam []
  rw [List.nil_append, List.takeWhile_append_dropWhile, List.nil_append] at hgap
  rw [hgap, parseNamed_eq, trim]

/-- **A spelling without parentheses is read as a named type exactly when it is one by the grammar**, and is
malformed otherwise. White space may be put wherever the text is loose, and `const` anywhere among the
words in front of the first mark. -/
theorem named_grammar (s : String) (hparen : '(' ∉ trim s.toList) :
    (∀ t, CType.parse s = .named t ↔ t.SpelledBy (trim s.toList)) ∧
      (CType.parse s = .malformed ↔ ∀ t : NamedType, ¬ t.SpelledBy (trim s.toList)) ∧
      (∀ u gap v, s.toList = u ++ v → (∀ c ∈ gap, isBlank c = true) → Seam u v →
        CType.parse (String.ofList (u ++ gap ++ v)) = CType.parse s) ∧
      ∀ front back rest, Unmarked front → Unmarked back →
        s.toList = front ++ " const ".toList ++ back ++ [' '] ++ rest →
          CType.parse (String.ofList (front ++ [' '] ++ back ++ " const ".toList ++ rest)) =
            CType.parse s := by
  have hdark : isBlank '(' = false := by decide
  have hnone : '(' ∉ s.toList := fun h => hparen ((mem_trim_iff hdark).mpr h)
  have hsame {cs : List Char} (hcs : '(' ∉ cs)
      (h : readEnding [] (trimEnd cs) = readEnding [] (trimEnd s.toList)) :
      CType.parse (String.ofList cs) = CType.parse s := by
    have htrim : '(' ∉ trim (String.ofList cs).toList := by
      rw [String.toList_ofList, mem_trim_iff hdark]
      exact hcs
    rw [CType.parse_eq htrim, CType.parse_eq hparen, parseNamed_trim, parseNamed_trim,
      String.toList_ofList, h]
  refine ⟨fun t => ?_, ?_, ?_, ?_⟩
  · rw [CType.parse_eq hparen, ← readEnding_spelled, ← parseNamed_eq]
    cases parseNamed (trim s.toList) with
    | some u => simp
    | none => simp
  · simp only [CType.parse_eq hparen, ← readEnding_spelled, ← parseNamed_eq]
    cases parseNamed (trim s.toList) with
    | some u => simp
    | none => simp
  · intro u gap v hs hgap hseam
    have hblank : '(' ∉ gap := fun h => absurd (hgap '(' h) (by decide)
    rw [hs, List.mem_append, not_or] at hnone
    refine hsame (by simp [hnone, hblank]) ?_
    rw [hs]
    exact readEnding_gap hgap hseam []
  · intro front back rest hfront hback hs
    rw [hs] at hnone
    simp only [List.mem_append, not_or] at hnone
    refine hsame (by simp only [List.mem_append]; tauto) ?_
    rw [hs]
    exact (readEnding_const hfront hback rest []).symm

/-- The grammar at an array of pointers, with `const` inside the base and white space in a group. -/
theorem named_grammar_pointers :
    '(' ∉ trim "unsigned const int* [ 3]".toList ∧
      CType.parse "unsigned const int* [ 3]" =
        .named { base := "unsigned int", constBase := true, pointers := 1, dims := [some 3] } ∧
      CType.parse "unsigned const int * [ 3]" = CType.parse "unsigned const int* [ 3]" ∧
      CType.parse "unsigned int const * [ 3]" = CType.parse "unsigned const int * [ 3]" := by
  have hread := named_grammar "unsigned const int* [ 3]" (by decide)
  have hconst := named_grammar "unsigned const int * [ 3]" (by decide)
  have hlast : ∀ c ∈ (trimEnd "unsigned const int* ".toList).getLast?, c ≠ ']' := by
    rw [show (trimEnd "unsigned const int* ".toList).getLast? = some '*' by decide]
    simp
  have hgroups : BracketGroups ("unsigned const int* ".toList ++ '[' :: (" 3".toList ++ [']']))
      "unsigned const int*".toList ([] ++ [" 3".toList]) :=
    .group (by decide) (.done hlast)
  have hplain : ("unsigned const int*".toList.all fun c => !isBracket c) = true := by decide
  have horder : NamedType.ReadFrom (lexemes "unsigned const int*".toList)
      ["unsigned".toList, "int".toList] 1
      { base := "unsigned int", constBase := true, pointers := 1, dims := [some 3] } :=
    ⟨by decide, by decide, by decide, by decide⟩
  have hroom : Seam "unsigned const int".toList "* [ 3]".toList := by decide
  have hwords : Unmarked "unsigned".toList ∧ Unmarked "int".toList := by decide
  refine ⟨by decide, (hread.1 _).mpr ?_, ?_, ?_⟩
  · exact ⟨_, _, _, _, 1, hgroups, by simpa using hplain, tokens_iff.mpr rfl, by decide, horder,
      by decide⟩
  · exact hread.2.2.1 "unsigned const int".toList [' '] "* [ 3]".toList rfl
      (List.forall_mem_singleton.mpr (by decide)) hroom
  · exact hconst.2.2.2 "unsigned".toList "int".toList "* [ 3]".toList hwords.1 hwords.2 rfl

end LuaGlue
