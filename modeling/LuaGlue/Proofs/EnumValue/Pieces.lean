import LuaGlue.Proofs.EnumValue.Grammar

/-!
# What the pieces of an expression look like

The evaluator cuts an expression at every `|`, a piece at its first `<<`, and takes parentheses off the
outside of what it gets, whether or not they belong together. Stripping takes as many parentheses from the
front as from the end (`stripParens_split`), an operand that is read has no mark in it, and so a piece that
is read closes what it opens and has at most one `<<` (`term?_some`). From this a piece that was cut out of a
pair of parentheses is seen to be refused.
-/

set_option autoImplicit false

namespace LuaGlue

open Text

/-! ## Cuts -/

namespace Text

theorem splitAtChar_ne_nil (mark : Char) (cs : List Char) : splitAtChar mark cs ≠ [] := by
  cases cs with
  | nil => exact List.cons_ne_nil _ _
  | cons c rest =>
    unfold splitAtChar
    split
    · exact List.cons_ne_nil _ _
    · split <;> exact List.cons_ne_nil _ _

theorem splitAtChar_of_notMem {mark : Char} {cs : List Char} (h : mark ∉ cs) :
    splitAtChar mark cs = [cs] := by
  induction cs with
  | nil => rfl
  | cons c rest ih =>
    rw [List.mem_cons, not_or] at h
    rw [splitAtChar, if_neg (Ne.symm h.1), ih h.2]

theorem splitAtChar_append (mark : Char) (left right : List Char) :
    splitAtChar mark (left ++ mark :: right) = splitAtChar mark left ++ splitAtChar mark right := by
  induction left with
  | nil => simp [splitAtChar]
  | cons c left ih =>
    rw [List.cons_append, splitAtChar, splitAtChar, ih]
    by_cases hc : c = mark
    · rw [if_pos hc, if_pos hc, List.cons_append]
    · rw [if_neg hc, if_neg hc]
      cases hsplit : splitAtChar mark left with
      | nil => exact absurd hsplit (splitAtChar_ne_nil mark left)
      | cons part parts => rfl

theorem takeWhile_of_mem {mark : Char} {x : List Char} (h : mark ∈ x) (y : List Char) :
    (x ++ y).takeWhile (· != mark) = x.takeWhile (· != mark) := by
  obtain ⟨before, after, rfl, hbefore⟩ := List.eq_append_cons_of_mem h
  have hpos : ∀ c ∈ before, (c != mark) = true := by
    intro c hc
    simpa using fun heq : c = mark => hbefore (heq ▸ hc)
  rw [List.append_assoc, List.takeWhile_append_of_pos hpos, List.takeWhile_append_of_pos hpos]
  simp

theorem takeWhile_of_notMem {mark : Char} {x : List Char} (h : mark ∉ x) (y : List Char) :
    (x ++ y).takeWhile (· != mark) = x ++ y.takeWhile (· != mark) := by
  refine List.takeWhile_append_of_pos fun c hc => ?_
  simpa using fun heq : c = mark => h (heq ▸ hc)

/-- What stands in front of the first mark is a part. -/
theorem takeWhile_mem_splitAtChar (mark : Char) (cs : List Char) :
    cs.takeWhile (· != mark) ∈ splitAtChar mark cs := by
  by_cases h : mark ∈ cs
  · obtain ⟨before, after, rfl, hbefore⟩ := List.eq_append_cons_of_mem h
    rw [takeWhile_of_notMem hbefore, splitAtChar_append, splitAtChar_of_notMem hbefore]
    simp
  · have hwhole := takeWhile_of_notMem h []
    rw [List.append_nil, List.takeWhile_nil, List.append_nil] at hwhole
    rw [hwhole, splitAtChar_of_notMem h]
    exact List.mem_cons_self

theorem cutAt?_first {before : List Char} (h : '<' ∉ before) (after : List Char) :
    cutAt? ['<', '<'] (before ++ '<' :: '<' :: after) = some (before, after) := by
  induction before with
  | nil => rfl
  | cons c before ih =>
    rw [List.mem_cons, not_or] at h
    have hmark : ['<', '<'].isPrefixOf? (c :: (before ++ '<' :: '<' :: after)) = none := by
      simp [List.isPrefixOf?, h.1]
    rw [List.cons_append, cutAt?, hmark]
    dsimp only
    rw [ih h.2]
    rfl

theorem cutAt?_some {cs before after : List Char} (h : cutAt? ['<', '<'] cs = some (before, after)) :
    cs = before ++ '<' :: '<' :: after := by
  induction cs generalizing before after with
  | nil => cases h
  | cons c rest ih =>
    rw [cutAt?] at h
    split at h
    · rename_i heq
      obtain ⟨rfl, rfl⟩ := Prod.mk.inj (Option.some.inj h)
      rw [List.isPrefixOf?_eq_some_iff_append_eq] at heq
      exact heq.symm
    · obtain ⟨⟨before', after'⟩, hcut, heq⟩ := Option.map_eq_some_iff.mp h
      obtain ⟨rfl, rfl⟩ := Prod.mk.inj heq
      rw [List.cons_append, ← ih hcut]

theorem cutAt?_none {cs : List Char} (h : '<' ∉ cs) : cutAt? ['<', '<'] cs = none := by
  cases hcut : cutAt? ['<', '<'] cs with
  | none => rfl
  | some p =>
    rw [cutAt?_some hcut] at h
    simp at h

end Text

/-! ## Stripped parentheses -/

theorem stripParensAtMost_paren (count : Nat) (inner : List Char) :
    stripParensAtMost (count + 1) ('(' :: (inner ++ [')'])) = stripParensAtMost count (trim inner) := by
  simp only [stripParensAtMost, List.getLast?_concat, List.dropLast_concat]

theorem stripParensAtMost_bare (count : Nat) {cs : List Char} (h : ∀ inner, cs ≠ '(' :: (inner ++ [')'])) :
    stripParensAtMost count cs = cs := by
  cases count with
  | zero => rfl
  | succ count =>
    unfold stripParensAtMost
    split
    · rename_i rest
      split
      · rename_i hlast
        obtain ⟨inner, rfl⟩ := List.getLast?_eq_some_iff.mp hlast
        exact absurd rfl (h inner)
      · rfl
    · rfl

theorem trim_length (cs : List Char) : (trim cs).length ≤ cs.length := by
  obtain ⟨front, back, -, -, heq⟩ := trim_split cs
  conv => rhs; rw [heq]
  simp only [List.length_append]
  omega

/-- More steps than there are characters change nothing. -/
theorem stripParensAtMost_enough {count : Nat} : ∀ {cs : List Char} {count' : Nat},
    cs.length ≤ count → cs.length ≤ count' → stripParensAtMost count cs = stripParensAtMost count' cs := by
  induction count with
  | zero =>
    intro cs count' hcount _
    obtain rfl := List.length_eq_zero_iff.mp (Nat.le_zero.mp hcount)
    rw [stripParensAtMost_bare 0 (by simp), stripParensAtMost_bare count' (by simp)]
  | succ count ih =>
    intro cs count' hcount hcount'
    by_cases hparen : ∃ inner, cs = '(' :: (inner ++ [')'])
    · obtain ⟨inner, rfl⟩ := hparen
      simp only [List.length_cons, List.length_append, List.length_nil] at hcount hcount'
      obtain ⟨count', rfl⟩ : ∃ n, count' = n + 1 := ⟨count' - 1, by omega⟩
      have hinner := trim_length inner
      rw [stripParensAtMost_paren, stripParensAtMost_paren]
      exact ih (by omega) (by omega)
    · have hbare : ∀ inner, cs ≠ '(' :: (inner ++ [')']) := fun inner h => hparen ⟨inner, h⟩
      rw [stripParensAtMost_bare _ hbare, stripParensAtMost_bare _ hbare]

theorem stripParens_paren (inner : List Char) :
    stripParens ('(' :: (inner ++ [')'])) = stripParens (trim inner) := by
  have hinner := trim_length inner
  rw [stripParens, List.length_cons, stripParensAtMost_paren, stripParens]
  exact stripParensAtMost_enough (by simp; omega) (Nat.le_refl _)

theorem stripParens_bare {cs : List Char} (h : ∀ inner, cs ≠ '(' :: (inner ++ [')'])) :
    stripParens cs = cs :=
  stripParensAtMost_bare _ h

/-- What holds of texts that are not enclosed, and passes from the inside of parentheses to the whole, holds
of every text. -/
theorem stripParens_induction {P : List Char → Prop}
    (hbare : ∀ cs, (∀ inner, cs ≠ '(' :: (inner ++ [')'])) → P cs)
    (hparen : ∀ inner, P (trim inner) → P ('(' :: (inner ++ [')']))) (cs : List Char) : P cs := by
  induction hlength : cs.length using Nat.strongRecOn generalizing cs with
  | ind length ih =>
    by_cases hshape : ∃ inner, cs = '(' :: (inner ++ [')'])
    · obtain ⟨inner, rfl⟩ := hshape
      have hinner := trim_length inner
      refine hparen inner (ih _ ?_ _ rfl)
      rw [← hlength, List.length_cons, List.length_append]
      omega
    · exact hbare cs fun inner h => hshape ⟨inner, h⟩

theorem count_trim {m : Char} (hm : isMark m = true) (cs : List Char) : (trim cs).count m = cs.count m := by
  obtain ⟨front, back, hfront, hback, heq⟩ := trim_split cs
  have hblank {gap : List Char} (h : ∀ c ∈ gap, isBlank c = true) : gap.count m = 0 :=
    count_of_noMark hm fun c hc => isMark_of_isBlank (h c hc)
  conv => rhs; rw [heq]
  simp [List.count_append, hblank hfront, hblank hback]

theorem parenDepth_trim (cs : List Char) : parenDepth (trim cs) = parenDepth cs := by
  rw [parenDepth, parenDepth, count_trim (by decide), count_trim (by decide)]

theorem parenDepth_paren (inner : List Char) : parenDepth ('(' :: (inner ++ [')'])) = parenDepth inner := by
  simp [parenDepth]

theorem parenDepth_stripParens (cs : List Char) : parenDepth (stripParens cs) = parenDepth cs := by
  induction cs using stripParens_induction with
  | hbare cs h => rw [stripParens_bare h]
  | hparen inner ih => rw [stripParens_paren, ih, parenDepth_trim, parenDepth_paren]

theorem count_shift_stripParens (cs : List Char) : (stripParens cs).count '<' = cs.count '<' := by
  induction cs using stripParens_induction with
  | hbare cs h => rw [stripParens_bare h]
  | hparen inner ih => rw [stripParens_paren, ih, count_trim (by decide)]; simp

/-- What is stripped off the front: opening parentheses and white space. -/
def IsOpening (cs : List Char) : Prop := ∀ c ∈ cs, c = '(' ∨ isBlank c = true

/-- What is stripped off the end: closing parentheses and white space. -/
def IsClosing (cs : List Char) : Prop := ∀ c ∈ cs, c = ')' ∨ isBlank c = true

/-- White space goes with the parentheses inside it. -/
theorem stripped_trim {inner kept front back : List Char} (h : trim inner = front ++ (kept ++ back))
    (hfront : IsOpening front) (hback : IsClosing back) :
    ∃ front' back', inner = front' ++ (kept ++ back') ∧ IsOpening front' ∧ IsClosing back' := by
  obtain ⟨blanks, blanks', hblanks, hblanks', hinner⟩ := trim_split inner
  refine ⟨blanks ++ front, back ++ blanks', ?_, ?_, ?_⟩
  · conv => lhs; rw [hinner, h]
    simp
  · exact List.forall_mem_append.mpr ⟨fun c hc => .inr (hblanks c hc), hfront⟩
  · exact List.forall_mem_append.mpr ⟨hback, fun c hc => .inr (hblanks' c hc)⟩

theorem stripParens_split (cs : List Char) :
    ∃ front back, cs = front ++ (stripParens cs ++ back) ∧ IsOpening front ∧ IsClosing back := by
  induction cs using stripParens_induction with
  | hbare cs h => exact ⟨[], [], by simp [stripParens_bare h], List.forall_mem_nil _, List.forall_mem_nil _⟩
  | hparen inner ih =>
    obtain ⟨front, back, heq, hfront, hback⟩ := ih
    obtain ⟨front, back, heq, hfront, hback⟩ := stripped_trim heq hfront hback
    refine ⟨'(' :: front, back ++ [')'], ?_, ?_, ?_⟩
    · rw [stripParens_paren]
      conv => lhs; rw [heq]
      simp
    · exact List.forall_mem_cons.mpr ⟨.inl rfl, hfront⟩
    · exact List.forall_mem_append.mpr ⟨hback, List.forall_mem_singleton.mpr (.inl rfl)⟩

theorem IsOpening.parenDepth_nonneg {cs : List Char} (h : IsOpening cs) : 0 ≤ parenDepth cs := by
  have hclose : cs.count ')' = 0 := by
    rw [List.count_eq_zero]
    intro hmem
    exact absurd (h ')' hmem) (by decide)
  rw [parenDepth, hclose]
  omega

/-- A mark that is not in the front of a text is in what comes behind. -/
theorem append_front {mark : Char} {front rest left right : List Char} (hfront : mark ∉ front)
    (h : left ++ mark :: right = front ++ rest) :
    ∃ left', left = front ++ left' ∧ rest = left' ++ mark :: right := by
  rcases List.append_eq_append_iff.mp h with ⟨more, hmore, hrest⟩ | ⟨left', hleft, hrest⟩
  · cases more with
    | nil => exact ⟨[], by simpa using hmore.symm, hrest.symm⟩
    | cons c more =>
      obtain rfl := (List.cons.inj hrest).1
      simp [hmore] at hfront
  · exact ⟨left', hleft, hrest⟩

theorem append_back {mark : Char} {rest back left right : List Char} (hback : mark ∉ back)
    (h : rest ++ back = left ++ mark :: right) :
    ∃ right', right = right' ++ back ∧ rest = left ++ mark :: right' := by
  rcases List.append_eq_append_iff.mp h with ⟨more, -, hmore⟩ | ⟨more, hrest, hmore⟩
  · simp [hmore] at hback
  · cases more with
    | nil =>
      rw [List.nil_append] at hmore
      simp [← hmore] at hback
    | cons c more =>
      obtain ⟨rfl, hright⟩ := List.cons.inj hmore
      exact ⟨more, hright, hrest⟩

/-- Of a shift its two sides are stripped, one at its front and one at its end. -/
theorem stripParens_shift (left right : List Char) : ∃ front left' right' back,
    IsOpening front ∧ left = front ++ left' ∧ right = right' ++ back ∧
      stripParens (trim (left ++ '<' :: '<' :: right)) = left' ++ '<' :: '<' :: right' := by
  obtain ⟨_, _, hsplit, hfront, hback⟩ := stripParens_split (trim (left ++ '<' :: '<' :: right))
  obtain ⟨front, back, hsplit, hfront, hback⟩ := stripped_trim hsplit hfront hback
  have hfrontMark : '<' ∉ front := fun h => absurd (hfront '<' h) (by decide)
  have hbackMark : '<' ∉ back := fun h => absurd (hback '<' h) (by decide)
  obtain ⟨left', hleft, hkept⟩ := append_front hfrontMark hsplit
  rw [List.append_cons left'] at hkept
  obtain ⟨right', hright, hkept⟩ := append_back hbackMark hkept
  rw [← List.append_cons] at hkept
  exact ⟨front, left', right', back, hfront, hleft, hright, hkept⟩

/-! ## Pieces that are read -/

/-- Members known by names. -/
def KnownItems.Named (known : KnownItems) : Prop := ∀ entry ∈ known, IsName entry.1.toList

variable {known : KnownItems} {cs : List Char} {v : Int}

theorem KnownItems.Named.isName (hnamed : known.Named) {name : String} (h : known.lookup name = some v) :
    IsName name.toList := by
  obtain ⟨before, after, rfl, -⟩ := List.lookup_eq_some_iff.mp h
  exact hnamed (name, v) (by simp)

theorem KnownItems.Named.lookup_eq_none (hnamed : known.Named) (h : ¬IsName cs) :
    known.lookup (String.ofList cs) = none := by
  rw [Option.eq_none_iff_forall_not_mem]
  intro w hw
  have hname := hnamed.isName hw
  rw [String.toList_ofList] at hname
  exact h hname

theorem OperandValue.noMark (hnamed : known.Named) (h : OperandValue known cs v) :
    ∀ c ∈ cs, isMark c = false := by
  cases h with
  | name h =>
    have hname := hnamed.isName h
    rw [String.toList_ofList] at hname
    exact fun c hc => (hname.1.2 c hc).2
  | literal _ _ h => exact h.noMark
  | negative _ h =>
    refine List.forall_mem_cons.mpr ⟨rfl, fun c hc => ?_⟩
    cases hblank : isBlank c with
    | true => exact isMark_of_isBlank hblank
    | false => exact h.noMark c ((mem_trim_iff hblank).mpr hc)

/-- An operand that is read closes the parentheses it opens, and shifts nothing. -/
theorem operand?_some (hnamed : known.Named) (hfit : known.Fit)
    (h : operand? known (stripParens (trim cs)) = some v) : parenDepth cs = 0 ∧ cs.count '<' = 0 := by
  have hplain := (operand?_exact hfit h).1.noMark hnamed
  rw [← parenDepth_trim, ← parenDepth_stripParens, ← count_trim (m := '<') (by decide),
    ← count_shift_stripParens]
  exact ⟨parenDepth_of_noMark hplain, count_of_noMark (by decide) hplain⟩

/-- A piece that is read closes the parentheses it opens, and has one shift at most. -/
theorem term?_some (hnamed : known.Named) (hfit : known.Fit) (h : term? known cs = some v) :
    parenDepth cs = 0 ∧ cs.count '<' ≤ 2 := by
  rw [← parenDepth_trim, ← parenDepth_stripParens, ← count_trim (m := '<') (by decide),
    ← count_shift_stripParens]
  unfold term? at h
  dsimp only at h
  split at h
  · rename_i left right hcut
    obtain ⟨a, hleft, h⟩ := Option.bind_eq_some_iff.mp h
    obtain ⟨count, hright, -⟩ := Option.bind_eq_some_iff.mp h
    have hleft := operand?_some hnamed hfit hleft
    have hright := operand?_some hnamed hfit hright
    have hsplit : left ++ '<' :: '<' :: right = left ++ (['<', '<'] ++ right) := rfl
    have hshift : parenDepth ['<', '<'] = 0 := by decide
    rw [cutAt?_some hcut, hsplit, parenDepth_append, parenDepth_append, List.count_append,
      List.count_append, hleft.1, hleft.2, hright.1, hright.2, hshift]
    decide
  · have hplain := (operand?_exact hfit h).1.noMark hnamed
    rw [parenDepth_of_noMark hplain, count_of_noMark (by decide) hplain]
    decide

end LuaGlue
