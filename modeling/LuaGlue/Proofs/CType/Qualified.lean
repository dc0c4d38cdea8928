import LuaGlue.Proofs.CType.Spacing

/-!
# Spellings around an alias

What an alias stands for is written down with the `const` in front of it and the stars behind it that were
around the alias (`NamedType.spellAlias`). A `const` in front is a qualifier of a named type, and a part of
the result of a function pointer. Stars behind are pointers of a named type, and nothing that a function
pointer could end with.
-/

set_option autoImplicit false

namespace LuaGlue

open Text

/-! ## `const` in front of a named type -/

/-- The type with `const` on its base. -/
def NamedType.marked (t : NamedType) : NamedType := { t with constBase := true }

theorem NamedType.add_marked (t : NamedType) (l : Lexeme) :
    t.marked.add l = (t.add l).map NamedType.marked := by
  cases hq : l.isQualifier with
  | true => simp [add_qualifier hq, marked]
  | false =>
    cases l with
    | star | ampersand =>
      cases hopen : t.base.isEmpty || t.reference with
      | true => simp [add, marked, hopen]
      | false => simp [add, marked, hopen]
    | word letters =>
      rw [add_plain hq, add_plain hq]
      cases hopen : decide (t.pointers > 0) || t.reference with
      | true => simp [marked, hopen]
      | false => simp [marked, hopen]

theorem foldlM_marked (tokens : List Lexeme) : ∀ t : NamedType,
    tokens.foldlM NamedType.add t.marked = (tokens.foldlM NamedType.add t).map NamedType.marked := by
  induction tokens with
  | nil => exact fun t => rfl
  | cons l rest ih =>
    intro t
    rw [List.foldlM_cons, List.foldlM_cons, NamedType.add_marked]
    cases t.add l with
    | none => rfl
    | some u => exact ih u

theorem assemble_marked (cs : List Char) (dims : List (Option Nat)) :
    assemble ("const ".toList ++ cs) dims = (assemble cs dims).map NamedType.marked := by
  have hany : ("const ".toList ++ cs).any isBracket = cs.any isBracket := by
    rw [List.any_append]
    rfl
  have htokens : lexemes ("const ".toList ++ cs) = .const :: lexemes cs := by
    have hstop : ∀ c ∈ (' ' :: cs).head?, endsWord c = true := by
      intro c hc
      cases hc
      decide
    have hword := lexemes_word (by decide) const_letters hstop
    rw [lexemes_blank] at hword
    exact hword
  have hstart : NamedType.add { base := "", dims := dims } .const =
      some (NamedType.marked { base := "", dims := dims }) := by
    rw [NamedType.add_qualifier (by decide)]
    rfl
  simp only [assemble, hany, htokens, List.foldlM_cons, hstart, Option.bind_eq_bind,
    Option.bind_some, foldlM_marked]
  split
  · rfl
  · cases (lexemes cs).foldlM NamedType.add { base := "", dims := dims } with
    | none => rfl
    | some t =>
      simp only [Option.map_some, Option.bind_some, NamedType.marked]
      split <;> rfl

theorem readEnding_marked (cs : List Char) (dims : List (Option Nat)) :
    readEnding dims (trimEnd ("const ".toList ++ cs)) =
      (readEnding dims (trimEnd cs)).map NamedType.marked := by
  refine readEnding_fronts (x := "const ".toList) (y := []) (Q := fun _ => True) NamedType.marked
    (fun _ _ _ => trivial) (fun dims => ?_) (fun rest c dims _ _ => ?_) (fun rest dims _ hrest => ?_)
    cs trivial dims
  · have hplain : ∀ c ∈ (trimEnd "const ".toList).getLast?, c ≠ ']' := by
      rw [show (trimEnd "const ".toList).getLast? = some 't' by decide]
      simp
    rw [readEnding_plain hplain, readEnding_plain (by simp [trimEnd, dropEndWhile]),
      assemble_trimEnd, assemble_trimEnd]
    exact assemble_marked [] dims
  · exact assemble_marked _ dims
  · have hopen : '[' ∉ "const ".toList ++ rest := by
      rw [List.mem_append]
      exact not_or.mpr ⟨by decide, hrest⟩
    rw [← List.append_assoc, readEnding_unopened hopen, List.nil_append, readEnding_unopened hrest]
    rfl

theorem const_paren_iff (target : String) :
    '(' ∈ trim ("const " ++ target).toList ↔ '(' ∈ trim target.toList := by
  have hdark : isBlank '(' = false := by decide
  rw [mem_trim_iff hdark, mem_trim_iff hdark, String.toList_append, List.mem_append]
  exact or_iff_right (by decide)

theorem CType.noParen_of_named {s : String} {t : NamedType} (h : CType.parse s = .named t) :
    '(' ∉ trim s.toList := by
  intro hmem
  have hparen : (trim s.toList).contains '(' = true := by simpa using hmem
  unfold CType.parse at h
  dsimp only at h
  rw [hparen] at h
  split at h
  · cases h
  · rw [if_pos rfl] at h
    split at h <;> cases h

theorem CType.paren_of_function {s : String} {f : FunctionPointer}
    (h : CType.parse s = .function f) :
    '(' ∈ trim s.toList ∧ parseFunctionPointer (trim s.toList) = some f := by
  unfold CType.parse at h
  dsimp only at h
  split at h
  · cases h
  · split at h
    · rename_i hparen
      refine ⟨by simpa using hparen, ?_⟩
      split at h
      · cases h
        assumption
      · cases h
    · split at h <;> cases h

/-- **A named type behind `const` is a named type without it.** -/
theorem CType.parse_const_named {target : String} {t : NamedType}
    (h : CType.parse ("const " ++ target) = .named t) :
    ∃ u, CType.parse target = .named u ∧ t = u.marked := by
  have hparen := CType.noParen_of_named h
  have hread := CType.parse_eq hparen
  rw [h, parseNamed_trim, String.toList_append, readEnding_marked] at hread
  rw [CType.parse_eq (mt (const_paren_iff target).mpr hparen), parseNamed_trim]
  cases hu : readEnding [] (trimEnd target.toList) with
  | none => rw [hu] at hread; cases hread
  | some u =>
    rw [hu] at hread
    exact ⟨u, rfl, by simpa using hread⟩

/-! ## `const` in front of a function pointer -/

/-- The declarator and the parameters of a function pointer, from behind its first parenthesis. -/
def readParameterGroup (group : List Char) : Option (List String × Bool) := do
  let (declarator, after) ← closeParen 0 group
  if !isDeclarator declarator then none
  match trim after with
  | '(' :: list =>
    let (inside, rest) ← closeParen 0 list
    if !rest.isEmpty then none
    some (readParams ((splitParams [] 0 inside).map String.ofList))
  | _ => none

theorem parseFunctionPointer_eq (cs : List Char) : parseFunctionPointer cs =
    (cutAtChar? '(' cs).bind fun p => (readParameterGroup p.2).bind fun q =>
      if (trim p.1).isEmpty then none
      else some { result := String.ofList (trim p.1), params := q.1, variadic := q.2 } := by
  unfold parseFunctionPointer readParameterGroup
  simp only [Option.bind_eq_bind]
  cases cutAtChar? '(' cs with
  | none => rfl
  | some p =>
    simp only [Option.bind_some]
    cases closeParen 0 p.2 with
    | none => rfl
    | some q =>
      simp only [Option.bind_some]
      cases isDeclarator q.1 with
      | false => rfl
      | true =>
        simp only [Bool.not_true, Bool.false_eq_true, if_false]
        generalize trim q.2 = after
        cases after with
        | nil => rfl
        | cons c list =>
          by_cases hc : c = '('
          · subst hc
            cases hparams : closeParen 0 list with
            | none => simp [hparams]
            | some r =>
              cases hrest : r.2.isEmpty with
              | false => simp_all
              | true => simp_all
          · simp [hc]

/-- A parameter list ends with its parenthesis. -/
theorem readParameterGroup_ends {group : List Char} {q : List String × Bool}
    (h : readParameterGroup group = some q) : ∃ declarator after inside,
      group = declarator ++ ')' :: after ∧ trim after = '(' :: (inside ++ [')']) := by
  obtain ⟨⟨declarator, after⟩, hclose, h⟩ := Option.bind_eq_some_iff.mp h
  dsimp only at h
  split at h
  · cases h
  · split at h
    · rename_i list hlist
      obtain ⟨⟨inside, rest⟩, hparams, h⟩ := Option.bind_eq_some_iff.mp h
      dsimp only at h
      split at h
      · cases h
      · rename_i hrest
        obtain rfl : rest = [] := by simpa using hrest
        refine ⟨declarator, after, inside, eq_of_closeParen hclose, ?_⟩
        rw [hlist, eq_of_closeParen hparams]
    · cases h

theorem cutAtChar?_append {mark : Char} {x : List Char} (h : mark ∉ x) (y : List Char) :
    cutAtChar? mark (x ++ y) = (cutAtChar? mark y).map fun p => (x ++ p.1, p.2) := by
  induction x with
  | nil => simp
  | cons c x ih =>
    rw [List.mem_cons, not_or] at h
    rw [List.cons_append, cutAtChar?, if_neg (Ne.symm h.1), ih h.2, Option.map_map]
    rfl

theorem trim_head {cs : List Char} {c : Char} (h : (trim cs).head? = some c) : isBlank c = false := by
  have hdrop : (cs.dropWhile isBlank).head? = some c := by
    obtain ⟨gap, -, heq⟩ := trimEnd_split (cs.dropWhile isBlank)
    rw [heq, List.head?_append]
    exact Option.or_eq_some_iff.mpr (.inl h)
  have hfirst := List.head?_dropWhile_not isBlank cs
  rw [hdrop] at hfirst
  simpa using hfirst

theorem head?_trim {cs : List Char} {c : Char} (h : cs.head? = some c) (hc : isBlank c = false) :
    (trim cs).head? = some c := by
  obtain ⟨rest, rfl⟩ := List.head?_eq_some_iff.mp h
  rw [trim, List.dropWhile_cons_of_neg (by simp [hc])]
  obtain ⟨gap, hgap, heq⟩ := trimEnd_split (c :: rest)
  cases hkept : trimEnd (c :: rest) with
  | nil =>
    rw [trimEnd_eq_nil.mp hkept c List.mem_cons_self] at hc
    cases hc
  | cons d more =>
    rw [hkept, List.cons_append, List.cons.injEq] at heq
    rw [heq.1]
    rfl

/-- Without its white space, a spelling behind `const` is a front without parentheses before the spelling. -/
theorem trim_const {target : String} (hne : trim target.toList ≠ []) :
    '(' ∉ "const ".toList ++ target.toList.takeWhile isBlank ∧
      trim ("const " ++ target).toList =
        ("const ".toList ++ target.toList.takeWhile isBlank) ++ trim target.toList := by
  constructor
  · rw [List.mem_append, not_or]
    exact ⟨by decide, fun hmem => absurd (List.mem_takeWhile_imp hmem) (by decide)⟩
  · have hdrop : ("const ".toList ++ target.toList).dropWhile isBlank =
        "const ".toList ++ target.toList := rfl
    rw [trim, String.toList_append, hdrop, List.append_assoc, trim, ← trimEnd_append hne,
      List.takeWhile_append_dropWhile, trimEnd_append]
    rw [← List.takeWhile_append_dropWhile (p := isBlank) (l := target.toList), trimEnd_append hne]
    exact List.append_ne_nil_of_right_ne_nil _ hne

/-- A spelling with a parenthesis is read as a function pointer or not at all. -/
theorem CType.parse_of_paren {s : String} (h : '(' ∈ trim s.toList) :
    CType.parse s = (parseFunctionPointer (trim s.toList)).elim .malformed .function := by
  have hcontains : (trim s.toList).contains '(' = true := by simpa using h
  have hempty : (trim s.toList).isEmpty = false := by simpa using List.ne_nil_of_mem h
  unfold CType.parse
  dsimp only
  rw [hempty, hcontains]
  cases parseFunctionPointer (trim s.toList) <;> rfl

/-- **A function pointer behind `const` is one without it, with the same parameters**, unless `const` was all
that stood in the place of its result. -/
theorem CType.parse_const_function {target : String} {f : FunctionPointer}
    (h : CType.parse ("const " ++ target) = .function f) :
    (CType.parse target = .malformed ∧ (trim target.toList).head? = some '(') ∨
      ∃ g, CType.parse target = .function g ∧ g.params = f.params ∧ g.variadic = f.variadic := by
  obtain ⟨hparen, hread⟩ := CType.paren_of_function h
  have hparen' := (const_paren_iff target).mp hparen
  have hne : trim target.toList ≠ [] := List.ne_nil_of_mem hparen'
  obtain ⟨hfront, htrim⟩ := trim_const hne
  rw [htrim, parseFunctionPointer_eq, cutAtChar?_append hfront] at hread
  obtain ⟨p, hcut, hread⟩ := Option.bind_eq_some_iff.mp hread
  obtain ⟨q, hq, rfl⟩ := Option.map_eq_some_iff.mp hcut
  obtain ⟨r, hr, hread⟩ := Option.bind_eq_some_iff.mp hread
  have hshort := parseFunctionPointer_eq (trim target.toList)
  rw [hq, Option.bind_some, hr, Option.bind_some] at hshort
  rw [CType.parse_of_paren hparen', hshort]
  split at hread
  · cases hread
  · obtain rfl := Option.some.inj hread
    cases hresult : (trim q.1).isEmpty with
    | true =>
      refine .inl ⟨rfl, ?_⟩
      -- white space only stands in front of the parenthesis, so nothing does
      have hwhole : trim target.toList = q.1 ++ '(' :: q.2 := eq_of_cutAtChar? hq
      have hfirst : q.1 = [] := by
        cases hcs : q.1 with
        | nil => rfl
        | cons c cs =>
          have hdark := trim_head (by rw [hwhole, hcs]; rfl : (trim target.toList).head? = some c)
          have hmem : c ∈ trim q.1 := (mem_trim_iff hdark).mpr (by simp [hcs])
          rw [List.isEmpty_iff.mp hresult] at hmem
          exact absurd hmem List.not_mem_nil
      rw [hwhole, hfirst]
      rfl
    | false => exact .inr ⟨_, rfl, rfl, rfl⟩

/-! ## Stars behind -/

section

variable {s : String}

theorem trim_last {c : Char} (hlast : s.toList.getLast? = some c) (hc : isBlank c = false) :
    (trim s.toList).getLast? = some c := by
  obtain ⟨front, heq⟩ := List.getLast?_eq_some_iff.mp hlast
  rw [trim, heq, List.dropWhile_append]
  split
  · have hsingle : trimEnd ([] ++ [c]) = [] ++ [c] := trimEnd_concat_dark hc
    rw [List.dropWhile_cons_of_neg (by simp [hc])]
    exact congrArg List.getLast? hsingle
  · rw [trimEnd_concat_dark hc]
    simp

/-- **Nothing that ends with a star is a function pointer.** -/
theorem CType.parse_star_ne_function (hlast : s.toList.getLast? = some '*') (f : FunctionPointer) :
    CType.parse s ≠ .function f := by
  intro h
  have hread := (CType.paren_of_function h).2
  have hstar := trim_last hlast (by decide)
  rw [parseFunctionPointer_eq] at hread
  obtain ⟨⟨before, group⟩, hcut, hread⟩ := Option.bind_eq_some_iff.mp hread
  obtain ⟨q, hgroup, -⟩ := Option.bind_eq_some_iff.mp hread
  obtain ⟨declarator, after, inside, hends, htrim⟩ := readParameterGroup_ends hgroup
  have hwhole : trim s.toList = before ++ '(' :: (declarator ++ [')']) ++ after := by
    have hsplit := eq_of_cutAtChar? hcut
    dsimp only at hends
    rw [hends] at hsplit
    simpa using hsplit
  -- the parameter list ends the spelling
  have hafter : after.getLast? = some '*' := by
    have hne : after ≠ [] := by rintro rfl; cases htrim
    rw [hwhole, List.getLast?_append_of_ne_nil _ hne] at hstar
    exact hstar
  rw [← String.toList_ofList (l := after)] at hafter
  have hend := trim_last hafter (by decide)
  have hparen : ('(' :: inside ++ [')']).getLast? = some ')' := List.getLast?_concat
  rw [String.toList_ofList, htrim, ← List.cons_append, hparen] at hend
  cases hend

/-- **A named type that ends with a star is a pointer.** -/
theorem CType.pointers_of_parse_star (hlast : s.toList.getLast? = some '*') {t : NamedType}
    (h : CType.parse s = .named t) : t.pointers ≠ 0 := by
  have hstar := trim_last hlast (by decide)
  have hread := CType.parse_eq (CType.noParen_of_named h)
  have hplain : ∀ c ∈ (trim s.toList).getLast?, c ≠ ']' := by
    rw [hstar]
    rintro c ⟨⟩
    decide
  rw [h, parseNamed_eq, readEnding_plain hplain] at hread
  obtain ⟨front, hfront⟩ := List.getLast?_eq_some_iff.mp hstar
  cases hu : assemble (trim s.toList) [] with
  | none => rw [hu] at hread; cases hread
  | some u =>
    rw [hu] at hread
    cases hread
    obtain ⟨-, -, tokens, words, stars, htokens, -, ht⟩ := assemble_iff.mp hu
    have hcut : lexemes (front ++ ['*']) = lexemes front ++ [.star] :=
      lexemes_append fun _ _ b hb => by cases hb; exact .inr (by decide)
    rw [hfront, tokens_iff, hcut] at htokens
    obtain rfl := htokens
    have horder := ht.order
    rw [List.filter_append] at horder
    rcases concat_eq_inOrder horder with ⟨hl, -⟩ | ⟨-, -, n, hn, -⟩ | ⟨_, _, hl, -⟩
    · cases hl
    · rw [ht.pointers, hn, maxPointers]
      omega
    · cases hl

end

end LuaGlue
