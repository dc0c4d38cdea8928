import LuaGlue.Proofs.CType.Brackets

/-!
# Declarations that are read back

A name is declared with the type of a function pointer by writing the type anew: its result, the name in the
place of the declarator, and the parameters joined by commas, without those that stood for none and with the
variadic mark at the end. What is declared has the same signature, however deeply parameters nest, unless
the mark comes to stand behind a parameter that does not close its brackets (`declared_again_iff`): the comma
in front of the mark is then no longer one between parameters. A mark that was the last parameter before
never does (`function_declared_again`).
-/

set_option autoImplicit false

namespace LuaGlue

open Text

/-! ## Reading a function pointer -/

theorem noParen_of_isDeclarator {cs : List Char} (h : isDeclarator cs = true) :
    cs.filter isParen = [] := by
  rw [List.filter_eq_nil_iff]
  intro c hc hparen
  have hall := List.all_eq_true.mp (Bool.and_eq_true_iff.mp h).2 c hc
  simp only [isParen, Bool.or_eq_true, beq_iff_eq] at hparen
  rcases hparen with rfl | rfl <;> exact absurd hall (by decide)

theorem closeParen_declarator {declarator : List Char} (h : isDeclarator declarator = true)
    (after : List Char) : closeParen 0 (declarator ++ ')' :: after) = some (declarator, after) :=
  closeParen_iff.mpr (openAfter_congr (y := []) (noParen_of_isDeclarator h) 0)

theorem readParameterGroup_iff {group : List Char} {q : List String × Bool} :
    readParameterGroup group = some q ↔ ∃ declarator after inside,
      group = declarator ++ ')' :: after ∧ isDeclarator declarator = true ∧
      trim after = '(' :: (inside ++ [')']) ∧ openAfter 0 inside = some 0 ∧
      q = readParams ((splitParams [] 0 inside).map String.ofList) := by
  constructor
  · intro h
    obtain ⟨⟨declarator, after⟩, hclose, h⟩ := Option.bind_eq_some_iff.mp h
    dsimp only at h
    split at h
    · cases h
    · rename_i hdeclarator
      split at h
      · rename_i list hlist
        obtain ⟨⟨inside, rest⟩, hparams, h⟩ := Option.bind_eq_some_iff.mp h
        dsimp only at h
        split at h
        · cases h
        · rename_i hrest
          obtain rfl : rest = [] := by simpa using hrest
          have hends := eq_of_closeParen hparams
          rw [hends] at hlist hparams
          exact ⟨declarator, after, inside, eq_of_closeParen hclose, by simpa using hdeclarator, hlist,
            closeParen_iff.mp hparams, (Option.some.inj h).symm⟩
      · cases h
  · rintro ⟨declarator, after, inside, rfl, hdeclarator, hlist, hopen, rfl⟩
    have hparams : closeParen 0 (inside ++ [')']) = some (inside, []) := closeParen_iff.mpr hopen
    simp [readParameterGroup, closeParen_declarator hdeclarator, hdeclarator, hlist, hparams]

/-- **What a function pointer is made of**: a result in front of the first parenthesis, a declarator, and a
parameter list behind which nothing stands. -/
theorem CType.parse_function_iff {spelling : String} {f : FunctionPointer} :
    CType.parse spelling = .function f ↔ ∃ before declarator after inside,
      trim spelling.toList = before ++ '(' :: (declarator ++ ')' :: after) ∧ '(' ∉ before ∧
      isDeclarator declarator = true ∧ trim after = '(' :: (inside ++ [')']) ∧
      openAfter 0 inside = some 0 ∧ trim before ≠ [] ∧ f.result = String.ofList (trim before) ∧
      (f.params, f.variadic) = readParams ((splitParams [] 0 inside).map String.ofList) := by
  constructor
  · intro h
    have hread := (CType.paren_of_function h).2
    rw [parseFunctionPointer_eq] at hread
    obtain ⟨⟨before, group⟩, hcut, hread⟩ := Option.bind_eq_some_iff.mp hread
    obtain ⟨q, hgroup, hread⟩ := Option.bind_eq_some_iff.mp hread
    obtain ⟨declarator, after, inside, rfl, hdeclarator, hlist, hopen, rfl⟩ :=
      readParameterGroup_iff.mp hgroup
    dsimp only at hread
    split at hread
    · cases hread
    · rename_i hresult
      obtain rfl := Option.some.inj hread
      exact ⟨before, declarator, after, inside, eq_of_cutAtChar? hcut, notMem_of_cutAtChar? hcut,
        hdeclarator, hlist, hopen, by simpa using hresult, rfl, rfl⟩
  · rintro ⟨before, declarator, after, inside, htrim, hbefore, hdeclarator, hlist, hopen, hresult, hf,
      hparams⟩
    have hgroup := readParameterGroup_iff.mpr
      ⟨declarator, after, inside, rfl, hdeclarator, hlist, hopen, hparams⟩
    have hread : parseFunctionPointer (trim spelling.toList) = some f := by
      rw [htrim, parseFunctionPointer_eq, cutAtChar?_first hbefore, Option.bind_some, hgroup, Option.bind_some,
        if_neg (by simpa using hresult), ← hf]
    have hparen : (trim spelling.toList).contains '(' = true := by simp [htrim]
    have hempty : (trim spelling.toList).isEmpty = false := by simp [htrim]
    unfold CType.parse
    dsimp only
    rw [hempty, hparen, hread]
    rfl

/-! ## Parameters that are written again -/

/-- A part of a parameter list that is a parameter. -/
def isParam (p : String) : Bool := p != "" && p != "void" && p != "..."

theorem readParams_eq (parts : List String) :
    readParams parts = (parts.filter isParam, parts.contains "...") := rfl

/-- The parts that parameters are written as. -/
def FunctionPointer.writtenParts (f : FunctionPointer) : List String :=
  if f.variadic then f.params ++ ["..."] else if f.params.isEmpty then ["void"] else f.params

theorem FunctionPointer.renderParams_eq (f : FunctionPointer) :
    f.renderParams = ", ".intercalate f.writtenParts := by
  obtain ⟨result, params, variadic⟩ := f
  cases params with
  | nil => cases variadic <;> exact String.intercalate_singleton.symm
  | cons p params =>
    cases variadic with
    | true =>
      have hjoin := String.intercalate_append_of_ne_nil (s := ", ") (List.cons_ne_nil p params)
        (List.cons_ne_nil "..." [])
      rw [String.intercalate_singleton, String.append_assoc] at hjoin
      exact hjoin.symm
    | false => rfl

theorem FunctionPointer.readParams_writtenParts {f : FunctionPointer} (h : ∀ p ∈ f.params, isParam p) :
    readParams f.writtenParts = (f.params, f.variadic) := by
  have hfilter : f.params.filter isParam = f.params := List.filter_eq_self.mpr h
  have hmark : "..." ∉ f.params := fun hmem => absurd (h _ hmem) (by decide)
  have hdots : ["..."].filter isParam = [] := by decide
  rw [readParams_eq, writtenParts]
  cases hv : f.variadic with
  | true => simp [List.filter_append, hfilter, hdots]
  | false =>
    cases hp : f.params with
    | nil => decide
    | cons p params =>
      rw [hp] at hfilter hmark
      simpa [hfilter] using hmark

theorem mem_dropLast_filter {α : Type} {p : α → Bool} {l : List α} {x : α}
    (h : x ∈ (l.filter p).dropLast) : x ∈ l.dropLast := by
  cases l using List.reverseRecOn with
  | nil => exact h
  | append_singleton l a =>
    rw [List.dropLast_concat]
    rw [List.filter_append] at h
    cases ha : p a with
    | true =>
      simp only [List.filter_singleton, ha, cond_true, List.dropLast_concat] at h
      exact (List.mem_filter.mp h).1
    | false =>
      simp only [List.filter_singleton, ha, cond_false, List.append_nil] at h
      exact (List.mem_filter.mp (List.dropLast_subset _ h)).1

theorem PartsApart.filter {parts : List (List Char)} (h : PartsApart parts) (q : List Char → Bool) :
    PartsApart (parts.filter q) :=
  ⟨fun p hp => h.trimmed p (List.mem_filter.mp hp).1,
    fun p hp => h.undivided p (List.mem_filter.mp hp).1,
    fun p hp => h.closed p (mem_dropLast_filter hp)⟩

theorem filter_isParen_intercalate (parts : List (List Char)) :
    ([',', ' '].intercalate parts).filter isParen = parts.flatten.filter isParen := by
  induction parts with
  | nil => rfl
  | cons p rest ih =>
    cases rest with
    | nil => simp
    | cons q rest =>
      have hcomma : [',', ' '].filter isParen = [] := by decide
      rw [List.intercalate_cons_cons, List.filter_append, List.filter_append, ih, hcomma,
        List.append_nil, ← List.filter_append, List.flatten_cons (l := p)]

/-- Parts that are no parameters have no parentheses. -/
theorem filter_isParen_params (parts : List String) :
    ((parts.filter isParam).map String.toList).flatten.filter isParen =
      (parts.map String.toList).flatten.filter isParen := by
  induction parts with
  | nil => rfl
  | cons p parts ih =>
    cases hp : isParam p with
    | true => simp [hp, ih]
    | false =>
      have hnone : p.toList.filter isParen = [] := by
        have hcases : (p = "" ∨ p = "void") ∨ p = "..." := by
          simpa [isParam, imp_iff_not_or, or_assoc] using hp
        obtain (rfl | rfl) | rfl := hcases <;> rfl
      simp [hp, ih, hnone]

section

variable {spelling name : String} {f : FunctionPointer}

/-- What is known of a signature that was read. -/
structure FunctionPointer.Readable (f : FunctionPointer) : Prop where
  result : f.result.toList ≠ [] ∧ trim f.result.toList = f.result.toList ∧ '(' ∉ f.result.toList
  params : ∀ p ∈ f.params, isParam p
  apart : PartsApart (f.params.map String.toList)
  parens : openAfter 0 (f.params.map String.toList).flatten = some 0

theorem CType.readable_of_parse (h : CType.parse spelling = .function f) : f.Readable := by
  obtain ⟨before, declarator, after, inside, -, hbefore, -, -, hopen, hresult, hf, hparams⟩ :=
    CType.parse_function_iff.mp h
  obtain ⟨happart, hparens⟩ := apart_splitParams_nil inside
  rw [readParams_eq, Prod.mk.injEq] at hparams
  have htoList : ((splitParams [] 0 inside).map String.ofList).map String.toList =
      splitParams [] 0 inside := by
    simp [List.map_map, Function.comp_def]
  refine ⟨?_, ?_, ?_, ?_⟩
  · rw [hf, String.toList_ofList]
    exact ⟨hresult, trim_trim before, fun hmem => hbefore ((infix_trim before).subset hmem)⟩
  · intro p hp
    rw [hparams.1] at hp
    exact (List.mem_filter.mp hp).2
  · have hkept : (f.params.map String.toList) =
        (splitParams [] 0 inside).filter fun p => isParam (String.ofList p) := by
      rw [hparams.1, List.filter_map, List.map_map]
      simp [Function.comp_def]
    rw [hkept]
    exact happart.filter _
  · rw [← hopen]
    refine openAfter_congr ?_ 0
    rw [hparams.1, filter_isParen_params, htoList, hparens]

theorem FunctionPointer.Readable.openAfter_renderParams (h : f.Readable) :
    openAfter 0 f.renderParams.toList = some 0 := by
  have hparams : f.writtenParts.filter isParam = f.params := by
    have := congrArg Prod.fst (f.readParams_writtenParts h.params)
    rwa [readParams_eq] at this
  rw [← h.parens]
  refine openAfter_congr ?_ 0
  rw [FunctionPointer.renderParams_eq, String.toList_intercalate, ← hparams, filter_isParen_params]
  exact filter_isParen_intercalate _

/-- A declaration is read as the result and the parts of the parameter list that it is written with. -/
theorem CType.parse_declare (h : CType.parse spelling = .function f)
    (hname : ∀ c ∈ name.toList, isWordChar c = true ∨ c = '_') :
    CType.parse (declare spelling name) =
      .function { result := f.result
                  params := (readParams ((splitParams [] 0 f.renderParams.toList).map String.ofList)).1
                  variadic :=
                    (readParams ((splitParams [] 0 f.renderParams.toList).map String.ofList)).2 } := by
  have hf := CType.readable_of_parse h
  obtain ⟨hne, htrimmed, hnoParen⟩ := hf.result
  have htext : (declare spelling name).toList = (f.result.toList ++ [' ']) ++
      '(' :: ('*' :: name.toList ++ ')' :: ('(' :: (f.renderParams.toList ++ [')']))) := by
    simp [declare, h, String.toList_append]
  have hends : trim (declare spelling name).toList = (declare spelling name).toList := by
    refine trim_of_ends (fun c hc => ?_) (fun c hc => ?_)
    · have hhead : (trim f.result.toList).head? = some c := by
        rw [htrimmed, ← hc, htext, List.append_assoc, List.head?_append_of_ne_nil _ hne]
      exact trim_head hhead
    · have hlast : (declare spelling name).toList.getLast? = some ')' := by
        have hfront : (declare spelling name).toList = ((f.result.toList ++ [' ']) ++
            '(' :: ('*' :: name.toList ++ ')' :: '(' :: f.renderParams.toList)) ++ [')'] := by
          rw [htext]
          simp
        rw [hfront, List.getLast?_concat]
      rw [hlast] at hc
      cases hc
      decide
  have hdeclarator : isDeclarator ('*' :: name.toList) = true := by
    have hall : ∀ c ∈ name.toList, (isWordChar c || c == '_' || c == '*' || isBlank c) = true := by
      intro c hc
      rcases hname c hc with hword | rfl
      · simp [hword]
      · rfl
    simpa [isDeclarator] using hall
  have hlist : trim ('(' :: (f.renderParams.toList ++ [')'])) = '(' :: (f.renderParams.toList ++ [')']) := by
    rw [← List.cons_append]
    refine trim_of_ends (by simp; decide) ?_
    rw [List.getLast?_concat]
    rintro c ⟨⟩
    decide
  have hresult : trim (f.result.toList ++ [' ']) = f.result.toList := by
    have hblank : ∀ c ∈ [' '], isBlank c = true := List.forall_mem_singleton.mpr (by decide)
    have hskip : trim ([] ++ (f.result.toList ++ [' '])) = trim f.result.toList :=
      trim_blanks (List.forall_mem_nil _) hblank
    rwa [List.nil_append, htrimmed] at hskip
  refine CType.parse_function_iff.mpr ⟨_, _, _, _, hends.trans htext, ?_, hdeclarator, hlist,
    hf.openAfter_renderParams, by rwa [hresult], by rw [hresult, String.ofList_toList], rfl⟩
  rw [List.mem_append, not_or]
  exact ⟨hnoParen, by decide⟩

/-- What is written again is apart, unless a bracket is open where the variadic mark is put. -/
theorem FunctionPointer.Readable.apart_writtenParts (h : f.Readable)
    (hclosed : f.variadic = true → ∀ p ∈ f.params, balance p.toList = 0) :
    PartsApart (f.writtenParts.map String.toList) := by
  have hsingle (p : String) (htrim : trim p.toList = p.toList) (hcomma : ',' ∉ p.toList) :
      PartsApart [p.toList] :=
    ⟨by simpa using htrim, by simpa using undivided_of_noComma hcomma 0, by simp⟩
  unfold writtenParts
  cases hv : f.variadic with
  | true =>
    have hdots := hsingle "..." (by decide) (by decide)
    have hparams : ∀ p ∈ f.params.map String.toList, balance p = 0 := by
      simpa using hclosed hv
    rw [if_pos rfl, List.map_append]
    refine ⟨?_, ?_, ?_⟩
    · exact List.forall_mem_append.mpr ⟨h.apart.trimmed, hdots.trimmed⟩
    · exact List.forall_mem_append.mpr ⟨h.apart.undivided, hdots.undivided⟩
    · rwa [List.map_singleton, List.dropLast_concat]
  | false =>
    cases hp : f.params with
    | nil => exact hsingle "void" (by decide) (by decide)
    | cons p params =>
      have := h.apart
      rw [hp] at this
      exact this

/-- The variadic mark is no part by itself behind a parameter that does not close its brackets. -/
theorem FunctionPointer.Readable.mark_swallowed (h : f.Readable) (hv : f.variadic = true)
    {p : String} (hp : p ∈ f.params) (hopen : balance p.toList ≠ 0) :
    "..." ∉ (splitParams [] 0 f.renderParams.toList).map String.ofList := by
  -- such a parameter is the last one
  obtain ⟨front, hfront⟩ : ∃ front, f.params = front ++ [p] := by
    cases hps : f.params using List.reverseRecOn with
    | nil => exact absurd (hps ▸ hp) List.not_mem_nil
    | append_singleton front q =>
      have hclosed := h.apart.closed
      rw [hps, List.map_append, List.map_singleton, List.dropLast_concat] at hclosed
      rw [hps, List.mem_append, List.mem_singleton] at hp
      rcases hp with hp | rfl
      · exact absurd (hclosed _ (List.mem_map_of_mem hp)) hopen
      · exact ⟨front, rfl⟩
  have hapart := h.apart
  rw [hfront, List.map_append, List.map_singleton] at hapart
  have htail : (p ++ ", ...").toList = p.toList ++ ", ...".toList := String.toList_append
  have hjoined : PartsApart (front.map String.toList ++ [(p ++ ", ...").toList]) := by
    refine ⟨?_, ?_, ?_⟩
    · refine List.forall_mem_append.mpr ⟨(List.forall_mem_append.mp hapart.trimmed).1, ?_⟩
      have hparam : p ≠ "" := by
        rintro rfl
        exact absurd (h.params "" hp) (by decide)
      have hne : p.toList ≠ [] := fun hnil => hparam (String.toList_eq_nil_iff.mp hnil)
      refine List.forall_mem_singleton.mpr (trim_of_ends (fun c hc => ?_) (fun c hc => ?_))
      · have hhead : (trim p.toList).head? = some c := by
          rw [(List.forall_mem_append.mp hapart.trimmed).2 _ (List.mem_singleton_self _), ← hc, htail,
            List.head?_append_of_ne_nil _ hne]
        exact trim_head hhead
      · rw [htail, List.getLast?_append_of_ne_nil _ (by decide)] at hc
        cases hc
        decide
    · refine List.forall_mem_append.mpr ⟨(List.forall_mem_append.mp hapart.undivided).1, ?_⟩
      rw [List.forall_mem_singleton, htail, undivided_append, Int.zero_add]
      refine ⟨(List.forall_mem_append.mp hapart.undivided).2 _ (List.mem_singleton_self _), ?_⟩
      exact ⟨fun hc => hopen hc.2, undivided_of_noComma (by decide) _⟩
    · have hclosed := hapart.closed
      rw [List.dropLast_concat] at hclosed ⊢
      exact hclosed
  have htext : f.renderParams.toList =
      [',', ' '].intercalate (front.map String.toList ++ [(p ++ ", ...").toList]) := by
    have hwritten : f.writtenParts = front ++ [p, "..."] := by
      rw [FunctionPointer.writtenParts, if_pos hv, hfront, List.append_assoc]
      rfl
    have hjoin (front : List String) :
        ", ".intercalate (front ++ [p, "..."]) = ", ".intercalate (front ++ [p ++ ", ..."]) := by
      induction front with
      | nil => simp [String.append_assoc]
      | cons q front ih =>
        rw [List.cons_append, List.cons_append, String.intercalate_cons_of_ne_nil (by simp), ih,
          String.intercalate_cons_of_ne_nil (by simp)]
    rw [FunctionPointer.renderParams_eq, hwritten, hjoin, String.toList_intercalate, List.map_append]
    rfl
  rw [htext, splitParams_intercalate (by simp) hjoined]
  intro hmark
  simp only [List.map_append, List.map_map, List.mem_append, List.mem_map, Function.comp_apply,
    String.ofList_toList, exists_eq_right, List.mem_singleton, List.map_singleton] at hmark
  rcases hmark with hmem | heq
  · have hparam := h.params "..." (by rw [hfront]; exact List.mem_append_left _ hmem)
    exact absurd hparam (by decide)
  · have hlength := congrArg String.length heq
    rw [String.length_append] at hlength
    have hshort : "...".length = 3 := by decide
    have hlong : ", ...".length = 5 := by decide
    omega

/-- **A declaration of a name has the type it was declared with**, exactly if no bracket is open where the
variadic mark is put. -/
theorem declared_again_iff (h : CType.parse spelling = .function f)
    (hname : ∀ c ∈ name.toList, isWordChar c = true ∨ c = '_') :
    CType.parse (declare spelling name) = .function f ↔
      (f.variadic = true → ∀ p ∈ f.params, balance p.toList = 0) := by
  have hf := CType.readable_of_parse h
  rw [CType.parse_declare h hname, CType.function.injEq]
  constructor
  · intro heq hv p hp
    by_contra hopen
    have hmark := hf.mark_swallowed hv hp hopen
    have hvariadic := (congrArg FunctionPointer.variadic heq).trans hv
    rw [readParams_eq] at hvariadic
    exact hmark (List.contains_iff_mem.mp hvariadic)
  · intro hclosed
    have hne : f.writtenParts ≠ [] := by
      unfold FunctionPointer.writtenParts
      split
      · simp
      · split
        · simp
        · rename_i hparams
          simpa using hparams
    have hwritten : splitParams [] 0 f.renderParams.toList = f.writtenParts.map String.toList := by
      rw [FunctionPointer.renderParams_eq, String.toList_intercalate]
      exact splitParams_intercalate (by simpa using hne) (hf.apart_writtenParts hclosed)
    have hback : (f.writtenParts.map String.toList).map String.ofList = f.writtenParts := by
      simp [Function.comp_def]
    rw [hwritten, hback, FunctionPointer.readParams_writtenParts hf.params]

/-! ## The variadic mark as the last parameter -/

/-- What stands between the commas of a function pointer's parameter list. -/
def parameterParts (spelling : String) : List String :=
  match cutAtChar? '(' (trim spelling.toList) with
  | none => []
  | some (_, group) =>
    match closeParen 0 group with
    | none => []
    | some (_, after) => (splitParams [] 0 (trim after).tail.dropLast).map String.ofList

/-- No parameter comes behind the variadic mark. -/
def MarkLast (parts : List String) : Prop :=
  ∀ front rest, parts = front ++ "..." :: rest → (readParams rest).1 = []

theorem markLast_of_dropLast {parts : List String} (h : "..." ∉ parts.dropLast) : MarkLast parts := by
  rintro front rest rfl
  cases rest with
  | nil => rfl
  | cons p rest =>
    rw [List.dropLast_append_of_ne_nil (List.cons_ne_nil _ _)] at h
    exact absurd (List.mem_append_right _ List.mem_cons_self) h

/-- The parameters are those of the parts, and all but the last part close their brackets. -/
theorem CType.parameterParts_of_parse (h : CType.parse spelling = .function f) :
    readParams (parameterParts spelling) = (f.params, f.variadic) ∧
      ∀ p ∈ (parameterParts spelling).dropLast, balance p.toList = 0 := by
  obtain ⟨before, declarator, after, inside, htrim, hbefore, hdeclarator, hlist, -, -, -, hparams⟩ :=
    CType.parse_function_iff.mp h
  have hparts : parameterParts spelling = (splitParams [] 0 inside).map String.ofList := by
    simp only [parameterParts, htrim, cutAtChar?_first hbefore, closeParen_declarator hdeclarator,
      hlist, List.tail_cons, List.dropLast_concat]
  refine ⟨by rw [hparts, hparams], fun p hp => ?_⟩
  have hclosed := (apart_splitParams_nil inside).1.closed
  rw [hparts, ← List.map_dropLast] at hp
  obtain ⟨q, hq, rfl⟩ := List.mem_map.mp hp
  rw [String.toList_ofList]
  exact hclosed q hq

/-- **A name declared as a function pointer has that function pointer's type**: the same result, the same
parameters in the same order, variadic or not as before. -/
theorem function_declared_again (h : CType.parse spelling = .function f)
    (hmark : MarkLast (parameterParts spelling))
    (hname : ∀ c ∈ name.toList, isWordChar c = true ∨ c = '_') :
    CType.parse (declare spelling name) = .function f := by
  obtain ⟨hparams, hclosed⟩ := CType.parameterParts_of_parse h
  rw [readParams_eq, Prod.mk.injEq] at hparams
  refine (declared_again_iff h hname).mpr fun hv p hp => ?_
  rw [hv] at hparams
  obtain ⟨front, rest, hparts⟩ := List.append_of_mem (List.contains_iff_mem.mp hparams.2)
  have hrest : rest.filter isParam = [] := hmark front rest hparts
  have hdots : isParam "..." = false := by decide
  -- all parameters stand in front of the mark
  have hfront : p ∈ front := by
    rw [← hparams.1, hparts, List.filter_append, List.filter_cons_of_neg (by simp [hdots]), hrest,
      List.append_nil] at hp
    exact (List.mem_filter.mp hp).1
  refine hclosed p ?_
  rw [hparts, List.dropLast_append_of_ne_nil (List.cons_ne_nil _ _)]
  exact List.mem_append_left _ hfront

end

/-- A callback that takes another callback and any number of arguments, and has an empty part. -/
theorem function_declared_again_nested :
    CType.parse "int (* old)(void (*)(int, float [2]), , Pair<int, char> *, ...)" = .function
        ⟨"int", ["void (*)(int, float [2])", "Pair<int, char> *"], true⟩ ∧
      declare "int (* old)(void (*)(int, float [2]), , Pair<int, char> *, ...)" "on_event" =
        "int (*on_event)(void (*)(int, float [2]), Pair<int, char> *, ...)" ∧
      CType.parse "int (*on_event)(void (*)(int, float [2]), Pair<int, char> *, ...)" = .function
        ⟨"int", ["void (*)(int, float [2])", "Pair<int, char> *"], true⟩ := by
  have hparse : CType.parse "int (* old)(void (*)(int, float [2]), , Pair<int, char> *, ...)" =
      .function ⟨"int", ["void (*)(int, float [2])", "Pair<int, char> *"], true⟩ := by
    decide +kernel
  have hdeclare : declare "int (* old)(void (*)(int, float [2]), , Pair<int, char> *, ...)" "on_event" =
      "int (*on_event)(void (*)(int, float [2]), Pair<int, char> *, ...)" := by
    decide +kernel
  have hparts : parameterParts "int (* old)(void (*)(int, float [2]), , Pair<int, char> *, ...)" =
      ["void (*)(int, float [2])", "", "Pair<int, char> *", "..."] := by
    decide +kernel
  refine ⟨hparse, hdeclare, ?_⟩
  have hletters : ("on_event".toList.all fun c => isWordChar c || c == '_') = true := by decide +kernel
  rw [← hdeclare]
  exact function_declared_again hparse (markLast_of_dropLast (by rw [hparts]; decide))
    (fun c hc => by simpa using List.all_eq_true.mp hletters c hc)

/-- Behind a parameter that leaves a bracket open, the mark is read as a part of that parameter. -/
example : CType.parse (declare "void (*)(..., a < b)" "f") =
    .function ⟨"void", ["a < b, ..."], false⟩ := by
  decide +kernel

end LuaGlue
