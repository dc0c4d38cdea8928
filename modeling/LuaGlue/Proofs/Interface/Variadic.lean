import LuaGlue.Interface.Load
import LuaGlue.Proofs.CType.Spelled
import LuaGlue.Proofs.Naming.Identifiers

/-!
# A function's own parameters

The type of a function is spelled as the result and then the parameters in parentheses. A parameter may be
a function pointer and the result may be a template applied to a signature, so that a spelling has signatures
inside of it that are not the function's own. What is its own stands outside all brackets of a part
(`outside`), and by that a function is variadic or not (`OwnVariadic`).

Loading does not look at brackets. It ends the result at the first parenthesis, and searches all that
follows for the marks of a variadic function (`Mentions`). A mark of its own is always found, since what stands
outside the brackets is made of pieces of the text (`infix_of_outside`). So what is loaded is right exactly
if the result has no parenthesis, and no mark is inside brackets only (`convertFunction_signature_iff`).
-/

set_option autoImplicit false

namespace LuaGlue

open Text

namespace Text

/-! ## Searching -/

section

variable {mark : Char} {needle a b : List Char}

theorem cutAt?_isSome_iff (needle : List Char) : ∀ {cs : List Char},
    (cutAt? needle cs).isSome = true ↔ needle <:+: cs := by
  intro cs
  induction cs with
  | nil => simp [cutAt?, apply_ite]
  | cons c rest ih =>
    rw [cutAt?, List.infix_cons_iff, ← ih]
    cases hpre : needle.isPrefixOf? (c :: rest) with
    | some after =>
      have hstart : needle <+: c :: rest := ⟨after, List.isPrefixOf?_eq_some_iff_append_eq.mp hpre⟩
      simp [hstart]
    | none =>
      have hstart : ¬ needle <+: c :: rest := by
        rintro ⟨after, hafter⟩
        rw [List.isPrefixOf?_eq_some_iff_append_eq.mpr hafter] at hpre
        cases hpre
      simp [hstart]

theorem holds_iff {cs : List Char} : holds needle cs = true ↔ needle <:+: cs :=
  cutAt?_isSome_iff needle

theorem prefix_seam (h : mark ∉ needle) : needle <+: a ++ mark :: b → needle <+: a := by
  induction a generalizing needle with
  | nil =>
    intro hstart
    rcases List.prefix_cons_iff.mp hstart with rfl | ⟨rest, rfl, -⟩
    · exact List.nil_prefix
    · exact absurd List.mem_cons_self h
  | cons c a ih =>
    intro hstart
    rcases List.prefix_cons_iff.mp hstart with rfl | ⟨rest, rfl, hrest⟩
    · exact List.nil_prefix
    · exact List.cons_prefix_cons.mpr ⟨rfl, ih (List.not_mem_of_not_mem_cons h) hrest⟩

/-- A mark that a text does not have keeps its occurrences on one side. -/
theorem infix_seam_iff (h : mark ∉ needle) :
    needle <:+: a ++ mark :: b ↔ needle <:+: a ∨ needle <:+: b := by
  constructor
  · induction a with
    | nil =>
      intro hseam
      rcases List.infix_cons_iff.mp hseam with hstart | hlater
      · exact .inl (prefix_seam (a := []) h hstart).isInfix
      · exact .inr hlater
    | cons c a ih =>
      intro hseam
      rcases List.infix_cons_iff.mp hseam with hstart | hlater
      · exact .inl (prefix_seam (a := c :: a) h hstart).isInfix
      · exact (ih hlater).imp_left fun ha => ha.trans (List.suffix_cons c a).isInfix
  · rintro (ha | hb)
    · exact ha.trans (List.prefix_append a _).isInfix
    · exact hb.trans ((List.suffix_cons mark b).trans (List.suffix_append a _)).isInfix

theorem infix_intercalate_iff {sep : String} (hsep : sep.toList = [mark]) (h : mark ∉ needle)
    (hne : needle ≠ []) {parts : List String} :
    needle <:+: (sep.intercalate parts).toList ↔ ∃ part ∈ parts, needle <:+: part.toList := by
  induction parts with
  | nil => simpa using hne
  | cons part rest ih =>
    cases rest with
    | nil => simp
    | cons next rest =>
      rw [String.intercalate_cons_cons, String.toList_append, String.toList_append, hsep,
        List.append_assoc, List.singleton_append, infix_seam_iff h, ih]
      simp

end

/-! ## Outside of brackets -/

/-- The brackets open behind a character, the innermost first. A closing bracket closes the innermost one of
its kind and all inside of that; `>` may be a comparison, and then it closes nothing. -/
def bracketsAfter (opened : List Char) (c : Char) : List Char :=
  if c = '(' ∨ c = '[' ∨ c = '<' then c :: opened
  else if c = ')' then (opened.dropWhile (· != '(')).tail
  else if c = ']' then (opened.dropWhile (· != '[')).tail
  else if c = '>' ∧ opened.head? = some '<' then opened.tail
  else opened

/-- What of a text stands outside all brackets, and the outermost brackets that are opened. -/
def outside (opened : List Char) : List Char → List Char
  | [] => []
  | c :: cs =>
    let kept := outside (bracketsAfter opened c) cs
    if opened.isEmpty then c :: kept else kept

/-- A character that opens no bracket. -/
def opensNothing (c : Char) : Bool := c != '(' && c != '[' && c != '<'

theorem bracketsAfter_nil {c : Char} (h : opensNothing c = true) : bracketsAfter [] c = [] := by
  simp_all [bracketsAfter, opensNothing]

theorem outside_nil_cons (c : Char) (cs : List Char) :
    outside [] (c :: cs) = c :: outside (bracketsAfter [] c) cs := rfl

theorem prefix_of_outside {cs : List Char} : ∀ {needle : List Char},
    (∀ c ∈ needle, opensNothing c = true) → needle <+: outside [] cs → needle <+: cs := by
  induction cs with
  | nil => exact fun _ h => h
  | cons d cs ih =>
    intro needle hplain h
    cases needle with
    | nil => exact List.nil_prefix
    | cons c needle =>
      rw [outside_nil_cons, List.cons_prefix_cons] at h
      obtain ⟨rfl, h⟩ := h
      rw [List.forall_mem_cons] at hplain
      rw [bracketsAfter_nil hplain.1] at h
      exact List.cons_prefix_cons.mpr ⟨rfl, ih hplain.2 h⟩

/-- **A piece without brackets of what stands outside of them is a piece of the text.** -/
theorem infix_of_outside {needle : List Char} (hplain : ∀ c ∈ needle, opensNothing c = true) {cs : List Char} :
    ∀ {opened : List Char}, needle <:+: outside opened cs → needle <:+: cs := by
  induction cs with
  | nil => exact fun h => h
  | cons d cs ih =>
    intro opened h
    cases opened with
    | nil =>
      rw [outside_nil_cons, List.infix_cons_iff] at h
      rcases h with hstart | hlater
      · have hpiece : needle <+: d :: cs := prefix_of_outside hplain hstart
        exact hpiece.isInfix
      · exact (ih hlater).trans (List.suffix_cons d cs).isInfix
    | cons b opened => exact (ih h).trans (List.suffix_cons d cs).isInfix

example : outside [] "std::function<void (int, ...)> (x)[3]".toList = "std::function< ([".toList := by
  decide

/-! ## Identifiers of a text -/

/-- The runs of characters of identifiers; empty ones are between characters that are none. -/
def nameRuns (cs : List Char) : List (List Char) := cs.splitOnP fun c => !isNameChar c

theorem splitOnP_pieces (p : Char → Bool) (cs : List Char) : ∃ first rest,
    cs.splitOnP p = first :: rest ∧ first <+: cs ∧ ∀ piece ∈ rest, piece <:+: cs := by
  induction cs with
  | nil => exact ⟨[], [], rfl, List.nil_prefix, by simp⟩
  | cons c cs ih =>
    obtain ⟨first, rest, heq, hfirst, hrest⟩ := ih
    have hlater : ∀ piece ∈ rest, piece <:+: c :: cs := fun piece hpiece =>
      (hrest piece hpiece).trans (List.suffix_cons c cs).isInfix
    rw [List.splitOnP_cons_eq_if_modifyHead, heq]
    cases p c with
    | true =>
      refine ⟨[], first :: rest, rfl, List.nil_prefix, List.forall_mem_cons.mpr ⟨?_, hlater⟩⟩
      exact hfirst.isInfix.trans (List.suffix_cons c cs).isInfix
    | false => exact ⟨c :: first, rest, rfl, List.cons_prefix_cons.mpr ⟨rfl, hfirst⟩, hlater⟩

theorem infix_of_mem_nameRuns {run cs : List Char} (h : run ∈ nameRuns cs) : run <:+: cs := by
  obtain ⟨first, rest, heq, hfirst, hrest⟩ := splitOnP_pieces (fun c => !isNameChar c) cs
  rw [nameRuns, heq, List.mem_cons] at h
  rcases h with rfl | h
  · exact hfirst.isInfix
  · exact hrest run h

end Text

/-! ## Variadic functions -/

/-- The names that headers give the type of a list of further arguments. -/
def vaListNames : List String :=
  ["va_list", "__va_list", "__va_list_tag", "__builtin_va_list", "__gnuc_va_list"]

/-- A parameter so spelled is a list of further arguments: such a name stands outside all brackets, and it is
no function pointer, which would take or return such a list only when it is called. -/
def isVaList (spelling : String) : Bool :=
  let own := outside [] spelling.toList
  !own.contains '(' && vaListNames.any fun name => (nameRuns own).contains name.toList

example : isVaList "va_list *" = true ∧ isVaList "my_va_list_t" = false ∧
    isVaList "void (*)(va_list)" = false := by decide +kernel

/-- A part of a parameter list is the mark of a variadic function: dots outside of all brackets. -/
def hasDots (part : String) : Bool := decide ("...".toList <:+: outside [] part.toList)

/-- The function itself takes further arguments: by the parts of its own parameter list, or by what its
parameters are recorded as. -/
def OwnVariadic (parts : List String) (params : List ParamRecord) : Prop :=
  (∃ part ∈ parts, hasDots part = true ∨ isVaList part = true) ∨
    ∃ p ∈ params, isVaList p.type = true

/-- Dots or the name of such a list stand somewhere in the parameters, however deep. -/
def Mentions (parts : List String) (params : List ParamRecord) : Prop :=
  (∃ part ∈ parts, "...".toList <:+: part.toList ∨ "va_list".toList <:+: part.toList) ∨
    ∃ p ∈ params, "va_list".toList <:+: p.type.toList

/-- The type of a function with this result and these parameters. -/
def signatureType (result : String) (parts : List String) : String :=
  result ++ "(" ++ ",".intercalate parts ++ ")"

theorem infix_vaListName : ∀ name ∈ vaListNames, "va_list".toList <:+: name.toList := by decide

theorem vaList_infix_of_isVaList {spelling : String} (h : isVaList spelling = true) :
    "va_list".toList <:+: spelling.toList := by
  simp only [isVaList, Bool.and_eq_true, List.any_eq_true, List.contains_iff_mem] at h
  obtain ⟨-, name, hname, hrun⟩ := h
  have hown : "va_list".toList <:+: outside [] spelling.toList :=
    (infix_vaListName name hname).trans (infix_of_mem_nameRuns hrun)
  have hplain : ∀ c ∈ "va_list".toList, opensNothing c = true :=
    List.all_eq_true.mp (by decide)
  exact infix_of_outside hplain hown

theorem dots_infix_of_hasDots {part : String} (h : hasDots part = true) :
    "...".toList <:+: part.toList := by
  have hplain : ∀ c ∈ "...".toList, opensNothing c = true :=
    List.all_eq_true.mp (by decide)
  exact infix_of_outside hplain (of_decide_eq_true h)

/-- What makes a function variadic itself is among what is mentioned. -/
theorem OwnVariadic.mentions {parts : List String} {params : List ParamRecord}
    (h : OwnVariadic parts params) : Mentions parts params := by
  rcases h with ⟨part, hpart, hdots | hlist⟩ | ⟨p, hp, hlist⟩
  · exact .inl ⟨part, hpart, .inl (dots_infix_of_hasDots hdots)⟩
  · exact .inl ⟨part, hpart, .inr (vaList_infix_of_isVaList hlist)⟩
  · exact .inr ⟨p, hp, vaList_infix_of_isVaList hlist⟩

section

variable {name result : String} {parts : List String} {params : List ParamRecord}

theorem signatureType_toList : (signatureType result parts).toList =
    result.toList ++ '(' :: ((",".intercalate parts).toList ++ [')']) := by
  simp [signatureType]

/-- **The result that is loaded is the whole result exactly if there is no parenthesis in it.** -/
theorem convertFunction_returnType_iff :
    (convertFunction name (signatureType result parts) params false).returnType = trimmed result ↔
      '(' ∉ result.toList := by
  have hcut : (signatureType result parts).toList.takeWhile (· != '(') =
      result.toList.takeWhile (· != '(') := by
    rw [signatureType_toList, List.takeWhile_append]
    split
    · rename_i hall
      rw [(List.takeWhile_prefix _).eq_of_length hall]
      simp
    · rfl
  rw [convertFunction, hcut, trimmed, String.ofList_inj]
  constructor
  · intro heq hparen
    have hkept : '(' ∈ trim (result.toList.takeWhile (· != '(')) := by
      rw [heq]
      exact (mem_trim_iff (by decide)).mpr hparen
    have hbefore := List.mem_takeWhile_imp ((mem_trim_iff (by decide)).mp hkept)
    simp at hbefore
  · intro hparen
    rw [List.takeWhile_eq_self_iff.mpr]
    intro c hc
    simpa using fun heq : c = '(' => hparen (heq ▸ hc)

/-- A text that has neither parentheses nor commas is in a parameter list if it is in one of its parts. -/
theorem infix_list_iff {needle : List Char} (hne : needle ≠ []) (hopen : '(' ∉ needle)
    (hclose : ')' ∉ needle) (hcomma : ',' ∉ needle) :
    needle <:+: '(' :: ((",".intercalate parts).toList ++ [')']) ↔
      ∃ part ∈ parts, needle <:+: part.toList := by
  have hfront := infix_seam_iff (a := []) (b := (",".intercalate parts).toList ++ [')']) hopen
  rw [List.nil_append] at hfront
  rw [hfront, infix_seam_iff (a := (",".intercalate parts).toList) (b := []) hclose,
    infix_intercalate_iff (by decide) hcomma hne]
  simp [hne]

/-- **What a function is loaded as variadic for**: marks anywhere in its parameters. -/
theorem convertFunction_variadic_iff (hresult : '(' ∉ result.toList) :
    (convertFunction name (signatureType result parts) params false).variadic = true ↔
      Mentions parts params := by
  have hcut : (signatureType result parts).toList.dropWhile (· != '(') =
      '(' :: ((",".intercalate parts).toList ++ [')']) := by
    rw [signatureType_toList, List.dropWhile_append_of_pos, List.dropWhile_cons_of_neg (by simp)]
    intro c hc
    simpa using fun heq : c = '(' => hresult (heq ▸ hc)
  simp only [convertFunction, hcut, takesVaList, Bool.false_or, Bool.or_eq_true, List.any_eq_true,
    holds_iff]
  rw [infix_list_iff (by decide) (by decide) (by decide) (by decide),
    infix_list_iff (by decide) (by decide) (by decide) (by decide), Mentions]
  simp only [and_or_left, exists_or]

/-- **A function is loaded with its own result, and as variadic for its own parameters only, exactly if its
result has no parenthesis and either it is variadic itself or no mark of a variadic function stands
anywhere.** A mark inside the brackets of a parameter is taken for the function's own. -/
theorem convertFunction_signature_iff (name result : String) (parts : List String)
    (params : List ParamRecord) :
    let f := convertFunction name (signatureType result parts) params false
    (f.returnType = trimmed result ∧ (f.variadic = true ↔ OwnVariadic parts params)) ↔
      '(' ∉ result.toList ∧ (OwnVariadic parts params ∨ ¬ Mentions parts params) := by
  intro f
  rw [convertFunction_returnType_iff]
  refine and_congr_right fun hresult => ?_
  rw [convertFunction_variadic_iff hresult]
  constructor
  · intro hown
    by_cases hmentions : Mentions parts params
    · exact .inl (hown.mp hmentions)
    · exact .inr hmentions
  · rintro (hown | hnone)
    · exact ⟨fun _ => hown, fun _ => hown.mentions⟩
    · exact ⟨fun h => absurd h hnone, fun h => absurd h.mentions hnone⟩

/-- A parameter that is called back with further arguments makes the function variadic, and a result that is a
template applied to a signature is cut off inside of that. -/
theorem nested_signatures_taken_for_own :
    (¬ OwnVariadic ["void (*)(const char *, ...)"] [] ∧
      (convertFunction "f" "void (void (*)(const char *, ...))" [] false).variadic = true) ∧
    (convertFunction "g" "std::function<void (int)> (int)" [] false).returnType =
      "std::function<void" := by
  refine ⟨⟨?_, by decide +kernel⟩, by decide +kernel⟩
  unfold OwnVariadic
  decide +kernel

end

end LuaGlue
