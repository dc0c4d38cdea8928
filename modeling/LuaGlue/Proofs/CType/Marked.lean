import LuaGlue.Proofs.CType.Brackets

/-!
# Spellings behind `const`

What becomes of any spelling when `const` is written in front of it. A spelling without parentheses is read as
before, and its base is marked (`CType.parse_const_plain`); so is the result of a function pointer, and the
rest of that is as it was (`CType.parse_const_function_eq`). No named type comes about (`CType.parse_const_named`).
-/

set_option autoImplicit false

namespace LuaGlue

open Text

/-- What is read behind `const`, where there are no parentheses. -/
def CType.marked : CType → CType
  | .named t => .named t.marked
  | c => c

/-- White space at the ends of a spelling is not looked at. -/
theorem CType.parse_trim (cs : List Char) :
    CType.parse (String.ofList (trim cs)) = CType.parse (String.ofList cs) := by
  unfold CType.parse
  simp only [String.toList_ofList, trim_trim]

theorem CType.parse_const_plain {s : String} (h : '(' ∉ trim s.toList) :
    CType.parse ("const " ++ s) = (CType.parse s).marked := by
  rw [CType.parse_eq (mt (const_paren_iff s).mp h), CType.parse_eq h, parseNamed_trim, parseNamed_trim,
    String.toList_append, readEnding_marked]
  cases readEnding [] (trimEnd s.toList) <;> rfl

/-- **A named type behind `const` has it on its base.** -/
theorem CType.parse_const_of_named {s : String} {t : NamedType} (h : CType.parse s = .named t) :
    CType.parse ("const " ++ s) = .named t.marked := by
  rw [CType.parse_const_plain (CType.noParen_of_named h), h]
  rfl

/-- **A function pointer behind `const` has it on its result**, and the rest stays. -/
theorem CType.parse_const_function_eq {s : String} {g : FunctionPointer} (h : CType.parse s = .function g) :
    ∃ result, CType.parse ("const " ++ s) = .function { g with result := result } ∧
      CType.parse result = CType.parse ("const " ++ g.result) := by
  obtain ⟨hparen, hread⟩ := CType.paren_of_function h
  obtain ⟨hfront, htrim⟩ := trim_const (List.ne_nil_of_mem hparen)
  rw [parseFunctionPointer_eq] at hread
  obtain ⟨p, hcut, hread⟩ := Option.bind_eq_some_iff.mp hread
  obtain ⟨q, hgroup, hread⟩ := Option.bind_eq_some_iff.mp hread
  split at hread
  · cases hread
  obtain rfl := Option.some.inj hread
  generalize hgap : s.toList.takeWhile isBlank = gap at hfront htrim
  have hlonger : CType.parse ("const " ++ s) =
      (parseFunctionPointer (("const ".toList ++ gap) ++ trim s.toList)).elim .malformed .function := by
    rw [CType.parse_of_paren ((const_paren_iff s).mpr hparen), htrim]
  refine ⟨String.ofList (trim (("const ".toList ++ gap) ++ p.1)), ?_, ?_⟩
  · -- the first parenthesis is the same, so what follows it is
    have hne : (trim (("const ".toList ++ gap) ++ p.1)).isEmpty = false := by
      have hmem : 'c' ∈ trim (("const ".toList ++ gap) ++ p.1) :=
        (mem_trim_iff (by decide)).mpr (by simp)
      simpa using List.ne_nil_of_mem hmem
    rw [hlonger, parseFunctionPointer_eq, cutAtChar?_append hfront, hcut]
    simp only [Option.map_some, Option.bind_some, hgroup, hne, Bool.false_eq_true, if_false]
    rfl
  · have hbefore : '(' ∉ gap ++ p.1 := by
      rw [List.mem_append, not_or]
      exact ⟨fun hmem => hfront (List.mem_append_right _ hmem), notMem_of_cutAtChar? hcut⟩
    have hblank : ∀ c ∈ gap, isBlank c = true := fun c hc => by
      rw [← hgap] at hc
      exact List.mem_takeWhile_imp hc
    have plain {cs : List Char} (hcs : '(' ∉ cs) :
        CType.parse ("const " ++ String.ofList cs) = (CType.parse (String.ofList cs)).marked :=
      CType.parse_const_plain fun hmem => hcs ((infix_trim _).subset (by simpa using hmem))
    have hresult : '(' ∉ trim p.1 := fun hmem => notMem_of_cutAtChar? hcut ((infix_trim _).subset hmem)
    have hgapless : trim (gap ++ p.1) = trim p.1 := by
      have hnone : ∀ c ∈ ([] : List Char), isBlank c = true := by simp
      have htrimmed : trim (gap ++ (p.1 ++ [])) = trim p.1 := trim_blanks hblank hnone
      rwa [List.append_nil] at htrimmed
    calc CType.parse (String.ofList (trim (("const ".toList ++ gap) ++ p.1)))
        = CType.parse ("const " ++ String.ofList (gap ++ p.1)) := by
          rw [CType.parse_trim, List.append_assoc, String.ofList_append, String.ofList_toList]
      _ = (CType.parse (String.ofList (trim p.1))).marked := by
          rw [plain hbefore, ← CType.parse_trim (gap ++ p.1), hgapless]
      _ = CType.parse ("const " ++ String.ofList (trim p.1)) := (plain hresult).symm

end LuaGlue
