import LuaGlue.Function.Overload
import Mathlib.Data.List.Nodup

/-!
# Names that are registered

A script name that is a reserved word is registered with an underscore behind it, besides or instead of
itself. That the longer name cannot be another function's rests on three facts about how names are
made: no reserved word has an underscore in it, a name in snake case never ends in one
(`functionName_last`), and a suffix begins with one (`suffixOf_begins`). So whoever is called `end_` is an
overload of `end`, and then nobody is called `end` (`eq_base_of_renamed`).
-/

set_option autoImplicit false

namespace LuaGlue

open Text

/-! ## Underscores -/

/-- What is left ends in a character that was not to be dropped. -/
theorem getLast?_dropEndWhile {p : Char → Bool} (cs : List Char) :
    ∀ c ∈ (dropEndWhile p cs).getLast?, p c = false := by
  induction cs with
  | nil => simp [dropEndWhile]
  | cons d rest ih =>
    intro c hc
    rw [dropEndWhile] at hc
    split at hc
    · split at hc
      · simp at hc
      · rename_i hd
        simp only [List.getLast?_singleton, Option.mem_def, Option.some.injEq] at hc
        rw [← hc]
        simpa using hd
    · rename_i hkept
      rw [List.getLast?_cons] at hc
      refine ih c ?_
      cases hlast : (dropEndWhile p rest).getLast? with
      | none => exact absurd (List.getLast?_eq_none_iff.mp hlast) hkept
      | some e =>
        rw [hlast] at hc
        exact hc

/-- A name in snake case does not end in an underscore. -/
theorem functionName_last (n : Naming) (native : String) :
    (n.functionName native).toList.getLast? ≠ some '_' := by
  rw [Naming.functionName, String.toList_ofList, snakeChars]
  intro h
  exact absurd (getLast?_dropEndWhile _ '_' h) (by simp)

theorem suffixOf_begins (n : Naming) (categories : List Category) :
    ∃ rest, (suffixOf n categories).toList = '_' :: rest := by
  cases categories with
  | nil => exact ⟨"void".toList, by simp [suffixOf]⟩
  | cons c rest =>
    rw [suffixOf, List.map_cons, String.join_cons]
    · simp only [String.toList_append]
      exact ⟨_, rfl⟩
    · simp

/-- No reserved word has an underscore in it. -/
theorem underscore_not_mem_keyword {word : String} (h : isScriptKeyword word = true) :
    '_' ∉ word.toList := by
  have all : ∀ word ∈ scriptKeywords, '_' ∉ word.toList := by decide
  exact all word (List.contains_iff_mem.mp h)

/-! ## Reserved words among names -/

/-- What is a reserved word has no suffix. -/
theorem suffix_eq_nil_of_keyword {base tail : List Char} {word : String}
    (hword : isScriptKeyword word = true) (htail : tail = [] ∨ ∃ rest, tail = '_' :: rest)
    (h : base ++ tail = word.toList) : tail = [] := by
  rcases htail with rfl | ⟨rest, rfl⟩
  · rfl
  · refine absurd ?_ (underscore_not_mem_keyword hword)
    rw [← h]
    simp

/-- What is a reserved word with an underscore behind it has a suffix, and without it is the word. -/
theorem eq_base_of_renamed {base tail : List Char} {word : String}
    (hword : isScriptKeyword word = true) (hbase : base.getLast? ≠ some '_')
    (htail : tail = [] ∨ ∃ rest, tail = '_' :: rest) (h : base ++ tail = word.toList ++ ['_']) :
    base = word.toList ∧ tail ≠ [] := by
  rcases htail with rfl | ⟨rest, rfl⟩
  · rw [List.append_nil] at h
    rw [h] at hbase
    exact absurd (by simp) hbase
  · refine ⟨?_, by simp⟩
    rcases List.append_eq_append_iff.mp h with ⟨more, hmore, htail⟩ | ⟨more, hmore, htail⟩
    · cases more with
      | nil => simpa using hmore.symm
      | cons c more =>
        -- the underscore of the suffix would stand inside the word
        obtain rfl : '_' = c := by simpa using (List.cons.inj htail).1
        exact absurd (hmore ▸ by simp) (underscore_not_mem_keyword hword)
    · cases more with
      | nil => simpa using hmore
      | cons c more => simp at htail

/-! ## Registered names -/

/-- A registered name is the script name, or that of a reserved word with an underscore behind it. -/
theorem mem_registeredNames {n : Naming} {script key : String} (h : key ∈ n.registeredNames script) :
    key = script ∨ isScriptKeyword script = true ∧ key = script ++ "_" := by
  unfold Naming.registeredNames at h
  split at h
  · rename_i hkeyword
    split at h
    · simpa [hkeyword] using h
    · exact .inr ⟨hkeyword, List.mem_singleton.mp h⟩
  · exact .inl (List.mem_singleton.mp h)

theorem append_underscore_ne (script : String) : script ≠ script ++ "_" := by
  intro h
  have hlength := congrArg String.length h
  simp at hlength

theorem registeredNames_nodup (n : Naming) (script : String) : (n.registeredNames script).Nodup := by
  unfold Naming.registeredNames
  split
  · split
    · simp [append_underscore_ne]
    · exact List.nodup_singleton _
  · exact List.nodup_singleton _

end LuaGlue
